import ChordRing.Proofs.Fingers
import ChordRing.Proofs.Linking
import ChordRing.Proofs.Walk

/-!
# The calls of a join against every script of answers

A join that runs alone against answers given in advance (`Task.rehearse`) makes its calls in an
order that the first three answers fix: the contact, the successor found through it, and the
predecessor which that one names. `Peer.itinerary` lists these calls as legs, each with the fields
and entries of the joining peer that its answer changes. A join goes leg by leg as far as the
answers let it (`Peer.rehearse_join`), and so its calls are the first ones of the itinerary up to
the one that failed, and its state is the old one with the changes of those that succeeded
(`Peer.join_follows_itinerary`). There is no way back: what a join has changed stays changed.
-/

namespace ChordRing

open RingId FingerTable PeerState

/-! ## Tasks against a script -/

namespace Task

variable {σ C α β : Type} {R : C → Type} {answer : (n : Nat) → (c : C) → R c}

/-- A task that goes on with the result of another makes its calls behind those of the other. -/
theorem rehearse_andThen (f : α → Task σ C R β) (t : Task σ C R α) (n : Nat) (s : σ) :
    (andThen f t).rehearse answer n s =
      let first := t.rehearse answer n s
      let second := (f first.result).rehearse answer (n + first.calls.length) first.state
      { second with calls := first.calls ++ second.calls } := by
  induction t generalizing n s with
  | done result => rfl
  | locked change next ih => exact ih _ n _
  | call c next ih =>
      simp only [andThen, rehearse, ih, List.length_cons, List.cons_append]
      rw [Nat.add_assoc, Nat.add_comm 1]

theorem rehearse_adapt {ε ε' : Type} (f : ε → ε') (t : ExceptT ε (Task σ C R) α) (n : Nat)
    (s : σ) : (t.adapt f).run.rehearse answer n s =
      let run := t.run.rehearse answer n s
      { run with result := run.result.mapError f } := by
  show (andThen (fun result => .done (result.mapError f)) t.run).rehearse answer n s = _
  rw [rehearse_andThen]
  simp only [rehearse, List.append_nil]

end Task

/-! ## What a peer hears of -/

/-- The entries of a table once its owner has heard of a peer, which replaces every entry that is
not nearer to the position it covers. -/
def FingerTable.hearing (t : FingerTable) (p : Identifier) : List Identifier :=
  t.entries.mapIdx fun i q =>
    if distance (t.position i) p.id ≤ distance (t.position i) q.id then p else q

theorem FingerTable.update_eq_hearing (t : FingerTable) (p : Identifier) :
    t.update p = ⟨t.owner, t.hearing p⟩ := by
  have htightened : t.tightened p = fun i q =>
      if distance (t.position i) p.id ≤ distance (t.position i) q.id then p else q := by
    funext i q
    by_cases hsame : q = p
    · simp [tightened, hsame]
    · simp only [tightened, tightens_iff, ne_eq, hsame, not_false_eq_true, true_and]
  rw [update, hearing, htightened]

theorem PeerState.setSuccessor_eq (s : PeerState) (p : Identifier) :
    s.setSuccessor p =
      { s with successor := p, table := ⟨s.table.owner, s.table.hearing p⟩ } := by
  rw [setSuccessor, learn, FingerTable.update_eq_hearing]

theorem PeerState.meetPredecessor_eq (s : PeerState) (p : Identifier) :
    s.meetPredecessor p =
      { s with predecessor := p, table := ⟨s.table.owner, s.table.hearing p⟩ } := by
  rw [meetPredecessor, learn, FingerTable.update_eq_hearing, setPredecessor]

/-! ## Legs -/

/-- One call on the way into the ring. Its answer changes the peer, or ends the way with an
error. -/
structure Leg (ε : Type) where
  call : Call
  settle : call.Reply → Except ε (PeerState → PeerState)

namespace Leg

variable {ε ε' : Type}

/-- What the answer of a script does, when this is its `n`-th call. -/
def outcome (answer : Nat → (c : Call) → c.Reply) (n : Nat) (leg : Leg ε) :
    Except ε (PeerState → PeerState) :=
  leg.settle (answer n leg.call)

/-- The same call, whose errors are told as errors of something larger. -/
def adapt (f : ε → ε') (leg : Leg ε) : Leg ε' where
  call := leg.call
  settle reply := (leg.settle reply).mapError f

end Leg

variable {ε ε' α : Type} {answer : (n : Nat) → (c : Call) → c.Reply}

/-- The run of a peer that goes leg by leg, with `n` calls made before. -/
def travel (answer : (n : Nat) → (c : Call) → c.Reply) :
    List (Leg ε) → Nat → PeerState → Task.Rehearsal PeerState Call (Except ε Unit)
  | [], _, s => ⟨.ok (), s, []⟩
  | leg :: legs, n, s =>
    match leg.outcome answer n with
    | .error e => ⟨.error e, s, [(leg.call, s)]⟩
    | .ok change =>
        let rest := travel answer legs (n + 1) (change s)
        { rest with calls := (leg.call, s) :: rest.calls }

/-- A run, from state `s` and with `n` calls made before, that goes along the legs and stops after
the first one that fails. The `changes` are those of the legs that succeeded. -/
structure Follows (answer : (n : Nat) → (c : Call) → c.Reply) (legs : List (Leg ε)) (n : Nat)
    (s : PeerState) (run : Task.Rehearsal PeerState Call (Except ε Unit))
    (changes : List (PeerState → PeerState)) : Prop where
  succeeded : ∀ (i : Nat) (change : PeerState → PeerState), changes[i]? = some change →
    ∃ leg, legs[i]? = some leg ∧ leg.outcome answer (n + i) = .ok change
  calls : run.calls.map Prod.fst = (legs.take (changes.length + 1)).map Leg.call
  state : run.state = changes.foldl (fun s change => change s) s
  result : (changes.length = legs.length ∧ run.result = .ok ()) ∨
    ∃ leg e, legs[changes.length]? = some leg ∧
      leg.outcome answer (n + changes.length) = .error e ∧ run.result = .error e

theorem exists_follows_travel (legs : List (Leg ε)) (n : Nat) (s : PeerState) :
    ∃ changes, Follows answer legs n s (travel answer legs n s) changes := by
  induction legs generalizing n s with
  | nil => exact ⟨[], nofun, rfl, rfl, Or.inl ⟨rfl, rfl⟩⟩
  | cons leg legs ih =>
      rw [travel]
      cases houtcome : leg.outcome answer n with
      | error e => exact ⟨[], nofun, rfl, rfl, Or.inr ⟨leg, e, rfl, houtcome, rfl⟩⟩
      | ok change =>
          obtain ⟨changes, h⟩ := ih (n + 1) (change s)
          have hshift : ∀ i, n + (i + 1) = n + 1 + i := fun i => by omega
          refine ⟨change :: changes, ?_, ?_, h.state, ?_⟩
          · intro i change' hi
            cases i with
            | zero =>
                cases hi
                exact ⟨leg, rfl, houtcome⟩
            | succ i =>
                rw [hshift i]
                exact h.succeeded i change' hi
          · rw [List.map_cons, h.calls]
            rfl
          · rw [List.length_cons, List.length_cons, hshift changes.length]
            obtain ⟨hend, hok⟩ | hstopped := h.result
            · exact Or.inl ⟨congrArg (· + 1) hend, hok⟩
            · exact Or.inr hstopped

/-- A way is gone to its end exactly if no leg fails. -/
theorem Follows.result_eq_ok_iff {legs : List (Leg ε)} {n : Nat} {s : PeerState}
    {run : Task.Rehearsal PeerState Call (Except ε Unit)} {changes : List (PeerState → PeerState)}
    (h : Follows answer legs n s run changes) :
    run.result = .ok () ↔
      ∀ (i : Nat) (leg : Leg ε), legs[i]? = some leg →
        ∃ change, leg.outcome answer (n + i) = .ok change := by
  constructor
  · intro hok i leg hleg
    obtain ⟨hlength, -⟩ | ⟨leg', e, -, -, herror⟩ := h.result
    · have hi : i < changes.length := by
        rw [hlength]
        exact (List.getElem?_eq_some_iff.1 hleg).1
      obtain ⟨leg', hleg', hchange⟩ := h.succeeded i changes[i] (List.getElem?_eq_getElem hi)
      cases Option.some.inj (hleg.symm.trans hleg')
      exact ⟨_, hchange⟩
    · exact nomatch herror.symm.trans hok
  · intro hall
    obtain ⟨-, hok⟩ | ⟨leg, e, hleg, hfails, -⟩ := h.result
    · exact hok
    · obtain ⟨change, hchange⟩ := hall _ leg hleg
      exact nomatch hchange.symm.trans hfails

theorem travel_adapt (f : ε → ε') (legs : List (Leg ε)) (n : Nat) (s : PeerState) :
    travel answer (legs.map (Leg.adapt f)) n s =
      let run := travel answer legs n s
      { run with result := run.result.mapError f } := by
  induction legs generalizing n s with
  | nil => rfl
  | cons leg legs ih =>
      rw [List.map_cons, travel, travel]
      simp only [Leg.outcome, Leg.adapt]
      cases leg.settle (answer n leg.call) with
      | error e => rfl
      | ok change => simp only [Except.mapError, ih]

/-- Of two ways in a row the second is not begun when the first ends with an error. -/
theorem travel_append_of_error {first : List (Leg ε)} (second : List (Leg ε)) {n : Nat}
    {s : PeerState} {e : ε} (h : (travel answer first n s).result = .error e) :
    travel answer (first ++ second) n s = travel answer first n s := by
  induction first generalizing n s with
  | nil => exact nomatch h
  | cons leg legs ih =>
      rw [List.cons_append, travel, travel]
      rw [travel] at h
      cases houtcome : leg.outcome answer n with
      | error e => rfl
      | ok change =>
          rw [houtcome] at h
          simp only [ih h]

/-- Of two ways in a row the second is gone behind the first when that one is gone to its end. -/
theorem travel_append_of_ok {first : List (Leg ε)} (second : List (Leg ε)) {n : Nat}
    {s : PeerState} (h : (travel answer first n s).result = .ok ()) :
    travel answer (first ++ second) n s =
      let run := travel answer first n s
      let rest := travel answer second (n + run.calls.length) run.state
      { rest with calls := run.calls ++ rest.calls } := by
  induction first generalizing n s with
  | nil => rfl
  | cons leg legs ih =>
      rw [List.cons_append, travel, travel]
      rw [travel] at h
      cases houtcome : leg.outcome answer n with
      | error e =>
          rw [houtcome] at h
          exact nomatch h
      | ok change =>
          rw [houtcome] at h
          simp only [ih h, List.length_cons, List.cons_append, Nat.add_assoc, Nat.add_comm 1]

namespace Peer

variable {n : Nat} {s : PeerState}

/-- A call and what follows it, when the reply is settled as the leg says. -/
theorem rehearse_leg {t : PeerAttempt ε α} {next : α → PeerAttempt ε Unit} {c : Call}
    {reply : c.Reply → Except ε α} {effect : α → PeerState → PeerState} {legs : List (Leg ε)}
    (hrun : t.run = .call c fun r => .done (reply r))
    (hnext : ∀ a, reply (answer n c) = .ok a →
      (next a).run.rehearse answer (n + 1) s = travel answer legs (n + 1) (effect a s)) :
    (t >>= next).run.rehearse answer n s =
      travel answer (⟨c, fun r => (reply r).map effect⟩ :: legs) n s := by
  have hbind : (t >>= next).run = .call c fun r => ExceptT.bindCont next (reply r) := by
    show Task.andThen (ExceptT.bindCont next) t.run = _
    rw [hrun]
    rfl
  rw [hbind, travel, Task.rehearse]
  simp only [Leg.outcome]
  cases hreply : reply (answer n c) with
  | error e => rfl
  | ok a =>
      have hrest : (ExceptT.bindCont next (.ok a) : PeerTask _).rehearse answer (n + 1) s =
          travel answer legs (n + 1) (effect a s) := hnext a hreply
      simp only [Except.map, hrest]

/-! ## The legs of a join -/

/-- The searches for the fingers beyond the successor. -/
def refreshLegs (self successor : Identifier) (table : FingerTable) : List (Leg NetworkError) :=
  ((List.range table.size).filter fun i =>
      !(table.position i).isBetween self.id successor.id).map fun i =>
    ⟨.findSuccessor successor (table.position i) self, Except.map fun p s =>
      { s with table := ⟨s.table.owner, s.table.entries.set i p⟩ }⟩

/-- The legs from the search through `contact` to the last finger, when the search finds `successor`
and that one names `predecessor`. -/
def linkLegs (self contact successor predecessor : Identifier) (table : FingerTable) :
    List (Leg NetworkError) :=
  ⟨.findSuccessor contact self.id self, Except.map fun p s =>
    { s with successor := p, table := ⟨s.table.owner, s.table.hearing p⟩ }⟩ ::
  ⟨.predecessorOf successor, Except.map fun p s =>
    { s with
      predecessor := p
      table := ⟨s.table.owner, s.table.hearing p⟩
      phase := .exchangingNotifications }⟩ ::
  ⟨.notifyPredecessor successor self, Except.map fun _ s => s⟩ ::
  if successor = self then
    [⟨.notifySuccessor predecessor self, Except.map fun _ s =>
      { s with phase := .refreshingFingerTable }⟩]
  else
    ⟨.notifySuccessor predecessor self, Except.map fun _ s => s⟩ ::
    ⟨.announceJoin successor self, Except.map fun _ s =>
      { s with phase := .refreshingFingerTable }⟩ ::
    refreshLegs self successor table

/-- The legs between the calls to the rendezvous service, none for the first member of a ring. -/
def linkageLegs (self contact successor predecessor : Identifier) (table : FingerTable) :
    List (Leg ChordError) :=
  if contact = self then []
  else (linkLegs self contact successor predecessor table).map
    (Leg.adapt fun e => .joinFailed (.linking e))

/-- The first leg of a join. A peer that is handed back to itself has nothing to locate. -/
def registrationLeg (self : Identifier) : Leg ChordError :=
  Leg.adapt (fun e => .joinFailed (.registration e))
    ⟨.register self, Except.map fun registration s =>
      if registration.contact = self then s else { s with phase := .locatingSuccessor }⟩

/-- The last leg of a join. -/
def announcementLeg (self : Identifier) : Leg ChordError :=
  Leg.adapt (fun e => .joinFailed (.announcement e))
    ⟨.announceMember self, Except.map fun _ s => { s with phase := .joined }⟩

/-- Whom a reply names, or else the peer itself. -/
def named (self : Identifier) : Except ε Identifier → Identifier
  | .ok p => p
  | .error _ => self

/-- The legs of a join by a peer with this table. The contact, the successor and its predecessor are
whom the first three answers of the script name, if the join comes so far. -/
def itinerary (answer : (n : Nat) → (c : Call) → c.Reply) (self : Identifier)
    (table : FingerTable) : List (Leg ChordError) :=
  let contact := named self (Except.map Registration.contact (answer 0 (.register self)))
  let successor := named self (answer 1 (.findSuccessor contact self.id self))
  let predecessor := named self (answer 2 (.predecessorOf successor))
  registrationLeg self :: linkageLegs self contact successor predecessor table ++
    [announcementLeg self]

theorem staleFingers_eq_map (self : Identifier) (s : PeerState) :
    staleFingers self s = ((List.range s.table.size).filter fun i =>
      !(s.table.position i).isBetween self.id s.successor.id).map fun i =>
        (i, s.table.position i) := by
  rw [staleFingers, List.filter_map]
  rfl

theorem rehearse_resolveFingers (self successor : Identifier) (position : Nat → RingId)
    (indices : List Nat) (n : Nat) (s : PeerState) :
    (resolveFingers self successor (indices.map fun i => (i, position i))).run.rehearse answer n s =
      travel answer (indices.map fun i =>
        ⟨.findSuccessor successor (position i) self, Except.map fun p s =>
          { s with table := ⟨s.table.owner, s.table.entries.set i p⟩ }⟩) n s := by
  induction indices generalizing n s with
  | nil => rfl
  | cons i indices ih => exact rehearse_leg rfl fun found _ => ih (n + 1) (s.setFinger i found)

theorem rehearse_refresh (self : Identifier) (n : Nat) (s : PeerState) :
    (refresh self).run.rehearse answer n s =
      travel answer (if s.successor = self then [] else refreshLegs self s.successor s.table) n
        s := by
  rw [refresh_run]
  show (resolveFingers self s.successor
    (if s.successor = self then [] else staleFingers self s)).run.rehearse answer n s = _
  split
  · rfl
  · rw [staleFingers_eq_map]
    exact rehearse_resolveFingers self s.successor s.table.position _ n s

/-- What the fingers hold does not matter for what a refresh asks. -/
theorem refreshLegs_update (self successor : Identifier) (table : FingerTable) (p : Identifier) :
    refreshLegs self successor (table.update p) = refreshLegs self successor table := by
  rw [refreshLegs, refreshLegs, size_update, position_update]

theorem rehearse_link {self contact successor predecessor : Identifier}
    (hsuccessor : named self (answer n (.findSuccessor contact self.id self)) = successor)
    (hpredecessor : named self (answer (n + 1) (.predecessorOf successor)) = predecessor) :
    (link self contact).run.rehearse answer n s =
      travel answer (linkLegs self contact successor predecessor s.table) n
        (s.enter .locatingSuccessor) := by
  rw [linkLegs]
  refine rehearse_leg (t := findSuccessor contact self.id self) rfl fun found hfound => ?_
  obtain rfl : found = successor := (congrArg (named self) hfound).symm.trans hsuccessor
  rw [← setSuccessor_eq]
  refine rehearse_leg (t := predecessorOf found) rfl fun p hp => ?_
  obtain rfl : p = predecessor := (congrArg (named self) hp).symm.trans hpredecessor
  have hmet : ∀ s' : PeerState, { s' with
      predecessor := p, table := ⟨s'.table.owner, s'.table.hearing p⟩,
      phase := .exchangingNotifications } = (s'.meetPredecessor p).enter .exchangingNotifications :=
    fun s' => by rw [meetPredecessor_eq, enter]
  rw [hmet]
  refine rehearse_leg (t := notifyPredecessor found self) rfl fun _ _ => ?_
  have hrefresh : ∀ (m : Nat) (s' : PeerState), s'.successor = found →
      s'.table = (s.table.update found).update p →
      (refresh self).run.rehearse answer m s' =
        travel answer (if found = self then [] else refreshLegs self found s.table) m s' := by
    intro m s' hsuccessor' htable
    rw [rehearse_refresh, hsuccessor', htable, refreshLegs_update, refreshLegs_update]
  by_cases hself : found = self
  · rw [if_pos hself]
    refine rehearse_leg (t := notifySuccessor p self) rfl fun _ _ => ?_
    rw [if_neg (not_not_intro hself)]
    rw [if_pos hself] at hrefresh
    exact hrefresh _ _ rfl rfl
  · rw [if_neg hself]
    refine rehearse_leg (t := notifySuccessor p self) rfl fun _ _ => ?_
    rw [if_pos hself]
    refine rehearse_leg (t := announceJoin found self) rfl fun _ _ => ?_
    rw [if_neg hself] at hrefresh
    exact hrefresh _ _ rfl rfl

theorem rehearse_linkage {self contact successor predecessor : Identifier}
    (hsuccessor : named self (answer n (.findSuccessor contact self.id self)) = successor)
    (hpredecessor : named self (answer (n + 1) (.predecessorOf successor)) = predecessor) :
    (linkage self contact).rehearse answer n s =
      travel answer (linkageLegs self contact successor predecessor s.table) n
        (if contact = self then s else s.enter .locatingSuccessor) := by
  rw [linkage, linkageLegs]
  by_cases hself : contact = self
  · rw [if_neg (not_not_intro hself), if_pos hself, if_pos hself]
    rfl
  · rw [if_pos hself, if_neg hself, if_neg hself, travel_adapt,
      ← rehearse_link hsuccessor hpredecessor]
    exact Task.rehearse_adapt _ _ _ _

theorem rehearse_entrance (self : Identifier) (n : Nat) (s : PeerState) :
    (enrolment self (.ok ())).rehearse answer n s = travel answer [announcementLeg self] n s := by
  simp only [enrolment, Task.rehearse, travel, announcementLeg, Leg.outcome, Leg.adapt]
  rcases answer n (.announceMember self) with e | ⟨⟩
  · rfl
  · rfl

theorem rehearse_admission {self contact successor predecessor : Identifier}
    (hsuccessor : named self (answer n (.findSuccessor contact self.id self)) = successor)
    (hpredecessor : named self (answer (n + 1) (.predecessorOf successor)) = predecessor) :
    (admission self (.ok ⟨true, contact⟩)).rehearse answer n s =
      travel answer (linkageLegs self contact successor predecessor s.table ++
        [announcementLeg self]) n (if contact = self then s else s.enter .locatingSuccessor) := by
  rw [admission, Task.rehearse_andThen, rehearse_linkage hsuccessor hpredecessor]
  generalize (if contact = self then s else s.enter .locatingSuccessor) = start
  generalize linkageLegs self contact successor predecessor s.table = legs
  rcases hrun : travel answer legs n start with ⟨result, reached, calls⟩
  cases result with
  | error e =>
      have hresult : (travel answer legs n start).result = .error e := by rw [hrun]
      rw [travel_append_of_error _ hresult, hrun]
      simp only [enrolment, Task.rehearse, List.append_nil]
  | ok done =>
      cases done
      have hresult : (travel answer legs n start).result = .ok () := by rw [hrun]
      rw [travel_append_of_ok _ hresult, hrun]
      simp only [rehearse_entrance]

/-- A join whose registration is not refused goes along its itinerary. -/
theorem rehearse_join {self : Identifier}
    (h : ∀ contact, answer 0 (.register self) ≠ .ok ⟨false, contact⟩) :
    (join self).run.rehearse answer 0 s =
      travel answer (itinerary answer self s.table) 0 (s.enter .registering) := by
  rw [join_run, itinerary, List.cons_append, travel]
  simp only [Task.rehearse, registrationLeg, Leg.outcome, Leg.adapt]
  cases hreply : answer 0 (.register self) with
  | error e => rfl
  | ok registration =>
      obtain ⟨accepted, contact⟩ := registration
      cases accepted with
      | false => exact absurd hreply (h contact)
      | true =>
          have hadmission : (admission self (.ok ⟨true, contact⟩)).rehearse answer 1 _ = _ :=
            rehearse_admission (s := s.enter .registering) rfl rfl
          exact congrArg (fun rest : Task.Rehearsal PeerState Call (Except ChordError Unit) =>
            { rest with calls := (Call.register self, s.enter .registering) :: rest.calls })
            hadmission

/-- A join that is refused makes no further call, and the peer is as it was before it tried. -/
theorem rehearse_join_refused {self contact : Identifier}
    (h : answer 0 (.register self) = .ok ⟨false, contact⟩) :
    (join self).run.rehearse answer 0 s =
      ⟨.error (.idCollision self.id), s.enter .unjoined,
        [(.register self, s.enter .registering)]⟩ := by
  rw [join_run]
  simp only [Task.rehearse, h, admission]
  rfl

theorem exists_follows_join {self : Identifier}
    (h : ∀ contact, answer 0 (.register self) ≠ .ok ⟨false, contact⟩) :
    ∃ changes, Follows answer (itinerary answer self s.table) 0 (s.enter .registering)
      ((join self).run.rehearse answer 0 s) changes := by
  rw [rehearse_join h]
  exact exists_follows_travel _ 0 _

/-- The first leg does not fail if the rendezvous service replies, be it with a refusal. -/
theorem exists_registration {self : Identifier} {change : PeerState → PeerState}
    (h : (registrationLeg self).outcome answer n = .ok change) :
    ∃ registration, answer n (.register self) = .ok registration := by
  simp only [registrationLeg, Leg.adapt, Leg.outcome] at h
  cases hreply : answer n (.register self) with
  | error e =>
      rw [hreply] at h
      exact nomatch h
  | ok registration => exact ⟨registration, rfl⟩

theorem join_succeeds_iff {self : Identifier} :
    ((join self).run.rehearse answer 0 s).result = .ok () ↔
      (∃ contact, answer 0 (.register self) = .ok ⟨true, contact⟩) ∧
        ∀ (i : Nat) (leg : Leg ChordError), (itinerary answer self s.table)[i]? = some leg →
          ∃ change, leg.outcome answer i = .ok change := by
  by_cases hrefused : ∃ contact, answer 0 (.register self) = .ok ⟨false, contact⟩
  · obtain ⟨contact, hreply⟩ := hrefused
    rw [rehearse_join_refused hreply, hreply]
    constructor
    · exact nofun
    · rintro ⟨⟨contact', haccepted⟩, -⟩
      cases haccepted
  · obtain ⟨changes, hway⟩ := exists_follows_join (s := s) fun contact h => hrefused ⟨contact, h⟩
    have hend := hway.result_eq_ok_iff
    simp only [Nat.zero_add] at hend
    rw [hend]
    refine ⟨fun hall => ⟨?_, hall⟩, fun hall => hall.2⟩
    obtain ⟨change, hfirst⟩ := hall 0 (registrationLeg self) rfl
    obtain ⟨⟨accepted, contact⟩, hreply⟩ := exists_registration hfirst
    cases accepted with
    | false => exact absurd ⟨contact, hreply⟩ hrefused
    | true => exact ⟨contact, hreply⟩

/-- **Against every script of answers a join goes along its itinerary, stops after the first call
that fails, and keeps what the calls before it have changed.** It succeeds exactly if it is accepted
and no call fails. A refusal puts the phase back and changes nothing else. -/
theorem join_follows_itinerary (answer : (n : Nat) → (c : Call) → c.Reply) (self : Identifier)
    (s : PeerState) :
    let run := (join self).run.rehearse answer 0 s
    let legs := itinerary answer self s.table
    (∀ contact, answer 0 (.register self) = .ok ⟨false, contact⟩ →
      run.calls.map Prod.fst = [.register self] ∧ run.result = .error (.idCollision self.id) ∧
        run.state = { s with phase := .unjoined }) ∧
    ((∀ contact, answer 0 (.register self) ≠ .ok ⟨false, contact⟩) →
      ∃ changes, Follows answer legs 0 { s with phase := .registering } run changes) ∧
    (run.result = .ok () ↔
      (∃ contact, answer 0 (.register self) = .ok ⟨true, contact⟩) ∧
        ∀ (i : Nat) (leg : Leg ChordError), legs[i]? = some leg →
          ∃ change, leg.outcome answer i = .ok change) := by
  intro run legs
  refine ⟨?_, fun h => exists_follows_join h, join_succeeds_iff⟩
  intro contact h
  have hrun : run = ⟨.error (.idCollision self.id), s.enter .unjoined,
      [(.register self, s.enter .registering)]⟩ := rehearse_join_refused h
  rw [hrun]
  exact ⟨rfl, rfl, rfl⟩

end Peer

namespace Trio

/-- What the other peers answer to the first one when it joins through the third. Since they told it
its neighbours, the newcomer has come in. -/
def answers : (n : Nat) → (c : Call) → c.Reply
  | _, .register _ => .ok ⟨true, third⟩
  | _, .findSuccessor _ k _ =>
      .ok (if k = first.id then second else if k = ⟨128⟩ then fourth else third)
  | _, .predecessorOf _ => .ok third
  | _, .announceMember _ | _, .announceExit _ | _, .notifyPredecessor _ _ | _, .notifySuccessor _ _
  | _, .announceJoin _ _ => .ok ()

/-- The first peer joins through the third one and finds the second: of its fingers the nearer ones
hold what it heard of the second peer, and those beyond hold what it was answered. -/
theorem join_follows_itinerary_of_first :
    let run := (Peer.join first).run.rehearse answers 0 (.new first 16)
    let legs := Peer.itinerary answers first (.new 16 first)
    run.result = .ok () ∧
      run.state = ⟨third, second, ⟨first, List.replicate 7 second ++ [fourth] ++
        List.replicate 8 third⟩, [], .joined⟩ ∧
      run.calls.map Prod.fst = legs.map Leg.call ∧
      ∃ changes, Follows answers legs 0 { PeerState.new first 16 with phase := .registering } run
        changes ∧ changes.length = 16 := by
  intro run legs
  obtain ⟨-, hway, -⟩ := Peer.join_follows_itinerary answers first (.new first 16)
  obtain ⟨changes, hfollows⟩ := hway nofun
  have hresult : run.result = .ok () := by decide +kernel
  have hstate : run.state = ⟨third, second, ⟨first, List.replicate 7 second ++ [fourth] ++
      List.replicate 8 third⟩, [], .joined⟩ := by decide +kernel
  have hlength : changes.length = legs.length := by
    obtain ⟨hlength, -⟩ | ⟨leg, e, -, -, herror⟩ := hfollows.result
    · exact hlength
    · exact nomatch herror.symm.trans hresult
  have hcalls : run.calls.map Prod.fst = legs.map Leg.call := by
    have hwhole : legs.take (legs.length + 1) = legs := List.take_of_length_le (Nat.le_succ _)
    rw [hfollows.calls, hlength]
    exact congrArg (List.map Leg.call) hwhole
  have hlegs : legs.length = 16 := by decide +kernel
  exact ⟨hresult, hstate, hcalls, changes, hfollows, hlength.trans hlegs⟩

end Trio

end ChordRing
