import ChordRing.Peer.Join
import ChordRing.Proofs.Announcement

/-!
# A refresh among announcements

While a peer refreshes its finger table it goes on serving, so others may announce themselves to it
between a query and the setting of the finger that was asked for. `Moment` is the peer in the middle
of its refresh, and `Moment.Step` what may happen next: a section of the refresh itself, the answer
to its query, a newcomer that becomes a member, or an announcement that the peer hears.

A finger that is set replaces what was heard meanwhile. Of the peers that a refresh has heard of,
all are kept but those that became members after a query was answered and were heard of before the
finger was set (`Moment.refresh_keeps_what_it_heard`).
-/

namespace ChordRing

open RingId FingerTable

/-- The peer that a notification announces. -/
def Body.announced? : Body → Option Identifier
  | .networkJoinNotification y => some y
  | .predecessorNotification y => some y
  | .successorNotification y => some y
  | _ => none

/-- A peer at some moment of its refresh: the members of the ring, its own state, what is left of
the refresh and who has been heard of. `answered` is the position that was asked for last, with the
members at the moment of the answer, until the answer is made use of. `overtaken` are the positions
and peers where the peer has been heard of between the answer and its use, and was no member when
the answer was given. -/
structure Moment where
  members : Finset Identifier
  state : PeerState
  task : PeerTask (Except NetworkError Unit)
  heard : Finset Identifier
  answered : Option (RingId × Finset Identifier)
  overtaken : Finset (RingId × Identifier)

namespace Moment

/-- The moment at which a peer sets out to refresh its table. -/
def start (members : Finset Identifier) (self : Identifier) (state : PeerState) : Moment :=
  ⟨members, state, (Peer.refresh self).run, ∅, none, ∅⟩

/-- The position that `y` overtakes when it is heard of now. -/
def overtakenBy (m : Moment) (y : Identifier) : Finset (RingId × Identifier) :=
  match m.answered with
  | none => ∅
  | some (k, known) => if y ∈ known then ∅ else {(k, y)}

/-- What may happen next to a peer that refreshes its table. -/
inductive Step (peer : Peer) : Moment → Moment → Prop
  /-- The refresh goes on by one section. -/
  | proceeds {m : Moment} {change : PeerState → PeerState}
      {next : PeerState → PeerTask (Except NetworkError Unit)} :
      m.task = .locked change next →
        Step peer m
          { m with
            state := change m.state
            task := next (change m.state)
            answered := none }
  /-- The query of the refresh is answered with the member that the position belongs to. -/
  | answers {m : Moment} {via found requester : Identifier} {k : RingId}
      {next : Except NetworkError Identifier → PeerTask (Except NetworkError Unit)} :
      m.task = .call (.findSuccessor via k requester) next → Nearest m.members k found →
        Step peer m { m with task := next (.ok found), answered := some (k, m.members) }
  /-- Another peer becomes a member. -/
  | joins {m : Moment} (y : Identifier) : Step peer m { m with members := insert y m.members }
  /-- The peer takes note of a notification about a member. -/
  | hears {m : Moment} {message : Message} {y : Identifier} {change : PeerState → PeerState}
      {next : PeerState → NodeTask PeerState (Except ChordError (Option Message))} :
      message.body.announced? = some y → y ∈ m.members →
        (peer.answer message).run = .locked change next →
        Step peer m
          { m with
            state := change m.state
            heard := insert y m.heard
            overtaken := m.overtaken ∪ m.overtakenBy y }

end Moment

/-! ## What the parts do -/

namespace Peer

theorem refresh_run (self : Identifier) :
    (refresh self).run = .locked id fun s =>
      (resolveFingers self s.successor
        (if s.successor = self then [] else staleFingers self s)).run := by
  refine congrArg (Task.locked id) (funext fun s => ?_)
  show ExceptT.run (if s.successor = self then pure () else
    resolveFingers self s.successor (staleFingers self s) : PeerAttempt NetworkError Unit) = _
  split
  · rfl
  · rfl

theorem resolveFingers_cons_run (self via : Identifier) (i : Nat) (k : RingId)
    (rest : List (Nat × RingId)) :
    ∃ next : Except NetworkError Identifier → PeerTask (Except NetworkError Unit),
      (resolveFingers self via ((i, k) :: rest)).run = .call (.findSuccessor via k self) next ∧
        ∀ found, next (.ok found) =
          .locked (·.setFinger i found) fun _ => (resolveFingers self via rest).run :=
  ⟨_, rfl, fun _ => rfl⟩

/-- Every notification tightens the table with the peer that it announces. -/
theorem table_of_announced {peer : Peer} {message : Message} {y : Identifier}
    {change : PeerState → PeerState}
    {next : PeerState → NodeTask PeerState (Except ChordError (Option Message))}
    (hy : message.body.announced? = some y)
    (hrun : (peer.answer message).run = .locked change next) (s : PeerState) :
    (change s).table = s.table.update y := by
  rcases message with ⟨header, body⟩
  cases body with
  | networkJoinNotification z =>
      obtain rfl : z = y := Option.some.inj hy
      -- a peer takes no note of its own announcement
      by_cases hself : z = peer.identifier
      · subst hself
        rw [peer.answer_join_self header] at hrun
        cases hrun
      · rw [peer.answer_join header hself] at hrun
        injection hrun with hchange
        rw [← hchange]
        rfl
  | predecessorNotification z =>
      obtain rfl : z = y := Option.some.inj hy
      injection hrun with hchange
      rw [← hchange]
      rfl
  | successorNotification z =>
      obtain rfl : z = y := Option.some.inj hy
      injection hrun with hchange
      rw [← hchange]
      rfl
  | _ => cases hy

end Peer

namespace FingerTable

variable {t : FingerTable} {y current : Identifier} {i : Nat}

@[simp] theorem position_set (t : FingerTable) (i : Nat) (p : Identifier) :
    (t.set i p).position = t.position := by
  funext j
  show RingId.ofNat ((t.owner.id.toNat + (1 <<< j)) % (1 <<< (t.set i p).size)) = t.position j
  rw [size_set]
  rfl

/-- A tightened entry is no farther than it was, and no farther than the peer that is heard of. -/
theorem distance_tightened_le (t : FingerTable) (y current : Identifier) (i : Nat) :
    distance (t.position i) (t.tightened y i current).id ≤ distance (t.position i) current.id ∧
      distance (t.position i) (t.tightened y i current).id ≤ distance (t.position i) y.id := by
  unfold tightened
  by_cases htightens : tightens y (t.position i) current = true
  · obtain ⟨-, hle⟩ := tightens_iff.1 htightens
    rw [if_pos htightens]
    exact ⟨hle, Nat.le_refl _⟩
  · rw [if_neg htightens]
    refine ⟨Nat.le_refl _, ?_⟩
    rcases not_tightens_iff.1 htightens with heq | hlt
    · rw [heq]
    · exact Nat.le_of_lt hlt

end FingerTable

/-! ## What every step keeps -/

namespace Moment

/-- How far a refresh has come: it has not looked at the state yet, or fingers are left to be asked
for, or a finger is about to be set to what was found among the members of the moment. Those heard
of that were no members then have overtaken the finger's position. -/
inductive Stage (owner : Identifier) (position : Nat → RingId) (m : Moment) : Prop
  | outset : m.task = (Peer.refresh owner).run → Stage owner position m
  | asking {via : Identifier} {rest : List (Nat × RingId)} :
      (∀ e ∈ rest, e.2 = position e.1) → m.task = (Peer.resolveFingers owner via rest).run →
        Stage owner position m
  | setting {via found : Identifier} {rest : List (Nat × RingId)} {i : Nat}
      {known : Finset Identifier} :
      (∀ e ∈ rest, e.2 = position e.1) →
        m.task = .locked (·.setFinger i found)
          (fun _ => (Peer.resolveFingers owner via rest).run) →
        m.answered = some (position i, known) → Nearest known (position i) found →
        (∀ y ∈ m.heard, y ∈ known ∨ (position i, y) ∈ m.overtaken) → Stage owner position m

/-- What holds throughout a refresh: only members have been heard of, and every finger is at least
as close to its position as each of them that has not overtaken it. -/
structure Keeps (owner : Identifier) (position : Nat → RingId) (m : Moment) : Prop where
  stage : Stage owner position m
  heard : m.heard ⊆ m.members
  unmoved : m.state.table.position = position
  closest : ∀ i p, m.state.table.get? i = some p → ∀ y ∈ m.heard,
    (position i, y) ∉ m.overtaken → distance (position i) p.id ≤ distance (position i) y.id

theorem keeps_start (members : Finset Identifier) (owner : Identifier) (state : PeerState) :
    Keeps owner state.table.position (start members owner state) where
  stage := .outset rfl
  heard := Finset.empty_subset members
  unmoved := rfl
  closest := fun _ _ _ y hy => absurd hy (Finset.notMem_empty y)

variable {owner : Identifier} {position : Nat → RingId} {m : Moment}

theorem position_of_staleFingers {s : PeerState} (h : s.table.position = position)
    {e : Nat × RingId} (he : e ∈ Peer.staleFingers owner s) : e.2 = position e.1 := by
  obtain ⟨he, -⟩ := List.mem_filter.1 he
  obtain ⟨i, -, rfl⟩ := List.mem_map.1 he
  rw [← h]

/-- A section of the refresh takes the first look at the state or sets a finger. -/
theorem Keeps.proceeds (h : Keeps owner position m) {change : PeerState → PeerState}
    {next : PeerState → PeerTask (Except NetworkError Unit)} (htask : m.task = .locked change next) :
    Keeps owner position
      { m with state := change m.state, task := next (change m.state), answered := none } := by
  cases h.stage with
  | outset hstart =>
      rw [hstart, Peer.refresh_run] at htask
      injection htask with hchange hnext
      subst hchange hnext
      refine ⟨.asking ?_ rfl, h.heard, h.unmoved, h.closest⟩
      intro e he
      split at he
      · exact absurd he List.not_mem_nil
      · exact position_of_staleFingers h.unmoved he
  | @asking via rest hrest hasking =>
      rw [hasking] at htask
      cases rest with
      | nil => cases htask
      | cons e rest => cases htask
  | @setting via found rest i known hrest hsetting hanswered hfound hknown =>
      rw [hsetting] at htask
      injection htask with hchange hnext
      subst hchange hnext
      refine ⟨.asking hrest rfl, h.heard, (position_set _ _ _).trans h.unmoved, ?_⟩
      intro j p hp y hy hy'
      rcases get?_set hp with ⟨rfl, rfl⟩ | ⟨-, hget⟩
      · exact hfound.2 y ((hknown y hy).resolve_right hy')
      · exact h.closest j p hget y hy hy'

/-- The answer to the query is right for all who have been heard of until then. -/
theorem Keeps.answers (h : Keeps owner position m) {via found requester : Identifier} {k : RingId}
    {next : Except NetworkError Identifier → PeerTask (Except NetworkError Unit)}
    (htask : m.task = .call (.findSuccessor via k requester) next)
    (hfound : Nearest m.members k found) :
    Keeps owner position { m with task := next (.ok found), answered := some (k, m.members) } := by
  cases h.stage with
  | outset hstart =>
      rw [hstart, Peer.refresh_run] at htask
      cases htask
  | @asking via' rest hrest hasking =>
      rw [hasking] at htask
      cases rest with
      | nil => cases htask
      | cons e rest =>
          obtain ⟨i, k'⟩ := e
          obtain ⟨next', hrun, hnext⟩ := Peer.resolveFingers_cons_run owner via' i k' rest
          rw [hrun] at htask
          injection htask with hcall hnext'
          injection hcall with hvia hk hrequester
          subst hk
          subst hnext'
          obtain rfl : k' = position i := hrest (i, k') List.mem_cons_self
          exact ⟨.setting (fun e he => hrest e (List.mem_cons_of_mem _ he)) (hnext found) rfl hfound
            fun y hy => Or.inl (h.heard hy), h.heard, h.unmoved, h.closest⟩
  | setting _ hsetting _ _ _ =>
      rw [hsetting] at htask
      cases htask

theorem Keeps.joins (h : Keeps owner position m) (y : Identifier) :
    Keeps owner position { m with members := insert y m.members } where
  stage := by
    cases h.stage with
    | outset hstart => exact .outset hstart
    | asking hrest hasking => exact .asking hrest hasking
    | setting hrest hsetting hanswered hfound hknown =>
        exact .setting hrest hsetting hanswered hfound hknown
  heard := h.heard.trans (Finset.subset_insert y m.members)
  unmoved := h.unmoved
  closest := h.closest

/-- A peer that is heard of overtakes the finger that is about to be set, unless it was a member
already, and tightens all fingers. -/
theorem Keeps.hears (h : Keeps owner position m) {y : Identifier} (hy : y ∈ m.members)
    {change : PeerState → PeerState} (hchange : (change m.state).table = m.state.table.update y) :
    Keeps owner position
      { m with
        state := change m.state
        heard := insert y m.heard
        overtaken := m.overtaken ∪ m.overtakenBy y } where
  stage := by
    cases h.stage with
    | outset hstart => exact .outset hstart
    | asking hrest hasking => exact .asking hrest hasking
    | @setting via found rest i known hrest hsetting hanswered hfound hknown =>
        refine .setting hrest hsetting hanswered hfound ?_
        intro z hz
        rcases Finset.mem_insert.1 hz with rfl | hz
        · by_cases hmem : z ∈ known
          · exact Or.inl hmem
          · refine Or.inr (Finset.mem_union_right _ ?_)
            rw [overtakenBy, hanswered]
            simp [hmem]
        · exact (hknown z hz).imp_right fun hmem => Finset.mem_union_left _ hmem
  heard := Finset.insert_subset hy h.heard
  unmoved := by
    show (change m.state).table.position = position
    rw [hchange, position_update, h.unmoved]
  closest := by
    intro i p hp z hz hz'
    have hp' : (m.state.table.update y).get? i = some p := hchange ▸ hp
    obtain ⟨current, hcurrent, rfl⟩ := get?_update hp'
    obtain ⟨hold, hnew⟩ := distance_tightened_le m.state.table y current i
    rw [h.unmoved] at hold hnew
    rcases Finset.mem_insert.1 hz with rfl | hz
    · exact hnew
    · have hkept := h.closest i current hcurrent z hz fun hmem =>
        hz' (Finset.mem_union_left _ hmem)
      exact Nat.le_trans hold hkept

/-- Every step keeps what is kept. -/
theorem Keeps.step {peer : Peer} {m' : Moment} (h : Keeps owner position m) (hstep : Step peer m m') :
    Keeps owner position m' := by
  cases hstep with
  | proceeds htask => exact h.proceeds htask
  | answers htask hfound => exact h.answers htask hfound
  | joins y => exact h.joins y
  | hears hy hmem hrun => exact h.hears hmem (Peer.table_of_announced hy hrun _)

theorem Keeps.steps {peer : Peer} {m' : Moment} (h : Keeps owner position m)
    (hsteps : Relation.ReflTransGen (Step peer) m m') : Keeps owner position m' := by
  induction hsteps with
  | refl => exact h
  | tail _ hstep ih => exact ih.step hstep

/-- **A refresh keeps what it hears of, but for peers that overtake an answer.** Whatever happens
while a peer refreshes its table, at every moment every finger is at least as close to its position
as every peer that has been heard of, unless that peer became a member after the position had been
asked for and was heard of before the finger was set. -/
theorem refresh_keeps_what_it_heard {peer : Peer} {members : Finset Identifier} {state : PeerState}
    {m : Moment}
    (hrun : Relation.ReflTransGen (Step peer) (start members peer.identifier state) m) {i : Nat}
    {p y : Identifier} (hp : m.state.table.get? i = some p) (hy : y ∈ m.heard)
    (hkept : (m.state.table.position i, y) ∉ m.overtaken) :
    distance (m.state.table.position i) p.id ≤ distance (m.state.table.position i) y.id := by
  have h := (keeps_start members peer.identifier state).steps hrun
  rw [h.unmoved] at hkept ⊢
  exact h.closest i p hp y hy hkept

end Moment

namespace Trio

/-! ## The third peer overtakes an answer -/

open Moment

/-- A peer between the first and the third one. -/
def middle : Identifier := ⟨"10.0.0.5", ⟨16384⟩⟩

/-- The first peer in a ring with the middle one. -/
def keeper : Peer :=
  ⟨first, 16, header,
    ⟨middle, middle, ⟨first, List.replicate 15 middle ++ [first]⟩, [], .joined⟩⟩

/-- The last finger is asked for and found to be the first peer; then the third peer becomes a
member and is heard of; then the finger is set. -/
theorem exists_overtaking_run : ∃ m,
    Relation.ReflTransGen (Step keeper) (start {first, middle} first keeper.state) m ∧
      m.task = .done (.ok ()) ∧ m.heard = {third} ∧ m.overtaken = {(⟨32768⟩, third)} ∧
      m.state.table = ⟨first, List.replicate 15 middle ++ [first]⟩ := by
  have hstale : (if keeper.state.successor = first then []
      else Peer.staleFingers first keeper.state) = [(15, ⟨32768⟩)] := by decide +kernel
  obtain ⟨next, hcall, hnext⟩ := Peer.resolveFingers_cons_run first middle 15 ⟨32768⟩ []
  have hfound : Nearest {first, middle} ⟨32768⟩ first := by decide +kernel
  have hmember : third ∈ insert third ({first, middle} : Finset Identifier) := by decide +kernel
  have hother : third ≠ keeper.identifier := by decide +kernel
  have hlooks : Step keeper (start {first, middle} first keeper.state)
      ⟨{first, middle}, keeper.state, .call (.findSuccessor middle ⟨32768⟩ first) next, ∅, none,
        ∅⟩ := by
    have hstep := @Step.proceeds keeper (start {first, middle} first keeper.state) _ _
      (Peer.refresh_run first)
    rw [← hcall, ← hstale]
    exact hstep
  have hanswered := (Relation.ReflTransGen.single hlooks).tail (.answers rfl hfound)
  have hheard := (hanswered.tail (.joins third)).tail
    (.hears rfl hmember (keeper.answer_join header hother))
  refine ⟨_, hheard.tail (.proceeds (hnext first)), rfl, ?_, ?_, ?_⟩
  · show insert third (∅ : Finset Identifier) = {third}
    decide +kernel
  · show (∅ ∪ if third ∈ ({first, middle} : Finset Identifier) then ∅ else {(⟨32768⟩, third)} :
      Finset (RingId × Identifier)) = {(⟨32768⟩, third)}
    decide +kernel
  · show ((keeper.state.learn third).setFinger 15 first).table = _
    decide +kernel

/-- In that run the first finger is kept against the third peer. -/
theorem refresh_keeps_what_it_heard_of_third :
    ∃ m, Relation.ReflTransGen (Step keeper) (start {first, middle} keeper.identifier keeper.state)
        m ∧ m.state.table.get? 0 = some middle ∧ third ∈ m.heard ∧
      (m.state.table.position 0, third) ∉ m.overtaken ∧
      distance (m.state.table.position 0) middle.id ≤
        distance (m.state.table.position 0) third.id := by
  obtain ⟨m, hrun, -, hheard, hovertaken, htable⟩ := exists_overtaking_run
  have hget : m.state.table.get? 0 = some middle := by
    rw [htable]
    rfl
  have hthird : third ∈ m.heard := by
    rw [hheard]
    exact Finset.mem_singleton_self third
  have hkept : (m.state.table.position 0, third) ∉ m.overtaken := by
    rw [hovertaken, htable]
    decide +kernel
  exact ⟨m, hrun, hget, hthird, hkept, refresh_keeps_what_it_heard hrun hget hthird hkept⟩

/-- When the refresh is over, the last finger is farther from its position than the third peer,
which has been announced meanwhile. -/
theorem refresh_loses_third :
    ∃ m, Relation.ReflTransGen (Step keeper) (start {first, middle} keeper.identifier keeper.state)
        m ∧ m.task = .done (.ok ()) ∧ keeper.state.successor ≠ keeper.identifier ∧
      third ∈ m.heard ∧ ∃ p, m.state.table.get? 15 = some p ∧
        ¬ distance (m.state.table.position 15) p.id ≤
          distance (m.state.table.position 15) third.id := by
  obtain ⟨m, hrun, hdone, hheard, -, htable⟩ := exists_overtaking_run
  refine ⟨m, hrun, hdone, by decide +kernel, ?_, first, ?_, ?_⟩
  · rw [hheard]
    exact Finset.mem_singleton_self third
  · rw [htable]
    rfl
  · rw [htable]
    decide +kernel

end Trio

end ChordRing
