import ChordRing.Proofs.Interleaving

/-!
# What messages make of a peer

Whatever a peer does on account of a message, it changes its state in one section at most, and how
the state changes is read off the message (`PeerState.noted`, `Peer.answer_cases`); what comes of
the exchanges that the peer makes has no part in it. So the state after a sequence of messages is
determined by the state before and by what the messages say. `Determined` spells this out, pointer
by pointer, key by key and finger by finger, and `Peer.determined_takeAll` shows it for every
sequence of messages.
-/

namespace ChordRing

open RingId FingerTable

/-! ## Tasks that leave the state alone -/

namespace Task

variable {σ C α : Type} {R : C → Type}

/-- No section under the lock is left in the task. -/
inductive Quiet : Task σ C R α → Prop
  | done (result : α) : Quiet (.done result)
  | call {c : C} {next : R c → Task σ C R α} : (∀ reply, Quiet (next reply)) → Quiet (.call c next)

/-- Every call left in the task is one of `calls`, and every section under the lock one of
`sections`. -/
inductive Confined (calls : C → Prop) (sections : (σ → σ) → Prop) : Task σ C R α → Prop
  | done (result : α) : Confined calls sections (.done result)
  | locked {change : σ → σ} {next : σ → Task σ C R α} : sections change →
      (∀ s, Confined calls sections (next s)) → Confined calls sections (.locked change next)
  | call {c : C} {next : R c → Task σ C R α} : calls c →
      (∀ reply, Confined calls sections (next reply)) → Confined calls sections (.call c next)

/-- A task that is left without sections is quiet. -/
theorem Confined.quiet {calls : C → Prop} {t : Task σ C R α}
    (h : t.Confined calls fun _ => False) : t.Quiet := by
  induction h with
  | done result => exact .done result
  | locked hsection _ _ => exact hsection.elim
  | call _ _ ih => exact .call ih

theorem Quiet.state_rehearse {t : Task σ C R α} (h : t.Quiet) (answer : Nat → (c : C) → R c)
    (made : Nat) (s : σ) : (t.rehearse answer made s).state = s := by
  induction h generalizing made with
  | done result => rfl
  | call _ ih => exact ih _ _

end Task

/-! ## What one message says -/

namespace Body

/-- The predecessor that a message names to its receiver. -/
def predecessor? : Body → Option Identifier
  | .predecessorNotification p => some p
  | _ => none

/-- The successor that a message names to its receiver. -/
def successor? : Body → Option Identifier
  | .successorNotification p => some p
  | _ => none

/-- The item that a message leaves with its receiver. -/
def item? : Body → Option StoredItem
  | .storeFileRequest key name bytes => some ⟨key, name, bytes⟩
  | .moveFileRequest key name bytes => some ⟨key, name, bytes⟩
  | _ => none

/-- The item that a message leaves under the key. -/
def itemUnder? (key : RingId) (b : Body) : Option StoredItem := b.item?.filter (·.key == key)

/-- The peer that a message announces to its receiver, who takes no note of having joined itself. -/
def news? (self : Identifier) (b : Body) : Option Identifier :=
  if b = .networkJoinNotification self then none else b.announced?

/-- What the last of the messages says that says anything. -/
def lastSaid {α : Type} (said : Body → Option α) (bodies : List Body) : Option α :=
  (bodies.filterMap said).getLast?

theorem lastSaid_append_singleton {α : Type} (said : Body → Option α) (bodies : List Body)
    (b : Body) : lastSaid said (bodies ++ [b]) = (said b).or (lastSaid said bodies) := by
  cases hb : said b <;> simp [lastSaid, List.filterMap_append, hb]

end Body

/-! ## What a peer makes of one message -/

namespace PeerState

/-- The state once the message is taken note of. -/
def noted (self : Identifier) (b : Body) (s : PeerState) : PeerState :=
  match b with
  | .predecessorNotification p => s.meetPredecessor p
  | .successorNotification p => s.setSuccessor p
  | .networkJoinNotification p => if p = self then s else s.learn p
  | .storeFileRequest key name bytes | .moveFileRequest key name bytes => s.store ⟨key, name, bytes⟩
  | _ => s

variable {self : Identifier} {b : Body} {s : PeerState}

theorem predecessor_noted :
    (noted self b s).predecessor = b.predecessor?.getD s.predecessor := by
  cases b with
  | networkJoinNotification p =>
      rw [noted]
      split <;> rfl
  | _ => rfl

theorem successor_noted : (noted self b s).successor = b.successor?.getD s.successor := by
  cases b with
  | networkJoinNotification p =>
      rw [noted]
      split <;> rfl
  | _ => rfl

theorem phase_noted : (noted self b s).phase = s.phase := by
  cases b with
  | networkJoinNotification p =>
      rw [noted]
      split <;> rfl
  | _ => rfl

theorem table_noted :
    (noted self b s).table = (b.news? self).elim s.table s.table.update := by
  cases b with
  | networkJoinNotification p =>
      by_cases hp : p = self
      · simp [noted, Body.news?, hp]
      · simp [noted, Body.news?, Body.announced?, hp, learn]
  | _ => rfl

end PeerState

/-- Every peer makes the same of both messages. -/
def Body.SameNews (b b' : Body) : Prop :=
  ∀ self s, PeerState.noted self b' s = PeerState.noted self b s

namespace Items

theorem find?_cons (held : StoredItem) (rest : Items) (key : RingId) :
    find? (held :: rest) key = if held.key = key then some held else rest.find? key := by
  by_cases hkey : held.key = key <;> simp [find?, hkey]

/-- Under the key of a new item stands that item, and under every other key what stood there. -/
theorem find?_store (item : StoredItem) (items : Items) (key : RingId) :
    (items.store item).find? key = if item.key = key then some item else items.find? key := by
  induction items with
  | nil => exact find?_cons item [] key
  | cons held rest ih =>
      rw [store]
      split
      · rename_i hsame
        simp only [find?_cons, ← hsame]
        split <;> rfl
      · rename_i hother
        split
        · exact find?_cons item (held :: rest) key
        · rw [find?_cons, find?_cons, ih]
          by_cases hheld : held.key = key
          · have hne : item.key ≠ key := fun heq => hother (heq.trans hheld.symm)
            rw [if_pos hheld, if_neg hne, if_pos hheld]
          · rw [if_neg hheld, if_neg hheld]

end Items

theorem PeerState.items_noted {self : Identifier} {b : Body} {s : PeerState} (key : RingId) :
    (noted self b s).items.find? key = (b.itemUnder? key).or (s.items.find? key) := by
  have hstored : ∀ item : StoredItem, (s.store item).items.find? key =
      ((some item).filter (·.key == key)).or (s.items.find? key) := by
    intro item
    rw [store, Items.find?_store]
    by_cases hkey : item.key = key <;> simp [Option.filter, hkey]
  cases b with
  | storeFileRequest k name bytes => exact hstored _
  | moveFileRequest k name bytes => exact hstored _
  | networkJoinNotification p =>
      rw [noted]
      split <;> rfl
  | _ => rfl

namespace Peer

/-- The task leaves the state alone and sends messages only that say the same as `b`. -/
abbrev Repeats {α : Type} (b : Body) (t : NodeTask PeerState α) : Prop :=
  t.Confined (fun e => b.SameNews e.message.body) fun _ => False

theorem repeats_relay (b : Body) (address : String) (kind : Kind) (outcome : Outcome) :
    Repeats b (relay address kind outcome) := by
  rcases outcome with error | reply
  · exact .done _
  · cases reply <;> exact .done _

theorem repeats_follow (peer : Peer) (quest : Quest) (k : RingId) (hops : UInt32) (route : Route) :
    Repeats (quest.request k hops) (peer.follow quest k hops route) := by
  cases route with
  | answer found => exact .done _
  | forward next =>
      rw [follow]
      split
      · exact .done _
      · refine .call ?_ fun outcome => repeats_relay _ _ _ outcome
        cases quest <;> exact fun _ _ => rfl

/-- A message is taken note of in one section, before all exchanges, or leaves the state alone. The
exchanges pass on what it says. -/
theorem answer_cases (peer : Peer) (m : Message) :
    (∃ next, (peer.answer m).run = .locked (PeerState.noted peer.identifier m.body) next ∧
        ∀ s, Repeats m.body (next s)) ∨
      (Repeats m.body (peer.answer m).run ∧
        ∀ s, PeerState.noted peer.identifier m.body s = s) := by
  obtain ⟨h, b⟩ := m
  cases b with
  | getPredecessorRequest => exact Or.inl ⟨_, rfl, fun _ => .done _⟩
  | getSuccessorRequest => exact Or.inl ⟨_, rfl, fun _ => .done _⟩
  | findSuccessorRequest target requester hops =>
      exact Or.inl ⟨_, peer.answer_request h (.successor requester) target hops,
        fun _ => peer.repeats_follow (.successor requester) target hops _⟩
  | lookupRequest fileKey hops =>
      exact Or.inl ⟨_, peer.answer_request h .holder fileKey hops,
        fun _ => peer.repeats_follow .holder fileKey hops _⟩
  | predecessorNotification p => exact Or.inl ⟨_, rfl, fun _ => .done _⟩
  | successorNotification p => exact Or.inl ⟨_, rfl, fun _ => .done _⟩
  | storeFileRequest key name bytes => exact Or.inl ⟨_, rfl, fun _ => .done _⟩
  | moveFileRequest key name bytes => exact Or.inl ⟨_, rfl, fun _ => .done _⟩
  | networkJoinNotification p =>
      by_cases hp : p = peer.identifier
      · right
        subst hp
        rw [peer.answer_join_self h]
        exact ⟨.done _, fun s => if_pos rfl⟩
      · left
        have hnoted : PeerState.noted peer.identifier (.networkJoinNotification p) =
            fun s => s.learn p := funext fun s => if_neg hp
        rw [peer.answer_join h hp, hnoted]
        refine ⟨_, rfl, ?_⟩
        intro s
        show Repeats _ (if s.successor = p ∨ s.successor = peer.identifier then _ else _)
        split
        · exact .done _
        · refine .call (fun _ _ => rfl) fun outcome => ?_
          cases outcome <;> exact .done _
  | _ => exact Or.inr ⟨.done _, fun _ => rfl⟩

/-- A peer's state once it is done with a message, when `outcomes` come of its exchanges and none
of them comes back to the peer. -/
def take (peer : Peer) (m : Message) (outcomes : Nat → Envelope → Outcome) (s : PeerState) :
    PeerState :=
  ((peer.answer m).run.rehearse outcomes 0 s).state

/-- A peer's state once it is done with one message after the other. -/
def takeAll (peer : Peer) (incoming : List (Message × (Nat → Envelope → Outcome))) (s : PeerState) :
    PeerState :=
  incoming.foldl (fun s e => peer.take e.1 e.2 s) s

/-- Whatever comes of its exchanges, a peer takes note of a message and that is all. -/
theorem take_eq_noted (peer : Peer) (m : Message) (outcomes : Nat → Envelope → Outcome)
    (s : PeerState) : peer.take m outcomes s = s.noted peer.identifier m.body := by
  rw [take]
  rcases peer.answer_cases m with ⟨next, hrun, hrepeats⟩ | ⟨hrepeats, hsame⟩
  · rw [hrun]
    exact (hrepeats _).quiet.state_rehearse outcomes 0 _
  · rw [hrepeats.quiet.state_rehearse, hsame]

end Peer

/-! ## What messages determine -/

/-- Of the peers in a list, one with the smallest clockwise distance from the position, and of those
the last. -/
def LastNearest (k : RingId) (l : List Identifier) (p : Identifier) : Prop :=
  ∃ before after, l = before ++ p :: after ∧
    (∀ q ∈ before, distance k p.id ≤ distance k q.id) ∧
    ∀ q ∈ after, distance k p.id < distance k q.id

namespace LastNearest

variable {k : RingId} {l : List Identifier} {p q : Identifier}

/-- What comes last is the last nearest as soon as it is as near. -/
theorem append_of_le (h : LastNearest k l p) (hle : distance k q.id ≤ distance k p.id) :
    LastNearest k (l ++ [q]) q := by
  obtain ⟨before, after, rfl, hbefore, hafter⟩ := h
  refine ⟨before ++ p :: after, [], rfl, ?_, by simp⟩
  intro r hr
  rcases List.mem_append.1 hr with hr | hr
  · exact Nat.le_trans hle (hbefore r hr)
  rcases List.mem_cons.1 hr with rfl | hr
  · exact hle
  · exact Nat.le_trans hle (Nat.le_of_lt (hafter r hr))

theorem append_of_lt (h : LastNearest k l p) (hlt : distance k p.id < distance k q.id) :
    LastNearest k (l ++ [q]) p := by
  obtain ⟨before, after, rfl, hbefore, hafter⟩ := h
  refine ⟨before, after ++ [q], by simp, hbefore, ?_⟩
  intro r hr
  rcases List.mem_append.1 hr with hr | hr
  · exact hafter r hr
  · rw [List.mem_singleton.1 hr]
    exact hlt

/-- Tightening with a peer keeps an entry the last nearest, with the peer coming last. -/
theorem tightened {t : FingerTable} {i : Nat} (h : LastNearest (t.position i) l p)
    (q : Identifier) : LastNearest (t.position i) (l ++ [q]) (t.tightened q i p) := by
  rw [FingerTable.tightened]
  by_cases htightens : tightens q (t.position i) p = true
  · rw [if_pos htightens]
    exact h.append_of_le (tightens_iff.1 htightens).2
  · rw [if_neg htightens]
    rcases not_tightens_iff.1 htightens with rfl | hlt
    · exact h.append_of_le (Nat.le_refl _)
    · exact h.append_of_lt hlt

end LastNearest

/-- What the messages make of the state `s` of the peer `receiver`. -/
structure Determined (receiver : Identifier) (s : PeerState) (bodies : List Body) (s' : PeerState) :
    Prop where
  predecessor : s'.predecessor = (Body.lastSaid Body.predecessor? bodies).getD s.predecessor
  successor : s'.successor = (Body.lastSaid Body.successor? bodies).getD s.successor
  items : ∀ key, s'.items.find? key =
    (Body.lastSaid (Body.itemUnder? key) bodies).or (s.items.find? key)
  fingers : ∀ i old, s.table.get? i = some old → ∃ new, s'.table.get? i = some new ∧
    LastNearest (s.table.position i) (old :: bodies.filterMap (Body.news? receiver)) new
  phase : s'.phase = s.phase
  owner : s'.table.owner = s.table.owner
  size : s'.table.size = s.table.size

namespace Determined

variable {receiver : Identifier} {s s' : PeerState} {bodies : List Body}

theorem refl (receiver : Identifier) (s : PeerState) : Determined receiver s [] s where
  predecessor := rfl
  successor := rfl
  items := fun _ => rfl
  fingers := fun _ old hold => ⟨old, hold, [], [], rfl, by simp, by simp⟩
  phase := rfl
  owner := rfl
  size := rfl

/-- One more message. -/
theorem noted (h : Determined receiver s bodies s') (b : Body) :
    Determined receiver s (bodies ++ [b]) (s'.noted receiver b) where
  predecessor := by
    rw [PeerState.predecessor_noted, h.predecessor, Body.lastSaid_append_singleton, Option.getD_or]
  successor := by
    rw [PeerState.successor_noted, h.successor, Body.lastSaid_append_singleton, Option.getD_or]
  items := by
    intro key
    rw [PeerState.items_noted, h.items, Body.lastSaid_append_singleton, Option.or_assoc]
  fingers := by
    intro i old hold
    obtain ⟨current, hcurrent, hnearest⟩ := h.fingers i old hold
    have hposition : s.table.position i = s'.table.position i := by
      rw [position, position, h.owner, h.size]
    rw [List.filterMap_append, PeerState.table_noted, hposition]
    rw [hposition] at hnearest
    cases hnews : b.news? receiver with
    | none =>
        refine ⟨current, hcurrent, ?_⟩
        simpa [List.filterMap_cons, hnews] using hnearest
    | some q =>
        refine ⟨s'.table.tightened q i current, ?_, ?_⟩
        · simp only [Option.elim, get?, update, List.getElem?_mapIdx]
          rw [get?] at hcurrent
          rw [hcurrent, Option.map_some]
        · simpa [List.filterMap_cons, hnews] using hnearest.tightened q
  phase := PeerState.phase_noted.trans h.phase
  owner := by
    rw [PeerState.table_noted]
    cases b.news? receiver <;> exact h.owner
  size := by
    rw [PeerState.table_noted]
    cases b.news? receiver with
    | none => exact h.size
    | some q => exact (size_update _ _).trans h.size

end Determined

/-- **A peer's state is determined by the messages that come in.** After any messages, whatever
comes of the exchanges that the peer makes on account of them, the pointers are those of the last
notifications, under each key is the last item that was left under it, and each finger is the last
nearest to its position among what it was and all the peers that were announced. -/
theorem Peer.determined_takeAll (peer : Peer) (s : PeerState)
    (incoming : List (Message × (Nat → Envelope → Outcome))) :
    Determined peer.identifier s (incoming.map fun e => e.1.body) (peer.takeAll incoming s) := by
  -- the messages come in one after the other, so the induction adds the last one
  induction incoming using List.reverseRecOn with
  | nil => exact .refl peer.identifier s
  | append_singleton incoming e ih =>
      rw [takeAll, List.foldl_append, List.foldl_cons, List.foldl_nil, take_eq_noted,
        List.map_append, List.map_singleton]
      exact ih.noted e.1.body

end ChordRing
