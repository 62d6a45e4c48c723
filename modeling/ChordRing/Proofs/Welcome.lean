import ChordRing.Proofs.Announcement

/-!
# What a join does to the members

A newcomer `x` has found the member `s` nearest to it and the member `p` before `s`. It tells `s` of
its new predecessor (`greeted`), `p` of its new successor (`adopted`), and announces itself along
the ring (`welcomed`). At every point on the way each member is mixed; in the end every member is
settled in the ring with `x` (`welcomed_settled`).

The newcomer itself starts from a table that knows nobody. What it learns of `s` and `p` makes it
linked, and right about every finger up to `s` (`Newcomer`).
-/

namespace ChordRing

open RingId FingerTable PeerState

variable {members : Finset Identifier} {x s p q : Identifier}

namespace PeerState

theorem Mixed.meetPredecessor {st : PeerState} (h : st.Mixed members x q)
    (hx : Previous (insert x members) q x) : (st.meetPredecessor x).Mixed members x q :=
  ⟨h.owner, Or.inr h.converged_learn, Or.inr hx⟩

theorem Mixed.setSuccessor {st : PeerState} (h : st.Mixed members x q) :
    (st.setSuccessor x).Mixed members x q :=
  ⟨h.owner, Or.inr h.converged_learn, h.predecessor⟩

end PeerState

/-- The states once `s` knows that `x` is its predecessor. -/
def greeted (x s : Identifier) (view : Identifier → PeerState) : Identifier → PeerState :=
  Function.update view s ((view s).meetPredecessor x)

/-- The states once `p` knows, too, that `x` is its successor. -/
def adopted (x s p : Identifier) (view : Identifier → PeerState) : Identifier → PeerState :=
  Function.update (greeted x s view) p ((greeted x s view p).setSuccessor x)

/-- The states once every member has learned of `x`. -/
def welcomed (members : Finset Identifier) (x s p : Identifier) (view : Identifier → PeerState) :
    Identifier → PeerState :=
  swept members x s (adopted x s p view)

section Members

variable {view now : Identifier → PeerState}

/-- One change leaves all members mixed when it leaves the changed one mixed. -/
theorem mixed_update (h : ∀ q ∈ members, (view q).Mixed members x q) {st : PeerState}
    (hst : st.Mixed members x p) :
    ∀ q ∈ members, (Function.update view p st q).Mixed members x q := by
  intro q hq
  by_cases hqp : q = p
  · rw [hqp, Function.update_self]
    exact hst
  · rw [Function.update_of_ne hqp]
    exact h q hq

theorem Sweeping.mixed (hsweep : Sweeping members x s view now)
    (h : ∀ q ∈ members, (view q).Mixed members x q) :
    ∀ q ∈ members, (now q).Mixed members x q := by
  intro q hq
  rcases hsweep q with heq | ⟨-, -, heq⟩
  · rw [heq]
    exact h q hq
  · rw [heq]
    exact (h q hq).learn

theorem greeted_mixed (free : ∀ q ∈ members, q.id ≠ x.id) (hs : Nearest members x.id s)
    (h : ∀ q ∈ members, (view q).Mixed members x q) :
    ∀ q ∈ members, (greeted x s view q).Mixed members x q :=
  mixed_update h ((h s hs.1).meetPredecessor
    ⟨Finset.mem_insert_self x members, next_newcomer free hs⟩)

theorem adopted_mixed (free : ∀ q ∈ members, q.id ≠ x.id) (hs : Nearest members x.id s)
    (hp : p ∈ members) (h : ∀ q ∈ members, (view q).Mixed members x q) :
    ∀ q ∈ members, (adopted x s p view q).Mixed members x q :=
  mixed_update (greeted_mixed free hs h) ((greeted_mixed free hs h p hp).setSuccessor)

theorem adopted_of_ne (hqs : q ≠ s) (hqp : q ≠ p) : adopted x s p view q = view q := by
  rw [adopted, Function.update_of_ne hqp, greeted, Function.update_of_ne hqs]

theorem adopted_predecessor (x s p q : Identifier) (view : Identifier → PeerState) :
    (adopted x s p view q).predecessor = if q = s then x else (view q).predecessor := by
  have hgreeted : (greeted x s view q).predecessor = if q = s then x else (view q).predecessor := by
    by_cases hqs : q = s
    · rw [if_pos hqs, hqs, greeted, Function.update_self]
      rfl
    · rw [if_neg hqs, greeted, Function.update_of_ne hqs]
  by_cases hqp : q = p
  · rw [← hgreeted, hqp, adopted, Function.update_self]
    rfl
  · rw [← hgreeted, adopted, Function.update_of_ne hqp]

theorem adopted_successor (x s p q : Identifier) (view : Identifier → PeerState) :
    (adopted x s p view q).successor = if q = p then x else (view q).successor := by
  by_cases hqp : q = p
  · rw [if_pos hqp, hqp, adopted, Function.update_self]
    rfl
  · rw [if_neg hqp, adopted, Function.update_of_ne hqp, greeted]
    by_cases hqs : q = s
    · rw [hqs, Function.update_self]
      rfl
    · rw [Function.update_of_ne hqs]

/-- Once `p` knows of `x`, every member's successor is right for the ring with `x`. -/
theorem adopted_next (distinct : DistinctIds members) (free : ∀ q ∈ members, q.id ≠ x.id)
    (hs : Nearest members x.id s) (hp : Previous members s p)
    (h : ∀ q ∈ members, Next members q (view q).successor) :
    ∀ q ∈ members, Next (insert x members) q (adopted x s p view q).successor := by
  intro q hq
  rw [adopted_successor]
  by_cases hqp : q = p
  · rw [if_pos hqp, hqp]
    exact next_insert_previous free hs hp
  · rw [if_neg hqp]
    have hne : (view q).successor ≠ s := by
      intro heq
      have hnext := h q hq
      rw [heq] at hnext
      exact hqp (hnext.left_unique distinct hq hp.1 hp.2)
    exact (h q hq).insert distinct free hs hq hne

/-- The announcement reaches every member, since it starts at the one farthest before `x`. -/
theorem welcomed_eq (free : ∀ q ∈ members, q.id ≠ x.id) (hs : Nearest members x.id s)
    (hq : q ∈ members) (p : Identifier) (view : Identifier → PeerState) :
    welcomed members x s p view q = (adopted x s p view q).learn x := by
  -- the nearest member behind `x` is the farthest one before it
  have hle := hs.2 q hq
  have hfar : distance q.id x.id ≤ distance s.id x.id := by
    rw [distance_swap (free q hq).symm, distance_swap (free s hs.1).symm]
    omega
  exact if_pos ⟨hq, hfar⟩

theorem welcomed_of_notMem (hq : q ∉ members) (hs : s ∈ members) (hp : p ∈ members)
    (view : Identifier → PeerState) : welcomed members x s p view q = view q := by
  have hout : ¬ (q ∈ members ∧ distance q.id x.id ≤ distance s.id x.id) := fun h => hq h.1
  have hqs : q ≠ s := fun heq => hq (heq ▸ hs)
  have hqp : q ≠ p := fun heq => hq (heq ▸ hp)
  rw [welcomed, swept, if_neg hout, adopted_of_ne hqs hqp]

/-- **The newcomer leaves every member settled.** -/
theorem welcomed_settled (distinct : DistinctIds members) (free : ∀ q ∈ members, q.id ≠ x.id)
    (hs : Nearest members x.id s) (hp : Previous members s p)
    (settled : ∀ q ∈ members, (view q).Settled members q) :
    ∀ q ∈ members, (welcomed members x s p view q).Settled (insert x members) q := by
  intro q hq
  have hmixed := adopted_mixed free hs hp.1 (fun q hq => (settled q hq).toExact.mixed x) q hq
  have hnext := adopted_next distinct free hs hp (fun q hq => (settled q hq).successor) q hq
  rw [welcomed_eq free hs hq]
  -- learning of `x` makes the table right, and the two notifications the neighbours
  refine ⟨⟨?_, hmixed.owner, hmixed.converged_learn⟩, hnext⟩
  show Previous (insert x members) q (adopted x s p view q).predecessor
  rw [adopted_predecessor]
  by_cases hqs : q = s
  · rw [if_pos hqs, hqs]
    exact ⟨Finset.mem_insert_self x members, next_newcomer free hs⟩
  · rw [if_neg hqs]
    exact (settled q hq).predecessor.insert distinct free hs hqs

/-- No item and no phase of a member is touched. -/
theorem welcomed_rest (members : Finset Identifier) (x s p q : Identifier)
    (view : Identifier → PeerState) :
    (welcomed members x s p view q).items = (view q).items ∧
      (welcomed members x s p view q).phase = (view q).phase := by
  have hgreeted : (greeted x s view q).items = (view q).items ∧
      (greeted x s view q).phase = (view q).phase := by
    by_cases hqs : q = s
    · rw [hqs, greeted, Function.update_self]
      exact ⟨rfl, rfl⟩
    · rw [greeted, Function.update_of_ne hqs]
      exact ⟨rfl, rfl⟩
  have hadopted : (adopted x s p view q).items = (greeted x s view q).items ∧
      (adopted x s p view q).phase = (greeted x s view q).phase := by
    by_cases hqp : q = p
    · rw [hqp, adopted, Function.update_self]
      exact ⟨rfl, rfl⟩
    · rw [adopted, Function.update_of_ne hqp]
      exact ⟨rfl, rfl⟩
  rw [← hgreeted.1, ← hgreeted.2, ← hadopted.1, ← hadopted.2, welcomed, swept]
  split
  · exact ⟨rfl, rfl⟩
  · exact ⟨rfl, rfl⟩

end Members

/-! ## The newcomer's own state -/

/-- The peer `x` knows its two neighbours, and its fingers are right as far as these two go. -/
structure Newcomer (x s p : Identifier) (st : PeerState) : Prop where
  predecessor : st.predecessor = p
  successor : st.successor = s
  owner : st.table.owner = x
  converged : st.table.Converged {p, s, x}

namespace Newcomer

variable {st : PeerState}

/-- Starting from nobody, a peer gets there by two steps. -/
theorem of_new (h : st.table = .new fullSize x) :
    Newcomer x s p ((st.setSuccessor s).meetPredecessor p) := by
  refine ⟨rfl, rfl, ?_, ?_⟩
  · show st.table.owner = x
    rw [h]
    rfl
  · show ((st.table.update s).update p).Converged {p, s, x}
    rw [h]
    exact ((converged_new x).update s).update p

theorem enter (h : Newcomer x s p st) (phase : Phase) : Newcomer x s p (st.enter phase) :=
  ⟨h.predecessor, h.successor, h.owner, h.converged⟩

theorem subset (hs : s ∈ members) (hp : p ∈ members) :
    ({p, s, x} : Finset Identifier) ⊆ insert x members := by
  intro q hq
  rcases Finset.mem_insert.1 hq with rfl | hq
  · exact Finset.mem_insert_of_mem hp
  rcases Finset.mem_insert.1 hq with rfl | hq
  · exact Finset.mem_insert_of_mem hs
  · rw [Finset.mem_singleton.1 hq]
    exact Finset.mem_insert_self x members

/-- A finger that covers a position up to the next member is that member. -/
theorem nearest (h : Newcomer x s p st) (distinct : DistinctIds members)
    (free : ∀ q ∈ members, q.id ≠ x.id) (hs : Nearest members x.id s) (hp : p ∈ members) {i : Nat}
    (hi : st.table.get? i = some q) (hnear : Nearest (insert x members) (st.table.position i) s) :
    q = s := by
  have hsub := subset (x := x) hs.1 hp
  have hmem : s ∈ ({p, s, x} : Finset Identifier) :=
    Finset.mem_insert_of_mem (Finset.mem_insert_self s {x})
  have hdistinct : DistinctIds ({p, s, x} : Finset Identifier) :=
    (distinctIds_insert distinct free).mono hsub
  exact (h.converged.nearest i q hi).unique hdistinct (hnear.mono hsub hmem)

theorem linked (h : Newcomer x s p st) (distinct : DistinctIds members)
    (free : ∀ q ∈ members, q.id ≠ x.id) (hs : Nearest members x.id s)
    (hp : Previous members s p) : st.Linked (insert x members) x where
  predecessor := by
    rw [h.predecessor]
    exact ⟨Finset.mem_insert_of_mem hp.1, next_insert_previous free hs hp⟩
  owner := h.owner
  sound := by
    constructor
    -- the first finger covers the position next to `x`, which belongs to `s`
    · have hnext := next_newcomer free hs
      obtain ⟨q, hq, -⟩ := h.converged.exists_get? (by norm_num [fullSize] : 0 < fullSize)
      have hnear : Nearest (insert x members) (st.table.position 0) s := by
        rw [position_eq_ahead h.converged.size, h.owner]
        exact hnext
      rw [first_of_get? hq, h.nearest distinct free hs hp.1 hq hnear, h.owner]
      exact hnext
    · intro q hq
      exact subset hs.1 hp.1 (h.converged.entries q hq)

end Newcomer

end ChordRing
