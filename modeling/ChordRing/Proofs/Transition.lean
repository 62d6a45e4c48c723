import ChordRing.Peer.State
import ChordRing.Proofs.Halving

/-!
# Rings in transition

The states of the members while a newcomer `x` joins. A member is `Exact` when its predecessor and
all its fingers are right, and `Settled` when its successor is right too. During a join some members
are right for the ring without `x` and some for the ring with it, and `Transition` allows every
mixture of the two, table by table and predecessor by predecessor. It asks one thing more: a member
may point at `x` only when `x` is `Linked`, that is, knows its own next member and predecessor.

On every mixture both searches end after at most sixteen forwards, at the member that is nearest to
the key in the ring without `x` or in the ring with it (`Transition.walk`). One forward more than on
converged tables is needed because `x` has not refreshed its fingers: a search that passes through
`x` may gain little there, but it passes only once. `Route.budget` counts it in.
-/

namespace ChordRing

open RingId FingerTable Route

/-- The two searches: for the successor of a position on behalf of a peer, and for the holder of a
key. -/
inductive Quest where
  | successor (requester : Identifier)
  | holder

/-- Where a peer in state `s` sends a search for `k`. -/
def Quest.route (quest : Quest) (s : PeerState) (k : RingId) : Route :=
  match quest with
  | .successor _ => Route.findSuccessor s.table k
  | .holder => Route.lookup s.table s.predecessor k

namespace PeerState

/-- The predecessor and all fingers of the member `p` are right. -/
structure Exact (members : Finset Identifier) (p : Identifier) (s : PeerState) : Prop where
  predecessor : Previous members p s.predecessor
  owner : s.table.owner = p
  converged : s.table.Converged members

/-- Both neighbours and all fingers of the member `p` are right. -/
structure Settled (members : Finset Identifier) (p : Identifier) (s : PeerState) : Prop
    extends Exact members p s where
  successor : Next members p s.successor

/-- The table and the predecessor of the member `p` are each right for the ring without `x` or for
the ring with it. -/
structure Mixed (members : Finset Identifier) (x p : Identifier) (s : PeerState) : Prop where
  owner : s.table.owner = p
  table : s.table.Converged members ∨ s.table.Converged (insert x members)
  predecessor : Previous members p s.predecessor ∨ Previous (insert x members) p s.predecessor

/-- The peer `x` knows its predecessor, its next member, and otherwise only members. -/
structure Linked (members : Finset Identifier) (x : Identifier) (s : PeerState) : Prop where
  predecessor : Previous members x s.predecessor
  owner : s.table.owner = x
  sound : s.table.Sound members

theorem Exact.linked {members : Finset Identifier} {p : Identifier} {s : PeerState}
    (h : s.Exact members p) : s.Linked members p :=
  ⟨h.predecessor, h.owner, h.converged.sound⟩

theorem Exact.mixed {members : Finset Identifier} {p : Identifier} {s : PeerState}
    (h : s.Exact members p) (x : Identifier) : s.Mixed members x p :=
  ⟨h.owner, Or.inl h.converged, Or.inl h.predecessor⟩

theorem Exact.mixed_insert {members : Finset Identifier} {x p : Identifier} {s : PeerState}
    (h : s.Exact (insert x members) p) : s.Mixed members x p :=
  ⟨h.owner, Or.inr h.converged, Or.inr h.predecessor⟩

/-- A table that learns of `x` is converged for the ring with `x`. -/
theorem Mixed.converged_learn {members : Finset Identifier} {x p : Identifier} {s : PeerState}
    (h : s.Mixed members x p) : (s.learn x).table.Converged (insert x members) := by
  rcases h.table with hconv | hconv
  · exact hconv.update x
  · have hagain := hconv.update x
    rwa [Finset.insert_idem] at hagain

theorem Mixed.learn {members : Finset Identifier} {x p : Identifier} {s : PeerState}
    (h : s.Mixed members x p) : (s.learn x).Mixed members x p :=
  ⟨h.owner, Or.inr h.converged_learn, h.predecessor⟩

end PeerState

open PeerState

/-- A lookup may be answered at once, and steps as a successor search does otherwise. -/
theorem Quest.steps {peers : Finset Identifier} {good : Identifier → Prop}
    {closer : Identifier → Identifier → Prop} {view : Identifier → PeerState} {k : RingId}
    {p : Identifier} (quest : Quest) (howner : (view p).table.owner = p)
    (howns : owns p (view p).predecessor k = true → good p)
    (h : Steps peers good closer (fun p => findSuccessor (view p).table k) p) :
    Steps peers good closer (fun p => quest.route (view p) k) p := by
  cases quest with
  | successor requester => exact h
  | holder =>
      exact lookup_step (fun p => (view p).table) (fun p => (view p).predecessor) howner howns h

/-- Where the members' predecessors and fingers are right, both searches end, after at most fifteen
forwards, at the nearest member. -/
theorem walk_of_exact {members : Finset Identifier} {view : Identifier → PeerState}
    (distinct : DistinctIds members) (right : ∀ p ∈ members, (view p).Exact members p)
    (quest : Quest) (k : RingId) {start : Identifier} (hstart : start ∈ members) :
    ∃ n ≤ 15, ∃ q, Walk members (fun p => quest.route (view p) k) start n q ∧
      Nearest members k q := by
  obtain ⟨n, hn, q, hwalk, hq⟩ := exists_walk (halvings members k) (fun p hp =>
    quest.steps (right p hp).owner
      (nearest_of_owns hp distinct (right p hp).predecessor)
      (findSuccessor_halves distinct (fun p => (view p).table) hp (right p hp).owner
        (right p hp).converged k)) start hstart
  exact ⟨n, Nat.le_trans hn (halvings_le members k start), q, hwalk, hq⟩

/-- In a ring of linked members both searches end at the nearest member. -/
theorem walk_of_linked {members : Finset Identifier} {view : Identifier → PeerState}
    (distinct : DistinctIds members) (linked : ∀ p ∈ members, (view p).Linked members p)
    (quest : Quest) (k : RingId) {start : Identifier} (hstart : start ∈ members) :
    ∃ n q, Walk members (fun p => quest.route (view p) k) start n q ∧ Nearest members k q := by
  obtain ⟨n, -, q, hwalk, hq⟩ := exists_walk (fun p => distance p.id k) (fun p hp =>
    quest.steps (linked p hp).owner (nearest_of_owns hp distinct (linked p hp).predecessor)
      (findSuccessor_step distinct (fun p => (view p).table) hp (linked p hp).owner
        (linked p hp).sound k)) start hstart
  exact ⟨n, q, hwalk, hq⟩

/-- Every member is mixed, and `x` is linked unless all tables are right for the ring without it. -/
structure Transition (members : Finset Identifier) (x : Identifier)
    (view : Identifier → PeerState) : Prop where
  mixed : ∀ p ∈ members, (view p).Mixed members x p
  newcomer : (∀ p ∈ members, (view p).table.Converged members) ∨
    (view x).Linked (insert x members) x

namespace Route

variable {members : Finset Identifier} {x : Identifier}

/-- Twice what remains to be halved, and one more doubling while the search may still pass through
`x`. -/
def allowance (members : Finset Identifier) (x : Identifier) (k : RingId) (p : Identifier) : Nat :=
  if p = x then 2 * remaining members p.id k + 1
  else if distance p.id x.id < distance p.id k then 2 * (remaining members p.id k + 1)
  else remaining members p.id k + 1

/-- The bound on the number of forwards of a search that may pass through `x`. -/
def budget (members : Finset Identifier) (x : Identifier) (k : RingId) (p : Identifier) : Nat :=
  Nat.log 2 (allowance members x k p)

theorem allowance_pos (members : Finset Identifier) (x : Identifier) (k : RingId)
    (p : Identifier) : allowance members x k p ≠ 0 := by
  unfold allowance
  split
  · omega
  · split <;> omega

theorem budget_le (members : Finset Identifier) (x : Identifier) (k : RingId) (p : Identifier) :
    budget members x k p ≤ 16 := by
  have hlt := remaining_lt members p.id k
  have hle : allowance members x k p < 2 ^ 17 := by
    unfold allowance
    split
    · omega
    · split <;> omega
  exact Nat.le_of_lt_succ (Nat.log_lt_of_lt_pow (allowance_pos members x k p) hle)

theorem budget_lt {k : RingId} {p f : Identifier}
    (h : 2 * allowance members x k f ≤ allowance members x k p) :
    budget members x k f < budget members x k p :=
  log_lt_of_double_le (allowance_pos members x k f) h

/-- A member whose table is converged for the ring without `x` or for the ring with it answers the
search, or its forward halves the allowance. -/
theorem findSuccessor_spends {larger : Finset Identifier} (distinct : DistinctIds larger)
    (hsub : members ⊆ larger) (hlarger : larger ⊆ insert x members)
    (free : ∀ p ∈ members, p.id ≠ x.id) (table : Identifier → FingerTable) {p : Identifier}
    (hp : p ∈ members) (howner : (table p).owner = p) (hconv : (table p).Converged larger)
    (k : RingId) :
    Steps (insert x members) (Nearest larger k)
      (fun f p => budget members x k f < budget members x k p)
      (fun p => findSuccessor (table p) k) p := by
  have hmem : (table p).owner ∈ larger := howner.symm ▸ hsub hp
  rcases findSuccessor_of_sound distinct hmem hconv.sound k with ⟨q, hq, hnear⟩ | ⟨f, hf, hc⟩
  · exact Or.inl ⟨q, hq, hnear⟩
  obtain ⟨hentry, hprec, -⟩ := closestPreceding_eq_some hc
  have hflarger := hlarger (hconv.entries f hentry)
  refine Or.inr ⟨f, hflarger, hf, budget_lt ?_⟩
  obtain ⟨hpos, hbefore⟩ := precedes_iff.1 hprec
  -- what remains is counted among the members without `x`, whichever ring the table is right for
  have hhalf := halves_remaining hsub hconv hc
  rw [howner] at hpos hbefore hhalf
  have hpx : p ≠ x := fun h => free p hp (h ▸ rfl)
  have hfk := distance_of_le (Nat.le_of_lt hbefore)
  rcases Finset.mem_insert.1 hflarger with rfl | hfmem
  · -- the search passes through `x` now
    have hforward := remaining_forward members hbefore
    simp only [allowance, if_neg hpx, if_pos hbefore, if_true]
    by_cases hzero : remaining members p.id k = 0
    · omega
    · have hle := hhalf hzero
      omega
  · have hrem := le_remaining hfmem hbefore
    have hle := hhalf (by omega)
    have hfx : f ≠ x := fun h => free f hfmem (h ▸ rfl)
    have hahead : distance f.id x.id < distance f.id k → distance p.id x.id < distance p.id k := by
      intro h
      rw [hfk, distance_eq_ite p.id f.id x.id] at h
      have hk := distance_lt p.id k
      split at h <;> omega
    simp only [allowance, if_neg hpx, if_neg hfx]
    by_cases hx : distance f.id x.id < distance f.id k
    · rw [if_pos hx, if_pos (hahead hx)]
      omega
    · rw [if_neg hx]
      split <;> omega

/-- The newcomer, once linked, answers the search, or its forward halves the allowance. -/
theorem newcomer_spends (distinct : DistinctIds (insert x members))
    (table : Identifier → FingerTable) (howner : (table x).owner = x)
    (hsound : (table x).Sound (insert x members)) (k : RingId) :
    Steps (insert x members) (Nearest (insert x members) k)
      (fun f p => budget members x k f < budget members x k p)
      (fun p => findSuccessor (table p) k) x := by
  have hmem : (table x).owner ∈ insert x members := howner.symm ▸ Finset.mem_insert_self x members
  rcases findSuccessor_of_sound distinct hmem hsound k with ⟨q, hq, hnear⟩ | ⟨f, hf, hc⟩
  · exact Or.inl ⟨q, hq, hnear⟩
  obtain ⟨hentry, hprec, -⟩ := closestPreceding_eq_some hc
  have hfmem := hsound.entries f hentry
  refine Or.inr ⟨f, hfmem, hf, budget_lt ?_⟩
  obtain ⟨hpos, hbefore⟩ := precedes_iff.1 hprec
  rw [howner] at hpos hbefore
  have hfx : f ≠ x := howner ▸ ne_owner_of_precedes hprec
  -- `x` may know little, so its forward need not halve what remains, but it takes off the doubling
  have hrem := remaining_forward_mem ((Finset.mem_insert.1 hfmem).resolve_left hfx) hbefore
  -- behind `x` the key is met before `x` again
  have hxf : x.id ≠ f.id := distance_pos.1 hpos
  have hbehind : ¬ distance f.id x.id < distance f.id k := by
    rw [distance_swap hxf, distance_of_le (Nat.le_of_lt hbefore)]
    have hk := distance_lt x.id k
    omega
  simp only [allowance, if_neg hfx, if_neg hbehind, if_true]
  omega

end Route

namespace Transition

variable {members : Finset Identifier} {x : Identifier} {view : Identifier → PeerState}

/-- A peer that keeps a key is nearest to it in one of the two rings. -/
theorem nearest_of_owns (h : Transition members x view) (distinct : DistinctIds members)
    (free : ∀ p ∈ members, p.id ≠ x.id) {p : Identifier} (hp : p ∈ members) {k : RingId}
    (howns : owns p (view p).predecessor k = true) :
    Nearest members k p ∨ Nearest (insert x members) k p := by
  rcases (h.mixed p hp).predecessor with hpred | hpred
  · exact Or.inl (FingerTable.nearest_of_owns hp distinct hpred howns)
  · exact Or.inr (FingerTable.nearest_of_owns (Finset.mem_insert_of_mem hp)
      (distinctIds_insert distinct free) hpred howns)

/-- **Searches on a mixture.** From every member both searches for `k` end, after at most sixteen
forwards, at the member nearest to `k` in the ring without `x` or in the ring with it. -/
theorem walk (h : Transition members x view) (distinct : DistinctIds members)
    (free : ∀ p ∈ members, p.id ≠ x.id) (quest : Quest) (k : RingId) {start : Identifier}
    (hstart : start ∈ members) :
    ∃ n ≤ 16, ∃ q, Walk (insert x members) (fun p => quest.route (view p) k) start n q ∧
      (Nearest members k q ∨ Nearest (insert x members) k q) := by
  have hdistinct := distinctIds_insert distinct free
  have hsub := Finset.subset_insert x members
  rcases h.newcomer with hold | hlinked
  · -- nobody knows of `x`, and no search reaches it
    have hstep : ∀ p ∈ members,
        Steps members (fun q => Nearest members k q ∨ Nearest (insert x members) k q)
          (fun f p => halvings members k f < halvings members k p)
          (fun p => quest.route (view p) k) p := fun p hp =>
      quest.steps ((h.mixed p hp).owner) (h.nearest_of_owns distinct free hp)
        ((findSuccessor_halves distinct (fun p => (view p).table) hp ((h.mixed p hp).owner)
          (hold p hp) k).imp (Finset.Subset.refl _) fun _ => Or.inl)
    obtain ⟨n, hn, q, hwalk, hq⟩ := exists_walk _ hstep start hstart
    exact ⟨n, Nat.le_trans hn (Nat.le_succ_of_le (halvings_le members k start)), q,
      hwalk.mono hsub, hq⟩
  · have hstep : ∀ p ∈ insert x members,
        Steps (insert x members) (fun q => Nearest members k q ∨ Nearest (insert x members) k q)
          (fun f p => budget members x k f < budget members x k p)
          (fun p => quest.route (view p) k) p := by
      intro p hp
      rcases Finset.mem_insert.1 hp with rfl | hp
      · refine quest.steps hlinked.owner (fun howns => Or.inr ?_) ?_
        · exact FingerTable.nearest_of_owns (Finset.mem_insert_self p members) hdistinct
            hlinked.predecessor howns
        · exact (newcomer_spends hdistinct (fun p => (view p).table) hlinked.owner
            hlinked.sound k).imp (Finset.Subset.refl _) fun _ => Or.inr
      · apply quest.steps ((h.mixed p hp).owner) (h.nearest_of_owns distinct free hp)
        rcases (h.mixed p hp).table with hconv | hconv
        · exact (findSuccessor_spends distinct (Finset.Subset.refl _) hsub free
            (fun p => (view p).table) hp ((h.mixed p hp).owner) hconv k).imp
            (Finset.Subset.refl _) fun _ => Or.inl
        · exact (findSuccessor_spends hdistinct hsub (Finset.Subset.refl _) free
            (fun p => (view p).table) hp ((h.mixed p hp).owner) hconv k).imp
            (Finset.Subset.refl _) fun _ => Or.inr
    obtain ⟨n, hn, q, hwalk, hq⟩ := exists_walk _ hstep start (hsub hstart)
    exact ⟨n, Nat.le_trans hn (budget_le members x k start), q, hwalk, hq⟩

end Transition

end ChordRing
