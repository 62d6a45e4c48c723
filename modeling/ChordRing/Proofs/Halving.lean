import Mathlib.Data.Nat.Log
import ChordRing.Proofs.Walk

/-!
# Halving

How long a walk is on converged tables. What a search still has to cover from a position `o` is
the distance to the last member before the key (`Route.remaining`). A converged table has a finger
that covers more than half of it, and the closest preceding entry is at least that far
(`halves_remaining`). Since less than a lap is left at the start, fifteen forwards are enough
(`halvings_le`).
-/

namespace ChordRing

open RingId FingerTable

namespace Route

variable {members : Finset Identifier}

/-- The distance from `o` to the last member before `k`, zero if there is none. -/
def remaining (members : Finset Identifier) (o k : RingId) : Nat :=
  (members.filter fun q => distance o q.id < distance o k).sup fun q => distance o q.id

theorem le_remaining {o k : RingId} {q : Identifier} (hq : q ∈ members)
    (h : distance o q.id < distance o k) : distance o q.id ≤ remaining members o k :=
  Finset.le_sup (f := fun q : Identifier => distance o q.id) (Finset.mem_filter.2 ⟨hq, h⟩)

/-- What remains is the distance of a member before the key, unless nothing remains. -/
theorem remaining_attained (members : Finset Identifier) (o k : RingId) :
    remaining members o k = 0 ∨ ∃ q ∈ members, distance o q.id = remaining members o k ∧
      distance o q.id < distance o k := by
  by_cases hne : (members.filter fun q => distance o q.id < distance o k).Nonempty
  · obtain ⟨q, hq, hsup⟩ := Finset.exists_mem_eq_sup _ hne fun q : Identifier => distance o q.id
    obtain ⟨hq, hlt⟩ := Finset.mem_filter.1 hq
    exact Or.inr ⟨q, hq, hsup.symm, hlt⟩
  · left
    rw [remaining, Finset.not_nonempty_iff_eq_empty.1 hne, Finset.sup_empty]
    rfl

theorem remaining_lt (members : Finset Identifier) (o k : RingId) :
    remaining members o k < 65535 := by
  have hk := distance_lt o k
  rcases remaining_attained members o k with h | ⟨q, -, heq, hlt⟩ <;> omega

/-- From a position `f` before the key, what remained is less by the distance to `f`. -/
theorem remaining_forward (members : Finset Identifier) {o f k : RingId}
    (hf : distance o f < distance o k) :
    remaining members f k = 0 ∨
      remaining members f k + distance o f ≤ remaining members o k := by
  rcases remaining_attained members f k with h | ⟨q, hq, heq, hlt⟩
  · exact Or.inl h
  · right
    have hfk : distance f k = distance o k - distance o f := distance_of_le (Nat.le_of_lt hf)
    by_cases hle : distance o f ≤ distance o q.id
    · have hfq : distance f q.id = distance o q.id - distance o f := distance_of_le hle
      have hoq := le_remaining hq (o := o) (k := k) (by omega)
      omega
    · have hfq : distance f q.id = 65536 - distance o f + distance o q.id :=
        distance_of_lt (Nat.lt_of_not_le hle)
      have hk := distance_lt o k
      omega

/-- From a member before the key the same holds even if nothing remains. -/
theorem remaining_forward_mem {o k : RingId} {f : Identifier} (hmem : f ∈ members)
    (hf : distance o f.id < distance o k) :
    remaining members f.id k + distance o f.id ≤ remaining members o k := by
  rcases remaining_forward members hf with h | h
  · have hle := le_remaining hmem hf
    omega
  · exact h

/-- A table that is converged for at least these members covers more than half of what remains. -/
theorem halves_remaining {larger : Finset Identifier} {t : FingerTable} (hsub : members ⊆ larger)
    (h : Converged larger t) {k : RingId} {f : Identifier} (hf : t.closestPreceding k = some f)
    (hpos : remaining members t.owner.id k ≠ 0) :
    2 * (remaining members f.id k + 1) ≤ remaining members t.owner.id k + 1 := by
  rcases remaining_attained members t.owner.id k with hzero | ⟨q, hq, heq, hlt⟩
  · exact absurd hzero hpos
  have hrem := remaining_lt members t.owner.id k
  -- some finger covers the greatest power of two up to what remains
  have hlog : Nat.log 2 (remaining members t.owner.id k) < fullSize :=
    Nat.log_lt_of_lt_pow hpos (by norm_num [fullSize]; omega)
  have hle := Nat.pow_log_le_self 2 hpos
  have hlt' := Nat.lt_pow_succ_log_self (b := 2) (by norm_num) (remaining members t.owner.id k)
  rw [pow_succ] at hlt'
  obtain ⟨e, he, hnear⟩ := h.exists_get? hlog
  have hstep : distance t.owner.id
      (t.owner.id.ahead (2 ^ Nat.log 2 (remaining members t.owner.id k))) =
        2 ^ Nat.log 2 (remaining members t.owner.id k) :=
    distance_ahead t.owner.id (by omega)
  -- the finger at the greatest power of two up to `q` lies between that power and `q`
  have heq' := hnear.2 q (hsub hq)
  rw [distance_of_le (o := t.owner.id) (b := q.id) (by omega),
    distance_eq_ite t.owner.id _ e.id] at heq'
  have hoq := distance_lt t.owner.id q.id
  have hfar : 2 ^ Nat.log 2 (remaining members t.owner.id k) ≤ distance t.owner.id e.id ∧
      distance t.owner.id e.id ≤ distance t.owner.id q.id := by
    split at heq' <;> omega
  obtain ⟨-, hprec, hmax⟩ := closestPreceding_eq_some hf
  have hef := hmax e (get?_mem he) (precedes_iff.2 ⟨by omega, by omega⟩)
  rcases remaining_forward members (precedes_iff.1 hprec).2 with h | h <;> omega

/-- The bound that halving gives on the number of forwards. -/
def halvings (members : Finset Identifier) (k : RingId) (p : Identifier) : Nat :=
  Nat.log 2 (remaining members p.id k + 1)

theorem halvings_le (members : Finset Identifier) (k : RingId) (p : Identifier) :
    halvings members k p ≤ 15 := by
  have hlt := remaining_lt members p.id k
  exact Nat.le_of_lt_succ (Nat.log_lt_of_lt_pow (by omega) (by norm_num; omega))

/-- Twice a number has a greater logarithm. -/
theorem log_lt_of_double_le {a b : Nat} (ha : a ≠ 0) (h : 2 * a ≤ b) :
    Nat.log 2 a < Nat.log 2 b := by
  calc Nat.log 2 a < Nat.log 2 a + 1 := Nat.lt_succ_self _
    _ = Nat.log 2 (a * 2) := (Nat.log_mul_base (by norm_num) ha).symm
    _ ≤ Nat.log 2 b := Nat.log_mono_right (by omega)

/-- On a converged table a search is answered, or forwarded with one halving less to go. -/
theorem findSuccessor_halves (distinct : DistinctIds members) (table : Identifier → FingerTable)
    {p : Identifier} (hp : p ∈ members) (howner : (table p).owner = p)
    (hconv : (table p).Converged members) (k : RingId) :
    Steps members (Nearest members k) (fun f p => halvings members k f < halvings members k p)
      (fun p => findSuccessor (table p) k) p := by
  have hmem : (table p).owner ∈ members := howner.symm ▸ hp
  rcases findSuccessor_of_sound distinct hmem hconv.sound k with ⟨q, hq, hnear⟩ | ⟨f, hf, hc⟩
  · exact Or.inl ⟨q, hq, hnear⟩
  have hfmem := hconv.entries f (closestPreceding_eq_some hc).1
  have hbefore := precedes_iff.1 (closestPreceding_eq_some hc).2.1
  have hrem := le_remaining hfmem hbefore.2
  have hhalf := halves_remaining (Finset.Subset.refl members) hconv hc (by omega)
  rw [howner] at hhalf
  exact Or.inr ⟨f, hfmem, hf, log_lt_of_double_le (Nat.succ_ne_zero _) hhalf⟩

end Route

end ChordRing
