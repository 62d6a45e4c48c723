import Mathlib.Data.Finset.Lattice.Fold
import Mathlib.Data.Set.Function
import ChordRing.Identifier
import ChordRing.Proofs.Clockwise

/-!
# Members of a ring

A ring is a finite set of identifiers. `Nearest` says which member a position belongs to,
`Next` and `Previous` name the two neighbours of a member. A member that is alone is its own
neighbour on both sides. When no two members share a ring id, each of the three is unique, and each
exists as soon as there is a member.

The second half follows a newcomer `x`: between the members on its two sides nothing changes but
the pointers to it (`Next.insert`, `Previous.insert`, `next_newcomer`, `next_insert_previous`).
-/

namespace ChordRing

open RingId

/-- Among `members`, `p` has the smallest clockwise distance from `k`. -/
def Nearest (members : Finset Identifier) (k : RingId) (p : Identifier) : Prop :=
  p ∈ members ∧ ∀ q ∈ members, distance k p.id ≤ distance k q.id

/-- The member `q` is the first one met when leaving `p` clockwise, `p` itself if there is no
other. -/
def Next (members : Finset Identifier) (p q : Identifier) : Prop :=
  Nearest members (p.id.ahead 1) q

/-- The member `q` is the one that `p` comes next to. -/
def Previous (members : Finset Identifier) (p q : Identifier) : Prop :=
  q ∈ members ∧ Next members q p

/-- No two members share a ring id. -/
abbrev DistinctIds (members : Finset Identifier) : Prop :=
  Set.InjOn Identifier.id (members : Set Identifier)

variable {members : Finset Identifier}

instance : Decidable (DistinctIds members) :=
  decidable_of_iff (∀ p ∈ members, ∀ q ∈ members, p.id = q.id → p = q)
    ⟨fun h _ hp _ hq => h _ hp _ hq, fun h _ hp _ hq => h hp hq⟩

instance (k : RingId) (p : Identifier) : Decidable (Nearest members k p) :=
  inferInstanceAs (Decidable (_ ∧ _))

instance (p q : Identifier) : Decidable (Next members p q) :=
  inferInstanceAs (Decidable (Nearest _ _ _))

instance (p q : Identifier) : Decidable (Previous members p q) :=
  inferInstanceAs (Decidable (_ ∧ _))

theorem exists_nearest (h : members.Nonempty) (k : RingId) : ∃ p, Nearest members k p := by
  obtain ⟨p, hp, hmin⟩ := members.exists_min_image (fun q => distance k q.id) h
  exact ⟨p, hp, hmin⟩

theorem Nearest.unique (distinct : DistinctIds members) {k : RingId} {p q : Identifier}
    (hp : Nearest members k p) (hq : Nearest members k q) : p = q := by
  have heq : distance k p.id = distance k q.id :=
    Nat.le_antisymm (hp.2 q hq.1) (hq.2 p hp.1)
  exact distinct hp.1 hq.1 (distance_inj.1 heq)

/-- What is nearest among many is nearest among fewer. -/
theorem Nearest.mono {fewer : Finset Identifier} {k : RingId} {p : Identifier}
    (h : Nearest members k p) (hsub : fewer ⊆ members) (hp : p ∈ fewer) : Nearest fewer k p :=
  ⟨hp, fun q hq => h.2 q (hsub hq)⟩

/-- A member at the very position is nearest to it. -/
theorem nearest_self {p : Identifier} (hp : p ∈ members) : Nearest members p.id p := by
  refine ⟨hp, ?_⟩
  intro q _
  rw [distance_self]
  exact Nat.zero_le _

theorem nearest_singleton (k : RingId) (p : Identifier) : Nearest {p} k p := by
  refine ⟨Finset.mem_singleton_self p, ?_⟩
  intro q hq
  rw [Finset.mem_singleton.1 hq]

theorem Next.mem {p q : Identifier} (h : Next members p q) : q ∈ members := h.1

/-- The next member lies no farther than any other member. -/
theorem Next.distance_le {p q r : Identifier} (h : Next members p q) (hr : r ∈ members)
    (hpr : r.id ≠ p.id) : 0 < distance p.id q.id ∧ distance p.id q.id ≤ distance p.id r.id := by
  have hle := h.2 r hr
  rw [distance_ahead_one hpr.symm] at hle
  have hpos := distance_pos.2 hpr.symm
  by_cases hpq : p.id = q.id
  · rw [← hpq, distance_ahead_one_self] at hle
    have hlt := distance_lt p.id r.id
    omega
  · rw [distance_ahead_one hpq] at hle
    have hq := distance_pos.2 hpq
    omega

/-- A member that lies ahead of `p` and no farther than any other is next. -/
theorem next_of_distance_le {p q : Identifier} (hq : q ∈ members) (hpq : p.id ≠ q.id)
    (h : ∀ r ∈ members, r.id ≠ p.id → distance p.id q.id ≤ distance p.id r.id) :
    Next members p q := by
  refine ⟨hq, ?_⟩
  intro r hr
  rw [distance_ahead_one hpq]
  by_cases hpr : p.id = r.id
  · rw [← hpr, distance_ahead_one_self]
    have hlt := distance_lt p.id q.id
    omega
  · have hle := h r hr (Ne.symm hpr)
    rw [distance_ahead_one hpr]
    omega

/-- Only a member that is alone comes next to itself. -/
theorem Next.eq_of_id_eq (distinct : DistinctIds members) {p q : Identifier} (hp : p ∈ members)
    (h : Next members p q) (hid : q.id = p.id) : ∀ r ∈ members, r = p := by
  intro r hr
  by_contra hne
  have hrp : r.id ≠ p.id := fun heq => hne (distinct hr hp heq)
  have hpos := (h.distance_le hr hrp).1
  rw [hid, distance_self] at hpos
  exact Nat.lt_irrefl 0 hpos

theorem next_singleton (p : Identifier) : Next {p} p p := nearest_singleton _ p

theorem previous_singleton (p : Identifier) : Previous {p} p p :=
  ⟨Finset.mem_singleton_self p, next_singleton p⟩

/-- A key on the arc from a member to the next one belongs to the next one. -/
theorem Next.nearest {p q : Identifier} (h : Next members p q) {k : RingId}
    (hpos : 0 < distance p.id k) (hle : distance p.id k ≤ distance p.id q.id) :
    Nearest members k q := by
  refine ⟨h.mem, ?_⟩
  intro r hr
  rw [distance_of_le (o := p.id) hle]
  by_cases hrp : r.id = p.id
  · have hlt : distance p.id r.id < distance p.id k := by
      rw [hrp, distance_self]
      exact hpos
    rw [distance_of_lt hlt]
    have hq := distance_lt p.id q.id
    omega
  · have hqr := (h.distance_le hr hrp).2
    rw [distance_of_le (o := p.id) (Nat.le_trans hle hqr)]
    omega

/-- Two members have one next member only if they are one. -/
theorem Next.left_unique (distinct : DistinctIds members) {p q r : Identifier} (hp : p ∈ members)
    (hq : q ∈ members) (hpr : Next members p r) (hqr : Next members q r) : p = q := by
  by_contra hne
  have hid : p.id ≠ q.id := fun h => hne (distinct hp hq h)
  -- seen from `p`, `r` is not beyond `q`, and seen from `q` it is not beyond `p`
  have h₁ := hpr.distance_le hq hid.symm
  have h₂ := hqr.distance_le hp hid
  have hlt := distance_lt p.id q.id
  rw [distance_swap hid] at h₂
  by_cases hle : distance p.id q.id ≤ distance p.id r.id
  · rw [distance_of_le hle] at h₂
    omega
  · rw [distance_of_lt (Nat.lt_of_not_le hle)] at h₂
    omega

theorem Previous.unique (distinct : DistinctIds members) {p q r : Identifier}
    (hq : Previous members p q) (hr : Previous members p r) : q = r :=
  hq.2.left_unique distinct hq.1 hr.1 hr.2

/-- Every member has a previous one. -/
theorem exists_previous {p : Identifier} (hp : p ∈ members) : ∃ q, Previous members p q := by
  by_cases halone : ∀ r ∈ members, r.id = p.id
  · refine ⟨p, hp, hp, ?_⟩
    intro r hr
    rw [halone r hr]
  · push Not at halone
    obtain ⟨r, hr, hrp⟩ := halone
    obtain ⟨others, hothers⟩ : ∃ others : Finset Identifier,
        ∀ q, q ∈ others ↔ q ∈ members ∧ q.id ≠ p.id :=
      ⟨members.filter fun q => q.id ≠ p.id, fun q => Finset.mem_filter⟩
    have hne : others.Nonempty := ⟨r, (hothers r).2 ⟨hr, hrp⟩⟩
    obtain ⟨q, hq, hmin⟩ := others.exists_min_image (fun q => distance q.id p.id) hne
    obtain ⟨hq, hqp⟩ := (hothers q).1 hq
    refine ⟨q, hq, next_of_distance_le hp hqp ?_⟩
    intro s hs hsq
    by_cases hsp : s.id = p.id
    · rw [hsp]
    -- a member `s` met before `p` would be closer to `p` than `q`
    · have hle := hmin s ((hothers s).2 ⟨hs, hsp⟩)
      by_contra hlt
      rw [distance_of_le (o := q.id) (a := s.id) (b := p.id) (by omega)] at hle
      have hpos := distance_pos.2 (Ne.symm hsq)
      omega

/-! ## A newcomer -/

section Newcomer

variable {x : Identifier}

theorem distinctIds_insert (distinct : DistinctIds members) (free : ∀ p ∈ members, p.id ≠ x.id) :
    DistinctIds (insert x members) := by
  intro p hp q hq hpq
  rw [Finset.mem_coe, Finset.mem_insert] at hp hq
  rcases hp with rfl | hp <;> rcases hq with rfl | hq
  · rfl
  · exact absurd hpq.symm (free q hq)
  · exact absurd hpq (free p hp)
  · exact distinct hp hq hpq

/-- The member nearest to a newcomer comes next to it. -/
theorem next_newcomer {s : Identifier} (free : ∀ p ∈ members, p.id ≠ x.id)
    (hs : Nearest members x.id s) : Next (insert x members) x s := by
  apply next_of_distance_le (Finset.mem_insert_of_mem hs.1) (free s hs.1).symm
  intro r hr hrx
  rcases Finset.mem_insert.1 hr with rfl | hr
  · exact absurd rfl hrx
  · exact hs.2 r hr

/-- The newcomer comes next to the member before the nearest one. -/
theorem next_insert_previous {p s : Identifier} (free : ∀ p ∈ members, p.id ≠ x.id)
    (hs : Nearest members x.id s) (hp : Previous members s p) : Next (insert x members) p x := by
  apply next_of_distance_le (Finset.mem_insert_self x members) (free p hp.1)
  intro r hr hrp
  rcases Finset.mem_insert.1 hr with rfl | hr
  · exact Nat.le_refl _
  have hps := hp.2.distance_le hr hrp
  have hsp := hs.2 p hp.1
  by_contra hlt
  -- otherwise `s`, at or before `r`, lies between `p` and the newcomer, which meets `p` first
  have hxs : distance x.id s.id = 65536 - distance p.id x.id + distance p.id s.id :=
    distance_of_lt (by omega)
  have hxp : distance x.id p.id = 65536 - distance p.id x.id := distance_swap (free p hp.1)
  omega

/-- A member that does not come before the nearest one keeps its next member. -/
theorem Next.insert {p q s : Identifier} (distinct : DistinctIds members)
    (free : ∀ p ∈ members, p.id ≠ x.id) (hs : Nearest members x.id s) (hp : p ∈ members)
    (hq : Next members p q) (hqs : q ≠ s) : Next (insert x members) p q := by
  have hpx := free p hp
  by_cases hpq : p.id = q.id
  · have hsp := hq.eq_of_id_eq distinct hp hpq.symm s hs.1
    have hqp := hq.eq_of_id_eq distinct hp hpq.symm q hq.mem
    exact absurd (hqp.trans hsp.symm) hqs
  apply next_of_distance_le (Finset.mem_insert_of_mem hq.mem) hpq
  intro r hr hrp
  rcases Finset.mem_insert.1 hr with rfl | hr
  · by_contra hlt
    have hnear := hq.nearest (distance_pos.2 hpx) (by omega)
    exact hqs (hnear.unique distinct hs)
  · exact (hq.distance_le hr hrp).2

theorem Previous.insert {p q s : Identifier} (distinct : DistinctIds members)
    (free : ∀ p ∈ members, p.id ≠ x.id) (hs : Nearest members x.id s) (h : Previous members p q)
    (hps : p ≠ s) : Previous (insert x members) p q :=
  ⟨Finset.mem_insert_of_mem h.1, h.2.insert distinct free hs h.1 hps⟩

end Newcomer

end ChordRing
