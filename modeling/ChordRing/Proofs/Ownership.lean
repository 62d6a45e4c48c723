import ChordRing.Proofs.Walk

/-!
# Who is responsible for a key

A member takes a key for its own by its predecessor alone, without looking at anyone else
(`Route.owns`). With true predecessors the arcs that the members take neither overlap nor leave a gap:
a member is responsible for exactly the keys that it is nearest to (`owns_iff_nearest`), so every key
has one member that is responsible for it (`key_has_one_owner`).
-/

namespace ChordRing

open RingId

namespace Route

variable {members : Finset Identifier}

/-- No arc is missing: the member nearest to a key is responsible for it. -/
theorem owns_of_nearest (distinct : DistinctIds members) {p q : Identifier} {k : RingId}
    (hq : Previous members p q) (h : Nearest members k p) : owns p q k = true := by
  rw [owns, Bool.or_eq_true, Bool.or_eq_true, beq_iff_eq, beq_iff_eq]
  -- alone, a member takes every key; otherwise its arc starts at another member
  by_cases halone : q = p
  · exact Or.inl (Or.inr halone)
  have hqp : q.id ≠ p.id := fun hid => halone (distinct hq.1 h.1 hid)
  have hkq : q.id ≠ k := by
    rintro rfl
    exact halone ((nearest_self hq.1).unique distinct h)
  refine Or.inr (isBetween_iff.2 ⟨distance_pos.2 hkq, ?_⟩)
  -- from a key beyond `p` the start of the arc is met before `p`
  by_contra hbeyond
  have hkp : distance k p.id = 65536 - distance q.id k + distance q.id p.id :=
    distance_of_lt (Nat.lt_of_not_le hbeyond)
  have hkq' : distance k q.id = 65536 - distance q.id k := distance_swap hkq
  have hle : distance k p.id ≤ distance k q.id := h.2 q hq.1
  have hpos : 0 < distance q.id p.id := distance_pos.2 hqp
  omega

/-- By its true predecessor, a member is responsible for the keys that it is nearest to. -/
theorem owns_iff_nearest (distinct : DistinctIds members) {p q : Identifier} (hp : p ∈ members)
    (hq : Previous members p q) (k : RingId) : owns p q k = true ↔ Nearest members k p :=
  ⟨FingerTable.nearest_of_owns hp distinct hq, owns_of_nearest distinct hq⟩

/-- **Ownership partitions the keys.** Where every member has its true predecessor, exactly one
member is responsible for a key, and it is the one member at the smallest clockwise distance from
it. -/
theorem key_has_one_owner (hne : members.Nonempty) (distinct : DistinctIds members)
    {predecessor : Identifier → Identifier}
    (previous : ∀ p ∈ members, Previous members p (predecessor p)) (k : RingId) :
    ∃ p ∈ members, (∀ q ∈ members, owns q (predecessor q) k = true ↔ q = p) ∧
      ∀ q, Nearest members k q ↔ q = p := by
  obtain ⟨p, hp⟩ := exists_nearest hne k
  have hnearest : ∀ q, Nearest members k q ↔ q = p :=
    fun q => ⟨fun hq => hq.unique distinct hp, fun hqp => hqp ▸ hp⟩
  refine ⟨p, hp.1, ?_, hnearest⟩
  intro q hq
  rw [owns_iff_nearest distinct hq (previous q hq), hnearest]

end Route

namespace Trio

open Route

/-- A key behind the last of three peers belongs to the first one, past the start of the ring. -/
theorem key_has_one_owner_past_start :
    members.Nonempty ∧ DistinctIds members ∧
      (∀ p ∈ members, Previous members p (predecessor p)) ∧
      ∃ p ∈ members, (∀ q ∈ members, owns q (predecessor q) ⟨65300⟩ = true ↔ q = p) ∧
        ∀ q, Nearest members ⟨65300⟩ q ↔ q = p := by
  have hne : members.Nonempty := ⟨first, by decide +kernel⟩
  have distinct : DistinctIds members := by decide +kernel
  have previous : ∀ p ∈ members, Previous members p (predecessor p) := by decide +kernel
  exact ⟨hne, distinct, previous, key_has_one_owner hne distinct previous ⟨65300⟩⟩

end Trio

end ChordRing
