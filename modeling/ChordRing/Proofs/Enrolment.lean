import ChordRing.Discovery
import ChordRing.Proofs.Members

/-!
# Enrolment

What the registry of a discovery node says about the members of a ring. `Registry.Lists` holds when
the registry names exactly the members, in strictly ascending order of their ring ids; it then is
the only registry that does (`Registry.Lists.unique`). The three answers to a candidate follow:
it is the first, its ring id is held, or it gets some member to contact.
-/

namespace ChordRing

namespace Registry

/-- The registry names exactly the members, in ascending order of their ring ids. -/
structure Lists (r : Registry) (members : Finset Identifier) : Prop where
  mem : ∀ p, p ∈ r.members ↔ p ∈ members
  sorted : r.members.Pairwise fun p q => p.id.value < q.id.value

variable {r r' : Registry} {members : Finset Identifier} {x : Identifier}

theorem lists_empty : Registry.empty.Lists ∅ :=
  ⟨fun p => by simp [Registry.empty], List.Pairwise.nil⟩

/-- A registry names nobody if and only if there is nobody to name. -/
theorem Lists.members_eq_nil_iff (h : r.Lists members) : r.members = [] ↔ members = ∅ := by
  rw [List.eq_nil_iff_forall_not_mem, Finset.eq_empty_iff_forall_notMem]
  exact forall_congr' fun p => not_congr (h.mem p)

theorem holds_iff {id : RingId} : r.holds id = true ↔ ∃ p ∈ r.members, p.id = id := by
  rw [holds, holder?, List.find?_isSome]
  simp only [beq_iff_eq]

theorem mem_place {p q : Identifier} (l : List Identifier) : q ∈ place p l ↔ q = p ∨ q ∈ l := by
  induction l with
  | nil => rw [place, List.mem_singleton, or_iff_left List.not_mem_nil]
  | cons first rest ih =>
      rw [place]
      split
      · exact List.mem_cons
      · rw [List.mem_cons, ih, List.mem_cons]
        exact or_left_comm

/-- A member with a ring id of its own finds its place in the order. -/
theorem pairwise_place {p : Identifier} {l : List Identifier}
    (hsorted : l.Pairwise fun a b => a.id.value < b.id.value) (free : ∀ q ∈ l, q.id ≠ p.id) :
    (place p l).Pairwise fun a b => a.id.value < b.id.value := by
  induction l with
  | nil => exact List.pairwise_singleton _ _
  | cons first rest ih =>
      obtain ⟨hfirst, hrest⟩ := List.pairwise_cons.1 hsorted
      rw [place]
      by_cases hlt : p.id.value < first.id.value
      · rw [if_pos hlt, List.pairwise_cons]
        refine ⟨fun q hq => ?_, hsorted⟩
        rcases List.mem_cons.1 hq with rfl | hq
        · exact hlt
        · exact UInt16.lt_trans hlt (hfirst q hq)
      · rw [if_neg hlt, List.pairwise_cons]
        have hne : first.id.value ≠ p.id.value := fun heq =>
          free first List.mem_cons_self (congrArg RingId.mk heq)
        have hgt : first.id.value < p.id.value :=
          UInt16.lt_of_le_of_ne (UInt16.not_lt.1 hlt) hne
        refine ⟨fun q hq => ?_, ih hrest fun q hq => free q (List.mem_cons_of_mem first hq)⟩
        rcases (mem_place rest).1 hq with rfl | hq
        · exact hgt
        · exact hfirst q hq

theorem Lists.insert (h : r.Lists members) (free : ∀ p ∈ members, p.id ≠ x.id) :
    (r.insert x).Lists (Insert.insert x members) := by
  have hfree : ∀ p ∈ r.members, p.id ≠ x.id := fun p hp => free p ((h.mem p).1 hp)
  have hholds : ¬ r.holds x.id = true := by
    intro hholds
    obtain ⟨p, hp, hid⟩ := holds_iff.1 hholds
    exact hfree p hp hid
  rw [Registry.insert, if_neg hholds]
  refine ⟨fun p => ?_, pairwise_place h.sorted hfree⟩
  rw [mem_place, h.mem, Finset.mem_insert]

theorem Lists.nodup (h : r.Lists members) : r.members.Nodup := by
  apply h.sorted.imp
  intro p q hlt heq
  rw [heq] at hlt
  exact UInt16.lt_irrefl _ hlt

theorem Lists.erase (h : r.Lists members) (x : Identifier) :
    (r.erase x).Lists (members.erase x) where
  mem := by
    intro p
    rw [Registry.erase, h.nodup.mem_erase_iff, h.mem, Finset.mem_erase]
  sorted := h.sorted.sublist List.erase_sublist

/-- Members in ascending order come in one order only. -/
theorem Lists.unique (h : r.Lists members) (h' : r'.Lists members) : r = r' := by
  rcases r with ⟨l⟩
  rcases r' with ⟨l'⟩
  have hperm : l.Perm l' := (List.perm_ext_iff_of_nodup h.nodup h'.nodup).2
    fun p => (h.mem p).trans (h'.mem p).symm
  have hantisymm : ∀ p q : Identifier, p ∈ l → q ∈ l' → p.id.value < q.id.value →
      q.id.value < p.id.value → p = q :=
    fun p q _ _ hpq hqp => absurd (UInt16.lt_trans hpq hqp) (UInt16.lt_irrefl _)
  exact congrArg Registry.mk (hperm.eq_of_pairwise hantisymm h.sorted h'.sorted)

/-- A registry with members picks one, whatever number is drawn. -/
theorem exists_pick? (h : r.members ≠ []) (lot : Nat) : ∃ p ∈ r.members, r.pick? lot = some p := by
  have hlt : lot % r.members.length < r.members.length :=
    Nat.mod_lt _ (List.length_pos_iff.2 h)
  exact ⟨r.members[lot % r.members.length], List.getElem_mem hlt, List.getElem?_eq_getElem hlt⟩

end Registry

namespace Discovery

variable {d : Discovery} {x : Identifier}

theorem register_first (h : d.registry.members = []) (lot : Nat) :
    d.register lot x = .registerPeerResponse true x := by
  rw [register, Registry.isEmpty, h]
  rfl

theorem register_taken (h : ∃ p ∈ d.registry.members, p.id = x.id) (lot : Nat) :
    d.register lot x = .registerPeerResponse false x := by
  have hempty : ¬ d.registry.isEmpty = true := by
    obtain ⟨p, hp, -⟩ := h
    rw [Registry.isEmpty, List.isEmpty_iff]
    exact List.ne_nil_of_mem hp
  rw [register, if_neg hempty, if_pos (Registry.holds_iff.2 h)]

/-- A candidate with a free ring id gets a member to contact. -/
theorem exists_register_free (hne : d.registry.members ≠ [])
    (free : ∀ p ∈ d.registry.members, p.id ≠ x.id) (lot : Nat) :
    ∃ contact ∈ d.registry.members,
      d.register lot x = .registerPeerResponse true contact := by
  obtain ⟨p, hp, hpick⟩ := Registry.exists_pick? hne lot
  have hempty : ¬ d.registry.isEmpty = true := by
    rw [Registry.isEmpty, List.isEmpty_iff]
    exact hne
  have hholds : ¬ d.registry.holds x.id = true := by
    intro hholds
    obtain ⟨q, hq, hid⟩ := Registry.holds_iff.1 hholds
    exact free q hq hid
  exact ⟨p, hp, by rw [register, if_neg hempty, if_neg hholds, hpick, Option.getD_some]⟩

end Discovery

end ChordRing
