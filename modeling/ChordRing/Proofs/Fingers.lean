import ChordRing.Proofs.Members
import ChordRing.Route

/-!
# What a finger table knows

Two grades of knowledge. A table is `Sound` for a set of members when its first entry is the
owner's next member and every entry is a member; the answers of routing rest on that alone
(`findSuccessor_of_sound`). It is `Converged` when every entry is the member nearest to the position
it covers. Learning of a peer turns a table that is converged for some members into one that is
converged for those and the peer (`Converged.update`).
-/

namespace ChordRing

open RingId

namespace FingerTable

variable {members : Finset Identifier} {t : FingerTable}

/-- A table of full size whose entries are nearest to the positions they cover. -/
structure Converged (members : Finset Identifier) (t : FingerTable) : Prop where
  size : t.size = fullSize
  nearest : ∀ i p, t.get? i = some p → Nearest members (t.position i) p

/-- A table whose first entry is the owner's next member and whose entries are members. -/
structure Sound (members : Finset Identifier) (t : FingerTable) : Prop where
  first : Next members t.owner t.first
  entries : ∀ p ∈ t.entries, p ∈ members

instance : Decidable (Converged members t) :=
  decidable_of_iff (t.size = fullSize ∧
      ∀ i ∈ List.range t.size, ∀ p ∈ t.get? i, Nearest members (t.position i) p)
    ⟨fun h => ⟨h.1, fun i p hp =>
        h.2 i (List.mem_range.2 (List.getElem?_eq_some_iff.1 hp).1) p hp⟩,
      fun h => ⟨h.size, fun i _ p hp => h.nearest i p hp⟩⟩

instance : Decidable (Sound members t) :=
  decidable_of_iff (Next members t.owner t.first ∧ ∀ p ∈ t.entries, p ∈ members)
    ⟨fun h => ⟨h.1, h.2⟩, fun h => ⟨h.first, h.entries⟩⟩

/-! ## Positions and entries -/

@[simp] theorem owner_update (t : FingerTable) (p : Identifier) : (t.update p).owner = t.owner :=
  rfl

@[simp] theorem position_update (t : FingerTable) (p : Identifier) :
    (t.update p).position = t.position := by
  funext i
  simp only [position, owner_update, size_update]

/-- A full table covers the positions at the powers of two. -/
theorem position_eq_ahead (h : t.size = fullSize) (i : Nat) :
    t.position i = t.owner.id.ahead (2 ^ i) := by
  apply eq_of_toNat_eq
  rw [position, ahead, h, Nat.one_shiftLeft, toNat_ofNat, toNat_ofNat]
  exact Nat.mod_mod _ _

theorem get?_lt {i : Nat} {p : Identifier} (h : t.get? i = some p) : i < t.size :=
  (List.getElem?_eq_some_iff.1 h).1

theorem exists_get? {i : Nat} (h : i < t.size) : ∃ p, t.get? i = some p :=
  ⟨t.entries[i], List.getElem?_eq_getElem h⟩

theorem get?_mem {i : Nat} {p : Identifier} (h : t.get? i = some p) : p ∈ t.entries :=
  List.mem_of_getElem? h

theorem first_of_get? {p : Identifier} (h : t.get? 0 = some p) : t.first = p := by
  rcases t with ⟨owner, entries⟩
  cases entries with
  | nil => exact absurd h (by simp [get?])
  | cons q rest => exact Option.some.inj h

theorem get?_set {i j : Nat} {p q : Identifier} (h : (t.set i p).get? j = some q) :
    (i = j ∧ q = p) ∨ (i ≠ j ∧ t.get? j = some q) := by
  simp only [get?, set, List.getElem?_set] at h
  by_cases hij : i = j
  · rw [if_pos hij] at h
    split at h
    · exact Or.inl ⟨hij, (Option.some.inj h).symm⟩
    · exact absurd h (by simp)
  · rw [if_neg hij] at h
    exact Or.inr ⟨hij, h⟩

theorem get?_update {i : Nat} {p q : Identifier} (h : (t.update p).get? i = some q) :
    ∃ current, t.get? i = some current ∧ q = t.tightened p i current := by
  simp only [get?, update, List.getElem?_mapIdx, Option.map_eq_some_iff] at h
  obtain ⟨current, hcurrent, hq⟩ := h
  exact ⟨current, hcurrent, hq.symm⟩

theorem size_update_eq {p : Identifier} (h : t.size = fullSize) : (t.update p).size = fullSize := by
  rw [size_update, h]

/-! ## Convergence -/

theorem converged_new (p : Identifier) : Converged {p} (new fullSize p) where
  size := size_new fullSize p
  nearest := by
    intro i q h
    have hq : q = p := List.eq_of_mem_replicate (get?_mem h)
    rw [hq]
    exact nearest_singleton _ p

/-- A peer tightens an entry unless the entry is strictly closer to the covered position, or is
that peer already. -/
theorem tightens_iff {p current : Identifier} {covered : RingId} :
    tightens p covered current = true ↔
      current ≠ p ∧ distance covered p.id ≤ distance covered current.id := by
  simp only [tightens, Bool.and_eq_true, bne_iff_ne, Bool.or_eq_true, beq_iff_eq, isBetween_iff,
    and_congr_right_iff]
  intro _
  constructor
  · rintro (rfl | ⟨-, hle⟩)
    · rw [distance_self]
      exact Nat.zero_le _
    · exact hle
  · intro hle
    -- at the covered position itself the arc is empty, and equality decides
    by_cases heq : p.id = covered
    · exact Or.inl heq
    · exact Or.inr ⟨distance_pos.2 (Ne.symm heq), hle⟩

theorem not_tightens_iff {p current : Identifier} {covered : RingId} :
    ¬ tightens p covered current = true ↔
      current = p ∨ distance covered current.id < distance covered p.id := by
  rw [tightens_iff, not_and_or, not_not, Nat.not_le]

/-- What an entry becomes is the nearest to its position among what the entry was nearest among,
with the peer added. -/
theorem nearest_tightened {i : Nat} {current : Identifier} (p : Identifier)
    (h : Nearest members (t.position i) current) :
    Nearest (insert p members) (t.position i) (t.tightened p i current) := by
  have hold : ∀ q ∈ members,
      distance (t.position i) current.id ≤ distance (t.position i) q.id := h.2
  unfold tightened
  by_cases hp : tightens p (t.position i) current = true
  · obtain ⟨-, hle⟩ := tightens_iff.1 hp
    rw [if_pos hp]
    refine ⟨Finset.mem_insert_self p members, ?_⟩
    intro q hq
    rcases Finset.mem_insert.1 hq with rfl | hq
    · exact Nat.le_refl _
    · exact Nat.le_trans hle (hold q hq)
  · rw [if_neg hp]
    refine ⟨Finset.mem_insert_of_mem h.1, ?_⟩
    intro q hq
    rcases Finset.mem_insert.1 hq with rfl | hq
    · rcases not_tightens_iff.1 hp with heq | hlt
      · rw [heq]
      · exact Nat.le_of_lt hlt
    · exact hold q hq

/-- Learning of a peer adds it to the members that a table is converged for. -/
theorem Converged.update (h : Converged members t) (p : Identifier) :
    Converged (insert p members) (t.update p) where
  size := size_update_eq h.size
  nearest := by
    intro i q hq
    obtain ⟨current, hcurrent, rfl⟩ := get?_update hq
    rw [position_update]
    exact nearest_tightened p (h.nearest i current hcurrent)

theorem Converged.entries (h : Converged members t) : ∀ p ∈ t.entries, p ∈ members := by
  intro p hp
  obtain ⟨i, hi⟩ := List.mem_iff_getElem?.1 hp
  exact (h.nearest i p hi).1

theorem Converged.exists_get? (h : Converged members t) {i : Nat} (hi : i < fullSize) :
    ∃ p, t.get? i = some p ∧ Nearest members (t.owner.id.ahead (2 ^ i)) p := by
  obtain ⟨p, hp⟩ := FingerTable.exists_get? (t := t) (by rw [h.size]; exact hi)
  have hnear := h.nearest i p hp
  rw [position_eq_ahead h.size] at hnear
  exact ⟨p, hp, hnear⟩

theorem Converged.sound (h : Converged members t) : Sound members t where
  first := by
    obtain ⟨p, hp, hnear⟩ := h.exists_get? (i := 0) (by norm_num [fullSize])
    rw [first_of_get? hp]
    exact hnear
  entries := h.entries

/-! ## The closest preceding entry -/

theorem precedes_iff {k : RingId} {p : Identifier} :
    t.precedes k p = true ↔
      0 < distance t.owner.id p.id ∧ distance t.owner.id p.id < distance t.owner.id k := by
  simp only [precedes, Bool.and_eq_true, bne_iff_ne, isBetween_iff]
  constructor
  · rintro ⟨hne, hpos, hle⟩
    exact ⟨hpos, Nat.lt_of_le_of_ne hle fun heq => hne (distance_inj.1 heq)⟩
  · rintro ⟨hpos, hlt⟩
    refine ⟨fun heq => ?_, hpos, Nat.le_of_lt hlt⟩
    rw [heq] at hlt
    exact Nat.lt_irrefl _ hlt

theorem ne_owner_of_precedes {k : RingId} {p : Identifier} (h : t.precedes k p = true) :
    p ≠ t.owner := by
  rintro rfl
  have hpos := (precedes_iff.1 h).1
  rw [distance_self] at hpos
  exact Nat.lt_irrefl 0 hpos

/-- What is kept of an entry held so far and a later one is one of them and at least as far as
both. -/
theorem exists_farther (t : FingerTable) (held : Option Identifier) (p : Identifier) :
    ∃ g, t.farther held p = some g ∧ (g = p ∨ held = some g) ∧
      ∀ e, e = p ∨ held = some e → distance t.owner.id e.id ≤ distance t.owner.id g.id := by
  cases held with
  | none =>
      refine ⟨p, rfl, Or.inl rfl, ?_⟩
      intro e he
      rcases he with rfl | he
      · exact Nat.le_refl _
      · cases he
  | some q =>
      by_cases hqp : distance t.owner.id q.id ≤ distance t.owner.id p.id
      · refine ⟨p, by simp [farther, hqp], Or.inl rfl, ?_⟩
        intro e he
        rcases he with rfl | he
        · exact Nat.le_refl _
        · rwa [← Option.some.inj he]
      · refine ⟨q, by simp [farther, hqp], Or.inr rfl, ?_⟩
        intro e he
        rcases he with rfl | he
        · exact Nat.le_of_not_le hqp
        · rw [← Option.some.inj he]

/-- Folding `farther` ends at an entry that is at least as far as all it was folded over. -/
theorem foldl_farther (l : List Identifier) :
    ∀ (held : Option Identifier),
      (l.foldl t.farther held = none → held = none ∧ l = []) ∧
        ∀ f, l.foldl t.farther held = some f → (f ∈ l ∨ held = some f) ∧
          ∀ e, e ∈ l ∨ held = some e → distance t.owner.id e.id ≤ distance t.owner.id f.id := by
  -- induction on the entries, for any entry that is held so far
  induction l with
  | nil =>
      intro held
      refine ⟨fun h => ⟨h, rfl⟩, fun f hf => ⟨Or.inr hf, fun e he => ?_⟩⟩
      have hef : e = f := Option.some.inj ((he.resolve_left List.not_mem_nil).symm.trans hf)
      rw [hef]
  | cons p rest ih =>
      intro held
      rw [List.foldl_cons]
      obtain ⟨hnone, hsome⟩ := ih (t.farther held p)
      obtain ⟨g, hg, hmem, hle⟩ := exists_farther t held p
      refine ⟨fun h => absurd (hnone h).1 (by simp [hg]), ?_⟩
      intro f hf
      obtain ⟨hfmem, hfle⟩ := hsome f hf
      have hgf := hfle g (Or.inr hg)
      constructor
      · rcases hfmem with hfmem | hfg
        · exact Or.inl (List.mem_cons_of_mem p hfmem)
        · have hgf' : g = f := Option.some.inj (hg.symm.trans hfg)
          rcases hmem with rfl | hheld
          · exact Or.inl (hgf' ▸ List.mem_cons_self)
          · exact Or.inr (hgf' ▸ hheld)
      · intro e he
        rcases he with he | he
        · rcases List.mem_cons.1 he with rfl | he
          · exact Nat.le_trans (hle e (Or.inl rfl)) hgf
          · exact hfle e (Or.inl he)
        · exact Nat.le_trans (hle e (Or.inr he)) hgf

theorem closestPreceding_eq_none {k : RingId} (h : t.closestPreceding k = none) :
    ∀ p ∈ t.entries, t.precedes k p = false := by
  intro p hp
  have hnil := ((foldl_farther (t := t) _ none).1 h).2
  rw [List.filter_eq_nil_iff] at hnil
  exact Bool.not_eq_true _ ▸ hnil p hp

/-- The closest preceding entry lies strictly between the owner and the key, and no entry that does
lies farther on. -/
theorem closestPreceding_eq_some {k : RingId} {f : Identifier}
    (h : t.closestPreceding k = some f) :
    f ∈ t.entries ∧ t.precedes k f = true ∧
      ∀ p ∈ t.entries, t.precedes k p = true →
        distance t.owner.id p.id ≤ distance t.owner.id f.id := by
  obtain ⟨hmem, hle⟩ := (foldl_farther (t := t) _ none).2 f h
  have hf := List.mem_filter.1 (hmem.resolve_right (by simp))
  exact ⟨hf.1, hf.2, fun p hp hprec => hle p (Or.inl (List.mem_filter.2 ⟨hp, hprec⟩))⟩

/-! ## The routing decision -/

theorem successor_of_knows {k : RingId} (hk : k ≠ t.owner.id)
    (h : k.isBetween t.owner.id t.first.id = true) : t.successor k = t.first := by
  -- the first entry already lies behind the key, so the scan stops there
  rcases t with ⟨owner, entries⟩
  cases entries with
  | nil =>
      have hpos := isBetween_iff.1 h
      simp only [first, List.headD_nil, distance_self] at hpos
      omega
  | cons q rest =>
      have hfind : (q :: rest).find? (fun p => k.isBetween owner.id p.id) = some q :=
        List.find?_cons_of_pos h
      rw [successor, if_neg hk, hfind]
      rfl

/-- A table without members but the owner answers with the owner. -/
theorem successor_of_alone {k : RingId} (h : ∀ p ∈ t.entries, p = t.owner) :
    t.successor k = t.owner := by
  unfold successor
  split
  · rfl
  · cases hfind : t.entries.find? fun p => k.isBetween t.owner.id p.id with
    | some p => exact h p (List.mem_of_find?_eq_some hfind)
    | none =>
        rw [Option.getD_none, last, List.getLastD_eq_getLast?]
        cases hlast : t.entries.getLast? with
        | none => rfl
        | some p => exact h p (List.mem_of_getLast? hlast)

/-- If the first entry does not decide on a key and no entry precedes it, the first entry has the
owner's ring id. -/
theorem id_first_of_closestPreceding_eq_none {k : RingId} (hknows : ¬ t.knowsSuccessorOf k = true)
    (hc : t.closestPreceding k = none) : t.first.id = t.owner.id := by
  simp only [knowsSuccessorOf, Bool.or_eq_true, beq_iff_eq, not_or] at hknows
  obtain ⟨hk, hfirst⟩ := hknows
  by_contra hne
  have hkpos := distance_pos.2 (Ne.symm hk)
  have hfpos := distance_pos.2 (Ne.symm hne)
  have hlt : distance t.owner.id t.first.id < distance t.owner.id k := by
    by_contra hle
    exact hfirst (isBetween_iff.2 ⟨hkpos, Nat.le_of_not_lt hle⟩)
  have hmem : t.first ∈ t.entries := by
    rcases t with ⟨owner, entries⟩
    cases entries with
    | nil => exact absurd rfl hne
    | cons q rest => exact List.mem_cons_self
  have hprec := closestPreceding_eq_none hc t.first hmem
  rw [precedes_iff.2 ⟨hfpos, hlt⟩] at hprec
  exact Bool.noConfusion hprec

/-- Where a search goes from a sound table: it is answered with the member nearest to the key, or
handed to the closest preceding entry. -/
theorem findSuccessor_of_sound (distinct : DistinctIds members) (howner : t.owner ∈ members)
    (h : Sound members t) (k : RingId) :
    (∃ q, Route.findSuccessor t k = .answer q ∧ Nearest members k q) ∨
      ∃ f, Route.findSuccessor t k = .forward f ∧ t.closestPreceding k = some f := by
  by_cases hk : k = t.owner.id
  · left
    refine ⟨t.owner, ?_, hk ▸ nearest_self howner⟩
    simp [Route.findSuccessor, knowsSuccessorOf, successor, hk]
  by_cases hfirst : k.isBetween t.owner.id t.first.id = true
  · left
    obtain ⟨hpos, hle⟩ := isBetween_iff.1 hfirst
    refine ⟨t.first, ?_, h.first.nearest hpos hle⟩
    rw [Route.findSuccessor, knowsSuccessorOf, hfirst, Bool.or_true, if_pos rfl,
      successor_of_knows hk hfirst]
  have hknows : ¬ t.knowsSuccessorOf k = true := by
    simp [knowsSuccessorOf, hk, hfirst]
  cases hc : t.closestPreceding k with
  | some f =>
      right
      have hnext : Route.nextHop t k = f := by rw [Route.nextHop, hc, Option.getD_some]
      have hne : f ≠ t.owner := ne_owner_of_precedes (closestPreceding_eq_some hc).2.1
      exact ⟨f, by rw [Route.findSuccessor, if_neg hknows, hnext, if_neg hne], rfl⟩
  | none =>
      left
      have halone := id_first_of_closestPreceding_eq_none hknows hc
      have hall := h.first.eq_of_id_eq distinct howner halone
      have hnext : Route.nextHop t k = t.owner := by
        rw [Route.nextHop, hc, Option.getD_none]
        exact successor_of_alone fun p hp => hall p (h.entries p hp)
      refine ⟨t.owner, ?_, howner, fun q hq => by rw [hall q hq]⟩
      rw [Route.findSuccessor, if_neg hknows, if_pos hnext, hnext]

/-- A peer that is responsible for a key, by its true predecessor, is the member nearest to it. -/
theorem nearest_of_owns {p q : Identifier} {k : RingId} (hp : p ∈ members)
    (distinct : DistinctIds members) (h : Previous members p q)
    (howns : Route.owns p q k = true) : Nearest members k p := by
  simp only [Route.owns, Bool.or_eq_true, beq_iff_eq] at howns
  rcases howns with (rfl | rfl) | hbetween
  · exact nearest_self hp
  · have hall := h.2.eq_of_id_eq distinct hp rfl
    exact ⟨hp, fun r hr => by rw [hall r hr]⟩
  · obtain ⟨hpos, hle⟩ := isBetween_iff.1 hbetween
    exact h.2.nearest hpos hle

end FingerTable

end ChordRing
