import ChordRing.Proofs.Intake

/-!
# What a series of updates makes of a table

A table that hears of one peer after another ends with the nearest of them in every entry, the old
entry among them (`updateAll_finds_nearest`). Everything else follows from that: no update puts an
entry farther off, and if a ring id tells whose it is, neither the order in which the peers are
heard of nor how often matters. On a ring of fewer than `2 ^ 16` positions the arcs still run through all
`2 ^ 16`, which makes no difference as long as every ring id lies on the smaller ring
(`stepsOn_le_iff`).
-/

namespace ChordRing

open RingId FingerTable

namespace LastNearest

variable {k : RingId} {l l' : List Identifier} {p q : Identifier}

theorem mem (h : LastNearest k l p) : p ∈ l := by
  obtain ⟨before, after, rfl, -, -⟩ := h
  simp

theorem distance_le (h : LastNearest k l p) (hq : q ∈ l) : distance k p.id ≤ distance k q.id := by
  obtain ⟨before, after, rfl, hbefore, hafter⟩ := h
  rcases List.mem_append.1 hq with hq | hq
  · exact hbefore q hq
  rcases List.mem_cons.1 hq with rfl | hq
  · exact Nat.le_refl _
  · exact Nat.le_of_lt (hafter q hq)

theorem singleton (k : RingId) (p : Identifier) : LastNearest k [p] p :=
  ⟨[], [], rfl, nofun, nofun⟩

/-- Where a ring id tells whose it is, only which peers there are matters. -/
theorem eq_of_mem_iff (h : LastNearest k l p) (h' : LastNearest k l' q) (hmem : ∀ r, r ∈ l' ↔ r ∈ l)
    (hid : ∀ a ∈ l, ∀ b ∈ l, a.id = b.id → a = b) : q = p := by
  have hq : q ∈ l := (hmem q).1 h'.mem
  have hp : p ∈ l' := (hmem p).2 h.mem
  exact hid q hq p h.mem
    (distance_inj.1 (Nat.le_antisymm (h'.distance_le hp) (h.distance_le hq)))

end LastNearest

/-! ## Rings of fewer positions -/

/-- The clockwise steps from one position to another on a ring of `2 ^ m` positions. -/
def stepsOn (m start stop : Nat) : Nat := (stop + 2 ^ m - start) % 2 ^ m

theorem stepsOn_eq_ite {m a b : Nat} (ha : a < 2 ^ m) (hb : b < 2 ^ m) :
    stepsOn m a b = if a ≤ b then b - a else b + 2 ^ m - a := by
  rw [stepsOn]
  split
  · have hlap : b + 2 ^ m - a = b - a + 2 ^ m := by omega
    rw [hlap, Nat.add_mod_right, Nat.mod_eq_of_lt (by omega)]
  · exact Nat.mod_eq_of_lt (by omega)

/-- The way that leads on through all positions visits those of a smaller ring in the same order. -/
theorem stepsOn_le_iff {m : Nat} {k a b : RingId} (hm : m ≤ 16) (hk : k.toNat < 2 ^ m)
    (ha : a.toNat < 2 ^ m) (hb : b.toNat < 2 ^ m) :
    stepsOn m k.toNat a.toNat ≤ stepsOn m k.toNat b.toNat ↔ distance k a ≤ distance k b := by
  have hlap : 2 ^ m ≤ 65536 := Nat.pow_le_pow_right (by norm_num) hm
  rw [stepsOn_eq_ite hk ha, stepsOn_eq_ite hk hb, distance_eq_mod, distance_eq_mod]
  split <;> split <;> omega

namespace FingerTable

/-- A table that hears of one peer after another. -/
def updateAll (t : FingerTable) (ps : List Identifier) : FingerTable := ps.foldl update t

/-- In how many entries two tables of one size differ. -/
def differences (t u : FingerTable) : Nat :=
  ((List.range t.size).filter fun i => t.get? i ≠ u.get? i).length

variable {t : FingerTable} {ps : List Identifier} {i : Nat}

theorem updateAll_append_singleton (t : FingerTable) (ps : List Identifier) (p : Identifier) :
    t.updateAll (ps ++ [p]) = (t.updateAll ps).update p :=
  List.foldl_append

@[simp] theorem owner_updateAll (t : FingerTable) (ps : List Identifier) :
    (t.updateAll ps).owner = t.owner := by
  induction ps using List.reverseRecOn with
  | nil => rfl
  | append_singleton ps p ih => rw [updateAll_append_singleton, owner_update, ih]

@[simp] theorem size_updateAll (t : FingerTable) (ps : List Identifier) :
    (t.updateAll ps).size = t.size := by
  induction ps using List.reverseRecOn with
  | nil => rfl
  | append_singleton ps p ih => rw [updateAll_append_singleton, size_update, ih]

@[simp] theorem position_updateAll (t : FingerTable) (ps : List Identifier) :
    (t.updateAll ps).position = t.position := by
  funext i
  rw [position, position, owner_updateAll, size_updateAll]

theorem get?_update_of_get? {p current : Identifier} (h : t.get? i = some current) :
    (t.update p).get? i = some (t.tightened p i current) := by
  rw [get?] at h
  rw [get?, update, List.getElem?_mapIdx, h]
  rfl

/-- An entry ends as the last nearest of what it was and what is heard of. -/
theorem lastNearest_updateAll {old : Identifier} (h : t.get? i = some old) (ps : List Identifier) :
    ∃ new, (t.updateAll ps).get? i = some new ∧ LastNearest (t.position i) (old :: ps) new := by
  induction ps using List.reverseRecOn with
  | nil => exact ⟨old, h, .singleton _ _⟩
  | append_singleton ps p ih =>
      obtain ⟨current, hcurrent, hnearest⟩ := ih
      refine ⟨(t.updateAll ps).tightened p i current, ?_, ?_⟩
      · rw [updateAll_append_singleton]
        exact get?_update_of_get? hcurrent
      · rw [← position_updateAll t ps] at hnearest ⊢
        exact hnearest.tightened p

theorem tightens_iff_ne {p current : Identifier} :
    tightens p (t.position i) current = true ↔ current ≠ t.tightened p i current := by
  rw [tightened]
  by_cases h : tightens p (t.position i) current = true
  · rw [if_pos h]
    exact iff_of_true h (tightens_iff.1 h).1
  · rw [if_neg h]
    exact iff_of_false h (not_not_intro rfl)

theorem updateCount_eq_differences (t : FingerTable) (p : Identifier) :
    t.updateCount p = t.differences (t.update p) := by
  have hrange : List.range t.size = t.entries.zipIdx.map Prod.snd := by
    rw [List.zipIdx_map_snd, ← List.range_eq_range']
    rfl
  rw [updateCount, differences, hrange, List.filter_map, List.length_map]
  refine congrArg List.length (List.filter_congr ?_)
  rintro ⟨current, i⟩ hmem
  have hcurrent : t.get? i = some current := List.mem_zipIdx_iff_getElem?.1 hmem
  show tightens p (t.position i) current = decide (t.get? i ≠ (t.update p).get? i)
  rw [Bool.eq_iff_iff, decide_eq_true_iff, hcurrent, get?_update_of_get? hcurrent, tightens_iff_ne]
  exact not_congr Option.some_inj.symm

theorem updateAll_congr {ps' : List Identifier} (hmem : ∀ p, p ∈ ps' ↔ p ∈ ps)
    (hid : ∀ p ∈ t.entries ++ ps, ∀ q ∈ t.entries ++ ps, p.id = q.id → p = q) :
    t.updateAll ps' = t.updateAll ps := by
  have hentries : (t.updateAll ps').entries = (t.updateAll ps).entries := by
    apply List.ext_getElem?
    intro i
    by_cases hi : i < t.size
    · obtain ⟨old, hold⟩ := exists_get? hi
      obtain ⟨new, hnew, hnearest⟩ := lastNearest_updateAll hold ps
      obtain ⟨new', hnew', hnearest'⟩ := lastNearest_updateAll hold ps'
      have hsub : ∀ p ∈ old :: ps, p ∈ t.entries ++ ps := by
        intro p hp
        rcases List.mem_cons.1 hp with rfl | hp
        · exact List.mem_append_left _ (get?_mem hold)
        · exact List.mem_append_right _ hp
      have heq : new' = new := hnearest.eq_of_mem_iff hnearest'
        (fun r => by simp only [List.mem_cons, hmem])
        fun a ha b hb => hid a (hsub a ha) b (hsub b hb)
      exact hnew'.trans (heq ▸ hnew.symm)
    · have hnone : ∀ ps, (t.updateAll ps).entries[i]? = none := by
        intro ps
        apply List.getElem?_eq_none
        rw [← size, size_updateAll]
        exact Nat.le_of_not_lt hi
      rw [hnone, hnone]
  have howner := (owner_updateAll t ps').trans (owner_updateAll t ps).symm
  exact congrArg₂ FingerTable.mk howner hentries

theorem get?_new {m : Nat} (h : i < m) (owner : Identifier) :
    (new m owner).get? i = some owner := by
  rw [get?, new, List.getElem?_replicate, if_pos h]

/-- A position on a small ring wraps round that ring only. -/
theorem toNat_position_new {m : Nat} (hm : m ≤ 16) (owner : Identifier) (i : Nat) :
    ((new m owner).position i).toNat = (owner.id.toNat + 2 ^ i) % 2 ^ m := by
  have hlap : 2 ^ m ≤ 65536 := Nat.pow_le_pow_right (by norm_num) hm
  have hlt : (owner.id.toNat + 2 ^ i) % 2 ^ m < 2 ^ m := Nat.mod_lt _ (Nat.two_pow_pos m)
  rw [position, toNat_ofNat, size_new, Nat.one_shiftLeft, Nat.one_shiftLeft]
  exact Nat.mod_eq_of_lt (by omega)

/-- **A series of updates leaves in every entry the nearest of its old identifier and those heard
of, the last of those that are equally near, and each update counts what it changes.** So no update
puts an entry farther off; where ring ids tell the identifiers apart, only the set of those heard of
matters; and a new table of a ring of `2 ^ m` positions ends with the successors of its positions on
that ring. -/
theorem updateAll_finds_nearest (t : FingerTable) (ps : List Identifier) :
    (∀ i old, t.get? i = some old → ∃ new, (t.updateAll ps).get? i = some new ∧
      LastNearest (t.position i) (old :: ps) new) ∧
    (∀ p, t.updateCount p = t.differences (t.update p)) ∧
    (∀ p i old new, t.get? i = some old → (t.update p).get? i = some new →
      distance (t.position i) new.id ≤ distance (t.position i) old.id) ∧
    ((∀ p ∈ t.entries ++ ps, ∀ q ∈ t.entries ++ ps, p.id = q.id → p = q) →
      ∀ ps', (∀ p, p ∈ ps' ↔ p ∈ ps) → t.updateAll ps' = t.updateAll ps) ∧
    ∀ m owner, m ≤ 16 → t = new m owner → (∀ p ∈ owner :: ps, p.id.toNat < 2 ^ m) →
      ∀ i < m, ∃ p ∈ owner :: ps, (t.updateAll ps).get? i = some p ∧
        ∀ q ∈ owner :: ps, stepsOn m ((owner.id.toNat + 2 ^ i) % 2 ^ m) p.id.toNat ≤
          stepsOn m ((owner.id.toNat + 2 ^ i) % 2 ^ m) q.id.toNat := by
  refine ⟨fun i old hold => lastNearest_updateAll hold ps, updateCount_eq_differences t, ?_,
    fun hid ps' hmem => updateAll_congr hmem hid, ?_⟩
  · intro p i old new hold hnew
    obtain ⟨new', hnew', hnearest⟩ := lastNearest_updateAll hold [p]
    cases Option.some.inj (hnew.symm.trans hnew')
    exact hnearest.distance_le (List.mem_cons_self ..)
  · rintro m owner hm rfl hsmall i hi
    obtain ⟨p, hp, hnearest⟩ := lastNearest_updateAll (get?_new hi owner) ps
    refine ⟨p, hnearest.mem, hp, ?_⟩
    intro q hq
    rw [← toNat_position_new hm]
    have hk : ((new m owner).position i).toNat < 2 ^ m := by
      rw [toNat_position_new hm]
      exact Nat.mod_lt _ (Nat.two_pow_pos m)
    exact (stepsOn_le_iff hm hk (hsmall p hnearest.mem) (hsmall q hq)).2 (hnearest.distance_le hq)

/-- A table of eight positions, whose last arc runs past the start of the ring. -/
example : ((new 3 ⟨"a", ⟨6⟩⟩).updateAll [⟨"b", ⟨1⟩⟩, ⟨"c", ⟨3⟩⟩]).entries =
    [⟨"b", ⟨1⟩⟩, ⟨"b", ⟨1⟩⟩, ⟨"c", ⟨3⟩⟩] := by decide

end FingerTable

end ChordRing
