import ChordRing.Proofs.Tightening
import ChordRing.Proofs.Walk

/-!
# Fingers stand in clockwise order

Seen from the position next to the owner, no entry of a converged table lies farther than a later one
(`Converged.ordered`). The owner itself is then the far end of the ring and no longer its start, and
what is nearest to a later position is never met earlier (`Nearest.distance_mono`). In an ordered
table the first entry that reaches a key is the one nearest to it
(`Ordered.distance_firstReaching_le`), so `FingerTable.successor`, which looks for the first match,
finds the best one.

A table that starts with its owner and is changed by updates only is converged for all that it heard
of, so it is ordered after any series of updates (`updates_keep_clockwise_order`).
-/

namespace ChordRing

open RingId

variable {members : Finset Identifier}

/-! ## What is nearest, in the order of positions -/

/-- Where the owner is a member, the member nearest to a position is not met before that position
on the lap that ends at the owner. -/
theorem Nearest.distance_le {owner p : Identifier} (howner : owner ∈ members) {k : RingId}
    (h : Nearest members k p) :
    distance (owner.id.ahead 1) k ≤ distance (owner.id.ahead 1) p.id := by
  have hlast : distance (owner.id.ahead 1) owner.id = 65535 := distance_ahead_one_self owner.id
  have hlt : distance (owner.id.ahead 1) k < 65536 := distance_lt _ _
  have hle : distance k p.id ≤ distance k owner.id := h.2 owner howner
  have hkowner : distance k owner.id = 65535 - distance (owner.id.ahead 1) k := by
    rw [distance_of_le (o := owner.id.ahead 1) (by omega), hlast]
  -- otherwise the owner is met on the way from the position to `p`
  by_contra hbefore
  have hkp := distance_of_lt (Nat.lt_of_not_le hbefore)
  omega

/-- What is nearest to a later position is not met earlier, on the lap that ends at the owner. -/
theorem Nearest.distance_mono {owner p q : Identifier} (howner : owner ∈ members) {k l : RingId}
    (hp : Nearest members k p) (hq : Nearest members l q)
    (hkl : distance (owner.id.ahead 1) k ≤ distance (owner.id.ahead 1) l) :
    distance (owner.id.ahead 1) p.id ≤ distance (owner.id.ahead 1) q.id := by
  have hkp := hp.distance_le howner
  have hkq : distance (owner.id.ahead 1) k ≤ distance (owner.id.ahead 1) q.id :=
    Nat.le_trans hkl (hq.distance_le howner)
  have hle : distance k p.id ≤ distance k q.id := hp.2 q hq.1
  rw [distance_of_le hkp, distance_of_le hkq] at hle
  omega

namespace FingerTable

variable {t : FingerTable}

/-! ## Tables in order -/

/-- No entry lies farther from the position next to the owner than a later one. -/
def Ordered (t : FingerTable) : Prop :=
  t.entries.Pairwise fun p q =>
    distance (t.owner.id.ahead 1) p.id ≤ distance (t.owner.id.ahead 1) q.id

/-- Entry `i` covers the position `2 ^ i - 1` steps behind the one next to the owner. -/
theorem distance_position (h : t.size = fullSize) {i : Nat} (hi : i < fullSize) :
    distance (t.owner.id.ahead 1) (t.position i) = 2 ^ i - 1 := by
  have hlt : 2 ^ i < 65536 := Nat.pow_lt_pow_right (by norm_num) hi
  have hsteps : distance t.owner.id (t.owner.id.ahead (2 ^ i)) = 2 ^ i := distance_ahead _ hlt
  have hne : t.owner.id ≠ t.owner.id.ahead (2 ^ i) := by
    rw [← distance_pos, hsteps]
    exact Nat.two_pow_pos i
  rw [position_eq_ahead h, distance_ahead_one hne, hsteps]

/-- A table that is converged for members among whom its owner is, is in order. -/
theorem Converged.ordered (h : Converged members t) (howner : t.owner ∈ members) : t.Ordered := by
  refine List.pairwise_iff_getElem.2 ?_
  intro i j hi hj hij
  have hi' : i < fullSize := h.size ▸ hi
  have hj' : j < fullSize := h.size ▸ hj
  apply (h.nearest i _ (List.getElem?_eq_getElem hi)).distance_mono howner
    (h.nearest j _ (List.getElem?_eq_getElem hj))
  rw [distance_position h.size hi', distance_position h.size hj']
  exact Nat.sub_le_sub_right (Nat.pow_le_pow_right (by norm_num) (Nat.le_of_lt hij)) 1

/-- A table stays converged, for more and more members, while it hears of one peer after another. -/
theorem Converged.updateAll (h : Converged members t) (ps : List Identifier) :
    Converged (members ∪ ps.toFinset) (t.updateAll ps) := by
  induction ps using List.reverseRecOn with
  | nil =>
      rw [List.toFinset_nil, Finset.union_empty]
      exact h
  | append_singleton ps p ih =>
      have hmembers : members ∪ (ps ++ [p]).toFinset = insert p (members ∪ ps.toFinset) := by
        simp
      rw [updateAll_append_singleton, hmembers]
      exact ih.update p

/-! ## The first entry that reaches a key -/

/-- Going clockwise from the owner, the peer is met at the key or behind it, and before the owner
is met again. -/
def Reaches (t : FingerTable) (k : RingId) (p : Identifier) : Prop :=
  p.id ≠ t.owner.id ∧ distance t.owner.id k ≤ distance t.owner.id p.id

/-- In the order of the entries, `p` is the first one that reaches the key. -/
def FirstReaching (t : FingerTable) (k : RingId) (p : Identifier) : Prop :=
  ∃ before after, t.entries = before ++ p :: after ∧ t.Reaches k p ∧ ∀ q ∈ before, ¬ t.Reaches k q

instance (t : FingerTable) (k : RingId) (p : Identifier) : Decidable (t.Reaches k p) :=
  inferInstanceAs (Decidable (_ ∧ _))

theorem isBetween_iff_reaches {k : RingId} (hk : k ≠ t.owner.id) {p : Identifier} :
    k.isBetween t.owner.id p.id = true ↔ t.Reaches k p := by
  have hpos := distance_pos.2 hk.symm
  rw [isBetween_iff, Reaches, and_congr_left_iff]
  intro hle
  -- what reaches a key ahead of the owner lies ahead of the owner itself
  have hp : p.id ≠ t.owner.id := fun hid => by
    rw [hid, distance_self] at hle
    omega
  exact iff_of_true hpos hp

/-- The plain successor rule gives the first entry that reaches the key. -/
theorem firstReaching_successor {k : RingId} (hk : k ≠ t.owner.id)
    (h : ∃ p ∈ t.entries, t.Reaches k p) : t.FirstReaching k (t.successor k) := by
  obtain ⟨p, hp, hreaches⟩ := h
  rw [successor, if_neg hk]
  cases hfind : t.entries.find? fun q => k.isBetween t.owner.id q.id with
  | none => exact absurd ((isBetween_iff_reaches hk).2 hreaches) (List.find?_eq_none.1 hfind p hp)
  | some q =>
      obtain ⟨hq, before, after, hentries, hbefore⟩ := List.find?_eq_some_iff_append.1 hfind
      refine ⟨before, after, hentries, (isBetween_iff_reaches hk).1 hq, ?_⟩
      intro r hr hreaches
      have hno := hbefore r hr
      rw [(isBetween_iff_reaches hk).2 hreaches] at hno
      exact Bool.noConfusion hno

/-- An entry that does not reach the key is met behind every one that does. -/
theorem Reaches.distance_le_of_not {k : RingId} (hk : k ≠ t.owner.id) {p q : Identifier}
    (hp : t.Reaches k p) (hq : ¬ t.Reaches k q) : distance k p.id ≤ distance k q.id := by
  have hpos := distance_pos.2 hk.symm
  have hlt := distance_lt t.owner.id p.id
  have hqk : distance t.owner.id q.id < distance t.owner.id k := by
    by_cases hid : q.id = t.owner.id
    · rw [hid, distance_self]
      exact hpos
    · exact Nat.lt_of_not_le fun hle => hq ⟨hid, hle⟩
  rw [distance_of_le hp.2, distance_of_lt hqk]
  omega

/-- Of two entries in order that both reach the key, the earlier one is no farther from it. -/
theorem Reaches.distance_le {k : RingId} {p q : Identifier} (hp : t.Reaches k p)
    (hq : t.Reaches k q)
    (hpq : distance (t.owner.id.ahead 1) p.id ≤ distance (t.owner.id.ahead 1) q.id) :
    distance k p.id ≤ distance k q.id := by
  have hqpos := distance_pos.2 hq.1.symm
  rw [distance_ahead_one hp.1.symm, distance_ahead_one hq.1.symm] at hpq
  rw [distance_of_le hp.2, distance_of_le hq.2]
  omega

/-- In an ordered table, the first entry that reaches a key is the nearest to it of all entries. -/
theorem Ordered.distance_firstReaching_le (h : t.Ordered) {k : RingId} (hk : k ≠ t.owner.id)
    {p : Identifier} (hp : t.FirstReaching k p) :
    ∀ q ∈ t.entries, distance k p.id ≤ distance k q.id := by
  obtain ⟨before, after, hentries, hreaches, hbefore⟩ := hp
  intro q hq
  by_cases hqreaches : t.Reaches k q
  · rw [Ordered, hentries, List.pairwise_append, List.pairwise_cons] at h
    rw [hentries, List.mem_append, List.mem_cons] at hq
    rcases hq with hq | rfl | hq
    · exact absurd hqreaches (hbefore q hq)
    · exact Nat.le_refl _
    · exact hreaches.distance_le hqreaches (h.2.1.1 q hq)
  · exact hreaches.distance_le_of_not hk hqreaches

/-! ## Tables that are built by updates -/

/-- The full table of an owner that has heard of one peer after another. -/
def built (owner : Identifier) (ps : List Identifier) : FingerTable :=
  (new fullSize owner).updateAll ps

@[simp] theorem owner_built (owner : Identifier) (ps : List Identifier) :
    (built owner ps).owner = owner := by
  rw [built, owner_updateAll]
  rfl

theorem converged_built (owner : Identifier) (ps : List Identifier) :
    Converged ({owner} ∪ ps.toFinset) (built owner ps) :=
  (converged_new owner).updateAll ps

/-- **Updates keep a table in clockwise order, so its first match is its best match.** Whatever
peers the owner of a full table hears of, each entry lies no farther from the position next to the
owner than any later entry, and if some entry reaches a key, then the plain successor rule gives the
first one that does, and none of the entries is nearer to the key. -/
theorem updates_keep_clockwise_order (owner : Identifier) (ps : List Identifier) :
    (built owner ps).size = fullSize ∧ (built owner ps).Ordered ∧
      ∀ k, k ≠ owner.id → (∃ p ∈ (built owner ps).entries, (built owner ps).Reaches k p) →
        (built owner ps).FirstReaching k ((built owner ps).successor k) ∧
          ∀ q ∈ (built owner ps).entries,
            distance k ((built owner ps).successor k).id ≤ distance k q.id := by
  have hconverged := converged_built owner ps
  have hordered : (built owner ps).Ordered := hconverged.ordered (by simp)
  refine ⟨hconverged.size, hordered, ?_⟩
  intro k hk hreached
  have hk' : k ≠ (built owner ps).owner.id := by rwa [owner_built]
  have hfirst := firstReaching_successor hk' hreached
  exact ⟨hfirst, hordered.distance_firstReaching_le hk' hfirst⟩

end FingerTable

namespace Trio

open FingerTable

/-- The last of three peers hears of the second one and then of the first one, which lies nearer.
Entries for the farther positions stay with the peer itself, and for a key right behind it the first
one is found, past the start of the ring. -/
theorem updates_keep_clockwise_order_past_start :
    (⟨65300⟩ : RingId) ≠ third.id ∧
      (∃ p ∈ (built third [second, first]).entries, (built third [second, first]).Reaches ⟨65300⟩ p) ∧
      (built third [second, first]).successor ⟨65300⟩ = first ∧
      ∀ q ∈ (built third [second, first]).entries,
        distance ⟨65300⟩ ((built third [second, first]).successor ⟨65300⟩).id ≤
          distance ⟨65300⟩ q.id := by
  have hk : (⟨65300⟩ : RingId) ≠ third.id := by decide
  have hreached : ∃ p ∈ (built third [second, first]).entries,
      (built third [second, first]).Reaches ⟨65300⟩ p := by decide +kernel
  have hfound : (built third [second, first]).successor ⟨65300⟩ = first := by decide +kernel
  obtain ⟨-, -, hbest⟩ := updates_keep_clockwise_order third [second, first]
  exact ⟨hk, hreached, hfound, (hbest ⟨65300⟩ hk hreached).2⟩

end Trio

end ChordRing
