import ChordRing.Proofs.Intake
import ChordRing.Proofs.Refresh
import ChordRing.Proofs.Strands

/-!
# Anchored states

A peer that only hears of identifiers that are genuine, so that nobody else goes by its ring id,
keeps its state `Anchored`: the first finger is the peer itself only as long as every finger is, and
a peer with another successor has another first finger. In an anchored state a search that is handed
on goes to the closest preceding finger (`FingerTable.Anchored.closestPreceding_of_forward`).

Tightening keeps a state anchored, and so does setting any finger but the first to anything, once
the first finger is another peer. From then on it stays another peer. The two together are the pact
`PeerState.anchoring`.
-/

namespace ChordRing

open RingId FingerTable

/-- If `p` has the ring id of `x`, it is `x`. -/
def Genuine (x p : Identifier) : Prop := p.id = x.id → p = x

theorem genuine_self (x : Identifier) : Genuine x x := fun _ => rfl

theorem Genuine.id_ne {x p : Identifier} (h : Genuine x p) (hne : p ≠ x) : p.id ≠ x.id :=
  fun hid => hne (h hid)

/-! ## Tables -/

namespace FingerTable

/-- A full table of `x` whose entries are genuine, and that has another first entry than `x` as soon
as it has any other entry. -/
structure Anchored (x : Identifier) (t : FingerTable) : Prop where
  size : t.size = fullSize
  owner : t.owner = x
  genuine : ∀ p ∈ t.entries, Genuine x p
  alone : t.first = x → ∀ p ∈ t.entries, p = x

variable {x p : Identifier} {t : FingerTable} {k : RingId}

theorem anchored_new (x : Identifier) : (new fullSize x).Anchored x := by
  have hall : ∀ p ∈ (new fullSize x).entries, p = x := fun p hp => List.eq_of_mem_replicate hp
  refine ⟨size_new fullSize x, rfl, ?_, fun _ => hall⟩
  intro p hp
  rw [hall p hp]
  exact genuine_self x

theorem tightened_eq_or (t : FingerTable) (p : Identifier) (i : Nat) (current : Identifier) :
    t.tightened p i current = p ∨ t.tightened p i current = current := by
  unfold tightened
  split
  · exact Or.inl rfl
  · exact Or.inr rfl

theorem exists_first (h : t.size = fullSize) : t.get? 0 = some t.first := by
  obtain ⟨p, hp⟩ := exists_get? (t := t) (i := 0) (by rw [h]; norm_num [fullSize])
  rw [hp, first_of_get? hp]

theorem first_set {i : Nat} (hi : 0 < i) (p : Identifier) : (t.set i p).first = t.first := by
  rcases t with ⟨owner, entries⟩
  cases entries with
  | nil => rfl
  | cons q rest =>
      cases i with
      | zero => exact absurd hi (Nat.lt_irrefl 0)
      | succ i => rfl

namespace Anchored

/-- The first entry covers the position one step on. -/
theorem first_update (h : t.Anchored x) (p : Identifier) :
    (t.update p).first = if tightens p (x.id.ahead 1) t.first then p else t.first := by
  have hget : (t.update p).get? 0 = some (t.update p).first := exists_first (size_update_eq h.size)
  obtain ⟨current, hcurrent, hfirst⟩ := get?_update hget
  rw [exists_first h.size] at hcurrent
  rw [hfirst, ← Option.some.inj hcurrent, tightened, position_eq_ahead h.size, h.owner, pow_zero]

/-- From one step on, the peer itself is farthest, so it never takes the place of another first
entry, and any other peer takes its place. -/
theorem first_update_eq_iff (h : t.Anchored x) :
    (t.update p).first = x ↔ t.first = x ∧ p = x := by
  rw [h.first_update]
  have hself : distance (x.id.ahead 1) x.id = 65535 := distance_ahead_one_self x.id
  constructor
  · intro heq
    by_cases hfirst : t.first = x
    · refine ⟨hfirst, ?_⟩
      by_contra hne
      have htightens : tightens p (x.id.ahead 1) t.first = true := by
        have hlt := distance_lt (x.id.ahead 1) p.id
        rw [hfirst, tightens_iff, hself]
        exact ⟨Ne.symm hne, by omega⟩
      rw [if_pos htightens] at heq
      exact hne heq
    · exfalso
      split at heq
      · rename_i htightens
        have hmem : t.first ∈ t.entries := get?_mem (exists_first h.size)
        have hid := (h.genuine _ hmem).id_ne hfirst
        have hlt := distance_lt x.id t.first.id
        have hle := (tightens_iff.1 htightens).2
        rw [heq, hself, distance_ahead_one (Ne.symm hid)] at hle
        omega
      · exact hfirst heq
  · rintro ⟨hfirst, rfl⟩
    rw [hfirst, ite_self]

theorem update (h : t.Anchored x) (hp : Genuine x p) : (t.update p).Anchored x where
  size := size_update_eq h.size
  owner := h.owner
  genuine := by
    intro q hq
    obtain ⟨i, hi⟩ := List.mem_iff_getElem?.1 hq
    obtain ⟨current, hcurrent, rfl⟩ := get?_update hi
    rcases t.tightened_eq_or p i current with heq | heq
    · rwa [heq]
    · rw [heq]
      exact h.genuine current (get?_mem hcurrent)
  alone := by
    intro hfirst q hq
    obtain ⟨hold, rfl⟩ := h.first_update_eq_iff.1 hfirst
    obtain ⟨i, hi⟩ := List.mem_iff_getElem?.1 hq
    obtain ⟨current, hcurrent, rfl⟩ := get?_update hi
    rcases t.tightened_eq_or p i current with heq | heq
    · exact heq
    · rw [heq]
      exact h.alone hold current (get?_mem hcurrent)

/-- Once the first entry is another peer, the others may be any. -/
theorem set (h : t.Anchored x) (hfirst : t.first ≠ x) {i : Nat} (hi : 0 < i) (hp : Genuine x p) :
    (t.set i p).Anchored x where
  size := (size_set t i p).trans h.size
  owner := h.owner
  genuine := by
    intro q hq
    rcases List.mem_or_eq_of_mem_set hq with hq | rfl
    · exact h.genuine q hq
    · exact hp
  alone := by
    intro heq
    rw [first_set hi] at heq
    exact absurd heq hfirst

/-- A search that is handed on goes to the closest preceding entry. -/
theorem closestPreceding_of_forward (h : t.Anchored x) {next : Identifier}
    (hroute : Route.findSuccessor t k = .forward next) : t.closestPreceding k = some next := by
  unfold Route.findSuccessor at hroute
  split at hroute
  · cases hroute
  rename_i hknows
  split at hroute
  · cases hroute
  rename_i hother
  obtain rfl := Route.forward.inj hroute
  cases hc : t.closestPreceding k with
  | some f => rw [Route.nextHop, hc, Option.getD_some]
  | none =>
      -- nothing precedes the key, so the first entry is the owner, and with it all others
      exfalso
      have hid := id_first_of_closestPreceding_eq_none hknows hc
      have hfirst : t.first = x := by
        rw [h.owner] at hid
        exact h.genuine _ (get?_mem (exists_first h.size)) hid
      apply hother
      rw [Route.nextHop, hc, Option.getD_none]
      exact successor_of_alone fun p hp => (h.alone hfirst p hp).trans h.owner.symm

end Anchored

end FingerTable

/-! ## States -/

namespace PeerState

/-- A state of `x` with an anchored table, in which `x` has another first finger as soon as it has
another successor. -/
structure Anchored (x : Identifier) (s : PeerState) : Prop where
  table : s.table.Anchored x
  successor : Genuine x s.successor
  linked : s.successor ≠ x → s.table.first ≠ x

/-- Every state of `x` is anchored, and a first finger other than `x` is never given up for `x`. -/
def anchoring (x : Identifier) : Pact PeerState where
  holds := Anchored x
  evolves s s' := s.table.first ≠ x → s'.table.first ≠ x
  refl _ := id
  trans h h' := h' ∘ h

variable {x y : Identifier} {s s' : PeerState}

theorem anchored_new (x : Identifier) : (PeerState.new x fullSize).Anchored x where
  table := FingerTable.anchored_new x
  successor := genuine_self x
  linked := fun h => absurd rfl h

namespace Anchored

/-- Nothing is changed but what has no part in searches. -/
theorem unmoved (h : s.Anchored x) (htable : s'.table = s.table)
    (hsuccessor : s'.successor = s.successor) :
    s'.Anchored x ∧ (anchoring x).evolves s s' := by
  constructor
  · constructor
    · rw [htable]
      exact h.table
    · rw [hsuccessor]
      exact h.successor
    · rw [htable, hsuccessor]
      exact h.linked
  · intro hne
    rwa [htable]

/-- The table is tightened with `y`, which may be the new successor. -/
theorem learned (h : s.Anchored x) (hy : Genuine x y) (htable : s'.table = s.table.update y)
    (hsuccessor : s'.successor = s.successor ∨ s'.successor = y) :
    s'.Anchored x ∧ (anchoring x).evolves s s' := by
  constructor
  · constructor
    · rw [htable]
      exact h.table.update hy
    · rcases hsuccessor with heq | heq
      · rw [heq]
        exact h.successor
      · rwa [heq]
    · intro hne hfirst
      rw [htable, h.table.first_update_eq_iff] at hfirst
      rcases hsuccessor with heq | heq
      · exact h.linked (heq ▸ hne) hfirst.1
      · exact hne (heq.trans hfirst.2)
  · intro hne hfirst
    rw [htable, h.table.first_update_eq_iff] at hfirst
    exact hne hfirst.1

theorem enter (h : s.Anchored x) (phase : Phase) :
    (s.enter phase).Anchored x ∧ (anchoring x).evolves s (s.enter phase) :=
  h.unmoved rfl rfl

theorem learn (h : s.Anchored x) (hy : Genuine x y) :
    (s.learn y).Anchored x ∧ (anchoring x).evolves s (s.learn y) :=
  h.learned hy rfl (Or.inl rfl)

theorem meetPredecessor (h : s.Anchored x) (hy : Genuine x y) :
    (s.meetPredecessor y).Anchored x ∧ (anchoring x).evolves s (s.meetPredecessor y) :=
  h.learned hy rfl (Or.inl rfl)

theorem setSuccessor (h : s.Anchored x) (hy : Genuine x y) :
    (s.setSuccessor y).Anchored x ∧ (anchoring x).evolves s (s.setSuccessor y) :=
  h.learned hy rfl (Or.inr rfl)

theorem noted (h : s.Anchored x) {b : Body} (hb : ∀ y, b.announced? = some y → Genuine x y) :
    (s.noted x b).Anchored x ∧ (anchoring x).evolves s (s.noted x b) := by
  cases b with
  | predecessorNotification p => exact h.meetPredecessor (hb p rfl)
  | successorNotification p => exact h.setSuccessor (hb p rfl)
  | networkJoinNotification p =>
      rw [PeerState.noted]
      split
      · exact h.unmoved rfl rfl
      · exact h.learn (hb p rfl)
  | _ => exact h.unmoved rfl rfl

theorem setFinger (h : s.Anchored x) (hne : s.table.first ≠ x) {i : Nat} (hi : 0 < i)
    (hy : Genuine x y) :
    (s.setFinger i y).Anchored x ∧ (anchoring x).evolves s (s.setFinger i y) := by
  have hfirst : (s.setFinger i y).table.first ≠ x := by
    show (s.table.set i y).first ≠ x
    rwa [first_set hi]
  exact ⟨⟨h.table.set hne hi hy, h.successor, fun _ => hfirst⟩, fun _ => hfirst⟩

/-- The first finger covers a position up to the successor, so it is never stale. -/
theorem pos_of_stale (h : s.Anchored x) (hne : s.successor ≠ x) {e : Nat × RingId}
    (he : e ∈ Peer.staleFingers x s) : 0 < e.1 := by
  obtain ⟨-, hposition, hstale⟩ := mem_staleFingers.1 he
  by_contra hzero
  apply hstale
  have hfirst : distance x.id (x.id.ahead 1) = 1 := distance_ahead x.id (by norm_num)
  have hpos := distance_pos.2 (h.successor.id_ne hne).symm
  rw [hposition, Nat.eq_zero_of_not_pos hzero, position_eq_ahead h.table.size, h.table.owner,
    pow_zero, isBetween_iff, hfirst]
  exact ⟨Nat.one_pos, hpos⟩

end Anchored

end PeerState

end ChordRing
