import Mathlib.Tactic
import ChordRing.RingId

/-!
# Clockwise distance

Arithmetic of the ring. Seen from one position, every other position has a coordinate, its
clockwise distance, and the distance between two positions is read off their coordinates
(`RingId.distance_eq_ite`). The two forms that routing uses are `distance_of_le`, for a position
met later, and `distance_of_lt`, for one met earlier, which is reached past the start. An arc is an
interval of coordinates (`isBetween_iff`), and `RingId.ahead` is the position a number of steps on.
-/

namespace ChordRing

namespace RingId

/-- The position `steps` steps clockwise of `k`. -/
def ahead (k : RingId) (steps : Nat) : RingId := ofNat (k.toNat + steps)

theorem toNat_lt (k : RingId) : k.toNat < 65536 := k.value.toNat_lt

theorem toNat_ofNat (n : Nat) : (ofNat n).toNat = n % 65536 := UInt16.toNat_ofNat'

theorem eq_of_toNat_eq {a b : RingId} (h : a.toNat = b.toNat) : a = b := by
  rcases a with ⟨a⟩
  rcases b with ⟨b⟩
  exact congrArg RingId.mk (UInt16.toNat_inj.1 h)

/-- The distance as a difference modulo the size of the ring. -/
theorem distance_eq_mod (a b : RingId) : distance a b = (65536 - a.toNat + b.toNat) % 65536 :=
  UInt16.toNat_sub _ _

theorem distance_lt (a b : RingId) : distance a b < 65536 := by
  rw [distance_eq_mod]
  exact Nat.mod_lt _ (by norm_num)

@[simp] theorem distance_self (a : RingId) : distance a a = 0 := by
  have ha := toNat_lt a
  rw [distance_eq_mod]
  omega

/-- Coordinates seen from `o` give the distance between any two positions. -/
theorem distance_eq_ite (o a b : RingId) :
    distance a b =
      if distance o a ≤ distance o b then distance o b - distance o a
      else 65536 - distance o a + distance o b := by
  have ho := toNat_lt o
  have ha := toNat_lt a
  have hb := toNat_lt b
  simp only [distance_eq_mod]
  split <;> omega

theorem distance_of_le {o a b : RingId} (h : distance o a ≤ distance o b) :
    distance a b = distance o b - distance o a := by
  rw [distance_eq_ite o, if_pos h]

theorem distance_of_lt {o a b : RingId} (h : distance o b < distance o a) :
    distance a b = 65536 - distance o a + distance o b := by
  rw [distance_eq_ite o, if_neg (Nat.not_le.2 h)]

/-- Positions with one coordinate are one position. -/
theorem distance_inj {o a b : RingId} : distance o a = distance o b ↔ a = b := by
  constructor
  · intro h
    apply eq_of_toNat_eq
    have ho := toNat_lt o
    have ha := toNat_lt a
    have hb := toNat_lt b
    simp only [distance_eq_mod] at h
    omega
  · exact congrArg _

theorem distance_eq_zero {a b : RingId} : distance a b = 0 ↔ a = b := by
  rw [← distance_self a, distance_inj]
  exact eq_comm

theorem distance_pos {a b : RingId} : 0 < distance a b ↔ a ≠ b := by
  rw [Nat.pos_iff_ne_zero, Ne, distance_eq_zero]

/-- Both ways round make one lap. -/
theorem distance_swap {a b : RingId} (h : a ≠ b) : distance b a = 65536 - distance a b := by
  have hlt : distance a a < distance a b := by
    rw [distance_self]
    exact distance_pos.2 h
  rw [distance_of_lt hlt, distance_self, Nat.add_zero]

/-- An arc is an interval of coordinates seen from its start. -/
theorem isBetween_iff {k lo hi : RingId} :
    k.isBetween lo hi = true ↔ 0 < distance lo k ∧ distance lo k ≤ distance lo hi := by
  have hk := toNat_lt k
  have hlo := toNat_lt lo
  have hhi := toNat_lt hi
  simp only [distance_eq_mod, isBetween, UInt16.le_iff_toNat_le, UInt16.lt_iff_toNat_lt]
  -- an arc that runs past the start of the ring is one of two pieces, any other is one
  simp only [toNat] at *
  split <;> simp only [Bool.and_eq_true, Bool.or_eq_true, decide_eq_true_eq] <;> omega

theorem distance_ahead (k : RingId) {steps : Nat} (h : steps < 65536) :
    distance k (k.ahead steps) = steps := by
  have hk := toNat_lt k
  rw [distance_eq_mod, ahead, toNat_ofNat]
  omega

/-- One step on, every position but the start is one step nearer. -/
theorem distance_ahead_one {k a : RingId} (h : k ≠ a) :
    distance (k.ahead 1) a = distance k a - 1 := by
  have hpos := distance_pos.2 h
  have hone : distance k (k.ahead 1) = 1 := distance_ahead k (by norm_num)
  rw [distance_of_le (o := k) (by omega), hone]

/-- One step on, the start itself is a lap less one step away. -/
theorem distance_ahead_one_self (k : RingId) : distance (k.ahead 1) k = 65535 := by
  have hone : distance k (k.ahead 1) = 1 := distance_ahead k (by norm_num)
  rw [distance_of_lt (o := k) (by rw [distance_self, hone]; norm_num), hone, distance_self]

end RingId

end ChordRing
