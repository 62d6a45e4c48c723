import ChordRing.Text.Numeral
import ChordRing.Text.Quoted

/-!
# Ring ids

Positions on a ring of `2 ^ 16`. Order on the ring is circular: routing asks whether a position
lies on the arc from one position to another (`RingId.isBetween`) and how many clockwise steps
lead from one to the other (`RingId.distance`). `RingId.parse` reads a position from one to four
hexadecimal digits and `RingId.hex` writes it with exactly four.
-/

namespace ChordRing

open Text

/-- A position on the ring, of a node or of a stored item. -/
structure RingId where
  value : UInt16
  deriving DecidableEq, Repr, Inhabited

namespace RingId

/-- Why a text is not a ring id: its length, or its digits. The text is kept as it was given. -/
inductive Fault where
  | length (text : String)
  | digits (text : String) (fault : NumeralFault)
  deriving DecidableEq, Repr

/-- The wording of a ring id fault. -/
def Fault.describe : Fault → String
  | .length text => "expected 1 to 4 hex digits, got " ++ quoted text
  | .digits text fault => quoted text ++ ": " ++ fault.describe

/-- The position with this number modulo the size of the ring. -/
def ofNat (n : Nat) : RingId := ⟨UInt16.ofNat n⟩

/-- The number of a position. -/
def toNat (k : RingId) : Nat := k.value.toNat

/-- Four lower-case hexadecimal digits. -/
def hex (k : RingId) : String := Text.hex 4 k.toNat

/-- Reads one to four hexadecimal digits, white space around them aside. The length is counted in
bytes and covers an optional plus sign. -/
def parse (text : String) : Except Fault RingId :=
  let trimmed := trim text
  if trimmed.utf8ByteSize = 0 ∨ 4 < trimmed.utf8ByteSize then .error (.length text)
  else
    match readNat 16 0x10000 trimmed.toList with
    | .ok n => .ok (ofNat n)
    | .error fault => .error (.digits text fault)

/-- The number of clockwise steps from `start` to `stop`. -/
def distance (start stop : RingId) : Nat := (stop.value - start.value).toNat

/-- Whether `k` lies on the arc that starts just after `lo` and ends at `hi`, passing zero when
`hi` comes before `lo`. The arc from a position to itself is empty. -/
def isBetween (k lo hi : RingId) : Bool :=
  if lo.value ≤ hi.value then lo.value < k.value && k.value ≤ hi.value
  else lo.value < k.value || k.value ≤ hi.value

/-- The order of the numbers, used where members are listed and never for routing. -/
def order (a b : RingId) : Ordering := compare a.value b.value

/-- The form for a log: the digits beside the number. -/
def debug (k : RingId) : String := "RingId(" ++ k.hex ++ " / " ++ toString k.toNat ++ ")"

end RingId

end ChordRing
