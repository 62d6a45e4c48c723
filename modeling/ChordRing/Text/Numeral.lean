/-!
# Numerals

Natural numbers written in a base up to sixteen. `readNat` takes an optional plus sign and at
least one digit of either case, and refuses a value beyond its bound; `hex` writes a value with a
fixed number of lower-case digits.
-/

namespace ChordRing.Text

/-- Why a text is not a numeral. -/
inductive NumeralFault where
  | empty
  | invalidDigit
  | tooLarge
  deriving DecidableEq, Repr

/-- The wording of a numeral fault. -/
def NumeralFault.describe : NumeralFault → String
  | .empty => "cannot parse integer from empty string"
  | .invalidDigit => "invalid digit found in string"
  | .tooLarge => "number too large to fit in target type"

/-- The value of a hexadecimal digit of either case. -/
def hexValue? (c : Char) : Option Nat :=
  if '0' ≤ c ∧ c ≤ '9' then some (c.toNat - '0'.toNat)
  else if 'a' ≤ c ∧ c ≤ 'f' then some (c.toNat - 'a'.toNat + 10)
  else if 'A' ≤ c ∧ c ≤ 'F' then some (c.toNat - 'A'.toNat + 10)
  else none

/-- The value of a digit of the given base. -/
def digitValue? (base : Nat) (c : Char) : Option Nat :=
  (hexValue? c).filter (· < base)

/-- Reads digits after a value that is already read. A character that is no digit is reported
before the overflow that the same position would cause. -/
def readDigits (base bound : Nat) : Nat → List Char → Except NumeralFault Nat
  | value, [] => .ok value
  | value, c :: rest =>
      match digitValue? base c with
      | none => .error .invalidDigit
      | some d =>
          if bound ≤ value * base + d then .error .tooLarge
          else readDigits base bound (value * base + d) rest

/-- Reads a numeral below `bound`: an optional plus sign, then one digit or more. -/
def readNat (base bound : Nat) : List Char → Except NumeralFault Nat
  | [] => .error .empty
  | ['+'] => .error .invalidDigit
  | '+' :: rest => readDigits base bound 0 rest
  | cs => readDigits base bound 0 cs

/-- The lower-case hexadecimal digit of a value below sixteen. -/
def hexDigit (d : Nat) : Char :=
  if d < 10 then Char.ofNat ('0'.toNat + d) else Char.ofNat ('a'.toNat + (d - 10))

/-- The `width` lowest hexadecimal digits of a value, highest first. -/
def hexChars : (width value : Nat) → List Char
  | 0, _ => []
  | width + 1, value => hexChars width (value / 16) ++ [hexDigit (value % 16)]

/-- A value with exactly `width` hexadecimal digits. -/
def hex (width value : Nat) : String := String.ofList (hexChars width value)

/-- Bytes with two lower-case hexadecimal digits each. -/
def hexOfBytes (bytes : List UInt8) : String :=
  String.ofList (bytes.flatMap fun b => hexChars 2 b.toNat)

/-- The bytes that pairs of hexadecimal digits spell. A character that is no digit counts as zero,
and an odd one at the end is dropped. -/
def bytesOfHex : List Char → List UInt8
  | high :: low :: rest =>
      UInt8.ofNat ((hexValue? high).getD 0 * 16 + (hexValue? low).getD 0) :: bytesOfHex rest
  | _ => []

theorem length_hexChars (width value : Nat) : (hexChars width value).length = width := by
  induction width generalizing value with
  | zero => rfl
  | succ width ih => simp [hexChars, ih]

end ChordRing.Text
