/-!
# UTF-8

`Utf8.encode` writes a text as bytes and `Utf8.decode` reads it back. A byte string that is not
UTF-8 is refused with a `Flaw`, which says where the first bad sequence starts and how many of its
bytes belong together, or that the bytes end inside a character.
-/

namespace ChordRing.Utf8

/-- Why a byte string is not UTF-8: `width` bytes from index `start` begin no character, or the
string ends inside the character that begins at `start`. -/
inductive Flaw where
  | invalid (start width : Nat)
  | incomplete (start : Nat)
  deriving DecidableEq, Repr

/-- The wording of a flaw. -/
def Flaw.describe : Flaw → String
  | .invalid start width =>
      "invalid utf-8 sequence of " ++ toString width ++ " bytes from index " ++ toString start
  | .incomplete start => "incomplete utf-8 byte sequence from index " ++ toString start

/-- The bytes of one character. -/
def encodeChar (c : Char) : List UInt8 :=
  let n := c.toNat
  if n < 0x80 then [UInt8.ofNat n]
  else if n < 0x800 then [UInt8.ofNat (0xC0 + n / 64), UInt8.ofNat (0x80 + n % 64)]
  else if n < 0x10000 then
    [UInt8.ofNat (0xE0 + n / 4096), UInt8.ofNat (0x80 + n / 64 % 64), UInt8.ofNat (0x80 + n % 64)]
  else
    [UInt8.ofNat (0xF0 + n / 262144), UInt8.ofNat (0x80 + n / 4096 % 64),
      UInt8.ofNat (0x80 + n / 64 % 64), UInt8.ofNat (0x80 + n % 64)]

/-- The bytes of a list of characters. -/
def encodeChars (cs : List Char) : List UInt8 := cs.flatMap encodeChar

/-- The bytes of a text. -/
def encode (s : String) : List UInt8 := encodeChars s.toList

/-- A byte that continues a character. -/
def isContinuation (b : UInt8) : Bool := 0x80 ≤ b && b < 0xC0

/-- Whether the second byte may follow this first byte of a three-byte character. Overlong forms
and surrogates are shut out here. -/
def fitsThree (first second : UInt8) : Bool :=
  if first == 0xE0 then 0xA0 ≤ second && second < 0xC0
  else if first == 0xED then 0x80 ≤ second && second < 0xA0
  else isContinuation second

/-- Whether the second byte may follow this first byte of a four-byte character. Overlong forms
and code points past the last plane are shut out here. -/
def fitsFour (first second : UInt8) : Bool :=
  if first == 0xF0 then 0x90 ≤ second && second < 0xC0
  else if first == 0xF4 then 0x80 ≤ second && second < 0x90
  else isContinuation second

/-- The character with the given payload bits: those of the first byte above `base`, then six of
each continuation byte. -/
def charOf (base : Nat) (first : UInt8) (rest : List UInt8) : Char :=
  Char.ofNat (rest.foldl (fun n b => n * 64 + (b.toNat - 0x80)) (first.toNat - base))

/-- Reads characters from index `start` on, behind the characters `acc` already read, which are
held last first. -/
def decodeFrom (acc : List Char) (start : Nat) : List UInt8 → Except Flaw (List Char)
  | [] => .ok acc.reverse
  | b :: rest =>
      if b < 0x80 then decodeFrom (Char.ofNat b.toNat :: acc) (start + 1) rest
      else if b < 0xC2 then .error (.invalid start 1)
      else if b < 0xE0 then
        match rest with
        | [] => .error (.incomplete start)
        | b₁ :: rest =>
            if isContinuation b₁ then
              decodeFrom (charOf 0xC0 b [b₁] :: acc) (start + 2) rest
            else .error (.invalid start 1)
      else if b < 0xF0 then
        match rest with
        | [] => .error (.incomplete start)
        | b₁ :: rest =>
            if fitsThree b b₁ then
              match rest with
              | [] => .error (.incomplete start)
              | b₂ :: rest =>
                  if isContinuation b₂ then
                    decodeFrom (charOf 0xE0 b [b₁, b₂] :: acc) (start + 3) rest
                  else .error (.invalid start 2)
            else .error (.invalid start 1)
      else if b < 0xF5 then
        match rest with
        | [] => .error (.incomplete start)
        | b₁ :: rest =>
            if fitsFour b b₁ then
              match rest with
              | [] => .error (.incomplete start)
              | b₂ :: rest =>
                  if isContinuation b₂ then
                    match rest with
                    | [] => .error (.incomplete start)
                    | b₃ :: rest =>
                        if isContinuation b₃ then
                          decodeFrom (charOf 0xF0 b [b₁, b₂, b₃] :: acc) (start + 4) rest
                        else .error (.invalid start 3)
                  else .error (.invalid start 2)
            else .error (.invalid start 1)
      else .error (.invalid start 1)

/-- The text that a byte string spells. -/
def decode (bytes : List UInt8) : Except Flaw String :=
  (decodeFrom [] 0 bytes).map String.ofList

end ChordRing.Utf8
