import ChordRing.Text.Numeral
import ChordRing.Text.Unseen

/-!
# Quoted text

How a text stands inside a message for an operator: between double quotes, with the usual letters
for the common controls and the code point of every other character that does not show itself.
-/

namespace ChordRing.Text

/-- The letter behind the backslash for the characters that have one. -/
def escapeLetter? : Char → Option Char
  | '\x00' => some '0'
  | '\t' => some 't'
  | '\n' => some 'n'
  | '\r' => some 'r'
  | '"' => some '"'
  | '\\' => some '\\'
  | _ => none

/-- One character as it stands between the quotes. -/
def escapeChar (c : Char) : List Char :=
  match escapeLetter? c with
  | some letter => ['\\', letter]
  | none =>
      if isUnseen c then
        ['\\', 'u', '\x7b'] ++ Nat.toDigits 16 c.toNat ++ ['\x7d']
      else [c]

/-- A text between double quotes. -/
def quoted (s : String) : String :=
  String.ofList ('"' :: s.toList.flatMap escapeChar ++ ['"'])

end ChordRing.Text
