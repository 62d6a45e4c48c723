import ChordRing.Json

/-!
# Reading JSON

`Json.parse?` reads a whole text as one JSON value. Objects come out with their names in ascending
order, and of two members of one name the later counts. Every reader takes the unread characters
and gives back what it read with the characters behind it.
-/

namespace ChordRing.Json

/-- A reader of a part of a text. -/
abbrev Scan (α : Type) := List Char → Option (α × List Char)

/-- The characters behind white space. -/
def skipBlanks (cs : List Char) : List Char :=
  cs.dropWhile fun c => c == ' ' || c == '\t' || c == '\n' || c == '\r'

/-- Reads a fixed word. -/
def word? : List Char → List Char → Option (List Char)
  | [], cs => some cs
  | _ :: _, [] => none
  | w :: ws, c :: cs => if w = c then word? ws cs else none

/-! ## Numbers -/

/-- The values of the digits that open a text, and the characters behind them. -/
def digits (cs : List Char) : List Nat × List Char :=
  ((cs.takeWhile Char.isDigit).map fun c => c.toNat - '0'.toNat, cs.dropWhile Char.isDigit)

/-- The number that digits spell. -/
def natOfDigits (ds : List Nat) : Nat := ds.foldl (fun n d => n * 10 + d) 0

/-- A value with as many of the digits behind it as keep it below `2 ^ 64`, and `count` with the
number of those digits. -/
def leading (value count : Nat) : List Nat → Nat × Nat
  | [] => (value, count)
  | d :: rest =>
      if 2 ^ 64 ≤ value * 10 + d then (value, count) else leading (value * 10 + d) (count + 1) rest

/-- The double for `value * 10 ^ exponent`, unless it is out of range. The value is made a double
first and then scaled by a power of ten that is one too. -/
def scale? (value : Nat) (exponent : Int) : Option Float :=
  let power := fun k : Nat => Float.ofScientific 1 false k
  let x := Float.ofNat value
  if value = 0 then some 0.0
  else if 308 < exponent then none
  else if 0 ≤ exponent then
    let scaled := x * power exponent.toNat
    if scaled.isInf then none else some scaled
  else
    let down := (-exponent).toNat
    if 1000 < down then some 0.0
    else
      let rounds := (down - 1) / 308
      some ((List.range rounds).foldl (fun y _ => y / power 308) x / power (down - 308 * rounds))

/-- The number with these digits before and behind the point and this exponent. Where not all
digits before the point are taken, each that is left counts as a power of ten, and those behind
the point still follow if they keep the value in bounds. -/
def real? (negative : Bool) (before behind : List Nat) (exponent : Int) : Option Number := do
  let (value, whole) := leading 0 0 before
  let (value, fraction) := leading value 0 behind
  let x ← scale? value (exponent + before.length - whole - fraction)
  pure (.real (if negative then -x else x))

/-- The number with these digits: whole if it fits a word of 64 bits with the sign it has. -/
def whole? (negative : Bool) (ds : List Nat) : Option Number :=
  let n := natOfDigits ds
  if negative then
    if 0 < n ∧ n ≤ 1 <<< 63 then some (.whole (-(n : Int))) else real? true ds [] 0
  else if n < 1 <<< 64 then some (.whole n) else real? false ds [] 0

/-- Reads the digits of an exponent behind its letter. -/
def exponent? (cs : List Char) : Option (Int × List Char) :=
  let (negative, cs) :=
    match cs with
    | '-' :: rest => (true, rest)
    | '+' :: rest => (false, rest)
    | cs => (false, cs)
  match digits cs with
  | ([], _) => none
  | (ds, rest) => some (if negative then -(natOfDigits ds : Int) else natOfDigits ds, rest)

/-- Whether digits may stand before the point: at least one, and no needless zero in front. -/
def opensNumber : List Nat → Bool
  | [] => false
  | 0 :: _ :: _ => false
  | _ => true

/-- Reads a number. -/
def number? : Scan Number := fun cs => do
  let (negative, cs) :=
    match cs with
    | '-' :: rest => (true, rest)
    | cs => (false, cs)
  let (before, cs) := digits cs
  if !opensNumber before then none
  else
    let (behind, cs) ←
      match cs with
      | '.' :: rest =>
          match digits rest with
          | ([], _) => none
          | (ds, rest) => some (some ds, rest)
      | cs => some (none, cs)
    let (exponent, cs) ←
      match cs with
      | 'e' :: rest | 'E' :: rest => (exponent? rest).map fun (e, rest) => (some e, rest)
      | cs => some (none, cs)
    let value ←
      if behind.isNone && exponent.isNone then whole? negative before
      else real? negative before (behind.getD []) (exponent.getD 0)
    pure (value, cs)

/-! ## Strings -/

/-- Reads four hexadecimal digits. -/
def codeUnit? : Scan Nat
  | a :: b :: c :: d :: rest => do
      let a ← Text.hexValue? a
      let b ← Text.hexValue? b
      let c ← Text.hexValue? c
      let d ← Text.hexValue? d
      pure (((a * 16 + b) * 16 + c) * 16 + d, rest)
  | _ => none

/-- Reads the character behind `\u`. A high surrogate must be followed by an escaped low one. -/
def escapedUnit? : Scan Char := fun cs => do
  let (unit, rest) ← codeUnit? cs
  if 0xD800 ≤ unit ∧ unit < 0xDC00 then
    let rest ← word? ['\\', 'u'] rest
    let (low, rest) ← codeUnit? rest
    if 0xDC00 ≤ low ∧ low < 0xE000 then
      pure (Char.ofNat (0x10000 + (unit - 0xD800) * 0x400 + (low - 0xDC00)), rest)
    else none
  else if 0xDC00 ≤ unit ∧ unit < 0xE000 then none
  else pure (Char.ofNat unit, rest)

/-- Reads the character behind a backslash. -/
def escaped? : Scan Char
  | '"' :: rest => some ('"', rest)
  | '\\' :: rest => some ('\\', rest)
  | '/' :: rest => some ('/', rest)
  | 'b' :: rest => some ('\x08', rest)
  | 'f' :: rest => some ('\x0c', rest)
  | 'n' :: rest => some ('\n', rest)
  | 'r' :: rest => some ('\r', rest)
  | 't' :: rest => some ('\t', rest)
  | 'u' :: rest => escapedUnit? rest
  | _ => none

/-- Reads the characters of a string up to its closing quote, behind those in `acc`, which are held
last first. -/
def stringFrom : Nat → List Char → Scan String
  | 0, _, _ => none
  | _ + 1, _, [] => none
  | fuel + 1, acc, c :: rest =>
      if c = '"' then some (String.ofList acc.reverse, rest)
      else if c = '\\' then
        match escaped? rest with
        | some (e, rest) => stringFrom fuel (e :: acc) rest
        | none => none
      else if c.toNat < 0x20 then none
      else stringFrom fuel (c :: acc) rest

/-! ## Values -/

mutual

/-- Reads a value. The fuel bounds the number of steps; the length of the text is enough. -/
def value? (fuel : Nat) : Scan Json := fun cs =>
  match fuel with
  | 0 => none
  | fuel + 1 =>
      match skipBlanks cs with
      | 'n' :: rest => (word? ['u', 'l', 'l'] rest).map fun rest => (.null, rest)
      | 't' :: rest => (word? ['r', 'u', 'e'] rest).map fun rest => (.boolean true, rest)
      | 'f' :: rest => (word? ['a', 'l', 's', 'e'] rest).map fun rest => (.boolean false, rest)
      | '"' :: rest => (stringFrom (rest.length + 1) [] rest).map fun (s, rest) => (.string s, rest)
      | '[' :: rest =>
          match skipBlanks rest with
          | ']' :: rest => some (.array [], rest)
          | rest => (items? fuel [] rest).map fun (items, rest) => (.array items, rest)
      | '\x7b' :: rest =>
          match skipBlanks rest with
          | '\x7d' :: rest => some (.object [], rest)
          | rest => (members? fuel [] rest).map fun (members, rest) => (.object members, rest)
      | cs => (number? cs).map fun (n, rest) => (.number n, rest)

/-- Reads the items of an array up to its end, behind those in `acc`, which are held last
first. -/
def items? (fuel : Nat) (acc : List Json) : Scan (List Json) := fun cs =>
  match fuel with
  | 0 => none
  | fuel + 1 =>
      match value? fuel cs with
      | none => none
      | some (item, rest) =>
          match skipBlanks rest with
          | ',' :: rest => items? fuel (item :: acc) rest
          | ']' :: rest => some ((item :: acc).reverse, rest)
          | _ => none

/-- Reads the members of an object up to its end into those already read. -/
def members? (fuel : Nat) (held : List (String × Json)) : Scan (List (String × Json)) := fun cs =>
  match fuel with
  | 0 => none
  | fuel + 1 =>
      match skipBlanks cs with
      | '"' :: rest =>
          match stringFrom (rest.length + 1) [] rest with
          | none => none
          | some (name, rest) =>
              match skipBlanks rest with
              | ':' :: rest =>
                  match value? fuel rest with
                  | none => none
                  | some (value, rest) =>
                      let held := insertMember name value held
                      match skipBlanks rest with
                      | ',' :: rest => members? fuel held rest
                      | '\x7d' :: rest => some (held, rest)
                      | _ => none
              | _ => none
      | _ => none

end

/-- The value that a text spells, if it spells one and nothing else. -/
def parse? (text : String) : Option Json :=
  let cs := text.toList
  match value? (cs.length + 1) cs with
  | some (value, rest) => if (skipBlanks rest).isEmpty then some value else none
  | none => none

end ChordRing.Json
