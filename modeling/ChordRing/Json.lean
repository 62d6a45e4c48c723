import ChordRing.Text.Decimal
import ChordRing.Text.Numeral

/-!
# JSON values

JSON as a data type and its text: `Json.compact` on one line without spaces, `Json.pretty` with a
line for each member and two spaces for each level. Members of an object keep the order in which
they are given.
-/

namespace ChordRing

/-- A number: whole, or with a fraction or an exponent. -/
inductive Json.Number where
  | whole (value : Int)
  | real (value : Float)

/-- A JSON value. -/
inductive Json where
  | null
  | boolean (value : Bool)
  | number (value : Json.Number)
  | string (value : String)
  | array (items : List Json)
  | object (members : List (String × Json))

namespace Json

/-- The text of a number. -/
def Number.text : Number → String
  | .whole value => toString value
  | .real value => Decimal.text value

/-- One character inside a JSON string: short escapes where they exist, numbered ones for the
other controls, and everything else as it is. -/
def escape (c : Char) : List Char :=
  match c with
  | '"' => ['\\', '"']
  | '\\' => ['\\', '\\']
  | '\n' => ['\\', 'n']
  | '\r' => ['\\', 'r']
  | '\t' => ['\\', 't']
  | '\x08' => ['\\', 'b']
  | '\x0c' => ['\\', 'f']
  | c => if c.toNat < 0x20 then '\\' :: 'u' :: Text.hexChars 4 c.toNat else [c]

/-- A JSON string. -/
def quote (s : String) : String := String.ofList ('"' :: s.toList.flatMap escape ++ ['"'])

/-- Where lines break, given the depth of the next one, and what stands between a name and its
value. -/
structure Layout where
  lineBreak : Nat → String
  colon : String

/-- No line breaks and no spaces. -/
def Layout.compact : Layout := ⟨fun _ => "", ":"⟩

/-- A line for each member, two spaces for each level. -/
def Layout.pretty : Layout := ⟨fun depth => "\n" ++ "".pushn ' ' (2 * depth), ": "⟩

mutual

/-- The text of a value at a depth. -/
def render (layout : Layout) (depth : Nat) : Json → String
  | .null => "null"
  | .boolean value => if value then "true" else "false"
  | .number value => value.text
  | .string value => quote value
  | .array [] => "[]"
  | .array (item :: rest) =>
      "[" ++ layout.lineBreak (depth + 1) ++ render layout (depth + 1) item ++
        renderItems layout (depth + 1) rest ++ layout.lineBreak depth ++ "]"
  | .object [] => "\x7b\x7d"
  | .object ((name, value) :: rest) =>
      "\x7b" ++ layout.lineBreak (depth + 1) ++ quote name ++ layout.colon ++
        render layout (depth + 1) value ++ renderMembers layout (depth + 1) rest ++
        layout.lineBreak depth ++ "\x7d"

/-- The items of an array behind its first. -/
def renderItems (layout : Layout) (depth : Nat) : List Json → String
  | [] => ""
  | item :: rest =>
      "," ++ layout.lineBreak depth ++ render layout depth item ++ renderItems layout depth rest

/-- The members of an object behind its first. -/
def renderMembers (layout : Layout) (depth : Nat) : List (String × Json) → String
  | [] => ""
  | (name, value) :: rest =>
      "," ++ layout.lineBreak depth ++ quote name ++ layout.colon ++ render layout depth value ++
        renderMembers layout depth rest

end

/-- The text on one line. -/
def compact (j : Json) : String := render .compact 0 j

/-- The text with a line for each member. -/
def pretty (j : Json) : String := render .pretty 0 j

/-- The value of a member of an object. -/
def member? (j : Json) (name : String) : Option Json :=
  match j with
  | .object members => members.lookup name
  | _ => none

/-- Members with one more at its place in the order of the names. A name that is there already
gets the new value. -/
def insertMember (name : String) (value : Json) : List (String × Json) → List (String × Json)
  | [] => [(name, value)]
  | (held, old) :: rest =>
      if name = held then (name, value) :: rest
      else if name < held then (name, value) :: (held, old) :: rest
      else (held, old) :: insertMember name value rest

end Json

end ChordRing
