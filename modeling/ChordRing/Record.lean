import ChordRing.Json
import ChordRing.Peer.State
import ChordRing.Upload

/-!
# Records

How the library's values stand in JSON. A ring id is the string of its four digits; an identifier,
an item, a table, a snapshot and a receipt are objects with their fields in a fixed order. Ring
ids, identifiers, items and tables are read back, from an object with the fields in any order or
from an array with the fields in the fixed order. The content of an item is no part of its record.
-/

namespace ChordRing

open Text

/-! ## Writing -/

/-- The string of four digits. -/
def RingId.toJson (k : RingId) : Json := .string k.hex

/-- Host name and ring id. -/
def Identifier.toJson (p : Identifier) : Json :=
  .object [("hostname", .string p.hostname), ("id", p.id.toJson)]

/-- Key and name. -/
def StoredItem.toJson (item : StoredItem) : Json :=
  .object [("key", item.key.toJson), ("name", .string item.name)]

/-- Owner and entries. -/
def FingerTable.toJson (t : FingerTable) : Json :=
  .object [("owner", t.owner.toJson), ("entries", .array (t.entries.map Identifier.toJson))]

/-- All items in ascending order of their keys. -/
def Items.toJson (items : Items) : Json := .array (items.map StoredItem.toJson)

/-- What an operator sees of a peer: who it is and all of its state. -/
def Peer.snapshot (peer : Peer) : Json :=
  .object
    [("identifier", peer.identifier.toJson), ("predecessor", peer.state.predecessor.toJson),
      ("successor", peer.state.successor.toJson), ("finger_table", peer.state.table.toJson),
      ("stored_items", peer.state.items.toJson), ("phase", .string peer.state.phase.name)]

/-- Key, name and owner. -/
def Receipt.toJson (r : Receipt) : Json :=
  .object [("key", r.key.toJson), ("name", .string r.name), ("owner", r.owner.toJson)]

/-! ## Reading -/

namespace Record

/-- What a reader looks for. -/
inductive Shape where
  | text
  | sequence
  | identifier
  | item
  | table
  deriving DecidableEq, Repr

/-- The words for a shape. -/
def Shape.describe : Shape → String
  | .text => "a string"
  | .sequence => "a sequence"
  | .identifier => "struct Identifier"
  | .item => "struct StoredItem"
  | .table => "struct FingerTable"

/-- Why a value is not the record that was looked for. -/
inductive Fault where
  | wrongType (found : Json) (expected : Shape)
  | tooFew (count : Nat) (expected : Shape)
  | tooMany (count : Nat)
  | missingField (name : String)
  | ringId (fault : RingId.Fault)

/-- A JSON value by its type, with its content where it is short. -/
def describeValue : Json → String
  | .null => "null"
  | .boolean value => "boolean `" ++ (if value then "true" else "false") ++ "`"
  | .number (.whole value) => "integer `" ++ toString value ++ "`"
  | .number (.real value) => "floating point `" ++ Decimal.text value ++ "`"
  | .string value => "string " ++ quoted value
  | .array _ => "sequence"
  | .object _ => "map"

/-- The wording of a fault. Every record that is read from an array has two fields. -/
def Fault.describe : Fault → String
  | .wrongType found expected =>
      "invalid type: " ++ describeValue found ++ ", expected " ++ expected.describe
  | .tooFew count expected =>
      "invalid length " ++ toString count ++ ", expected " ++ expected.describe ++
        " with 2 elements"
  | .tooMany count =>
      "invalid length " ++ toString count ++ ", expected fewer elements in array"
  | .missingField name => "missing field `" ++ name ++ "`"
  | .ringId fault => "Invalid node ID: " ++ fault.describe

/-- A reader of a JSON value. -/
abbrev Reads (α : Type) := Json → Except Fault α

/-- Reads a string. -/
def text : Reads String
  | .string s => .ok s
  | j => .error (.wrongType j .text)

/-- Reads a field of a record: its name and how its value is read. -/
structure Field (α : Type) where
  name : String
  read : Reads α

/-- Reads two fields from the members of an object, in the order of the members. Of two members of
one name the later counts, and members with other names are passed over. -/
def members {α β : Type} (first : Field α) (second : Field β) :
    Option α → Option β → List (String × Json) → Except Fault (α × β)
  | some a, some b, [] => .ok (a, b)
  | none, _, [] => .error (.missingField first.name)
  | some _, none, [] => .error (.missingField second.name)
  | a, b, (name, value) :: rest =>
      if name = first.name then
        match first.read value with
        | .ok a => members first second (some a) b rest
        | .error fault => .error fault
      else if name = second.name then
        match second.read value with
        | .ok b => members first second a (some b) rest
        | .error fault => .error fault
      else members first second a b rest

/-- Reads a record of two fields. -/
def pair {α β : Type} (shape : Shape) (first : Field α) (second : Field β) : Reads (α × β)
  | .object fields => members first second none none fields
  | .array [] => .error (.tooFew 0 shape)
  | .array (a :: rest) => do
      let a ← first.read a
      match rest with
      | [] => .error (.tooFew 1 shape)
      | b :: rest =>
          let b ← second.read b
          if rest.isEmpty then .ok (a, b) else .error (.tooMany (rest.length + 2))
  | j => .error (.wrongType j shape)

/-- Reads a list. -/
def list {α : Type} (read : Reads α) : Reads (List α)
  | .array items => items.mapM read
  | j => .error (.wrongType j .sequence)

end Record

open Record

/-- Reads a ring id from the string of its digits. -/
def RingId.ofJson : Reads RingId := fun j => do
  let digits ← Record.text j
  (RingId.parse digits).mapError Record.Fault.ringId

/-- Reads an identifier. -/
def Identifier.ofJson : Reads Identifier := fun j => do
  let (hostname, id) ← pair .identifier ⟨"hostname", Record.text⟩ ⟨"id", RingId.ofJson⟩ j
  pure ⟨hostname, id⟩

/-- Reads an item, without content. -/
def StoredItem.ofJson : Reads StoredItem := fun j => do
  let (key, name) ← pair .item ⟨"key", RingId.ofJson⟩ ⟨"name", Record.text⟩ j
  pure ⟨key, name, []⟩

/-- Reads a finger table. -/
def FingerTable.ofJson : Reads FingerTable := fun j => do
  let (owner, entries) ←
    pair .table ⟨"owner", Identifier.ofJson⟩ ⟨"entries", list Identifier.ofJson⟩ j
  pure ⟨owner, entries⟩

end ChordRing
