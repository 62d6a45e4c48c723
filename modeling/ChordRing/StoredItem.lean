import ChordRing.RingId

/-!
# Stored items

The files a peer holds, kept in ascending order of their keys. Storing under a key that is taken
replaces what was there.
-/

namespace ChordRing

/-- A file held by the peer responsible for its key. -/
structure StoredItem where
  key : RingId
  name : String
  bytes : List UInt8
  deriving DecidableEq, Repr

/-- The form for a log, with the bytes as numbers. -/
def StoredItem.debug (item : StoredItem) : String :=
  "StoredItem \x7b key: " ++ item.key.debug ++ ", name: " ++ Text.quoted item.name ++
    ", bytes: [" ++ ", ".intercalate (item.bytes.map fun b => toString b.toNat) ++ "] \x7d"

/-- Items with ascending keys. -/
abbrev Items := List StoredItem

namespace Items

/-- Files an item under its key, in place of the item that was there. -/
def store (item : StoredItem) : Items → Items
  | [] => [item]
  | held :: rest =>
      if item.key = held.key then item :: rest
      else if item.key.value < held.key.value then item :: held :: rest
      else held :: store item rest

/-- The item under a key. -/
def find? (items : Items) (key : RingId) : Option StoredItem :=
  List.find? (fun item => item.key == key) items

end Items

end ChordRing
