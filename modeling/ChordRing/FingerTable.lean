import ChordRing.Identifier

/-!
# Finger tables

The routing table of one peer. Entry `i` caches the best known successor of the position `2 ^ i`
steps after the owner, so the covered positions double from entry to entry. A ring has `2 ^ m`
positions when its tables have `m` entries; a full table has sixteen.

Entries are replaced and never removed. `FingerTable.update` tightens every entry that a newly
known peer lands in front of; `FingerTable.successor` and `FingerTable.closestPreceding` are the
two questions that routing asks.
-/

namespace ChordRing

/-- The cached successors of one peer. -/
structure FingerTable where
  owner : Identifier
  entries : List Identifier
  deriving DecidableEq, Repr, Inhabited

namespace FingerTable

/-- A table has at least one entry and at most one for each bit of a ring id. -/
def sizeAllowed (size : Nat) : Bool := 1 ≤ size && size ≤ 16

/-- The number of entries of a full table, one for each bit of a ring id. -/
def fullSize : Nat := 16

/-- The table of a ring of one: every entry points back at the owner. -/
def new (size : Nat) (owner : Identifier) : FingerTable := ⟨owner, List.replicate size owner⟩

/-- The number of entries. -/
def size (t : FingerTable) : Nat := t.entries.length

/-- The first entry, which stands for the owner's successor. -/
def first (t : FingerTable) : Identifier := t.entries.headD t.owner

/-- The last entry. -/
def last (t : FingerTable) : Identifier := t.entries.getLastD t.owner

/-- The entry at an index. -/
def get? (t : FingerTable) (i : Nat) : Option Identifier := t.entries[i]?

/-- The table with the entry at an index replaced. -/
def set (t : FingerTable) (i : Nat) (p : Identifier) : FingerTable :=
  { t with entries := t.entries.set i p }

/-- The position that entry `i` covers on a ring of `2 ^ size` positions. -/
def position (t : FingerTable) (i : Nat) : RingId :=
  RingId.ofNat ((t.owner.id.toNat + (1 <<< i)) % (1 <<< t.size))

/-- The covered positions in order. -/
def positions (t : FingerTable) : List RingId := (List.range t.size).map t.position

/-- Whether the first entry is already the authoritative successor of `k`. -/
def knowsSuccessorOf (t : FingerTable) (k : RingId) : Bool :=
  k == t.owner.id || k.isBetween t.owner.id t.first.id

/-- The first entry whose arc from the owner reaches `k`, or the last entry when none does. -/
def successor (t : FingerTable) (k : RingId) : Identifier :=
  if k = t.owner.id then t.owner
  else (t.entries.find? fun p => k.isBetween t.owner.id p.id).getD t.last

/-- Whether a peer lies strictly between the owner and `k`. -/
def precedes (t : FingerTable) (k : RingId) (p : Identifier) : Bool :=
  p.id != k && p.id.isBetween t.owner.id k

/-- Of a peer held so far and a later one, the one farther from the owner; the later one when they
are equally far. -/
def farther (t : FingerTable) (held : Option Identifier) (p : Identifier) : Option Identifier :=
  match held with
  | none => some p
  | some q =>
      if t.owner.id.distance q.id ≤ t.owner.id.distance p.id then some p else some q

/-- The entry closest to `k` among those strictly between the owner and `k`; of equally close
entries the last. -/
def closestPreceding (t : FingerTable) (k : RingId) : Option Identifier :=
  (t.entries.filter (t.precedes k)).foldl t.farther none

/-- Whether `p` should replace the entry `current` that covers `covered`: it sits on the covered
position, or between it and the entry. -/
def tightens (p : Identifier) (covered : RingId) (current : Identifier) : Bool :=
  current != p && (p.id == covered || p.id.isBetween covered current.id)

/-- The entry at index `i` once the owner knows of `p`. -/
def tightened (t : FingerTable) (p : Identifier) (i : Nat) (current : Identifier) : Identifier :=
  if tightens p (t.position i) current then p else current

/-- The table with every entry tightened that `p` lands in front of. -/
def update (t : FingerTable) (p : Identifier) : FingerTable :=
  { t with entries := t.entries.mapIdx (t.tightened p) }

/-- How many entries `update` replaces. -/
def updateCount (t : FingerTable) (p : Identifier) : Nat :=
  (t.entries.zipIdx.filter fun e => tightens p (t.position e.2) e.1).length

/-- One line of the table's display. The index is set in two columns. -/
def line (t : FingerTable) (i : Nat) (p : Identifier) : String :=
  (if i < 10 then " " else "") ++ toString i ++ " [" ++ (t.position i).hex ++ "]: " ++
    p.display ++ "\n"

/-- The table for an operator: a heading, then a line for each entry. -/
def display (t : FingerTable) : String :=
  "Finger Table for " ++ t.owner.display ++ ":\n" ++ String.join (t.entries.mapIdx t.line)

/-- A new table has the size it was asked for. -/
@[simp] theorem size_new (size : Nat) (owner : Identifier) : (new size owner).size = size := by
  simp [FingerTable.size, new]

/-- Replacing an entry keeps the size. -/
@[simp] theorem size_set (t : FingerTable) (i : Nat) (p : Identifier) :
    (t.set i p).size = t.size := by
  simp [FingerTable.size, set]

/-- Tightening keeps the size. -/
@[simp] theorem size_update (t : FingerTable) (p : Identifier) : (t.update p).size = t.size := by
  simp [FingerTable.size, update]

/-- The form for a log. -/
def debug (t : FingerTable) : String :=
  "FingerTable \x7b owner: " ++ t.owner.debug ++ ", entries: [" ++
    ", ".intercalate (t.entries.map Identifier.debug) ++ "] \x7d"

end FingerTable

end ChordRing
