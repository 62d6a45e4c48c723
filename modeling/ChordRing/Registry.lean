import ChordRing.Identifier

/-!
# The registry

The members a discovery node knows, in ascending order of their ring ids. A ring id is held by one
member at a time: a second claim to it is refused, and only the very identifier that holds it can
be removed.
-/

namespace ChordRing

/-- Members in ascending order of their ring ids. -/
structure Registry where
  members : List Identifier
  deriving DecidableEq, Repr

namespace Registry

/-- The registry without members. -/
def empty : Registry := ⟨[]⟩

/-- Whether there is no member. -/
def isEmpty (r : Registry) : Bool := r.members.isEmpty

/-- The number of members. -/
def size (r : Registry) : Nat := r.members.length

/-- The member that holds a ring id. -/
def holder? (r : Registry) (id : RingId) : Option Identifier :=
  r.members.find? fun p => p.id == id

/-- Whether some member holds a ring id, whatever its host name. -/
def holds (r : Registry) (id : RingId) : Bool := (r.holder? id).isSome

/-- A list of members with one more at its place. -/
def place (p : Identifier) : List Identifier → List Identifier
  | [] => [p]
  | q :: rest => if p.id.value < q.id.value then p :: q :: rest else q :: place p rest

/-- Records a member, unless its ring id is held. -/
def insert (r : Registry) (p : Identifier) : Registry :=
  if r.holds p.id then r else ⟨place p r.members⟩

/-- Forgets a member. -/
def erase (r : Registry) (p : Identifier) : Registry := ⟨r.members.erase p⟩

/-- The member that a number drawn at random picks. Every member is picked by some number, and
there is none to pick only when there is no member. -/
def pick? (r : Registry) (lot : Nat) : Option Identifier := r.members[lot % r.size]?

end Registry

end ChordRing
