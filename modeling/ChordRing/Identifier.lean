import ChordRing.RingId

/-!
# Identifiers

A member of the ring is known by its position and by the host name at which it is reached. Two
identifiers are equal only when both agree.
-/

namespace ChordRing

/-- A ring member that can be reached over the network. -/
structure Identifier where
  hostname : String
  id : RingId
  deriving DecidableEq, Repr, Inhabited

namespace Identifier

/-- The short form: position, at sign, host name. -/
def debug (p : Identifier) : String := p.id.hex ++ "@" ++ p.hostname

/-- The form for an operator. The host name stands between quotes as it is. -/
def display (p : Identifier) : String :=
  "\x7b hostname: \"" ++ p.hostname ++ "\", id: \"" ++ p.id.hex ++ "\" (" ++
    toString p.id.toNat ++ ") \x7d"

end Identifier

end ChordRing
