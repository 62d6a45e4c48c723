import ChordRing.FingerTable

/-!
# Routes

The decision a peer takes on a successor search or on the lookup of a content key: answer from
its own table, or hand the request to a closer peer. Each function here looks at one table only,
so a peer decides under its lock and talks to the network after it.
-/

namespace ChordRing

/-- What a peer does with a search. -/
inductive Route where
  /-- Reply with this peer. -/
  | answer (peer : Identifier)
  /-- Hand the request to this peer and pass its reply back. -/
  | forward (next : Identifier)
  deriving DecidableEq, Repr

namespace Route

/-- The peer to hand a search for `k` to: the closest preceding entry, or the plain successor rule
when no entry precedes `k`. -/
def nextHop (t : FingerTable) (k : RingId) : Identifier :=
  (t.closestPreceding k).getD (t.successor k)

/-- The route of a successor search. A peer that would hand it to itself answers. -/
def findSuccessor (t : FingerTable) (k : RingId) : Route :=
  if t.knowsSuccessorOf k then .answer (t.successor k)
  else if nextHop t k = t.owner then .answer (nextHop t k)
  else .forward (nextHop t k)

/-- Whether a peer is responsible for `k`, given its predecessor. -/
def owns (owner predecessor : Identifier) (k : RingId) : Bool :=
  k == owner.id || predecessor == owner || k.isBetween predecessor.id owner.id

/-- The route of a key lookup: the owner keeps the keys between its predecessor and itself, and
all others travel as a successor search does. -/
def lookup (t : FingerTable) (predecessor : Identifier) (k : RingId) : Route :=
  if owns t.owner predecessor k then .answer t.owner else findSuccessor t k

end Route

end ChordRing
