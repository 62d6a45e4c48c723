import ChordRing.FingerTable
import ChordRing.StoredItem
import ChordRing.Failure

/-!
# The state of a peer

What one member of the ring knows and holds: its two neighbours, its finger table, its files and
how far its join has come. A peer never holds the lock on this state across a call to another node.
-/

namespace ChordRing

/-- How far a peer's membership has come. -/
inductive Phase where
  | unjoined
  | registering
  | locatingSuccessor
  | exchangingNotifications
  | refreshingFingerTable
  | joined
  | left
  deriving DecidableEq, Repr, Inhabited

/-- The name of a phase. -/
def Phase.name : Phase → String
  | .unjoined => "Unjoined"
  | .registering => "Registering"
  | .locatingSuccessor => "LocatingSuccessor"
  | .exchangingNotifications => "ExchangingNotifications"
  | .refreshingFingerTable => "RefreshingFingerTable"
  | .joined => "Joined"
  | .left => "Left"

/-- The part of a peer that changes. -/
structure PeerState where
  predecessor : Identifier
  successor : Identifier
  table : FingerTable
  items : Items
  phase : Phase
  deriving DecidableEq, Repr, Inhabited

namespace PeerState

/-- The state of a peer that knows of nobody else. -/
def new (self : Identifier) (tableSize : Nat) : PeerState :=
  ⟨self, self, .new tableSize self, [], .unjoined⟩

/-- Tightens the finger table. -/
def learn (p : Identifier) (s : PeerState) : PeerState := { s with table := s.table.update p }

/-- Replaces the predecessor. -/
def setPredecessor (p : Identifier) (s : PeerState) : PeerState := { s with predecessor := p }

/-- Replaces the successor, which tightens the finger table too. -/
def setSuccessor (p : Identifier) (s : PeerState) : PeerState :=
  { s.learn p with successor := p }

/-- Takes note of a new predecessor: the table is tightened and the pointer replaced. -/
def meetPredecessor (p : Identifier) (s : PeerState) : PeerState :=
  (s.learn p).setPredecessor p

/-- Replaces one finger. -/
def setFinger (i : Nat) (p : Identifier) (s : PeerState) : PeerState :=
  { s with table := s.table.set i p }

/-- Files an item. -/
def store (item : StoredItem) (s : PeerState) : PeerState :=
  { s with items := s.items.store item }

/-- Enters a phase. -/
def enter (phase : Phase) (s : PeerState) : PeerState := { s with phase }

end PeerState

/-- One member of the ring: who it is, how often a request may be forwarded before it refuses, the
header of what it sends, and its state. -/
structure Peer where
  identifier : Identifier
  maxHops : Nat
  header : Header
  state : PeerState
  deriving DecidableEq, Repr

namespace Peer

/-- A peer that has not joined yet. -/
def new (identifier : Identifier) (tableSize maxHops : Nat) (header : Header) : Peer :=
  ⟨identifier, maxHops, header, .new identifier tableSize⟩

end Peer

end ChordRing
