import ChordRing.Peer.State
import ChordRing.Task

/-!
# The calls of a joining peer

A peer that joins, refreshes its table or leaves speaks to the rendezvous service and to other
peers. Each such call has a request and a type of answer, and stands here as a step that fails
when its answer is a failure.
-/

namespace ChordRing

/-- The answer of the rendezvous service to a candidate: whether its ring id is free, and a member
to contact, or the candidate itself when there is none. -/
structure Registration where
  accepted : Bool
  contact : Identifier
  deriving DecidableEq, Repr

/-- A call of a peer on its own account. The first three go to the rendezvous service. -/
inductive Call where
  | register (candidate : Identifier)
  | announceMember (peer : Identifier)
  | announceExit (peer : Identifier)
  | findSuccessor (via : Identifier) (target : RingId) (requester : Identifier)
  | predecessorOf (peer : Identifier)
  | notifyPredecessor (peer newPredecessor : Identifier)
  | notifySuccessor (peer newSuccessor : Identifier)
  | announceJoin (peer joined : Identifier)
  deriving DecidableEq, Repr

/-- What a call is answered with. -/
def Call.Reply : Call → Type
  | .register _ => Except DiscoveryError Registration
  | .announceMember _ | .announceExit _ => Except DiscoveryError Unit
  | .findSuccessor .. | .predecessorOf _ => Except NetworkError Identifier
  | .notifyPredecessor .. | .notifySuccessor .. | .announceJoin .. => Except NetworkError Unit

/-- A task of a peer on its own account. -/
abbrev PeerTask (α : Type) := Task PeerState Call Call.Reply α

/-- A task of a peer that ends at the first failure. -/
abbrev PeerAttempt (ε α : Type) := ExceptT ε (Task PeerState Call Call.Reply) α

namespace Peer

/-- Asks the rendezvous service to admit a candidate. -/
def register (candidate : Identifier) : PeerAttempt DiscoveryError Registration :=
  .mk (.ask (Call.register candidate))

/-- Tells the rendezvous service of a new member. -/
def announceMember (peer : Identifier) : PeerAttempt DiscoveryError Unit :=
  .mk (.ask (Call.announceMember peer))

/-- Tells the rendezvous service that a member leaves. -/
def announceExit (peer : Identifier) : PeerAttempt DiscoveryError Unit :=
  .mk (.ask (Call.announceExit peer))

/-- Asks a member for the successor of a position. -/
def findSuccessor (via : Identifier) (target : RingId) (requester : Identifier) :
    PeerAttempt NetworkError Identifier :=
  .mk (.ask (Call.findSuccessor via target requester))

/-- Asks a member for its predecessor. -/
def predecessorOf (peer : Identifier) : PeerAttempt NetworkError Identifier :=
  .mk (.ask (Call.predecessorOf peer))

/-- Tells a member of its new predecessor. -/
def notifyPredecessor (peer newPredecessor : Identifier) : PeerAttempt NetworkError Unit :=
  .mk (.ask (Call.notifyPredecessor peer newPredecessor))

/-- Tells a member of its new successor. -/
def notifySuccessor (peer newSuccessor : Identifier) : PeerAttempt NetworkError Unit :=
  .mk (.ask (Call.notifySuccessor peer newSuccessor))

/-- Starts the announcement of a newcomer along the ring. -/
def announceJoin (peer joined : Identifier) : PeerAttempt NetworkError Unit :=
  .mk (.ask (Call.announceJoin peer joined))

/-- Changes the state under the lock. -/
def update (change : PeerState → PeerState) : PeerTask Unit := .change change

end Peer

end ChordRing
