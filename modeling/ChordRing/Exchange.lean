import ChordRing.Address
import ChordRing.Peer.Call

/-!
# Exchanges

One exchange is a message to an address and at most one message back. This module builds the
requests that a node makes out of exchanges and reads their replies: a request needs an answer, a
notification does not, and an answer of another kind than the one expected is a failure.
`Call.carry` carries out the calls of a joining peer.
-/

namespace ChordRing

/-- A message and the address it is sent to. -/
structure Envelope where
  address : String
  message : Message
  deriving DecidableEq, Repr

/-- What comes of an exchange: a failure, or the reply if there is one. -/
abbrev Outcome := Except NetworkError (Option Message)

/-- A task that makes exchanges. -/
abbrev NodeTask (σ α : Type) := Task σ Envelope (fun _ => Outcome) α

/-- A task that makes exchanges and ends at the first failure. -/
abbrev Attempt (σ ε α : Type) := ExceptT ε (Task σ Envelope fun _ => Outcome) α

namespace Exchange

variable {σ : Type}

/-- Sends a message and waits for the reply, if any. -/
def send (address : String) (message : Message) : Attempt σ NetworkError (Option Message) :=
  .mk (.ask ⟨address, message⟩)

/-- Sends a message that must be answered. -/
def request (address : String) (message : Message) : Attempt σ NetworkError Message := do
  match ← send address message with
  | some reply => pure reply
  | none => throw (.server (.noAnswer address message.kind))

/-- Sends a message and drops the reply. -/
def notify (address : String) (message : Message) : Attempt σ NetworkError Unit := do
  let _ ← send address message

/-- The failure for a reply of the wrong kind. -/
def unexpected (expected : Kind) (reply : Message) : MessageError :=
  .unexpectedResponse expected reply.kind

/-- The address at which a peer is reached. -/
def addressOf (peer : Identifier) : String := Address.resolve peer.hostname peerPort

/-- A request to a peer that is answered with an identifier. -/
def askIdentifier (header : Header) (peer : Identifier) (body : Body) :
    Attempt σ NetworkError Identifier := do
  let reply ← request (addressOf peer) ⟨header, body⟩
  match reply.body with
  | .peerIdentifierResponse found => pure found
  | _ => throw (.message (unexpected .peerIdentifierResponse reply))

/-- A request to a peer that is answered with a status. -/
def askStatus (header : Header) (peer : Identifier) (body : Body) :
    Attempt σ NetworkError Unit := do
  let reply ← request (addressOf peer) ⟨header, body⟩
  match reply.body with
  | .statusResponse .ok => pure ()
  | .statusResponse status => throw (.server (.badStatus (addressOf peer) status))
  | _ => throw (.message (unexpected .statusResponse reply))

/-- Asks a peer for its successor. -/
def successorOf (header : Header) (peer : Identifier) : Attempt σ NetworkError Identifier :=
  askIdentifier header peer .getSuccessorRequest

/-- Asks a peer for its predecessor. -/
def predecessorOf (header : Header) (peer : Identifier) : Attempt σ NetworkError Identifier :=
  askIdentifier header peer .getPredecessorRequest

/-- Starts a successor search at a peer. -/
def findSuccessor (header : Header) (via : Identifier) (target : RingId)
    (requester : Identifier) : Attempt σ NetworkError Identifier :=
  askIdentifier header via (.findSuccessorRequest target requester 0)

/-- Tells a peer of its new predecessor. -/
def notifyPredecessor (header : Header) (peer newPredecessor : Identifier) :
    Attempt σ NetworkError Unit :=
  askStatus header peer (.predecessorNotification newPredecessor)

/-- Tells a peer of its new successor. -/
def notifySuccessor (header : Header) (peer newSuccessor : Identifier) :
    Attempt σ NetworkError Unit :=
  askStatus header peer (.successorNotification newSuccessor)

/-- Tells a peer that somebody joined. -/
def announceJoin (header : Header) (peer joined : Identifier) : Attempt σ NetworkError Unit :=
  notify (addressOf peer) ⟨header, .networkJoinNotification joined⟩

/-- Asks a peer who holds a key. -/
def lookup (header : Header) (via : Identifier) (fileKey : RingId) :
    Attempt σ NetworkError Identifier := do
  let reply ← request (addressOf via) ⟨header, .lookupRequest fileKey 0⟩
  match reply.body with
  | .lookupResponse found => pure found
  | _ => throw (.message (unexpected .lookupResponse reply))

/-- Stores a file at a peer, which confirms the key. -/
def storeFile (header : Header) (owner : Identifier) (key : RingId) (name : String)
    (bytes : List UInt8) : Attempt σ NetworkError Unit := do
  let reply ← request (addressOf owner) ⟨header, .storeFileRequest key name bytes⟩
  match reply.body with
  | .storeFileResponse stored _ =>
      if stored = key then pure () else throw (.message (unexpected .storeFileResponse reply))
  | _ => throw (.message (unexpected .storeFileResponse reply))

end Exchange

namespace Rendezvous

variable {σ : Type}

/-- The address of the discovery node with this name. -/
def addressOf (discovery : String) : String := Address.resolve discovery discoveryPort

/-- Asks the discovery node to admit a candidate. -/
def register (header : Header) (discovery : String) (candidate : Identifier) :
    Attempt σ DiscoveryError Registration := do
  let reply ← (Exchange.request (addressOf discovery)
    ⟨header, .registerPeerRequest candidate⟩).adapt .network
  match reply.body with
  | .registerPeerResponse accepted contact => pure ⟨accepted, contact⟩
  | _ => throw (.message (Exchange.unexpected .registerPeerResponse reply))

/-- Asks the discovery node for any member. -/
def randomPeer (header : Header) (discovery : String) : Attempt σ DiscoveryError Identifier := do
  let reply ← (Exchange.request (addressOf discovery)
    ⟨header, .getRandomPeerRequest⟩).adapt .network
  match reply.body with
  | .getRandomPeerResponse peer => pure peer
  | .statusResponse .error => throw .noPeers
  | _ => throw (.message (Exchange.unexpected .getRandomPeerResponse reply))

/-- Tells the discovery node of a new member. -/
def announceMember (header : Header) (discovery : String) (peer : Identifier) :
    Attempt σ DiscoveryError Unit :=
  (Exchange.notify (addressOf discovery) ⟨header, .networkJoinNotification peer⟩).adapt .network

/-- Tells the discovery node that a member leaves. -/
def announceExit (header : Header) (discovery : String) (peer : Identifier) :
    Attempt σ DiscoveryError Unit :=
  (Exchange.notify (addressOf discovery) ⟨header, .networkExitNotification peer⟩).adapt .network

end Rendezvous

namespace Call

variable {σ : Type}

/-- Carries out a call to another peer. The rendezvous service is asked through the discovery node
of the given name. -/
def carry (header : Header) (discovery : String) : (c : Call) → NodeTask σ c.Reply
  | .register candidate => (Rendezvous.register header discovery candidate).run
  | .announceMember peer => (Rendezvous.announceMember header discovery peer).run
  | .announceExit peer => (Rendezvous.announceExit header discovery peer).run
  | .findSuccessor via target requester =>
      (Exchange.findSuccessor header via target requester).run
  | .predecessorOf peer => (Exchange.predecessorOf header peer).run
  | .notifyPredecessor peer p => (Exchange.notifyPredecessor header peer p).run
  | .notifySuccessor peer p => (Exchange.notifySuccessor header peer p).run
  | .announceJoin peer joined => (Exchange.announceJoin header peer joined).run

/-- Carries out a call to another peer, with a rendezvous service at hand that gives every
candidate the same registration and takes every announcement. -/
def carryWith (header : Header) (registration : Registration) : (c : Call) → NodeTask σ c.Reply
  | .register _ => .done (.ok registration)
  | .announceMember _ => .done (.ok ())
  | .announceExit _ => .done (.ok ())
  | call => carry header "" call

end Call

end ChordRing
