import ChordRing.Discovery
import ChordRing.Message.Decode
import ChordRing.Message.Encode
import ChordRing.Peer.Handler

/-!
# Networks

Nodes at their endpoints, and what an exchange does to them. `Network.exchange` carries one message
to an address and brings back the reply; a node that must make exchanges of its own in order to
answer makes them while the first one waits. `Network.serve` is one connection as the node sees it:
bytes in, at most one message out. `Network.perform` carries out a task on the network.

An exchange gets an amount of patience, the depth to which exchanges may wait for each other. The
result `none` says that it was not enough, as when nodes hand a message around in a circle for
ever.
-/

namespace ChordRing

/-- What becomes of those who connect to a node. -/
inductive Presence where
  /-- They are taken on and wait. -/
  | bound
  /-- They are served. -/
  | serving
  /-- They are refused. -/
  | closed
  deriving DecidableEq, Repr

/-- What a node does. A peer may know a discovery node by name. A script answers one connection
after another with given bytes, then with none, and keeps what it received. -/
inductive Service where
  | discovery (node : Discovery)
  | peer (node : Peer) (rendezvous : Option String)
  | script (replies received : List (List UInt8))
  deriving DecidableEq, Repr

/-- A node of a network. -/
structure Node where
  endpoint : Endpoint
  presence : Presence
  service : Service
  deriving DecidableEq, Repr

namespace Node

/-- The peer that a node is. -/
def peer? (node : Node) : Option Peer :=
  match node.service with
  | .peer p _ => some p
  | _ => none

/-- The node with its peer state changed. -/
def changeState (change : PeerState → PeerState) (node : Node) : Node :=
  match node.service with
  | .peer p rendezvous =>
      { node with service := .peer { p with state := change p.state } rendezvous }
  | _ => node

end Node

/-- Nodes, numbered in the order in which they started. Nobody reaches anybody unless the network
is connected. The lots are the numbers that random choices draw; once they are used up, every
choice draws zero. The names are those that hosts may be given by instead of numbers. -/
structure Network where
  nodes : List Node
  connected : Bool
  lots : List Nat
  names : Names
  deriving DecidableEq, Repr

/-- Carries a message and brings back what comes of it, or does not settle. -/
abbrev Carrier := Network → Envelope → Option (Network × Outcome)

/-- Where a task keeps its state. -/
structure Seat (σ : Type) where
  read : Network → σ
  change : (σ → σ) → Network → Network

namespace Network

/-- A network without nodes and names. -/
def empty (connected : Bool) : Network := ⟨[], connected, [], []⟩

/-- What the node with a number does. -/
def service? (n : Network) (i : Nat) : Option Service := (n.nodes[i]?).map Node.service

/-- The presence of the node with a number. -/
def presence? (n : Network) (i : Nat) : Option Presence := (n.nodes[i]?).map Node.presence

/-- The peer with a number. -/
def peer? (n : Network) (i : Nat) : Option Peer := n.nodes[i]?.bind Node.peer?

/-- The state of the peer with a number. -/
def peerState (n : Network) (i : Nat) : PeerState := ((n.peer? i).map (·.state)).getD default

/-- The network with the state of one peer changed. -/
def changePeer (i : Nat) (change : PeerState → PeerState) (n : Network) : Network :=
  { n with nodes := n.nodes.modify i (Node.changeState change) }

/-- The network with the service of one node replaced. -/
def setService (n : Network) (i : Nat) (service : Service) : Network :=
  { n with nodes := n.nodes.modify i fun node => { node with service } }

/-- The network with the presence of one node replaced. -/
def setPresence (n : Network) (i : Nat) (presence : Presence) : Network :=
  { n with nodes := n.nodes.modify i fun node => { node with presence } }

/-- Draws the next lot. -/
def draw (n : Network) : Nat × Network := (n.lots.headD 0, { n with lots := n.lots.tail })

/-- The number of the node that takes connections at an endpoint. -/
def listener? (n : Network) (endpoint : Endpoint) : Option Nat :=
  n.nodes.findIdx? fun node => node.endpoint == endpoint && node.presence != .closed

/-- The number of the node that an address leads to: of its endpoints, the first one at which a node
takes connections. The address is looked at before the network is used. -/
def dial (n : Network) (address : String) : Except AddressFault Nat := do
  let endpoints ← Endpoint.resolve n.names address
  if n.connected then
    match endpoints.findSome? n.listener? with
    | some i => pure i
    | none => throw .refused
  else throw .networkUnreachable

/-- A name leads to the node at its address. -/
example : (⟨[⟨⟨[10, 0, 0, 4], 4242⟩, .serving, .script [] []⟩], true, [],
    [("shark", [10, 0, 0, 4])]⟩ : Network).dial "shark:4242" = .ok 0 := by cbv

end Network

namespace Seat

/-- A task of a client, which has no state. -/
def client : Seat Unit := ⟨fun _ => (), fun _ n => n⟩

/-- A task of the peer with a number. -/
def peer (i : Nat) : Seat PeerState := ⟨fun n => n.peerState i, Network.changePeer i⟩

end Seat

namespace Network

variable {σ ε α : Type}

/-- Carries out a task. -/
def perform (carry : Carrier) (seat : Seat σ) : NodeTask σ α → Network → Option (Network × α)
  | .done result, n => some (n, result)
  | .locked change next, n =>
      perform carry seat (next (seat.read (seat.change change n))) (seat.change change n)
  | .call envelope next, n =>
      match carry n envelope with
      | some (n, outcome) => perform carry seat (next outcome) n
      | none => none

/-- A task and what follows it are carried out one after the other. -/
theorem perform_andThen {β : Type} (carry : Carrier) (seat : Seat σ) (f : α → NodeTask σ β)
    (t : NodeTask σ α) (n : Network) :
    perform carry seat (Task.andThen f t) n =
      (perform carry seat t n).bind fun r => perform carry seat (f r.2) r.1 := by
  induction t generalizing n with
  | done result => rfl
  | locked change next ih =>
      simp only [Task.andThen, perform]
      exact ih _ _
  | call envelope next ih =>
      simp only [Task.andThen, perform]
      cases h : carry n envelope with
      | none => rfl
      | some r => exact ih _ _

/-- The message in the bytes of a request, unless they are too many or no message. -/
def readRequest? (bytes : List UInt8) : Option Message :=
  if maxMessageBytes < bytes.length then none else (Message.decode bytes).toOption

/-- The bytes sent back when processing ends with a result. -/
def replyBytes : Except ε (Option Message) → List UInt8
  | .ok (some reply) => reply.encode
  | _ => []

/-- One connection to the node with a number: the bytes it gets and the bytes it sends back. -/
def serve (carry : Carrier) (n : Network) (i : Nat) (bytes : List UInt8) :
    Option (Network × List UInt8) :=
  match n.service? i with
  | none => some (n, [])
  | some (.script replies received) =>
      some (n.setService i (.script replies.tail (received ++ [bytes])), replies.headD [])
  | some (.discovery d) =>
      match readRequest? bytes with
      | none => some (n, [])
      | some m =>
          let (lot, n) := n.draw
          let (d, result) := d.process lot m
          some (n.setService i (.discovery d), replyBytes result)
  | some (.peer p _) =>
      match readRequest? bytes with
      | none => some (n, [])
      | some m =>
          (perform carry (.peer i) (p.answer m).run n).map fun (n, result) => (n, replyBytes result)

/-- What the sender makes of the bytes that come back. -/
def readReply (bytes : List UInt8) : Outcome :=
  if maxMessageBytes < bytes.length then .error (.message (.tooLarge maxMessageBytes))
  else if bytes.isEmpty then .ok none
  else
    match Message.decode bytes with
    | .ok reply => .ok (some reply)
    | .error error => .error (.message error)

/-- One connection to the node with a number, unless nobody serves it. -/
def connect (carry : Carrier) (n : Network) (i : Nat) (bytes : List UInt8) :
    Option (Network × List UInt8) :=
  if n.presence? i = some .bound then none else serve carry n i bytes

/-- Carries one message to its address and brings back the reply. -/
def exchange : (patience : Nat) → Carrier
  | 0 => fun _ _ => none
  | patience + 1 => fun n envelope =>
      match n.dial envelope.address with
      | .error fault => some (n, .error (.connectionFailed (.at envelope.address fault)))
      | .ok i =>
          (connect (exchange patience) n i envelope.message.encode).map fun (n, bytes) =>
            (n, readReply bytes)

/-- Enough patience for every exchange that settles: a search is handed on no more often than its
peers allow, and an announcement that passes a peer twice goes on for ever. -/
def patience (n : Network) : Nat :=
  n.nodes.foldl (fun most node => most.max ((node.peer?.map (·.maxHops)).getD 0)) n.nodes.length + 2

/-- Carries out an attempt of a client. -/
def run (n : Network) (attempt : Attempt Unit ε α) : Option (Network × Except ε α) :=
  perform (exchange n.patience) .client attempt.run n

/-- Sends bytes to an address and brings back what is sent in return. The bytes need not be a
message. -/
def transmit (n : Network) (address : String) (bytes : List UInt8) :
    Option (Network × Except AddressFault (List UInt8)) :=
  match n.dial address with
  | .error fault => some (n, .error fault)
  | .ok i => (connect (exchange n.patience) n i bytes).map fun (n, bytes) => (n, .ok bytes)

end Network

end ChordRing
