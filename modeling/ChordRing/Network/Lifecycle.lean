import ChordRing.Network
import ChordRing.Peer.Join

/-!
# Starting, joining, leaving and stopping

A node comes into a network by listening at an endpoint of its own. Its advertised host name is the
host it listens on, be it numeric or a name, with the port. A peer may be bound before it serves;
joining the ring makes it serve.
-/

namespace ChordRing

namespace Network

/-- The lowest of the ports for temporary use. -/
def firstFreePort : Nat := 49152

/-- A port that no node has. -/
def freePort (n : Network) : Nat :=
  n.nodes.foldl (fun port node => port.max (node.endpoint.port + 1)) firstFreePort

/-- The endpoint to listen at: of those of the host, the first one that is free. Port zero stands
for a free one. -/
def listen (n : Network) (host : String) (port : Nat) : Except NetworkError Endpoint :=
  match Endpoint.ofHost n.names host (if port = 0 then n.freePort else port) with
  | [] => .error (.server (.cannotListen host port .unresolved))
  | endpoints =>
      match endpoints.find? fun endpoint => (n.listener? endpoint).isNone with
      | some endpoint => .ok endpoint
      | none => .error (.server (.cannotListen host port .inUse))

/-- The network with one more node. -/
def add (n : Network) (node : Node) : Network := { n with nodes := n.nodes ++ [node] }

/-- The header of the messages of a node. -/
def headerFor (host : String) (endpoint : Endpoint) : Header :=
  ⟨host ++ ":" ++ toString endpoint.port, endpoint.host⟩

/-- Starts a discovery node. -/
def startDiscovery (n : Network) (host : String) (port : Nat) : Except NetworkError Network := do
  let endpoint ← n.listen host port
  pure (n.add ⟨endpoint, .serving, .discovery (.new (headerFor host endpoint))⟩)

/-- What a peer is started with. -/
structure PeerOptions where
  id : RingId
  tableSize : Nat
  maxHops : Nat
  rendezvous : Option String

/-- Starts a peer, which knows nobody yet. -/
def startPeer (n : Network) (host : String) (port : Nat) (options : PeerOptions)
    (presence : Presence) : Except NetworkError Network := do
  let endpoint ← n.listen host port
  let header := headerFor host endpoint
  let peer := Peer.new ⟨header.hostname, options.id⟩ options.tableSize options.maxHops header
  pure (n.add ⟨endpoint, presence, .peer peer options.rendezvous⟩)

/-- Starts a node that answers with given bytes. -/
def startScript (n : Network) (host : String) (port : Nat) (replies : List (List UInt8)) :
    Except NetworkError Network := do
  let endpoint ← n.listen host port
  pure (n.add ⟨endpoint, .serving, .script replies []⟩)

/-- Makes a bound node serve. A node that serves or is closed stays as it is. -/
def serveFrom (n : Network) (i : Nat) : Network :=
  if n.presence? i = some .bound then n.setPresence i .serving else n

/-- Makes a serving node refuse connections. A node that never served stays bound. -/
def stop (n : Network) (i : Nat) : Network :=
  if n.presence? i = some .serving then n.setPresence i .closed else n

/-- How a peer reaches the rendezvous service: through a discovery node of some name, or within
reach, with one registration for everybody. -/
inductive RendezvousAt where
  | named (discovery : String)
  | within (registration : Registration)

/-- Carries out a call of a peer. -/
def RendezvousAt.carry (header : Header) :
    RendezvousAt → (c : Call) → NodeTask PeerState c.Reply
  | .named discovery => Call.carry header discovery
  | .within registration => Call.carryWith header registration

/-- Carries out an attempt of the peer with a number on its own account. A node that is no peer
attempts nothing. -/
def act {ε α : Type} (n : Network) (i : Nat) (rendezvous : RendezvousAt)
    (attempt : Identifier → PeerAttempt ε α) : Option (Network × Except ε α) :=
  match n.peer? i with
  | none => none
  | some p =>
      perform (exchange n.patience) (.peer i)
        (Task.handle (rendezvous.carry p.header) (attempt p.identifier).run) n

/-- Makes a peer serve, then takes it into the ring. -/
def join (n : Network) (i : Nat) (rendezvous : RendezvousAt) :
    Option (Network × Except ChordError Unit) :=
  (n.serveFrom i).act i rendezvous Peer.join

/-- Takes a peer out of the ring. It goes on serving. -/
def leave (n : Network) (i : Nat) (rendezvous : RendezvousAt) :
    Option (Network × Except DiscoveryError Unit) :=
  n.act i rendezvous Peer.leave

/-- Refreshes the finger table of a peer. -/
def refresh (n : Network) (i : Nat) (rendezvous : RendezvousAt) :
    Option (Network × Except NetworkError Unit) :=
  n.act i rendezvous Peer.refresh

end Network

end ChordRing
