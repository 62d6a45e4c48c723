import ChordRing.Exchange
import ChordRing.Route

/-!
# How a peer answers

`Peer.answer` is the whole of a peer's service: it answers a request from its state, takes note of
a notification, or hands a search on to a closer peer and relays the reply unchanged. The lock is
held while the state is read or changed and never while a request is handed on, since that request
may come back to the same peer.
-/

namespace ChordRing

namespace Peer

/-- A task of a peer that answers a message. -/
abbrev Answer := Attempt PeerState ChordError (Option Message)

/-- Reads the state under the lock. -/
def readState : NodeTask PeerState PeerState := .read

/-- Changes the state under the lock. -/
def changeState (change : PeerState → PeerState) : NodeTask PeerState Unit := .change change

/-- A reply under the peer's own header. -/
def reply (peer : Peer) (body : Body) : Answer := pure (some ⟨peer.header, body⟩)

/-- The reply to a notification that was taken note of. -/
def acknowledge (peer : Peer) : Answer := peer.reply (.statusResponse .ok)

/-- Refuses a request that has been forwarded as often as this peer allows. -/
def checkHops (peer : Peer) (target : RingId) (hops : UInt32) : Attempt PeerState ChordError Unit :=
  if peer.maxHops ≤ hops.toNat then throw (.hopLimitExceeded target peer.maxHops) else pure ()

/-- Hands a request on under the peer's own header and relays whatever comes back. -/
def forward (peer : Peer) (next : Identifier) (body : Body) : Answer := do
  let reply ← (Exchange.request (Exchange.addressOf next) ⟨peer.header, body⟩).adapt .network
  pure (some reply)

/-- Answers a successor search. -/
def answerFindSuccessor (peer : Peer) (target : RingId) (requester : Identifier)
    (hops : UInt32) : Answer := do
  let s ← readState
  match Route.findSuccessor s.table target with
  | .answer found => peer.reply (.peerIdentifierResponse found)
  | .forward next =>
      peer.checkHops target hops
      peer.forward next (.findSuccessorRequest target requester (hops + 1))

/-- Answers the lookup of a key. -/
def answerLookup (peer : Peer) (fileKey : RingId) (hops : UInt32) : Answer := do
  let s ← readState
  match Route.lookup s.table s.predecessor fileKey with
  | .answer found => peer.reply (.lookupResponse found)
  | .forward next =>
      peer.checkHops fileKey hops
      peer.forward next (.lookupRequest fileKey (hops + 1))

/-- Takes note of a newcomer and passes the announcement on to the successor, unless it would
reach the newcomer or come back to this peer. A peer ignores its own announcement. -/
def passOnJoin (peer : Peer) (joined : Identifier) : Answer := do
  if joined = peer.identifier then pure none
  else
    let s ← (Task.changeAndRead (·.learn joined) : NodeTask PeerState PeerState)
    if s.successor = joined ∨ s.successor = peer.identifier then pure none
    else
      (Exchange.notify (Exchange.addressOf s.successor)
        ⟨peer.header, .networkJoinNotification joined⟩).adapt .network
      pure none

/-- What a peer does with a message. -/
def answer (peer : Peer) (m : Message) : Answer :=
  match m.body with
  | .getPredecessorRequest => do
      let s ← readState
      peer.reply (.peerIdentifierResponse s.predecessor)
  | .getSuccessorRequest => do
      let s ← readState
      peer.reply (.peerIdentifierResponse s.successor)
  | .findSuccessorRequest target requester hops => peer.answerFindSuccessor target requester hops
  | .predecessorNotification p => do
      changeState (·.meetPredecessor p)
      peer.acknowledge
  | .successorNotification p => do
      changeState (·.setSuccessor p)
      peer.acknowledge
  | .networkJoinNotification joined => peer.passOnJoin joined
  | .lookupRequest fileKey hops => peer.answerLookup fileKey hops
  | .storeFileRequest key name bytes => do
      changeState (·.store ⟨key, name, bytes⟩)
      peer.reply (.storeFileResponse key name)
  | .moveFileRequest key name bytes => do
      changeState (·.store ⟨key, name, bytes⟩)
      peer.reply (.moveFileResponse key name)
  | _ => throw (.invalidRequest m.kind)

end Peer

end ChordRing
