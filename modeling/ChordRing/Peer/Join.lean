import ChordRing.Peer.Call

/-!
# Joining and leaving

`Peer.join` takes a peer through its phases: register with the rendezvous service, find the
successor through the contact, take over the successor's predecessor, tell both neighbours,
announce the newcomer along the ring, fill the finger table with successor searches, and tell the
service. A call that fails ends the task, and what was changed before it stays changed.
-/

namespace ChordRing

namespace Peer

/-- The fingers that a refresh asks for: those whose position lies beyond the successor. -/
def staleFingers (self : Identifier) (s : PeerState) : List (Nat × RingId) :=
  ((List.range s.table.size).map fun i => (i, s.table.position i)).filter fun e =>
    !e.2.isBetween self.id s.successor.id

/-- Asks `successor` for each finger in turn and sets the finger to the answer. -/
def resolveFingers (self successor : Identifier) :
    List (Nat × RingId) → PeerAttempt NetworkError Unit
  | [] => pure ()
  | (i, position) :: rest => do
      let found ← findSuccessor successor position self
      update (·.setFinger i found)
      resolveFingers self successor rest

/-- Resolves every finger beyond the successor by asking the successor. The successor and the
fingers to ask for are read once, at the start. A peer that is its own successor asks nobody. -/
def refresh (self : Identifier) : PeerAttempt NetworkError Unit := do
  let s ← (Task.read : PeerTask PeerState)
  if s.successor = self then pure ()
  else resolveFingers self s.successor (staleFingers self s)

/-- Takes a peer into the ring through a member. -/
def link (self contact : Identifier) : PeerAttempt NetworkError Unit := do
  update (·.enter .locatingSuccessor)
  let successor ← findSuccessor contact self.id self
  update (·.setSuccessor successor)
  let predecessor ← predecessorOf successor
  update (·.meetPredecessor predecessor)
  update (·.enter .exchangingNotifications)
  notifyPredecessor successor self
  notifySuccessor predecessor self
  if successor ≠ self then announceJoin successor self
  update (·.enter .refreshingFingerTable)
  refresh self

/-- Joins the ring through the rendezvous service. The first member of a ring is handed back to
itself and links to nobody. -/
def join (self : Identifier) : PeerAttempt ChordError Unit := do
  update (·.enter .registering)
  let registration ← (register self).adapt fun e => .joinFailed (.registration e)
  if registration.accepted then
    if registration.contact ≠ self then
      (link self registration.contact).adapt fun e => .joinFailed (.linking e)
    (announceMember self).adapt fun e => .joinFailed (.announcement e)
    update (·.enter .joined)
  else
    update (·.enter .unjoined)
    throw (.idCollision self.id)

/-- Leaves the ring. Only the rendezvous service is told, and the peer counts as gone whether or
not the service could be reached. -/
def leave (self : Identifier) : PeerAttempt DiscoveryError Unit := .mk do
  let result ← (announceExit self).run
  update (·.enter .left)
  pure result

end Peer

end ChordRing
