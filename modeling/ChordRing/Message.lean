import ChordRing.StoredItem
import ChordRing.Identifier

/-!
# Messages

What peers, the discovery node and uploaders say to each other. A message is a header, which names
its sender, and a body of one of nineteen kinds. Every kind has a name and a numeric tag;
`Kind.ofTag?` undoes `Kind.tag`.
-/

namespace ChordRing

/-- The sender of a message. -/
structure Header where
  hostname : String
  ipAddress : String
  deriving DecidableEq, Repr, Inhabited

/-- The outcome that a status response reports. -/
inductive Status where
  | ok
  | warning
  | error
  deriving DecidableEq, Repr

namespace Status

/-- The word for a status inside a message. -/
def word : Status → String
  | .ok => "OK"
  | .warning => "WARNING"
  | .error => "ERROR"

/-- The status that a word stands for. -/
def ofWord? : String → Option Status
  | "OK" => some .ok
  | "WARNING" => some .warning
  | "ERROR" => some .error
  | _ => none

/-- The name of a status in a failure report. -/
def name : Status → String
  | .ok => "Ok"
  | .warning => "Warning"
  | .error => "Error"

end Status

/-- The kinds of message, in the order of their tags. -/
inductive Kind where
  | registerPeerRequest
  | registerPeerResponse
  | peerIdentifierResponse
  | getPredecessorRequest
  | getSuccessorRequest
  | networkJoinNotification
  | networkExitNotification
  | findSuccessorRequest
  | predecessorNotification
  | successorNotification
  | statusResponse
  | getRandomPeerRequest
  | getRandomPeerResponse
  | lookupRequest
  | lookupResponse
  | storeFileRequest
  | storeFileResponse
  | moveFileRequest
  | moveFileResponse
  deriving DecidableEq, Repr

namespace Kind

/-- All kinds in the order of their tags. -/
def all : List Kind :=
  [registerPeerRequest, registerPeerResponse, peerIdentifierResponse, getPredecessorRequest,
    getSuccessorRequest, networkJoinNotification, networkExitNotification, findSuccessorRequest,
    predecessorNotification, successorNotification, statusResponse, getRandomPeerRequest,
    getRandomPeerResponse, lookupRequest, lookupResponse, storeFileRequest, storeFileResponse,
    moveFileRequest, moveFileResponse]

/-- The number that opens a message of this kind. -/
def tag : Kind → Nat
  | registerPeerRequest => 0
  | registerPeerResponse => 1
  | peerIdentifierResponse => 2
  | getPredecessorRequest => 3
  | getSuccessorRequest => 4
  | networkJoinNotification => 5
  | networkExitNotification => 6
  | findSuccessorRequest => 7
  | predecessorNotification => 8
  | successorNotification => 9
  | statusResponse => 10
  | getRandomPeerRequest => 11
  | getRandomPeerResponse => 12
  | lookupRequest => 13
  | lookupResponse => 14
  | storeFileRequest => 15
  | storeFileResponse => 16
  | moveFileRequest => 17
  | moveFileResponse => 18

/-- The kind with a given tag. -/
def ofTag? (n : Nat) : Option Kind := all[n]?

/-- The name of a kind in a failure report. -/
def name : Kind → String
  | registerPeerRequest => "RegisterPeerRequest"
  | registerPeerResponse => "RegisterPeerResponse"
  | peerIdentifierResponse => "PeerIdentifierResponse"
  | getPredecessorRequest => "GetPredecessorRequest"
  | getSuccessorRequest => "GetSuccessorRequest"
  | networkJoinNotification => "NetworkJoinNotification"
  | networkExitNotification => "NetworkExitNotification"
  | findSuccessorRequest => "FindSuccessorRequest"
  | predecessorNotification => "PredecessorNotification"
  | successorNotification => "SuccessorNotification"
  | statusResponse => "StatusResponse"
  | getRandomPeerRequest => "GetRandomPeerRequest"
  | getRandomPeerResponse => "GetRandomPeerResponse"
  | lookupRequest => "LookupRequest"
  | lookupResponse => "LookupResponse"
  | storeFileRequest => "StoreFileRequest"
  | storeFileResponse => "StoreFileResponse"
  | moveFileRequest => "MoveFileRequest"
  | moveFileResponse => "MoveFileResponse"

theorem ofTag?_tag (kind : Kind) : ofTag? kind.tag = some kind := by
  cases kind <;> rfl

end Kind

/-- What a message says. In a successor search `requester` is the peer that started it and `hops`
counts the forwards so far. -/
inductive Body where
  | registerPeerRequest (peer : Identifier)
  | registerPeerResponse (accepted : Bool) (contact : Identifier)
  | peerIdentifierResponse (peer : Identifier)
  | getPredecessorRequest
  | getSuccessorRequest
  | networkJoinNotification (peer : Identifier)
  | networkExitNotification (peer : Identifier)
  | findSuccessorRequest (target : RingId) (requester : Identifier) (hops : UInt32)
  | predecessorNotification (peer : Identifier)
  | successorNotification (peer : Identifier)
  | statusResponse (status : Status)
  | getRandomPeerRequest
  | getRandomPeerResponse (peer : Identifier)
  | lookupRequest (fileKey : RingId) (hops : UInt32)
  | lookupResponse (peer : Identifier)
  | storeFileRequest (key : RingId) (name : String) (bytes : List UInt8)
  | storeFileResponse (key : RingId) (name : String)
  | moveFileRequest (key : RingId) (name : String) (bytes : List UInt8)
  | moveFileResponse (key : RingId) (name : String)
  deriving DecidableEq, Repr

/-- The kind of a body. -/
def Body.kind : Body → Kind
  | .registerPeerRequest .. => .registerPeerRequest
  | .registerPeerResponse .. => .registerPeerResponse
  | .peerIdentifierResponse .. => .peerIdentifierResponse
  | .getPredecessorRequest => .getPredecessorRequest
  | .getSuccessorRequest => .getSuccessorRequest
  | .networkJoinNotification .. => .networkJoinNotification
  | .networkExitNotification .. => .networkExitNotification
  | .findSuccessorRequest .. => .findSuccessorRequest
  | .predecessorNotification .. => .predecessorNotification
  | .successorNotification .. => .successorNotification
  | .statusResponse .. => .statusResponse
  | .getRandomPeerRequest => .getRandomPeerRequest
  | .getRandomPeerResponse .. => .getRandomPeerResponse
  | .lookupRequest .. => .lookupRequest
  | .lookupResponse .. => .lookupResponse
  | .storeFileRequest .. => .storeFileRequest
  | .storeFileResponse .. => .storeFileResponse
  | .moveFileRequest .. => .moveFileRequest
  | .moveFileResponse .. => .moveFileResponse

/-- A body together with its sender. -/
structure Message where
  header : Header
  body : Body
  deriving DecidableEq, Repr

namespace Message

/-- The kind of a message. -/
def kind (m : Message) : Kind := m.body.kind

/-- The same message as sent on by another node. -/
def resentBy (m : Message) (header : Header) : Message := { m with header }

end Message

end ChordRing
