import ChordRing.Message
import ChordRing.Text.Utf8

/-!
# Failures

Everything that can go wrong, by cause: in the reading of a message, on the network, at the
discovery node, in the ring protocol. Each family has one function `describe` that words it for an
operator; the other definitions of the library speak of the causes only.
-/

namespace ChordRing

/-- The largest message, in bytes, that either side reads off a connection. -/
def maxMessageBytes : Nat := 64 * 1024 * 1024

/-- What is wrong with the form of a message or of a file path. -/
inductive FormatFault where
  | notUtf8 (flaw : Utf8.Flaw)
  | ringId (fault : RingId.Fault)
  | status (word : String)
  | boolean (byte : UInt8)
  | trailing (count : Nat)
  | noFileName (path : String)
  | described (text : String)
  deriving DecidableEq, Repr

/-- The wording of a format fault. -/
def FormatFault.describe : FormatFault → String
  | .notUtf8 flaw => "string is not UTF-8: " ++ flaw.describe
  | .ringId fault => "Invalid node ID: " ++ fault.describe
  | .status word => "status " ++ Text.quoted word
  | .boolean byte => "boolean byte 0x" ++ Text.hex 2 byte.toNat
  | .trailing count => toString count ++ " trailing bytes"
  | .noFileName path => path ++ " does not name a file"
  | .described text => text

/-- A message that cannot be read, or that is not the one expected. -/
inductive MessageError where
  | unknownTag (tag : Nat)
  | truncated (needed : Nat)
  | invalidFormat (fault : FormatFault)
  | unexpectedResponse (expected actual : Kind)
  | tooLarge (limit : Nat)
  deriving DecidableEq, Repr

/-- The wording of a message error. -/
def MessageError.describe : MessageError → String
  | .unknownTag tag => "Unknown message tag " ++ toString tag
  | .truncated needed => "Message truncated: needed " ++ toString needed ++ " more bytes"
  | .invalidFormat fault => "Invalid message format: " ++ fault.describe
  | .unexpectedResponse expected actual =>
      "Unexpected response: expected " ++ expected.name ++ ", got " ++ actual.name
  | .tooLarge limit => "Message exceeds " ++ toString limit ++ " bytes"

/-- Why an address cannot be connected to or listened on. -/
inductive AddressFault where
  | invalidSocketAddress
  | invalidPort
  | unresolved
  | networkUnreachable
  | refused
  | inUse
  deriving DecidableEq, Repr

/-- The wording of an address fault. -/
def AddressFault.describe : AddressFault → String
  | .invalidSocketAddress => "invalid socket address"
  | .invalidPort => "invalid port value"
  | .unresolved => "failed to lookup address information: Temporary failure in name resolution"
  | .networkUnreachable => "Network is unreachable (os error 101)"
  | .refused => "Connection refused (os error 111)"
  | .inUse => "Address already in use (os error 98)"

/-- A connection that was not made: to an address, for a fault, or as somebody else described it. -/
inductive ConnectFailure where
  | at (address : String) (fault : AddressFault)
  | described (text : String)
  deriving DecidableEq, Repr

/-- The wording of a failed connection. -/
def ConnectFailure.describe : ConnectFailure → String
  | .at address fault => address ++ ": " ++ fault.describe
  | .described text => text

/-- A server that did not do its part. -/
inductive ServerFault where
  | noAnswer (address : String) (kind : Kind)
  | badStatus (address : String) (status : Status)
  | cannotListen (host : String) (port : Nat) (fault : AddressFault)
  | described (text : String)
  deriving DecidableEq, Repr

/-- The wording of a server fault. -/
def ServerFault.describe : ServerFault → String
  | .noAnswer address kind =>
      address ++ " closed the connection without answering " ++ kind.name
  | .badStatus address status => address ++ " answered with status " ++ status.name
  | .cannotListen host port fault =>
      "unable to listen on " ++ host ++ ":" ++ toString port ++ ": " ++ fault.describe
  | .described text => text

/-- A failed exchange with another node. -/
inductive NetworkError where
  | connectionFailed (failure : ConnectFailure)
  | peerUnreachable (text : String)
  | server (fault : ServerFault)
  | message (error : MessageError)
  deriving DecidableEq, Repr

/-- The wording of a network error. -/
def NetworkError.describe : NetworkError → String
  | .connectionFailed failure => "Connection failed: " ++ failure.describe
  | .peerUnreachable text => "Peer unreachable: " ++ text
  | .server fault => "Server error: " ++ fault.describe
  | .message error => error.describe

/-- A failure at the discovery node or on the way to it. -/
inductive DiscoveryError where
  | noPeers
  | unsupportedRequest (request : String)
  | network (error : NetworkError)
  | message (error : MessageError)
  deriving DecidableEq, Repr

/-- The wording of a discovery error. -/
def DiscoveryError.describe : DiscoveryError → String
  | .noPeers => "No peers registered with the discovery node"
  | .unsupportedRequest request => "Unsupported request: " ++ request
  | .network error => error.describe
  | .message error => error.describe

/-- Why a join was given up: at the registration, while linking into the ring, or at the
announcement that ends it. -/
inductive JoinFault where
  | registration (error : DiscoveryError)
  | linking (error : NetworkError)
  | announcement (error : DiscoveryError)
  deriving DecidableEq, Repr

/-- The wording of a join fault. -/
def JoinFault.describe : JoinFault → String
  | .registration error => "registration failed: " ++ error.describe
  | .linking error => error.describe
  | .announcement error => "join announcement failed: " ++ error.describe

/-- A failure of the ring protocol. -/
inductive ChordError where
  | idCollision (id : RingId)
  | invalidNodeId (fault : RingId.Fault)
  | joinFailed (fault : JoinFault)
  | hopLimitExceeded (target : RingId) (limit : Nat)
  | invalidRequest (kind : Kind)
  | network (error : NetworkError)
  deriving DecidableEq, Repr

/-- The wording of a protocol failure. -/
def ChordError.describe : ChordError → String
  | .idCollision id => "Ring id " ++ id.hex ++ " is already taken by another peer"
  | .invalidNodeId fault => "Invalid node ID: " ++ fault.describe
  | .joinFailed fault => "Failed to join ring: " ++ fault.describe
  | .hopLimitExceeded target limit =>
      "Request for " ++ target.hex ++ " exceeded " ++ toString limit ++ " forwarding hops"
  | .invalidRequest kind => "Invalid request: peers do not handle " ++ kind.name
  | .network error => error.describe

/-- Why a file cannot be read. -/
inductive FileFault where
  | notFound
  | nameTooLong
  | nulInPath
  deriving DecidableEq, Repr

/-- The wording of a file fault. -/
def FileFault.describe : FileFault → String
  | .notFound => "No such file or directory (os error 2)"
  | .nameTooLong => "File name too long (os error 36)"
  | .nulInPath => "file name contained an unexpected NUL byte"

/-- Any failure of a node or an uploader. -/
inductive NodeError where
  | network (error : NetworkError)
  | chord (error : ChordError)
  | message (error : MessageError)
  | discovery (error : DiscoveryError)
  | file (fault : FileFault)
  deriving DecidableEq, Repr

/-- The wording of a node's failure. -/
def NodeError.describe : NodeError → String
  | .network error => "Network error: " ++ error.describe
  | .chord error => "Chord protocol error: " ++ error.describe
  | .message error => "Message error: " ++ error.describe
  | .discovery error => "Discovery error: " ++ error.describe
  | .file fault => "I/O error: " ++ fault.describe

end ChordRing
