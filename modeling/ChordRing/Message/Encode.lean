import ChordRing.Message
import ChordRing.Text.Utf8

/-!
# Messages as bytes

A message is its tag, the two header texts and the fields of its body. Numbers are four bytes,
highest first; texts and blobs are led by their length; a truth value is one byte; a ring id is
the text of its four digits, and an identifier is a ring id and a host name.
-/

namespace ChordRing

namespace Wire

/-- A number below `2 ^ 32` as four bytes, highest first. Higher bits are dropped. -/
def number (n : Nat) : List UInt8 :=
  [UInt8.ofNat (n / 0x1000000), UInt8.ofNat (n / 0x10000), UInt8.ofNat (n / 0x100), UInt8.ofNat n]

/-- Bytes behind their length. -/
def blob (bytes : List UInt8) : List UInt8 := number bytes.length ++ bytes

/-- A text behind the length of its bytes. -/
def text (s : String) : List UInt8 := blob (Utf8.encode s)

/-- A truth value. -/
def boolean (b : Bool) : List UInt8 := [if b then 1 else 0]

/-- A ring id as the text of its digits. -/
def ringId (k : RingId) : List UInt8 := text k.hex

/-- An identifier, ring id first. -/
def identifier (p : Identifier) : List UInt8 := ringId p.id ++ text p.hostname

end Wire

open Wire

/-- The fields of a body in the order they are sent. -/
def Body.fields : Body → List UInt8
  | .getPredecessorRequest | .getSuccessorRequest | .getRandomPeerRequest => []
  | .registerPeerRequest peer | .peerIdentifierResponse peer | .networkJoinNotification peer
  | .networkExitNotification peer | .predecessorNotification peer | .successorNotification peer
  | .getRandomPeerResponse peer | .lookupResponse peer => identifier peer
  | .registerPeerResponse accepted contact => boolean accepted ++ identifier contact
  | .findSuccessorRequest target requester hops =>
      ringId target ++ identifier requester ++ number hops.toNat
  | .statusResponse status => text status.word
  | .lookupRequest fileKey hops => ringId fileKey ++ number hops.toNat
  | .storeFileRequest key name bytes | .moveFileRequest key name bytes =>
      ringId key ++ text name ++ blob bytes
  | .storeFileResponse key name | .moveFileResponse key name => ringId key ++ text name

/-- A message as it travels over a connection. -/
def Message.encode (m : Message) : List UInt8 :=
  number m.kind.tag ++ text m.header.hostname ++ text m.header.ipAddress ++ m.body.fields

end ChordRing
