import ChordRing.Failure

/-!
# Addresses

A host name may carry a port; `Address.resolve` appends the default port to one that does not.
`Endpoint.resolve` finds the numeric addresses and the port that a connection needs. A numeric
address of four parts stands for itself. For every other host the answers of the name service are
data (`Names`), and a host without an answer cannot be resolved.
-/

namespace ChordRing

/-- The port of a discovery node unless told otherwise. -/
def discoveryPort : UInt16 := 9000

/-- The port of a peer unless told otherwise. -/
def peerPort : UInt16 := 9001

/-- Four numbers and a port, at which a node listens. -/
structure Endpoint where
  ip : List Nat
  port : Nat
  deriving DecidableEq, Repr

namespace Address

/-- What stands before and after the last colon of a text. -/
def splitPort (cs : List Char) : Option (List Char × List Char) :=
  if ':' ∈ cs then
    let port := (cs.reverse.takeWhile (· != ':')).reverse
    some (cs.take (cs.length - port.length - 1), port)
  else none

/-- Reads a port number. -/
def readPort? (cs : List Char) : Option Nat := (Text.readNat 10 0x10000 cs).toOption

/-- The address for a host name: itself if it has a host and a port, else with the default port
appended. -/
def resolve (hostname : String) (defaultPort : UInt16) : String :=
  let appended := hostname ++ ":" ++ toString defaultPort.toNat
  match splitPort hostname.toList with
  | some (host, port) =>
      if host ≠ [] ∧ (readPort? port).isSome then hostname else appended
  | none => appended

/-- Reads one part of a numeric address: at most three digits, no needless zero in front, and a
value below 256. -/
def readOctet? (cs : List Char) : Option Nat :=
  if cs.isEmpty || 3 < cs.length || !cs.all Char.isDigit then none
  else if 1 < cs.length && cs.head? == some '0' then none
  else (Text.readNat 10 256 cs).toOption

/-- Reads a numeric address of four parts between dots. -/
def readIp? (cs : List Char) : Option (List Nat) :=
  let parts := cs.splitOnP (· == '.')
  if parts.length = 4 then parts.mapM readOctet? else none

end Address

/-- What a name service knows: hosts and their addresses, in the order in which they are tried. A
numeric address of another family is a name here like any other. -/
abbrev Names := List (String × List Nat)

namespace Endpoint

/-- The endpoints of a host that is looked up by its name. -/
def named (names : Names) (host : String) (port : Nat) : List Endpoint :=
  (names.filter fun entry => entry.1 == host).map fun entry => ⟨entry.2, port⟩

/-- The endpoints of a host and a port. -/
def ofHost (names : Names) (host : String) (port : Nat) : List Endpoint :=
  match Address.readIp? host.toList with
  | some ip => [⟨ip, port⟩]
  | none => named names host port

/-- The endpoints of an address, in the order in which they are tried: the colon is looked for
first, then the port is read, then the host. The port of a numeric address is digits alone; one with
a sign makes the host a name to be looked up, however numeric it seems. -/
def resolve (names : Names) (address : String) : Except AddressFault (List Endpoint) :=
  match Address.splitPort address.toList with
  | none => .error .invalidSocketAddress
  | some (host, port) =>
      match Address.readPort? port with
      | none => .error .invalidPort
      | some number =>
          let look := if port.all Char.isDigit then ofHost else named
          match look names (String.ofList host) number with
          | [] => .error .unresolved
          | endpoints => .ok endpoints

/-- The numeric address with dots. -/
def host (e : Endpoint) : String := ".".intercalate (e.ip.map toString)

/-- The endpoint as an address. -/
def address (e : Endpoint) : String := e.host ++ ":" ++ toString e.port

end Endpoint

end ChordRing
