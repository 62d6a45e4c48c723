import ChordRing.Discovery
import ChordRing.Record

/-!
# The console

The commands an operator types while a node runs. A console greets, then answers one command a
line until the input ends, a line is not UTF-8, or the operator asks a peer to leave. White space
around a command does not count, blank lines are passed over, and a line that is no command is
answered by saying so.
-/

namespace ChordRing

open Text

namespace Console

/-- Why a console ended. -/
inductive Ending where
  /-- The operator asked to leave. -/
  | requested
  /-- The input ended. -/
  | inputClosed
  /-- A line was not UTF-8. -/
  | unreadable (flaw : Utf8.Flaw)
  deriving DecidableEq, Repr

/-- What a console printed and why it ended. -/
structure Session where
  output : String
  ending : Ending
  deriving DecidableEq, Repr

/-- The lines of an input, each with the line break that ends it. -/
def lines : List UInt8 → List (List UInt8)
  | [] => []
  | b :: rest =>
      if b = 0x0A then [b] :: lines rest
      else
        match lines rest with
        | [] => [[b]]
        | line :: others => (b :: line) :: others

/-- A text with a line break at its end, unless it has one already. -/
def endLine (text : String) : String := if text.endsWith "\n" then text else text ++ "\n"

/-- Answers lines until one has no answer, which ends the session. -/
def converse (answer : String → Option String) : List (List UInt8) → Session
  | [] => ⟨"", .inputClosed⟩
  | line :: rest =>
      match Utf8.decode line with
      | .error flaw => ⟨"", .unreadable flaw⟩
      | .ok text =>
          if (trim text).isEmpty then converse answer rest
          else
            match answer text with
            | none => ⟨"", .requested⟩
            | some reply =>
                let session := converse answer rest
                { session with output := endLine reply ++ session.output }

/-- Greets, then answers the lines of the input. -/
def run (greeting : String) (answer : String → Option String) (input : List UInt8) : Session :=
  let session := converse answer (lines input)
  { session with output := endLine greeting ++ session.output }

/-- A line that is no command, without the white space around it. -/
structure UnknownCommand where
  text : String
  deriving DecidableEq, Repr

/-- What the operator is told. -/
def UnknownCommand.describe (unknown : UnknownCommand) : String :=
  "Invalid command '" ++ unknown.text ++ "'"

end Console

open Console

/-! ## The console of a peer -/

/-- The commands of a peer's console. -/
inductive PeerCommand where
  | getHost
  | getId
  | getFingerTable
  | getPredecessor
  | getSuccessor
  | getFiles
  | exit
  | help
  deriving DecidableEq, Repr

/-- Reads a command. Two of them have a short form. -/
def PeerCommand.parse (line : String) : Except UnknownCommand PeerCommand :=
  match trim line with
  | "get-host" => .ok .getHost
  | "get-id" => .ok .getId
  | "get-ft" => .ok .getFingerTable
  | "get-predecessor" | "get-p" => .ok .getPredecessor
  | "get-successor" | "get-s" => .ok .getSuccessor
  | "get-files" => .ok .getFiles
  | "exit" => .ok .exit
  | "help" => .ok .help
  | other => .error ⟨other⟩

/-- The commands of a peer's console with their meaning. -/
def PeerCommand.usage : String :=
  "Peer usage:\n" ++
    "\tget-host                : print the address other peers use to reach us\n" ++
    "\tget-id                  : print our ring id\n" ++
    "\tget-ft                  : print the finger table\n" ++
    "\tget-predecessor | get-p : print our predecessor\n" ++
    "\tget-successor | get-s   : print our successor\n" ++
    "\tget-files               : print the files stored on this peer\n" ++
    "\texit                    : leave the ring and shut down\n"

namespace Peer

/-- What a peer's console says to a command. To `exit` it says nothing and ends. -/
def obey (peer : Peer) : PeerCommand → Option String
  | .getHost => some peer.identifier.hostname
  | .getId => some peer.identifier.id.hex
  | .getFingerTable => some peer.state.table.display
  | .getPredecessor => some peer.state.predecessor.display
  | .getSuccessor => some peer.state.successor.display
  | .getFiles => some peer.state.items.toJson.pretty
  | .exit => none
  | .help => some PeerCommand.usage

/-- Runs a peer's console on an input. -/
def console (peer : Peer) (input : List UInt8) : Session :=
  Console.run "Enter commands for peer: (type 'help' for usage)"
    (fun line =>
      match PeerCommand.parse line with
      | .ok command => peer.obey command
      | .error unknown => some unknown.describe)
    input

end Peer

/-! ## The console of a discovery node -/

/-- The commands of a discovery node's console. -/
inductive DiscoveryCommand where
  | getHost
  | getPeers
  | help
  deriving DecidableEq, Repr

/-- Reads a command. -/
def DiscoveryCommand.parse (line : String) : Except UnknownCommand DiscoveryCommand :=
  match trim line with
  | "get-host" => .ok .getHost
  | "get-peers" => .ok .getPeers
  | "help" => .ok .help
  | other => .error ⟨other⟩

/-- The commands of a discovery node's console with their meaning. -/
def DiscoveryCommand.usage : String :=
  "Discovery node usage:\n" ++
    "\tget-host  : print the address peers use to reach us\n" ++
    "\tget-peers : print every tracked peer\n"

namespace Discovery

/-- What a discovery node's console says to a command. -/
def obey (d : Discovery) : DiscoveryCommand → String
  | .getHost => d.header.hostname
  | .getPeers =>
      if d.registry.isEmpty then "No peers in the ring"
      else "\n".intercalate (d.registry.members.map Identifier.display)
  | .help => DiscoveryCommand.usage

/-- Runs a discovery node's console on an input. -/
def console (d : Discovery) (input : List UInt8) : Session :=
  Console.run "Enter commands for discovery node: (type 'help' for usage)"
    (fun line =>
      match DiscoveryCommand.parse line with
      | .ok command => some (d.obey command)
      | .error unknown => some unknown.describe)
    input

end Discovery

end ChordRing
