import ChordRing.CommandLine
import ChordRing.Console
import ChordRing.Network.Lifecycle

/-!
# The program

What the program does with a command line inside a network. A node serves until its console is
asked to end it, until its input cannot be read, or until it is interrupted; a peer joins the ring
before that and leaves it after. A failure ends the program with code 1 and a line of text, a wrong
command line with code 2.
-/

namespace ChordRing

open CommandLine

namespace Program

/-- What the program finds when it starts: its input, the files it can read, and after how many
printed lines it is interrupted, if it is. -/
structure Setting where
  input : List UInt8
  files : List File
  interruptAfter : Option Nat

/-- What the program leaves behind: its exit code, what it printed, and the line of a failure. -/
structure Report where
  code : Nat
  stdout : String
  failure : Option String
  deriving DecidableEq, Repr

namespace Report

/-- The report of a program that did what it was told. -/
def success (stdout : String) : Report := ⟨0, stdout, none⟩

/-- The report of a failure. -/
def failed (text : String) : Report := ⟨1, "", some ("Error: " ++ Text.quoted text)⟩

/-- The report of a wrong command line. -/
def misused : Report := ⟨2, "", none⟩

end Report

/-- What a running node prints before it ends. A node whose input is closed goes on until it is
interrupted, and if it is not, it does not end. -/
def outputOf? (session : Console.Session) (interruptAfter : Option Nat) : Option String :=
  match session.ending with
  | .inputClosed =>
      match interruptAfter with
      | some lines => if lines ≤ session.output.toList.count '\n' then some session.output else none
      | none => none
  | _ => some session.output

/-- Runs a discovery node. -/
def runDiscovery (setting : Setting) (n : Network) (host : String) (port : Nat) :
    Option (Network × Report) :=
  match n.startDiscovery host port with
  | .error error => some (n, .failed ("Failed to create discovery node: " ++ error.describe))
  | .ok started =>
      let i := n.nodes.length
      match started.service? i with
      | some (.discovery node) =>
          (outputOf? (node.console setting.input) setting.interruptAfter).map fun output =>
            (started.stop i, .success output)
      | _ => none

/-- What a peer that cannot join ends with. -/
def joinFailure : ChordError → String
  | .idCollision id => "Ring id " ++ id.hex ++ " is already taken; restart with a different --id"
  | error => "Failed to join the ring: " ++ error.describe

/-- Runs a peer. -/
def runPeer (setting : Setting) (n : Network) (discovery : String) (id : RingId) (host : String)
    (port maxHops : Nat) : Option (Network × Report) :=
  match n.startPeer host port ⟨id, FingerTable.fullSize, maxHops, some discovery⟩ .bound with
  | .error error => some (n, .failed ("Failed to create peer: " ++ error.describe))
  | .ok started => do
      let i := n.nodes.length
      match ← started.join i (.named discovery) with
      | (n, .error error) => pure (n.stop i, .failed (joinFailure error))
      | (n, .ok _) =>
          let peer ← n.peer? i
          let output ← outputOf? (peer.console setting.input) setting.interruptAfter
          let (n, _) ← n.leave i (.named discovery)
          pure (n.stop i, .success output)

/-- The header of what an uploader sends. -/
def uploadHeader : Header := ⟨programName ++ "-upload", defaultHost⟩

/-- Uploads a file. -/
def runUpload (setting : Setting) (n : Network) (discovery path : String) :
    Option (Network × Report) :=
  (n.run (uploadFile setting.files uploadHeader discovery path)).map fun (n, result) =>
    match result with
    | .ok receipt => (n, .success (receipt.toJson.pretty ++ "\n"))
    | .error error => (n, .failed ("Upload failed: " ++ error.describe))

/-- Runs a command. -/
def runCommand (setting : Setting) (n : Network) : Command → Option (Network × Report)
  | .discovery port host => runDiscovery setting n host port
  | .peer discovery id host port maxHops => runPeer setting n discovery id host port maxHops
  | .upload discovery path => runUpload setting n discovery path

/-- Runs the program on its arguments. The result is `none` when it does not end. -/
def run (setting : Setting) (n : Network) (arguments : List String) : Option (Network × Report) :=
  match CommandLine.parse? arguments with
  | none => some (n, .misused)
  | some (.help topic) => some (n, .success topic.usage)
  | some .version => some (n, .success versionText)
  | some (.run command) => runCommand setting n command

end Program

end ChordRing
