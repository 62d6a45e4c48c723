import ChordRing.Address
import ChordRing.RingId

/-!
# The command line

`CommandLine.parse?` reads the arguments of the program: one of three commands with its options
and operands, or a request for help or for the version. Arguments are read from left to right. The
first one that is wrong makes the whole line wrong, and a request for help is granted when
everything before it is right.
-/

namespace ChordRing

namespace CommandLine

/-- What the program can be told to do. -/
inductive Command where
  /-- Run a discovery node. -/
  | discovery (port : Nat) (host : String)
  /-- Run a peer and join the ring. -/
  | peer (discovery : String) (id : RingId) (host : String) (port : Nat) (maxHops : Nat)
  /-- Store a file at the peer responsible for its key. -/
  | upload (discovery : String) (path : String)
  deriving DecidableEq, Repr

/-- What help can be asked about. -/
inductive Topic where
  | program
  | discovery
  | peer
  | upload
  | help
  deriving DecidableEq, Repr

/-- What a command line asks for. -/
inductive Invocation where
  | run (command : Command)
  | help (topic : Topic)
  | version
  deriving DecidableEq, Repr

/-! ## Options and operands -/

/-- An option with a value: its long name, its letter if it has one, and the values it takes. -/
structure Switch where
  long : String
  letter : Option Char
  accepts : String → Bool

/-- What a command takes: options, and operands up to a number. -/
structure Grammar where
  switches : List Switch
  operands : Nat

/-- What was given so far: options with their values, and operands. -/
structure Given where
  values : List (String × String)
  operands : List String

namespace Given

/-- The value of an option. -/
def value? (given : Given) (long : String) : Option String := given.values.lookup long

/-- Takes note of an option, which must be new and take the value. -/
def withValue? (given : Given) (switch : Switch) (value : String) : Option Given :=
  if (given.value? switch.long).isSome then none
  else if switch.accepts value then
    some { given with values := given.values ++ [(switch.long, value)] }
  else none

/-- Takes note of an operand, which must not be empty and for which there must be room. -/
def withOperand? (grammar : Grammar) (given : Given) (operand : String) : Option Given :=
  if operand.isEmpty || grammar.operands ≤ given.operands.length then none
  else some { given with operands := given.operands ++ [operand] }

end Given

/-- An argument by its form. -/
inductive Argument where
  /-- The end of the options. -/
  | endOfOptions
  | long (name : String) (value : Option String)
  | short (letter : Char) (rest : List Char)
  | plain

/-- The form of an argument. A dash alone is plain. -/
def Argument.of (text : String) : Argument :=
  match text.toList with
  | ['-', '-'] => .endOfOptions
  | '-' :: '-' :: cs =>
      let name := cs.takeWhile (· != '=')
      .long (String.ofList name)
        (if name.length < cs.length then some (String.ofList (cs.drop (name.length + 1))) else none)
  | '-' :: letter :: rest => .short letter rest
  | _ => .plain

/-- Whether an argument can be the value of the option before it. -/
def Argument.isPlain : Argument → Bool
  | .plain => true
  | _ => false

/-- An option found in an argument, with its value if that is in the same argument. -/
inductive Found where
  | help
  | switch (switch : Switch) (value : Option String)

/-- The option that an argument names. The value of a long option stands behind an equals sign;
that of a letter follows at once, with or without the sign. -/
def Grammar.find? (grammar : Grammar) : Argument → Option Found
  | .long "help" none => some .help
  | .long name value =>
      (grammar.switches.find? fun switch => switch.long == name).map fun switch =>
        .switch switch value
  | .short 'h' _ => some .help
  | .short letter rest =>
      (grammar.switches.find? fun switch => switch.letter == some letter).map fun switch =>
        .switch switch
          (match rest with
            | [] => none
            | '=' :: value => some (String.ofList value)
            | value => some (String.ofList value))
  | _ => none

/-- What the arguments of a command come to. -/
inductive Scanned where
  | help
  | given (given : Given)

/-- Reads the arguments of a command behind those already taken note of. -/
def Grammar.scan? (grammar : Grammar) (given : Given) : List String → Option Scanned
  | [] => some (.given given)
  | argument :: rest =>
      match Argument.of argument with
      | .plain =>
          match given.withOperand? grammar argument with
          | some given => grammar.scan? given rest
          | none => none
      | .endOfOptions => (rest.foldlM (Given.withOperand? grammar) given).map .given
      | form =>
          match grammar.find? form with
          | none => none
          | some .help => some .help
          | some (.switch switch (some value)) =>
              match given.withValue? switch value with
              | some given => grammar.scan? given rest
              | none => none
          | some (.switch switch none) =>
              match rest with
              | [] => none
              | value :: rest =>
                  if (Argument.of value).isPlain then
                    match given.withValue? switch value with
                    | some given => grammar.scan? given rest
                    | none => none
                  else none

/-! ## The commands -/

/-- Reads a port. Zero may have a minus sign. -/
def readPort? (text : String) : Option Nat :=
  match text.toList with
  | '-' :: digit :: rest => (Text.readDigits 10 1 0 (digit :: rest)).toOption
  | cs => (Text.readNat 10 0x10000 cs).toOption

/-- Reads a number of hops, which fits a word of 64 bits. -/
def readHops? (text : String) : Option Nat := (Text.readNat 10 (1 <<< 64) text.toList).toOption

/-- The host that nodes are reached at unless told otherwise. -/
def defaultHost : String := "127.0.0.1"

/-- How often a peer lets a request be forwarded unless told otherwise. -/
def defaultMaxHops : Nat := 16

/-- The option for the port to listen on. -/
def portSwitch : Switch := ⟨"port", some 'p', fun text => (readPort? text).isSome⟩

/-- The option for the advertised host. -/
def hostSwitch : Switch := ⟨"host", some 'n', fun _ => true⟩

/-- The option for the discovery node. -/
def discoverySwitch : Switch := ⟨"discovery", some 'd', fun _ => true⟩

/-- The option for the ring id. -/
def idSwitch : Switch := ⟨"id", some 'i', fun text => (RingId.parse text).toOption.isSome⟩

/-- The option for the number of hops. -/
def hopsSwitch : Switch := ⟨"max-hops", none, fun text => (readHops? text).isSome⟩

/-- What a topic's command takes. -/
def Topic.grammar : Topic → Grammar
  | .discovery => ⟨[portSwitch, hostSwitch], 0⟩
  | .peer => ⟨[discoverySwitch, idSwitch, hostSwitch, portSwitch, hopsSwitch], 0⟩
  | .upload => ⟨[discoverySwitch], 1⟩
  | _ => ⟨[], 0⟩

/-- The command for what was given, if nothing is missing. -/
def Topic.command? (given : Given) : Topic → Option Command
  | .discovery =>
      some (.discovery (((given.value? "port").bind readPort?).getD discoveryPort.toNat)
        ((given.value? "host").getD defaultHost))
  | .peer => do
      let discovery ← given.value? "discovery"
      let id ← (given.value? "id").bind fun text => (RingId.parse text).toOption
      pure (.peer discovery id ((given.value? "host").getD defaultHost)
        (((given.value? "port").bind readPort?).getD peerPort.toNat)
        (((given.value? "max-hops").bind readHops?).getD defaultMaxHops))
  | .upload => do
      let discovery ← given.value? "discovery"
      let path ← given.operands.head?
      pure (.upload discovery path)
  | _ => none

/-- Reads the arguments of a command. -/
def Topic.parse? (topic : Topic) (arguments : List String) : Option Invocation :=
  match topic.grammar.scan? ⟨[], []⟩ arguments with
  | none => none
  | some .help => some (.help topic)
  | some (.given given) => (topic.command? given).map .run

/-- The topic with a name. -/
def Topic.ofName? : String → Option Topic
  | "discovery" => some .discovery
  | "peer" => some .peer
  | "upload" => some .upload
  | "help" => some .help
  | _ => none

/-- Reads the arguments of the program. -/
def parse? : List String → Option Invocation
  | [] => none
  | argument :: rest =>
      match Argument.of argument with
      | .long "help" none => some (.help .program)
      | .long "version" none => some .version
      | .short 'h' _ => some (.help .program)
      | .short 'V' _ => some .version
      | .plain =>
          match Topic.ofName? argument, rest with
          | some .help, [] => some (.help .program)
          | some .help, [name] => (Topic.ofName? name).map .help
          | some .help, _ => none
          | some topic, rest => topic.parse? rest
          | none, _ => none
      | _ => none

/-! ## Texts -/

/-- The name under which the program speaks of itself. -/
def programName : String := "ringlet"

/-- The name and the version of the program. -/
def versionText : String := programName ++ " 0.1.0\n"

/-- The commands and the options of the program, or the options of one of its commands. -/
def Topic.usage : Topic → String
  | .program =>
      "A Chord-style distributed hash table on a 16-bit ring\n\n" ++
        "Usage: " ++ programName ++ " <COMMAND>\n\n" ++
        "Commands:\n" ++
        "  discovery  Run the discovery node that joining peers and uploaders contact first\n" ++
        "  peer       Start a peer and join the ring\n" ++
        "  upload     Store a file on the peer responsible for its key\n" ++
        "  help       Print this message or the help of the given subcommand(s)\n\n" ++
        "Options:\n" ++
        "  -h, --help     Print help\n" ++
        "  -V, --version  Print version\n"
  | .discovery =>
      "Run the discovery node that joining peers and uploaders contact first\n\n" ++
        "Usage: " ++ programName ++ " discovery [OPTIONS]\n\n" ++
        "Options:\n" ++
        "  -p, --port <PORT>  Port to listen on [default: 9000]\n" ++
        "  -n, --host <HOST>  Host name peers use to reach this node [default: 127.0.0.1]\n" ++
        "  -h, --help         Print help\n"
  | .peer =>
      "Start a peer and join the ring\n\n" ++
        "Usage: " ++ programName ++ " peer [OPTIONS] --discovery <DISCOVERY> --id <ID>\n\n" ++
        "Options:\n" ++
        "  -d, --discovery <DISCOVERY>  Discovery node address, host or host:port\n" ++
        "  -i, --id <ID>                Ring id of this peer, 1 to 4 hex digits\n" ++
        "  -n, --host <HOST>            Host name other peers use to reach this peer " ++
        "[default: 127.0.0.1]\n" ++
        "  -p, --port <PORT>            Port to listen on (0 picks a free port) " ++
        "[default: 9001]\n" ++
        "      --max-hops <MAX_HOPS>    Forwarding hops after which a lookup is abandoned " ++
        "[default: 16]\n" ++
        "  -h, --help                   Print help\n"
  | .upload =>
      "Store a file on the peer responsible for its key\n\n" ++
        "Usage: " ++ programName ++ " upload --discovery <DISCOVERY> <FILE>\n\n" ++
        "Arguments:\n" ++
        "  <FILE>  File to upload\n\n" ++
        "Options:\n" ++
        "  -d, --discovery <DISCOVERY>  Discovery node address, host or host:port\n" ++
        "  -h, --help                   Print help\n"
  | .help =>
      "Print this message or the help of the given subcommand(s)\n\n" ++
        "Usage: " ++ programName ++ " help [COMMAND]...\n\n" ++
        "Arguments:\n" ++
        "  [COMMAND]...  Print help for the subcommand(s)\n"

end CommandLine

end ChordRing
