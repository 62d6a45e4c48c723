import ChordRing.Program

/-!
# Running the program

Reads the input and the file that the program may need, runs it in a network of its own, and prints
what it leaves behind. The end of the input counts as the interruption of a node.
-/

namespace ChordRing

namespace Main

/-- Reads a stream to its end, behind the bytes already read. -/
partial def readToEnd (stream : IO.FS.Stream) (held : ByteArray) : IO ByteArray := do
  let bytes ← stream.read 65536
  if bytes.isEmpty then pure held else readToEnd stream (held ++ bytes)

/-- The file at a path, if it can be read. -/
def readFile (path : String) : IO (List File) := do
  try
    let bytes ← IO.FS.readBinFile path
    pure [⟨path, bytes.toList⟩]
  catch _ => pure []

/-- What a command needs from outside. -/
def setting : Option CommandLine.Invocation → IO Program.Setting
  | some (.run (.upload _ path)) => do pure ⟨[], ← readFile path, some 0⟩
  | some (.run _) => do
      let input ← readToEnd (← IO.getStdin) .empty
      pure ⟨input.toList, [], some 0⟩
  | _ => pure ⟨[], [], some 0⟩

end Main

end ChordRing

/-- Runs the program on its arguments. -/
def main (arguments : List String) : IO UInt32 := do
  let setting ← ChordRing.Main.setting (ChordRing.CommandLine.parse? arguments)
  match ChordRing.Program.run setting (.empty false) arguments with
  | none => pure 1
  | some (_, report) =>
      IO.print report.stdout
      match report.failure with
      | some line => IO.eprintln line
      | none => pure ()
      pure (UInt32.ofNat report.code)
