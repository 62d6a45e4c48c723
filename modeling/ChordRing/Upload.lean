import ChordRing.Exchange
import ChordRing.Sha256

/-!
# Uploads

Placing a file in the ring: hash its content to a key, find the key's owner through any member,
and store the file there. `FilePath.name?` gives the name under which a file is stored.
-/

namespace ChordRing

/-- The key of some content: the first two bytes of its digest. -/
def fileKey (bytes : List UInt8) : RingId :=
  .ofNat (((Sha256.digest bytes).take 2).foldl (fun n b => n * 256 + b.toNat) 0)

/-- Where an uploaded file ended up. -/
structure Receipt where
  key : RingId
  name : String
  owner : Identifier
  deriving DecidableEq, Repr

/-- Looks up the owner of a file through a random member and stores the file there. The key is
`key`, which the caller has from `fileKey`. -/
def uploadAs {σ : Type} (header : Header) (discovery : String) (key : RingId) (name : String)
    (bytes : List UInt8) : Attempt σ NodeError Receipt := do
  let entry ← (Rendezvous.randomPeer header discovery).adapt .discovery
  let owner ← (Exchange.lookup header entry key).adapt .network
  (Exchange.storeFile header owner key name bytes).adapt .network
  pure ⟨key, name, owner⟩

/-- Places a file in the ring. -/
def upload {σ : Type} (header : Header) (discovery name : String) (bytes : List UInt8) :
    Attempt σ NodeError Receipt :=
  uploadAs header discovery (fileKey bytes) name bytes

/-- A file that can be uploaded. -/
structure File where
  path : String
  bytes : List UInt8
  deriving DecidableEq, Repr

namespace FilePath

/-- The parts of a path between slashes, without empty ones and without dots that only stand for
the directory they are in. -/
def parts (path : String) : List (List Char) :=
  (path.toList.splitOnP (· == '/')).filter fun part => !part.isEmpty && part != ['.']

/-- The last part of a path, if it names something. -/
def name? (path : String) : Option String :=
  match (parts path).getLast? with
  | none => none
  | some part => if part = ['.', '.'] then none else some (String.ofList part)

/-- Why a path leads to no file. Steps up lead to directories; of the names that follow only the
first is looked at, because nothing stands there. -/
def fault (path : String) : FileFault :=
  if '\x00' ∈ path.toList then .nulInPath
  else if 4096 ≤ path.utf8ByteSize then .nameTooLong
  else
    match (parts path).dropWhile (· == ['.', '.']) with
    | part :: _ => if 255 < (Utf8.encodeChars part).length then .nameTooLong else .notFound
    | [] => .notFound

end FilePath

/-- The name and the content of the file at a path. The name is looked at first. -/
def readFile (files : List File) (path : String) : Except NodeError (String × List UInt8) :=
  match FilePath.name? path with
  | none => .error (.message (.invalidFormat (.noFileName path)))
  | some name =>
      match files.find? fun file => file.path == path with
      | some file => .ok (name, file.bytes)
      | none => .error (.file (FilePath.fault path))

/-- Places the file at a path in the ring. -/
def uploadFile {σ : Type} (files : List File) (header : Header) (discovery path : String) :
    Attempt σ NodeError Receipt :=
  match readFile files path with
  | .ok (name, bytes) => upload header discovery name bytes
  | .error error => throw error

end ChordRing
