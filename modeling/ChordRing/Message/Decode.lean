import ChordRing.Failure

/-!
# Reading messages

`Message.decode` reads one message from a byte string. The fields are read in the order they are
sent, the first one that fails decides the error, and bytes behind the last field are refused at
the end. Every reader takes the unread bytes and gives back what it read with the bytes behind it.
-/

namespace ChordRing

/-- A reader of one field: a value and the bytes behind it, or what is wrong. -/
abbrev Reader (α : Type) := List UInt8 → Except MessageError (α × List UInt8)

namespace Reader

variable {α β : Type}

/-- Reads nothing. -/
def done (a : α) : Reader α := fun bytes => .ok (a, bytes)

/-- Refuses whatever follows. -/
def refuse (error : MessageError) : Reader α := fun _ => .error error

/-- Reads a field, then another that may depend on it. -/
def andThen (first : Reader α) (second : α → Reader β) : Reader β := fun bytes =>
  match first bytes with
  | .ok (a, rest) => second a rest
  | .error error => .error error

instance : Monad Reader where
  pure := done
  bind := andThen

/-- Reads exactly `count` bytes. -/
def take (count : Nat) : Reader (List UInt8) := fun bytes =>
  let head := bytes.take count
  if head.length < count then .error (.truncated (count - head.length))
  else .ok (head, bytes.drop count)

/-- Reads a number of four bytes, highest first. -/
def number : Reader Nat := do
  let bytes ← take 4
  done (bytes.foldl (fun n b => n * 256 + b.toNat) 0)

/-- Reads a truth value. -/
def boolean : Reader Bool := do
  match ← take 1 with
  | [0] => done false
  | [1] => done true
  | b :: _ => refuse (.invalidFormat (.boolean b))
  | [] => done false

/-- Reads bytes behind their length. -/
def blob : Reader (List UInt8) := do
  take (← number)

/-- Reads a text. -/
def text : Reader String := do
  match Utf8.decode (← blob) with
  | .ok s => done s
  | .error flaw => refuse (.invalidFormat (.notUtf8 flaw))

/-- Reads a ring id in any spelling that `RingId.parse` takes. -/
def ringId : Reader RingId := do
  match RingId.parse (← text) with
  | .ok k => done k
  | .error fault => refuse (.invalidFormat (.ringId fault))

/-- Reads an identifier. -/
def identifier : Reader Identifier := do
  let id ← ringId
  let hostname ← text
  done ⟨hostname, id⟩

/-- Reads a status. -/
def status : Reader Status := do
  let word ← text
  match Status.ofWord? word with
  | some status => done status
  | none => refuse (.invalidFormat (.status word))

/-- Reads the kind of a message. -/
def kind : Reader Kind := do
  let tag ← number
  match Kind.ofTag? tag with
  | some kind => done kind
  | none => refuse (.unknownTag tag)

/-- Reads a count of hops. -/
def hops : Reader UInt32 := do
  done (UInt32.ofNat (← number))

/-- Reads a header. -/
def header : Reader Header := do
  let hostname ← text
  let ipAddress ← text
  done ⟨hostname, ipAddress⟩

/-- Reads the fields of a body of the given kind. -/
def body : Kind → Reader Body
  | .registerPeerRequest => do done (.registerPeerRequest (← identifier))
  | .registerPeerResponse => do
      let accepted ← boolean
      done (.registerPeerResponse accepted (← identifier))
  | .peerIdentifierResponse => do done (.peerIdentifierResponse (← identifier))
  | .getPredecessorRequest => done .getPredecessorRequest
  | .getSuccessorRequest => done .getSuccessorRequest
  | .networkJoinNotification => do done (.networkJoinNotification (← identifier))
  | .networkExitNotification => do done (.networkExitNotification (← identifier))
  | .findSuccessorRequest => do
      let target ← ringId
      let requester ← identifier
      done (.findSuccessorRequest target requester (← hops))
  | .predecessorNotification => do done (.predecessorNotification (← identifier))
  | .successorNotification => do done (.successorNotification (← identifier))
  | .statusResponse => do done (.statusResponse (← status))
  | .getRandomPeerRequest => done .getRandomPeerRequest
  | .getRandomPeerResponse => do done (.getRandomPeerResponse (← identifier))
  | .lookupRequest => do
      let fileKey ← ringId
      done (.lookupRequest fileKey (← hops))
  | .lookupResponse => do done (.lookupResponse (← identifier))
  | .storeFileRequest => do
      let key ← ringId
      let name ← text
      done (.storeFileRequest key name (← blob))
  | .storeFileResponse => do
      let key ← ringId
      done (.storeFileResponse key (← text))
  | .moveFileRequest => do
      let key ← ringId
      let name ← text
      done (.moveFileRequest key name (← blob))
  | .moveFileResponse => do
      let key ← ringId
      done (.moveFileResponse key (← text))

/-- Reads a message up to the end of its body. -/
def message : Reader Message := do
  let kind ← kind
  let header ← header
  done ⟨header, ← body kind⟩

end Reader

/-- The message that a byte string holds, with nothing behind it. -/
def Message.decode (bytes : List UInt8) : Except MessageError Message :=
  match Reader.message bytes with
  | .ok (m, []) => .ok m
  | .ok (_, rest) => .error (.invalidFormat (.trailing rest.length))
  | .error error => .error error

/-- What decoding comes to if `behind` more bytes follow the ones that are held. It is `none` when
these do not tell. -/
def Message.decodeFront? (held : List UInt8) (behind : Nat) :
    Option (Except MessageError Message) :=
  match decode held with
  | .ok m => some (if behind = 0 then .ok m else .error (.invalidFormat (.trailing behind)))
  | .error (.invalidFormat (.trailing count)) =>
      some (.error (.invalidFormat (.trailing (count + behind))))
  | .error (.truncated needed) =>
      if behind < needed then some (.error (.truncated (needed - behind))) else none
  | .error error => some (.error error)

/-- The message that a stretch of bytes holds when it is repeated. There may be more bytes than can
be held, so the first few thousand stretches are looked at before the others. -/
def Message.decodeRepeated (stretch : List UInt8) (count : Nat) : Except MessageError Message :=
  let held := min count 4096
  let front := (List.replicate held stretch).flatten
  (decodeFront? front ((count - held) * stretch.length)).getD
    (decode (List.replicate count stretch).flatten)

end ChordRing
