import ChordRing.Proofs.Fields

/-!
# The spellings of a message

A message is written in pieces: bytes that stand as they are, bytes behind their length, and ring
ids. `Layout.Spelled` says which byte strings spell the pieces of a layout; only for a ring id is
there a choice, any text that is read as it. Where all lengths can be held by four bytes,
`Message.decode` accepts exactly the spellings of a message, and of these the message is written as
the one in which every ring id has its four lower-case digits (`Message.decode_iff_spelled`). Of a
longer file the writer drops the upper part of the length, and the message is not read back
(`Message.decode_repetitive_ne`).
-/

namespace ChordRing

/-- A stretch of a written message. -/
inductive Piece where
  /-- Bytes that stand as they are. -/
  | fixed (bytes : List UInt8)
  /-- Bytes behind their length. -/
  | counted (bytes : List UInt8)
  /-- A text behind its length that is read as a ring id. -/
  | ringId (k : RingId)
  deriving DecidableEq, Repr

/-- The piece stands at the front of `bytes`, with `rest` behind it. -/
def Piece.Stands (piece : Piece) (bytes rest : List UInt8) : Prop :=
  match piece with
  | .fixed l => bytes = l ++ rest
  | .counted l => l.length < lengthLimit ∧ bytes = Wire.blob l ++ rest
  | .ringId k => ∃ s, k.SpelledBy s ∧ bytes = Wire.text s ++ rest

/-- The stretches of a written message in order. -/
abbrev Layout := List Piece

namespace Layout

/-- The byte string spells the layout with `texts` standing for its ring ids in order. -/
inductive Spelled : Layout → List String → List UInt8 → Prop
  | nil : Spelled [] [] []
  | fixed {layout : Layout} {texts : List String} {bytes : List UInt8} (l : List UInt8) :
      Spelled layout texts bytes → Spelled (.fixed l :: layout) texts (l ++ bytes)
  | counted {layout : Layout} {texts : List String} {bytes : List UInt8} (l : List UInt8) :
      Spelled layout texts bytes → Spelled (.counted l :: layout) texts (Wire.blob l ++ bytes)
  | ringId {layout : Layout} {texts : List String} {bytes : List UInt8} {k : RingId} {s : String} :
      RingId.parse s = .ok k → Spelled layout texts bytes →
        Spelled (.ringId k :: layout) (s :: texts) (Wire.text s ++ bytes)

/-- The ring ids of a layout in order. -/
def ringIds : Layout → List RingId
  | [] => []
  | .fixed _ :: layout | .counted _ :: layout => ringIds layout
  | .ringId k :: layout => k :: ringIds layout

/-- The lengths of what stands behind its length, ring ids aside. -/
def lengths : Layout → List Nat
  | [] => []
  | .fixed _ :: layout | .ringId _ :: layout => lengths layout
  | .counted l :: layout => l.length :: lengths layout

/-- The layout with its ring ids written in four digits. -/
def written : Layout → List UInt8
  | [] => []
  | .fixed l :: layout => l ++ written layout
  | .counted l :: layout => Wire.blob l ++ written layout
  | .ringId k :: layout => Wire.ringId k ++ written layout

variable {layout : Layout} {texts : List String} {bytes bytes' rest : List UInt8}

theorem spelled_written (layout : Layout) :
    layout.Spelled (layout.ringIds.map RingId.hex) layout.written := by
  induction layout with
  | nil => exact .nil
  | cons piece layout ih =>
      cases piece with
      | fixed l => exact .fixed l ih
      | counted l => exact .counted l ih
      | ringId k => exact .ringId k.parse_hex ih

/-- A text behind its length tells where it ends. -/
theorem text_append_inj {s s' : String} (h : (Utf8.encode s).length < lengthLimit)
    (h' : (Utf8.encode s').length < lengthLimit) :
    Wire.text s ++ bytes = Wire.text s' ++ bytes' ↔ s = s' ∧ bytes = bytes' := by
  constructor
  · intro heq
    have hread : Reader.text (Wire.text s ++ bytes) = .ok (s, bytes) :=
      Reader.text_eq_ok.2 ⟨h, rfl⟩
    rw [heq, Reader.text_eq_ok.2 ⟨h', rfl⟩] at hread
    cases hread
    exact ⟨rfl, rfl⟩
  · rintro ⟨rfl, rfl⟩
    rfl

/-- The texts of the ring ids leave no choice for any other byte. -/
theorem Spelled.unique (h : layout.Spelled texts bytes) (h' : layout.Spelled texts bytes') :
    bytes' = bytes := by
  induction h generalizing bytes' with
  | nil =>
      cases h'
      rfl
  | fixed l _ ih =>
      cases h' with
      | fixed _ h' => rw [ih h']
  | counted l _ ih =>
      cases h' with
      | counted _ h' => rw [ih h']
  | ringId _ _ ih =>
      cases h' with
      | ringId _ h' => rw [ih h']

/-- What is written is the spelling with canonical ring ids. -/
theorem Spelled.written_eq_iff (h : layout.Spelled texts bytes)
    (hshort : ∀ s ∈ texts, (Utf8.encode s).length < lengthLimit) :
    layout.written = bytes ↔ ∀ s ∈ texts, RingId.Canonical s := by
  induction h with
  | nil => simp [written]
  | fixed l _ ih => rw [written, List.append_cancel_left_eq, ih hshort]
  | counted l _ ih => rw [written, List.append_cancel_left_eq, ih hshort]
  | @ringId _ _ _ k s hs _ ih =>
      obtain ⟨hfirst, hrest⟩ := List.forall_mem_cons.1 hshort
      rw [written, Wire.ringId, text_append_inj k.spelledBy_hex.2 hfirst, ih hrest,
        List.forall_mem_cons, RingId.canonical_iff_eq_hex hs, eq_comm]

/-! ## Reading the front of a byte string -/

/-- The layout is spelled at the front of `bytes`, with `rest` behind it, and four bytes can hold
the length of everything that stands behind one. -/
def Opens (layout : Layout) (bytes rest : List UInt8) : Prop :=
  (∀ n ∈ layout.lengths, n < lengthLimit) ∧ ∃ texts taken,
    (∀ s ∈ texts, (Utf8.encode s).length < lengthLimit) ∧ layout.Spelled texts taken ∧
      bytes = taken ++ rest

theorem opens_nil : Opens [] bytes rest ↔ bytes = rest := by
  constructor
  · rintro ⟨-, texts, taken, -, hspelled, rfl⟩
    cases hspelled
    rfl
  · rintro rfl
    exact ⟨nofun, [], [], nofun, .nil, rfl⟩

/-- The first piece is read, then the others behind it. -/
theorem opens_cons {piece : Piece} :
    Opens (piece :: layout) bytes rest ↔
      ∃ behind, piece.Stands bytes behind ∧ layout.Opens behind rest := by
  constructor
  · rintro ⟨hlengths, texts, taken, hshort, hspelled, rfl⟩
    cases hspelled with
    | fixed l h => exact ⟨_, List.append_assoc _ _ _, hlengths, _, _, hshort, h, rfl⟩
    | counted l h =>
        obtain ⟨hlt, hlengths⟩ := List.forall_mem_cons.1 hlengths
        exact ⟨_, ⟨hlt, List.append_assoc _ _ _⟩, hlengths, _, _, hshort, h, rfl⟩
    | ringId hs h =>
        obtain ⟨hlt, hshort⟩ := List.forall_mem_cons.1 hshort
        exact ⟨_, ⟨_, ⟨hs, hlt⟩, List.append_assoc _ _ _⟩, hlengths, _, _, hshort, h, rfl⟩
  · rintro ⟨behind, hstands, hlengths, texts, taken, hshort, h, rfl⟩
    cases piece with
    | fixed l =>
        obtain rfl := hstands
        exact ⟨hlengths, texts, _, hshort, .fixed l h, (List.append_assoc _ _ _).symm⟩
    | counted l =>
        obtain ⟨hlt, rfl⟩ := hstands
        exact ⟨List.forall_mem_cons.2 ⟨hlt, hlengths⟩, texts, _, hshort, .counted l h,
          (List.append_assoc _ _ _).symm⟩
    | ringId k =>
        obtain ⟨s, ⟨hs, hlt⟩, rfl⟩ := hstands
        exact ⟨hlengths, s :: texts, _, List.forall_mem_cons.2 ⟨hlt, hshort⟩, .ringId hs h,
          (List.append_assoc _ _ _).symm⟩

theorem opens_singleton {piece : Piece} : Opens [piece] bytes rest ↔ piece.Stands bytes rest := by
  simp only [opens_cons, opens_nil, exists_eq_right]

/-- One layout behind another is read behind it. -/
theorem opens_append {layout' : Layout} :
    Opens (layout ++ layout') bytes rest ↔
      ∃ behind, layout.Opens bytes behind ∧ layout'.Opens behind rest := by
  induction layout generalizing bytes with
  | nil => simp only [List.nil_append, opens_nil, exists_eq_left']
  | cons piece layout ih =>
      simp only [List.cons_append, opens_cons, ih]
      constructor
      · rintro ⟨behind, hpiece, middle, hlayout, hlayout'⟩
        exact ⟨middle, ⟨behind, hpiece, hlayout⟩, hlayout'⟩
      · rintro ⟨middle, ⟨behind, hpiece, hlayout⟩, hlayout'⟩
        exact ⟨behind, hpiece, middle, hlayout, hlayout'⟩

theorem opens_all :
    layout.Opens bytes [] ↔ (∀ n ∈ layout.lengths, n < lengthLimit) ∧
      ∃ texts, (∀ s ∈ texts, (Utf8.encode s).length < lengthLimit) ∧
        layout.Spelled texts bytes := by
  constructor
  · rintro ⟨hlengths, texts, taken, hshort, hspelled, rfl⟩
    exact ⟨hlengths, texts, hshort, by rwa [List.append_nil]⟩
  · rintro ⟨hlengths, texts, hshort, hspelled⟩
    exact ⟨hlengths, texts, bytes, hshort, hspelled, (List.append_nil bytes).symm⟩

end Layout

/-! ## Readers of layouts -/

/-- What an identifier is written as. -/
def Identifier.layout (p : Identifier) : Layout :=
  [.ringId p.id, .counted (Utf8.encode p.hostname)]

/-- What the fields of a body are written as. -/
def Body.layout : Body → Layout
  | .getPredecessorRequest | .getSuccessorRequest | .getRandomPeerRequest => []
  | .registerPeerRequest peer | .peerIdentifierResponse peer | .networkJoinNotification peer
  | .networkExitNotification peer | .predecessorNotification peer | .successorNotification peer
  | .getRandomPeerResponse peer | .lookupResponse peer => peer.layout
  | .registerPeerResponse accepted contact => [.fixed (Wire.boolean accepted)] ++ contact.layout
  | .findSuccessorRequest target requester hops =>
      [.ringId target] ++ (requester.layout ++ [.fixed (Wire.number hops.toNat)])
  | .statusResponse status => [.fixed (Wire.text status.word)]
  | .lookupRequest fileKey hops => [.ringId fileKey] ++ [.fixed (Wire.number hops.toNat)]
  | .storeFileRequest key name bytes | .moveFileRequest key name bytes =>
      [.ringId key] ++ ([.counted (Utf8.encode name)] ++ [.counted bytes])
  | .storeFileResponse key name | .moveFileResponse key name =>
      [.ringId key] ++ [.counted (Utf8.encode name)]

/-- What a header is written as. -/
def Header.layout (h : Header) : Layout :=
  [.counted (Utf8.encode h.hostname)] ++ [.counted (Utf8.encode h.ipAddress)]

/-- What a message is written as. -/
def Message.layout (m : Message) : Layout :=
  [.fixed (Wire.number m.kind.tag)] ++ (m.header.layout ++ m.body.layout)

/-- The lengths of the texts and blobs of a body, ring ids and statuses aside. -/
def Body.lengths : Body → List Nat
  | .getPredecessorRequest | .getSuccessorRequest | .getRandomPeerRequest | .statusResponse _
  | .lookupRequest .. => []
  | .registerPeerRequest peer | .registerPeerResponse _ peer | .peerIdentifierResponse peer
  | .networkJoinNotification peer | .networkExitNotification peer | .findSuccessorRequest _ peer _
  | .predecessorNotification peer | .successorNotification peer | .getRandomPeerResponse peer
  | .lookupResponse peer => [(Utf8.encode peer.hostname).length]
  | .storeFileRequest _ name bytes | .moveFileRequest _ name bytes =>
      [(Utf8.encode name).length, bytes.length]
  | .storeFileResponse _ name | .moveFileResponse _ name => [(Utf8.encode name).length]

/-- The lengths of the texts and blobs of a message. -/
def Message.lengths (m : Message) : List Nat :=
  (Utf8.encode m.header.hostname).length :: (Utf8.encode m.header.ipAddress).length ::
    m.body.lengths

namespace Reader

open Layout

/-- The reader takes the spellings of the layout of a value for that value, and nothing else. -/
def Takes {α : Type} (r : Reader α) (layout : α → Layout) : Prop :=
  ∀ bytes a rest, r bytes = .ok (a, rest) ↔ (layout a).Opens bytes rest

variable {α β γ δ : Type} {bytes rest : List UInt8} {first : Reader α} {second : Reader β}
  {third : Reader γ} {layout₁ : α → Layout} {layout₂ : β → Layout} {layout₃ : γ → Layout}

namespace Takes

/-- One field, turned into a value. -/
theorem map_iff (h : Takes first layout₁) (f : α → δ) {d : δ} :
    (first >>= fun a => done (f a)) bytes = .ok (d, rest) ↔
      ∃ a, f a = d ∧ (layout₁ a).Opens bytes rest := by
  rw [map_eq_ok]
  constructor
  · rintro ⟨a, hfirst, rfl⟩
    exact ⟨a, rfl, (h _ _ _).1 hfirst⟩
  · rintro ⟨a, rfl, hopens⟩
    exact ⟨a, (h _ _ _).2 hopens, rfl⟩

/-- Two fields, turned into a value. -/
theorem map₂_iff (h₁ : Takes first layout₁) (h₂ : Takes second layout₂) (f : α → β → δ) {d : δ} :
    (first >>= fun a => second >>= fun b => done (f a b)) bytes = .ok (d, rest) ↔
      ∃ a b, f a b = d ∧ (layout₁ a ++ layout₂ b).Opens bytes rest := by
  simp only [bind_eq_ok, h₂.map_iff, opens_append, h₁ _ _ _]
  constructor
  · rintro ⟨a, behind, hfirst, b, rfl, hsecond⟩
    exact ⟨a, b, rfl, behind, hfirst, hsecond⟩
  · rintro ⟨a, b, rfl, behind, hfirst, hsecond⟩
    exact ⟨a, behind, hfirst, b, rfl, hsecond⟩

/-- Three fields, turned into a value. -/
theorem map₃_iff (h₁ : Takes first layout₁) (h₂ : Takes second layout₂) (h₃ : Takes third layout₃)
    (f : α → β → γ → δ) {d : δ} :
    (first >>= fun a => second >>= fun b => third >>= fun c => done (f a b c)) bytes =
        .ok (d, rest) ↔
      ∃ a b c, f a b c = d ∧ (layout₁ a ++ (layout₂ b ++ layout₃ c)).Opens bytes rest := by
  simp only [bind_eq_ok, h₃.map_iff, opens_append, h₁ _ _ _, h₂ _ _ _]
  constructor
  · rintro ⟨a, behind, hfirst, b, behind', hsecond, c, rfl, hthird⟩
    exact ⟨a, b, c, rfl, behind, hfirst, behind', hsecond, hthird⟩
  · rintro ⟨a, b, c, rfl, behind, hfirst, behind', hsecond, hthird⟩
    exact ⟨a, behind, hfirst, b, behind', hsecond, c, rfl, hthird⟩

/-- A field of one piece. -/
theorem piece {piece : α → Piece}
    (h : ∀ {bytes rest : List UInt8} {a : α},
      first bytes = .ok (a, rest) ↔ (piece a).Stands bytes rest) :
    Takes first fun a => [piece a] :=
  fun _ _ _ => h.trans opens_singleton.symm

theorem kind : Takes Reader.kind fun k => [.fixed (Wire.number k.tag)] :=
  .piece kind_eq_ok

theorem hops : Takes Reader.hops fun n => [.fixed (Wire.number n.toNat)] :=
  .piece hops_eq_ok

theorem boolean : Takes Reader.boolean fun b => [.fixed (Wire.boolean b)] :=
  .piece boolean_eq_ok

theorem status : Takes Reader.status fun s => [.fixed (Wire.text s.word)] :=
  .piece status_eq_ok

theorem blob : Takes Reader.blob fun l => [.counted l] :=
  .piece blob_eq_ok

theorem text : Takes Reader.text fun s => [.counted (Utf8.encode s)] :=
  .piece text_eq_ok

theorem ringId : Takes Reader.ringId fun k => [.ringId k] :=
  .piece ringId_eq_ok

theorem identifier : Takes Reader.identifier Identifier.layout := by
  intro bytes p rest
  rw [Reader.identifier, map₂_iff ringId text fun id hostname => (⟨hostname, id⟩ : Identifier)]
  constructor
  · rintro ⟨id, hostname, rfl, hopens⟩
    exact hopens
  · intro hopens
    exact ⟨p.id, p.hostname, rfl, hopens⟩

theorem header : Takes Reader.header Header.layout := by
  intro bytes h rest
  rw [Reader.header, map₂_iff text text fun hostname ipAddress => (⟨hostname, ipAddress⟩ : Header)]
  constructor
  · rintro ⟨hostname, ipAddress, rfl, hopens⟩
    exact hopens
  · intro hopens
    exact ⟨h.hostname, h.ipAddress, rfl, hopens⟩

end Takes

/-- The fields of a body are read as the kind says. -/
theorem body_eq_ok {kind : Kind} {b : Body} :
    body kind bytes = .ok (b, rest) ↔ b.kind = kind ∧ b.layout.Opens bytes rest := by
  constructor
  · intro h
    -- kinds with the same fields are read alike
    cases kind with
    | getPredecessorRequest | getSuccessorRequest | getRandomPeerRequest =>
        obtain ⟨rfl, rfl⟩ := done_eq_ok.1 h
        exact ⟨rfl, opens_nil.2 rfl⟩
    | registerPeerRequest | peerIdentifierResponse | networkJoinNotification
    | networkExitNotification | predecessorNotification | successorNotification
    | getRandomPeerResponse | lookupResponse =>
        obtain ⟨p, rfl, hopens⟩ := (Takes.identifier.map_iff _).1 h
        exact ⟨rfl, hopens⟩
    | registerPeerResponse =>
        obtain ⟨accepted, contact, rfl, hopens⟩ := (Takes.boolean.map₂_iff .identifier _).1 h
        exact ⟨rfl, hopens⟩
    | findSuccessorRequest =>
        obtain ⟨target, requester, n, rfl, hopens⟩ :=
          (Takes.ringId.map₃_iff .identifier .hops _).1 h
        exact ⟨rfl, hopens⟩
    | statusResponse =>
        obtain ⟨s, rfl, hopens⟩ := (Takes.status.map_iff _).1 h
        exact ⟨rfl, hopens⟩
    | lookupRequest =>
        obtain ⟨fileKey, n, rfl, hopens⟩ := (Takes.ringId.map₂_iff .hops _).1 h
        exact ⟨rfl, hopens⟩
    | storeFileRequest | moveFileRequest =>
        obtain ⟨key, name, l, rfl, hopens⟩ := (Takes.ringId.map₃_iff .text .blob _).1 h
        exact ⟨rfl, hopens⟩
    | storeFileResponse | moveFileResponse =>
        obtain ⟨key, name, rfl, hopens⟩ := (Takes.ringId.map₂_iff .text _).1 h
        exact ⟨rfl, hopens⟩
  · rintro ⟨rfl, hopens⟩
    cases b with
    | getPredecessorRequest | getSuccessorRequest | getRandomPeerRequest =>
        exact done_eq_ok.2 ⟨rfl, opens_nil.1 hopens⟩
    | registerPeerRequest p | peerIdentifierResponse p | networkJoinNotification p
    | networkExitNotification p | predecessorNotification p | successorNotification p
    | getRandomPeerResponse p | lookupResponse p =>
        exact (Takes.identifier.map_iff _).2 ⟨p, rfl, hopens⟩
    | registerPeerResponse accepted contact =>
        exact (Takes.boolean.map₂_iff .identifier _).2 ⟨accepted, contact, rfl, hopens⟩
    | findSuccessorRequest target requester n =>
        exact (Takes.ringId.map₃_iff .identifier .hops _).2 ⟨target, requester, n, rfl, hopens⟩
    | statusResponse s => exact (Takes.status.map_iff _).2 ⟨s, rfl, hopens⟩
    | lookupRequest fileKey n => exact (Takes.ringId.map₂_iff .hops _).2 ⟨fileKey, n, rfl, hopens⟩
    | storeFileRequest key name l | moveFileRequest key name l =>
        exact (Takes.ringId.map₃_iff .text .blob _).2 ⟨key, name, l, rfl, hopens⟩
    | storeFileResponse key name | moveFileResponse key name =>
        exact (Takes.ringId.map₂_iff .text _).2 ⟨key, name, rfl, hopens⟩

theorem Takes.message : Takes Reader.message Message.layout := by
  intro bytes m rest
  simp only [Reader.message, bind_eq_ok, done_eq_ok, body_eq_ok, Takes.kind _ _ _,
    Takes.header _ _ _, Message.layout, opens_append]
  constructor
  · rintro ⟨k, behind, hkind, h, behind', hheader, b, _, ⟨rfl, hbody⟩, rfl, rfl⟩
    exact ⟨behind, hkind, behind', hheader, hbody⟩
  · rintro ⟨behind, hkind, behind', hheader, hbody⟩
    exact ⟨m.kind, behind, hkind, m.header, behind', hheader, m.body, rest, ⟨rfl, hbody⟩, rfl, rfl⟩

end Reader

namespace Message

/-- The texts and blobs are what stands behind a length. -/
theorem lengths_layout (m : Message) : m.layout.lengths = m.lengths := by
  obtain ⟨h, b⟩ := m
  cases b <;> rfl

/-- A byte string is read as a message when it spells it from end to end. -/
theorem decode_eq_ok {bytes : List UInt8} {m : Message} :
    decode bytes = .ok m ↔ (∀ n ∈ m.lengths, n < lengthLimit) ∧
      ∃ texts, (∀ s ∈ texts, (Utf8.encode s).length < lengthLimit) ∧
        m.layout.Spelled texts bytes := by
  rw [← m.lengths_layout, ← Layout.opens_all, ← Reader.Takes.message bytes m []]
  unfold decode
  cases Reader.message bytes with
  | error e => simp
  | ok taken =>
      obtain ⟨m', rest⟩ := taken
      cases rest with
      | nil => simp
      | cons b rest => simp

/-- What a message is written as is its layout, written. -/
theorem written_layout (m : Message) : m.layout.written = m.encode := by
  obtain ⟨h, b⟩ := m
  cases b <;>
    simp [Message.layout, Header.layout, Body.layout, Identifier.layout, Layout.written, encode,
      Body.fields, Wire.text, Wire.ringId, Wire.identifier]

/-- **Exactly the spellings of a message are read as it.** What a message is written as is its
layout with four digits for each ring id. A byte string is read as the message if and only if all
texts and blobs of the message are shorter than `2 ^ 32` bytes and the byte string spells the
layout, with a text shorter than that in the place of the digits of each ring id that is read as
that ring id. It is what the message is written as just when each of these texts has exactly four
lower-case digits, and apart from these texts no byte can vary. -/
theorem decode_iff_spelled (bytes : List UInt8) (m : Message) :
    m.layout.written = m.encode ∧
    (decode bytes = .ok m ↔ (∀ n ∈ m.lengths, n < lengthLimit) ∧
      ∃ texts, (∀ s ∈ texts, (Utf8.encode s).length < lengthLimit) ∧
        m.layout.Spelled texts bytes) ∧
    ∀ texts, (∀ s ∈ texts, (Utf8.encode s).length < lengthLimit) →
      m.layout.Spelled texts bytes →
        (m.encode = bytes ↔ ∀ s ∈ texts, RingId.Canonical s) ∧
        ∀ bytes', m.layout.Spelled texts bytes' → bytes' = bytes := by
  refine ⟨m.written_layout, decode_eq_ok, ?_⟩
  intro texts hshort hspelled
  rw [← m.written_layout]
  exact ⟨hspelled.written_eq_iff hshort, fun bytes' h' => hspelled.unique h'⟩

/-- A ring id written with a blank, a sign and a capital letter is read, and is not what the ring
id is written as. -/
theorem decode_iff_spelled_signed :
    decode (Wire.number 18 ++ Wire.text "a" ++ Wire.text "b" ++ Wire.text " +3F" ++
        Wire.text "file") = .ok ⟨⟨"a", "b"⟩, .moveFileResponse ⟨0x3f⟩ "file"⟩ ∧
      encode ⟨⟨"a", "b"⟩, .moveFileResponse ⟨0x3f⟩ "file"⟩ ≠
        Wire.number 18 ++ Wire.text "a" ++ Wire.text "b" ++ Wire.text " +3F" ++
          Wire.text "file" := by
  have hspelled : (layout ⟨⟨"a", "b"⟩, .moveFileResponse ⟨0x3f⟩ "file"⟩).Spelled [" +3F"]
      (Wire.number 18 ++ (Wire.text "a" ++ (Wire.text "b" ++ (Wire.text " +3F" ++
        (Wire.text "file" ++ []))))) :=
    .fixed _ (.counted _ (.counted _ (.ringId (by decide) (.counted _ .nil))))
  simp only [List.append_nil, ← List.append_assoc] at hspelled
  have hshort : ∀ s ∈ [" +3F"], (Utf8.encode s).length < lengthLimit := by decide
  obtain ⟨-, hdecode, hwritten⟩ := decode_iff_spelled
    (Wire.number 18 ++ Wire.text "a" ++ Wire.text "b" ++ Wire.text " +3F" ++ Wire.text "file")
    ⟨⟨"a", "b"⟩, .moveFileResponse ⟨0x3f⟩ "file"⟩
  refine ⟨hdecode.2 ⟨by decide, _, hshort, hspelled⟩, ?_⟩
  intro heq
  have hcanonical := (hwritten _ hshort hspelled).1.1 heq
  exact absurd (hcanonical " +3F" List.mem_cons_self) (by decide +kernel)

end Message

/-! ## A file that is too long -/

namespace Message

/-- A request to store a file without content. -/
def blank : Message := ⟨⟨"", ""⟩, .storeFileRequest ⟨0⟩ "file" []⟩

/-- A request to store a file in which the bytes of a `blank` request stand `n` times. -/
def repetitive (n : Nat) : Message :=
  ⟨⟨"", ""⟩, .storeFileRequest ⟨0⟩ "file" (List.replicate n blank.encode).flatten⟩

/-- A file whose length is a multiple of `2 ^ 32` is written like an empty one, with its content
behind that. -/
theorem encode_store_of_mod_eq_zero {h : Header} {k : RingId} {name : String} {bytes : List UInt8}
    (hlength : bytes.length % lengthLimit = 0) :
    encode ⟨h, .storeFileRequest k name bytes⟩ =
      encode ⟨h, .storeFileRequest k name []⟩ ++ bytes := by
  have hblob : Wire.blob bytes = Wire.blob [] ++ bytes := by
    rw [Wire.blob, ← Wire.number_mod, hlength, Wire.blob, List.length_nil, List.append_nil]
  simp only [encode, Body.fields, hblob, List.append_assoc, Message.kind, Body.kind]

theorem length_encode_blank : blank.encode.length = 32 := by
  decide +kernel

theorem length_flatten_blank (n : Nat) :
    (List.replicate n blank.encode).flatten.length = n * 32 := by
  rw [length_flatten_replicate, length_encode_blank]

theorem encode_repetitive {n : Nat} (h : n * 32 % lengthLimit = 0) :
    (repetitive n).encode = (List.replicate (n + 1) blank.encode).flatten := by
  have hlength : (List.replicate n blank.encode).flatten.length % lengthLimit = 0 := by
    rwa [length_flatten_blank]
  rw [repetitive, encode_store_of_mod_eq_zero hlength, List.replicate_succ, List.flatten_cons]
  rfl

theorem spelled_repetitive (n : Nat) :
    (repetitive n).layout.Spelled ["0000"] (repetitive n).encode := by
  have hdigits : (repetitive n).layout.ringIds.map RingId.hex = ["0000"] := by
    show [RingId.hex ⟨0⟩] = ["0000"]
    decide +kernel
  rw [← written_layout, ← hdigits]
  exact Layout.spelled_written _

theorem lt_of_decode_repetitive {n : Nat}
    (h : decode (repetitive n).encode = .ok (repetitive n)) : n * 32 < lengthLimit := by
  have hlt := (decode_eq_ok.1 h).1 (List.replicate n blank.encode).flatten.length
    (by simp [repetitive, lengths, Body.lengths])
  rwa [length_flatten_blank] at hlt

/-- A file of `2 ^ 32` bytes is written behind the length zero: the bytes are what the message is
written as, and they spell it, but they are not read as the message. -/
theorem decode_repetitive_ne :
    (repetitive (2 ^ 27)).encode = (List.replicate (2 ^ 27 + 1) blank.encode).flatten ∧
      (repetitive (2 ^ 27)).layout.Spelled ["0000"] (repetitive (2 ^ 27)).encode ∧
      decode (repetitive (2 ^ 27)).encode ≠ .ok (repetitive (2 ^ 27)) := by
  refine ⟨encode_repetitive (by norm_num [lengthLimit]), spelled_repetitive _, ?_⟩
  intro hread
  exact absurd (lt_of_decode_repetitive hread) (by norm_num [lengthLimit])

end Message

end ChordRing
