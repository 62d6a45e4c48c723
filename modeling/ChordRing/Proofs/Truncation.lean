import ChordRing.Proofs.RoundTrip

/-!
# Reading on when more bytes come

What a reader makes of a byte string when more bytes follow. What was read is read again, with the
new bytes behind the rest. Where bytes were wanting, as many fewer are wanting, until there are
enough. Any other fault was found in bytes that are still there, and is found again. This is
`Reader.Stable`; it passes from one field to two in a row (`Stable.bind`) and so to all layouts, and
from the fields to a whole message (`Message.decoding_with_more_bytes`). So of a byte string that is
a message every proper prefix is truncated, and by no more than what it lacks.
-/

namespace ChordRing

/-- The error is found in bytes that have been read, whatever comes behind them. -/
def MessageError.Lasting : MessageError → Prop
  | .unknownTag _ => True
  | .invalidFormat (.notUtf8 _) | .invalidFormat (.ringId _) | .invalidFormat (.status _)
  | .invalidFormat (.boolean _) => True
  | _ => False

namespace Reader

variable {α β γ δ : Type} {bytes rest : List UInt8}

theorem bind_of_ok {first : Reader α} {second : α → Reader β} {a : α}
    (h : first bytes = .ok (a, rest)) : (first >>= second) bytes = second a rest := by
  show andThen first second bytes = _
  rw [andThen, h]

theorem bind_of_error {first : Reader α} {second : α → Reader β} {e : MessageError}
    (h : first bytes = .error e) : (first >>= second) bytes = .error e := by
  show andThen first second bytes = _
  rw [andThen, h]

/-- More bytes change nothing of what the reader reads, and of its faults only how many bytes are
wanting. -/
structure Stable (r : Reader α) : Prop where
  ok : ∀ {bytes rest : List UInt8} {a : α}, r bytes = .ok (a, rest) →
    ∀ more, r (bytes ++ more) = .ok (a, rest ++ more)
  truncated : ∀ {bytes : List UInt8} {n : Nat}, r bytes = .error (.truncated n) →
    0 < n ∧ ∀ more, more.length < n → r (bytes ++ more) = .error (.truncated (n - more.length))
  lasting : ∀ {bytes : List UInt8} {e : MessageError}, r bytes = .error e →
    (∀ n, e ≠ .truncated n) → e.Lasting ∧ ∀ more, r (bytes ++ more) = .error e

namespace Stable

theorem done (a : α) : Stable (Reader.done a) where
  ok := by
    intro bytes rest b h more
    obtain ⟨rfl, rfl⟩ := done_eq_ok.1 h
    rfl
  truncated := nofun
  lasting := nofun

/-- A fault that is found without looking at what follows. -/
theorem refuse {e : MessageError} (h : e.Lasting) : Stable (Reader.refuse e : Reader α) where
  ok := nofun
  truncated := by
    rintro bytes n ⟨⟩
    exact h.elim
  lasting := by
    rintro bytes _ ⟨⟩ -
    exact ⟨h, fun _ => rfl⟩

/-- Bytes that are taken are wanting only if the byte string ends too early. -/
theorem take (count : Nat) : Stable (Reader.take count) where
  ok := by
    intro bytes rest l h more
    obtain ⟨hlength, rfl⟩ := take_eq_ok.1 h
    exact take_eq_ok.2 ⟨hlength, List.append_assoc _ _ _⟩
  truncated := by
    intro bytes n h
    simp only [Reader.take, List.length_take] at h
    by_cases hshort : min count bytes.length < count
    · rw [if_pos hshort] at h
      injection h with h
      injection h with h
      refine ⟨by omega, ?_⟩
      intro more hmore
      have hstill : min count (bytes.length + more.length) < count := by omega
      have hwanting : count - min count (bytes.length + more.length) = n - more.length := by omega
      simp only [Reader.take, List.length_take, List.length_append]
      rw [if_pos hstill, hwanting]
    · rw [if_neg hshort] at h
      cases h
  lasting := by
    intro bytes e h hnot
    rw [Reader.take] at h
    split at h
    · injection h with h
      exact absurd h.symm (hnot _)
    · cases h

/-- Two fields in a row. The second one is reached once the first is read, and what it leaves to be
read grows by the new bytes. -/
theorem bind {first : Reader α} {second : α → Reader β} (h : Stable first)
    (hnext : ∀ a, Stable (second a)) : Stable (first >>= second) where
  ok := by
    intro bytes rest b hread more
    obtain ⟨a, behind, hfirst, hsecond⟩ := bind_eq_ok.1 hread
    exact bind_eq_ok.2 ⟨a, behind ++ more, h.ok hfirst more, (hnext a).ok hsecond more⟩
  truncated := by
    intro bytes n hread
    cases hfirst : first bytes with
    | error e =>
        rw [bind_of_error hfirst] at hread
        cases hread
        obtain ⟨hpos, hmore⟩ := h.truncated hfirst
        exact ⟨hpos, fun more hlt => bind_of_error (hmore more hlt)⟩
    | ok taken =>
        obtain ⟨a, behind⟩ := taken
        rw [bind_of_ok hfirst] at hread
        obtain ⟨hpos, hmore⟩ := (hnext a).truncated hread
        exact ⟨hpos, fun more hlt => (bind_of_ok (h.ok hfirst more)).trans (hmore more hlt)⟩
  lasting := by
    intro bytes e hread hnot
    cases hfirst : first bytes with
    | error e' =>
        rw [bind_of_error hfirst] at hread
        cases hread
        obtain ⟨hlasting, hmore⟩ := h.lasting hfirst hnot
        exact ⟨hlasting, fun more => bind_of_error (hmore more)⟩
    | ok taken =>
        obtain ⟨a, behind⟩ := taken
        rw [bind_of_ok hfirst] at hread
        obtain ⟨hlasting, hmore⟩ := (hnext a).lasting hread hnot
        exact ⟨hlasting, fun more => (bind_of_ok (h.ok hfirst more)).trans (hmore more)⟩

variable {first : Reader α} {second : Reader β} {third : Reader γ}

/-- One field, turned into a value. -/
theorem map (h : Stable first) (f : α → δ) : Stable (first >>= fun a => Reader.done (f a)) :=
  h.bind fun a => .done (f a)

/-- Two fields, turned into a value. -/
theorem map₂ (h₁ : Stable first) (h₂ : Stable second) (f : α → β → δ) :
    Stable (first >>= fun a => second >>= fun b => Reader.done (f a b)) :=
  h₁.bind fun a => h₂.map (f a)

/-- Three fields, turned into a value. -/
theorem map₃ (h₁ : Stable first) (h₂ : Stable second) (h₃ : Stable third) (f : α → β → γ → δ) :
    Stable (first >>= fun a => second >>= fun b => third >>= fun c => Reader.done (f a b c)) :=
  h₁.bind fun a => h₂.map₂ h₃ (f a)

/-! ## The fields -/

theorem number : Stable Reader.number :=
  (Stable.take 4).map _

theorem hops : Stable Reader.hops :=
  number.map _

theorem kind : Stable Reader.kind := by
  refine number.bind fun tag => ?_
  cases Kind.ofTag? tag with
  | some kind => exact .done kind
  | none => exact .refuse trivial

theorem boolean : Stable Reader.boolean := by
  refine (Stable.take 1).bind fun l => ?_
  split
  · exact .done false
  · exact .done true
  · exact .refuse trivial
  · exact .done false

theorem blob : Stable Reader.blob :=
  number.bind fun count => .take count

theorem text : Stable Reader.text := by
  refine blob.bind fun l => ?_
  cases Utf8.decode l with
  | ok s => exact .done s
  | error flaw => exact .refuse trivial

theorem ringId : Stable Reader.ringId := by
  refine text.bind fun s => ?_
  cases RingId.parse s with
  | ok k => exact .done k
  | error fault => exact .refuse trivial

theorem status : Stable Reader.status := by
  refine text.bind fun word => ?_
  cases Status.ofWord? word with
  | some status => exact .done status
  | none => exact .refuse trivial

theorem identifier : Stable Reader.identifier :=
  ringId.map₂ text _

theorem header : Stable Reader.header :=
  text.map₂ text _

theorem body (kind : Kind) : Stable (Reader.body kind) := by
  cases kind with
  | getPredecessorRequest | getSuccessorRequest | getRandomPeerRequest => exact .done _
  | registerPeerRequest | peerIdentifierResponse | networkJoinNotification
  | networkExitNotification | predecessorNotification | successorNotification
  | getRandomPeerResponse | lookupResponse => exact identifier.map _
  | registerPeerResponse => exact boolean.map₂ identifier _
  | findSuccessorRequest => exact ringId.map₃ identifier hops _
  | statusResponse => exact status.map _
  | lookupRequest => exact ringId.map₂ hops _
  | storeFileRequest | moveFileRequest => exact ringId.map₃ text blob _
  | storeFileResponse | moveFileResponse => exact ringId.map₂ text _

theorem message : Stable Reader.message :=
  kind.bind fun k => header.map₂ (body k) _

end Stable

end Reader

namespace Message

variable {bytes rest : List UInt8} {m : Message} {e : MessageError}

theorem decode_of_read (h : Reader.message bytes = .ok (m, rest)) :
    decode bytes =
      if rest = [] then .ok m else .error (.invalidFormat (.trailing rest.length)) := by
  rw [decode, h]
  cases rest with
  | nil => rfl
  | cons b rest => rfl

theorem decode_of_fault (h : Reader.message bytes = .error e) : decode bytes = .error e := by
  rw [decode, h]

/-- A byte string is a message, or one with bytes behind it, or the reader finds fault with it. -/
theorem decode_cases (bytes : List UInt8) :
    (∃ m rest, Reader.message bytes = .ok (m, rest) ∧
        (decode bytes = .ok m ∧ rest = [] ∨
          decode bytes = .error (.invalidFormat (.trailing rest.length)) ∧ rest ≠ [])) ∨
      ∃ e, Reader.message bytes = .error e ∧ decode bytes = .error e := by
  cases h : Reader.message bytes with
  | error e => exact Or.inr ⟨e, rfl, decode_of_fault h⟩
  | ok taken =>
      obtain ⟨m, rest⟩ := taken
      refine Or.inl ⟨m, rest, rfl, ?_⟩
      rw [decode_of_read h]
      by_cases hrest : rest = []
      · exact Or.inl ⟨if_pos hrest, hrest⟩
      · exact Or.inr ⟨if_neg hrest, hrest⟩

variable {more : List UInt8}

theorem decode_append_of_ok (h : decode bytes = .ok m) (hmore : more ≠ []) :
    decode (bytes ++ more) = .error (.invalidFormat (.trailing more.length)) := by
  obtain ⟨m', rest, hread, hend⟩ | ⟨e, -, hfault⟩ := decode_cases bytes
  · obtain ⟨-, rfl⟩ | ⟨hfault, -⟩ := hend
    · have hon : Reader.message (bytes ++ more) = .ok (m', [] ++ more) :=
        Reader.Stable.message.ok hread more
      rw [decode_of_read hon, List.nil_append, if_neg hmore]
    · exact nomatch hfault.symm.trans h
  · exact nomatch hfault.symm.trans h

theorem decode_append_of_trailing {t : Nat}
    (h : decode bytes = .error (.invalidFormat (.trailing t))) :
    decode (bytes ++ more) = .error (.invalidFormat (.trailing (t + more.length))) := by
  obtain ⟨m, rest, hread, hend⟩ | ⟨e, hread, hfault⟩ := decode_cases bytes
  · obtain ⟨hdone, -⟩ | ⟨hfault, hrest⟩ := hend
    · exact nomatch hdone.symm.trans h
    · have hon : Reader.message (bytes ++ more) = .ok (m, rest ++ more) :=
        Reader.Stable.message.ok hread more
      have hne : rest ++ more ≠ [] := fun heq => hrest (List.append_eq_nil_iff.1 heq).1
      have ht : rest.length = t := by
        have heq := hfault.symm.trans h
        injection heq with heq
        injection heq with heq
        injection heq
      rw [decode_of_read hon, if_neg hne, List.length_append, ht]
  · -- no field finds bytes that are left over
    have he : e = .invalidFormat (.trailing t) := Except.error.inj (hfault.symm.trans h)
    subst he
    exact absurd (Reader.Stable.message.lasting hread nofun).1 not_false

/-- Bytes that are wanting are wanting for a field. -/
theorem read_of_truncated {n : Nat} (h : decode bytes = .error (.truncated n)) :
    Reader.message bytes = .error (.truncated n) := by
  obtain ⟨m, rest, -, ⟨hdone, -⟩ | ⟨hfault, -⟩⟩ | ⟨e, hread, hfault⟩ := decode_cases bytes
  · exact nomatch hdone.symm.trans h
  · exact nomatch hfault.symm.trans h
  · rwa [Except.error.inj (hfault.symm.trans h)] at hread

theorem decode_append_of_truncated {n : Nat} (h : decode bytes = .error (.truncated n))
    (hlt : more.length < n) : decode (bytes ++ more) = .error (.truncated (n - more.length)) :=
  decode_of_fault ((Reader.Stable.message.truncated (read_of_truncated h)).2 more hlt)

theorem decode_append_of_lasting (h : decode bytes = .error e) (hshort : ∀ n, e ≠ .truncated n)
    (hover : ∀ t, e ≠ .invalidFormat (.trailing t)) :
    e.Lasting ∧ decode (bytes ++ more) = .error e := by
  obtain ⟨m, rest, -, ⟨hdone, -⟩ | ⟨hfault, -⟩⟩ | ⟨e', hread, hfault⟩ := decode_cases bytes
  · exact nomatch hdone.symm.trans h
  · exact absurd (Except.error.inj (h.symm.trans hfault)) (hover _)
  · have he : e' = e := Except.error.inj (hfault.symm.trans h)
    subst he
    obtain ⟨hlasting, hon⟩ := Reader.Stable.message.lasting hread hshort
    exact ⟨hlasting, decode_of_fault (hon more)⟩

/-- What the front of a byte string tells is what comes of the whole. -/
theorem decode_append_of_front {result : Except MessageError Message}
    (h : decodeFront? bytes more.length = some result) : decode (bytes ++ more) = result := by
  rw [decodeFront?] at h
  cases hdecode : decode bytes with
  | ok m =>
      rw [hdecode] at h
      obtain rfl := Option.some.inj h
      by_cases hmore : more = []
      · rw [hmore, List.append_nil, hdecode, List.length_nil, if_pos rfl]
      · have hlength : more.length ≠ 0 := fun hzero => hmore (List.length_eq_zero_iff.1 hzero)
        rw [decode_append_of_ok hdecode hmore, if_neg hlength]
  | error e =>
      rw [hdecode] at h
      split at h
      · cases ‹Except.error e = .ok _›
      · rename_i count he
        obtain rfl := Option.some.inj h
        exact decode_append_of_trailing (hdecode.trans he)
      · rename_i needed he
        split at h
        · rename_i hlt
          obtain rfl := Option.some.inj h
          exact decode_append_of_truncated (hdecode.trans he) hlt
        · cases h
      · rename_i e' hover hshort he
        obtain rfl := Option.some.inj h
        exact (decode_append_of_lasting (hdecode.trans he) hshort hover).2

/-- Decoding a repeated stretch is decoding all of its bytes. -/
theorem decodeRepeated_eq (stretch : List UInt8) (count : Nat) :
    decodeRepeated stretch count = decode (List.replicate count stretch).flatten := by
  rw [decodeRepeated]
  generalize hheld : min count 4096 = held
  have hsum : held + (count - held) = count := by omega
  have hwhole : (List.replicate held stretch).flatten ++
      (List.replicate (count - held) stretch).flatten = (List.replicate count stretch).flatten := by
    rw [← List.flatten_append, List.replicate_append_replicate, hsum]
  cases hfront : decodeFront? (List.replicate held stretch).flatten
      ((count - held) * stretch.length) with
  | none => rfl
  | some result =>
      rw [← length_flatten_replicate] at hfront
      rw [Option.getD_some, ← hwhole, decode_append_of_front hfront]

/-- What lacks bytes of a message is truncated: of every other byte string the rest could no longer
make a message. -/
theorem truncated_of_decode_append (h : decode (bytes ++ more) = .ok m) (hmore : more ≠ []) :
    ∃ n, decode bytes = .error (.truncated n) ∧ 1 ≤ n ∧ n ≤ more.length := by
  cases hdecode : decode bytes with
  | ok m' => exact nomatch (decode_append_of_ok hdecode hmore).symm.trans h
  | error e =>
      by_cases hshort : ∃ n, e = .truncated n
      · obtain ⟨n, rfl⟩ := hshort
        have hpos : 0 < n := (Reader.Stable.message.truncated (read_of_truncated hdecode)).1
        refine ⟨n, rfl, hpos, ?_⟩
        by_contra hlt
        have hstill := decode_append_of_truncated hdecode (Nat.lt_of_not_le hlt)
        exact nomatch hstill.symm.trans h
      by_cases hover : ∃ t, e = .invalidFormat (.trailing t)
      · obtain ⟨t, rfl⟩ := hover
        exact nomatch (decode_append_of_trailing hdecode).symm.trans h
      · have hlasting : e.Lasting ∧ decode (bytes ++ more) = .error e :=
          decode_append_of_lasting hdecode (fun n hn => hshort ⟨n, hn⟩) fun t ht => hover ⟨t, ht⟩
        exact nomatch hlasting.2.symm.trans h

/-- **Of a byte string that more bytes follow, a truncated one lacks as many bytes fewer, a message
has them trailing behind it, bytes that trail already trail with them, and any other error is the
same as before.** So what is missing of a message is what the error says, or more. -/
theorem decoding_with_more_bytes (bytes more : List UInt8) (hmore : more ≠ []) :
    (∀ n, decode bytes = .error (.truncated n) → more.length < n →
      decode (bytes ++ more) = .error (.truncated (n - more.length))) ∧
    (∀ m, decode bytes = .ok m →
      decode (bytes ++ more) = .error (.invalidFormat (.trailing more.length))) ∧
    (∀ t, decode bytes = .error (.invalidFormat (.trailing t)) →
      decode (bytes ++ more) = .error (.invalidFormat (.trailing (t + more.length)))) ∧
    (∀ e, decode bytes = .error e → (∀ n, e ≠ .truncated n) →
      (∀ t, e ≠ .invalidFormat (.trailing t)) →
      e.Lasting ∧ decode (bytes ++ more) = .error e) ∧
    ∀ m, decode (bytes ++ more) = .ok m →
      ∃ n, decode bytes = .error (.truncated n) ∧ 1 ≤ n ∧ n ≤ more.length :=
  ⟨fun _ h hlt => decode_append_of_truncated h hlt,
    fun _ h => decode_append_of_ok h hmore,
    fun _ h => decode_append_of_trailing h,
    fun _ h hshort hover => decode_append_of_lasting h hshort hover,
    fun _ h => truncated_of_decode_append h hmore⟩

/-- A message whose last two bytes are missing lacks two bytes; with the first of them it lacks one,
with one more than both it has one trailing behind it. -/
theorem decoding_with_more_bytes_exit :
    let m : Message := ⟨⟨"peer-7", "10.0.0.7"⟩, .networkExitNotification ⟨"[::1]", ⟨0x3dcf⟩⟩⟩
    let bytes := m.encode.take (m.encode.length - 2)
    decode bytes = .error (.truncated 2) ∧ decode (bytes ++ [49]) = .error (.truncated 1) ∧
      decode (bytes ++ [49, 93]) = .ok m ∧
      decode (bytes ++ [49, 93] ++ [0]) = .error (.invalidFormat (.trailing 1)) := by
  intro m bytes
  have hshort : decode bytes = .error (.truncated 2) := by decide +kernel
  have hwhole : bytes ++ [49, 93] = m.encode := by decide +kernel
  have hread : decode (bytes ++ [49, 93]) = .ok m := by
    rw [hwhole]
    exact decode_encode (by decide)
  obtain ⟨hon, -⟩ := decoding_with_more_bytes bytes [49] (by decide)
  obtain ⟨-, hbehind, -⟩ := decoding_with_more_bytes (bytes ++ [49, 93]) [0] (by decide)
  exact ⟨hshort, hon 2 hshort (by decide), hread, hbehind m hread⟩

end Message

end ChordRing
