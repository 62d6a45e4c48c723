import ChordRing.Message.Decode
import ChordRing.Message.Encode
import ChordRing.Proofs.Digits
import ChordRing.Proofs.Utf8

/-!
# What the fields take

The reader of a field takes exactly the bytes that the field is written as, and leaves what stands
behind them. Each lemma here says so of one reader, for all byte strings and in both directions:
what is read was there (`Reader.text_eq_ok` and its like, from left to right), and what is there is
read (from right to left). Fields in a row are taken apart by `Reader.bind_eq_ok`. Only a ring id
may stand there in more than one way (`RingId.SpelledBy`).
-/

namespace ChordRing

/-- A length that four bytes can hold. -/
def lengthLimit : Nat := 2 ^ 32

/-- The text may stand for the ring id: it is read as that, and four bytes can hold its length. -/
def RingId.SpelledBy (k : RingId) (s : String) : Prop :=
  RingId.parse s = .ok k ∧ (Utf8.encode s).length < lengthLimit

theorem RingId.spelledBy_hex (k : RingId) : k.SpelledBy k.hex := by
  refine ⟨parse_hex k, ?_⟩
  rw [hex, Text.length_encode_hex]
  norm_num [lengthLimit]

/-- The number of bytes where a stretch stands `n` times. -/
theorem length_flatten_replicate (n : Nat) (stretch : List UInt8) :
    (List.replicate n stretch).flatten.length = n * stretch.length := by
  rw [List.length_flatten, List.map_replicate, List.sum_replicate, smul_eq_mul]

/-- Of a number only what is below `2 ^ 32` is written. -/
theorem Wire.number_mod (n : Nat) : number (n % lengthLimit) = number n := by
  simp only [number, lengthLimit, List.cons.injEq, ← UInt8.toNat_inj, UInt8.toNat_ofNat',
    and_true]
  refine ⟨?_, ?_, ?_, ?_⟩ <;> omega

theorem Kind.tag_of_ofTag? {n : Nat} {k : Kind} (h : Kind.ofTag? n = some k) : k.tag = n := by
  have hlt : n < 19 := (List.getElem?_eq_some_iff.1 h).1
  interval_cases n <;> cases h <;> rfl

theorem Status.word_of_ofWord? {word : String} {s : Status} (h : Status.ofWord? word = some s) :
    s.word = word := by
  unfold Status.ofWord? at h
  split at h <;> cases h <;> rfl

namespace Reader

variable {α β : Type} {bytes rest : List UInt8}

theorem done_eq_ok {a b : α} : done a bytes = .ok (b, rest) ↔ a = b ∧ bytes = rest := by
  rw [done, Except.ok.injEq, Prod.mk.injEq]

/-- Two fields in a row: the second is read where the first one ends. -/
theorem bind_eq_ok {first : Reader α} {second : α → Reader β} {b : β} :
    (first >>= second) bytes = .ok (b, rest) ↔
      ∃ a behind, first bytes = .ok (a, behind) ∧ second a behind = .ok (b, rest) := by
  show andThen first second bytes = .ok (b, rest) ↔ _
  rw [andThen]
  cases first bytes with
  | error e => simp
  | ok taken => simp [Prod.ext_iff]

/-- A field that is read and turned into a value. -/
theorem map_eq_ok {first : Reader α} {f : α → β} {b : β} :
    (first >>= fun a => done (f a)) bytes = .ok (b, rest) ↔
      ∃ a, first bytes = .ok (a, rest) ∧ f a = b := by
  rw [bind_eq_ok]
  constructor
  · rintro ⟨a, behind, hfirst, hdone⟩
    obtain ⟨hab, rfl⟩ := done_eq_ok.1 hdone
    exact ⟨a, hfirst, hab⟩
  · rintro ⟨a, hfirst, hab⟩
    exact ⟨a, rest, hfirst, done_eq_ok.2 ⟨hab, rfl⟩⟩

theorem take_eq_ok {count : Nat} {l : List UInt8} :
    take count bytes = .ok (l, rest) ↔ l.length = count ∧ bytes = l ++ rest := by
  simp only [take, List.length_take]
  by_cases hshort : min count bytes.length < count
  · rw [if_pos hshort]
    constructor
    · intro h
      cases h
    · rintro ⟨rfl, rfl⟩
      rw [List.length_append] at hshort
      omega
  · rw [if_neg hshort, Except.ok.injEq, Prod.mk.injEq]
    constructor
    · rintro ⟨rfl, rfl⟩
      exact ⟨by rw [List.length_take]; omega, (List.take_append_drop count bytes).symm⟩
    · rintro ⟨rfl, rfl⟩
      exact ⟨List.take_left, List.drop_left⟩

/-! ## Numbers -/

/-- Four bytes are the writing of the number that they are read as. -/
theorem number_of_length {l : List UInt8} (h : l.length = 4) :
    l.foldl (fun n b => n * 256 + b.toNat) 0 < lengthLimit ∧
      Wire.number (l.foldl (fun n b => n * 256 + b.toNat) 0) = l := by
  obtain ⟨b₁, b₂, b₃, b₄, rfl⟩ : ∃ b₁ b₂ b₃ b₄, l = [b₁, b₂, b₃, b₄] := by
    match l, h with
    | [b₁, b₂, b₃, b₄], _ => exact ⟨b₁, b₂, b₃, b₄, rfl⟩
  have h₁ := b₁.toNat_lt
  have h₂ := b₂.toNat_lt
  have h₃ := b₃.toNat_lt
  have h₄ := b₄.toNat_lt
  simp only [List.foldl_cons, List.foldl_nil]
  constructor
  · show _ < 4294967296
    omega
  · simp only [Wire.number, List.cons.injEq, ← UInt8.toNat_inj, UInt8.toNat_ofNat', and_true]
    refine ⟨?_, ?_, ?_, ?_⟩ <;> omega

theorem number_value {n : Nat} (h : n < lengthLimit) :
    (Wire.number n).foldl (fun n b => n * 256 + b.toNat) 0 = n := by
  have hlt : n < 4294967296 := h
  simp only [Wire.number, List.foldl_cons, List.foldl_nil, UInt8.toNat_ofNat']
  omega

theorem number_eq_ok {n : Nat} :
    number bytes = .ok (n, rest) ↔ n < lengthLimit ∧ bytes = Wire.number n ++ rest := by
  rw [number, map_eq_ok]
  constructor
  · rintro ⟨l, htake, rfl⟩
    obtain ⟨hlength, rfl⟩ := take_eq_ok.1 htake
    obtain ⟨hlt, hwritten⟩ := number_of_length hlength
    exact ⟨hlt, by rw [hwritten]⟩
  · rintro ⟨hlt, rfl⟩
    exact ⟨Wire.number n, take_eq_ok.2 ⟨rfl, rfl⟩, number_value hlt⟩

theorem hops_eq_ok {n : UInt32} :
    hops bytes = .ok (n, rest) ↔ bytes = Wire.number n.toNat ++ rest := by
  rw [hops, map_eq_ok]
  constructor
  · rintro ⟨count, hcount, rfl⟩
    obtain ⟨hlt, rfl⟩ := number_eq_ok.1 hcount
    rw [UInt32.toNat_ofNat_of_lt' hlt]
  · rintro rfl
    exact ⟨n.toNat, number_eq_ok.2 ⟨n.toNat_lt, rfl⟩, UInt32.ofNat_toNat⟩

theorem kind_eq_ok {k : Kind} :
    kind bytes = .ok (k, rest) ↔ bytes = Wire.number k.tag ++ rest := by
  rw [kind, bind_eq_ok]
  constructor
  · rintro ⟨tag, behind, htag, hkind⟩
    obtain ⟨-, rfl⟩ := number_eq_ok.1 htag
    cases hof : Kind.ofTag? tag with
    | none =>
        rw [hof] at hkind
        cases hkind
    | some k' =>
        rw [hof] at hkind
        obtain ⟨rfl, rfl⟩ := done_eq_ok.1 hkind
        rw [Kind.tag_of_ofTag? hof]
  · rintro rfl
    have hlt : k.tag < lengthLimit := by
      cases k <;> decide
    refine ⟨k.tag, rest, number_eq_ok.2 ⟨hlt, rfl⟩, ?_⟩
    rw [Kind.ofTag?_tag]
    rfl

theorem boolean_eq_ok {b : Bool} :
    boolean bytes = .ok (b, rest) ↔ bytes = Wire.boolean b ++ rest := by
  rw [boolean, bind_eq_ok]
  constructor
  · rintro ⟨l, behind, htake, hread⟩
    obtain ⟨hlength, rfl⟩ := take_eq_ok.1 htake
    obtain ⟨byte, rfl⟩ := List.length_eq_one_iff.1 hlength
    by_cases hfalse : byte = 0
    · subst hfalse
      obtain ⟨rfl, rfl⟩ := done_eq_ok.1 hread
      rfl
    by_cases htrue : byte = 1
    · subst htrue
      obtain ⟨rfl, rfl⟩ := done_eq_ok.1 hread
      rfl
    · simp [hfalse, htrue] at hread
      cases hread
  · rintro rfl
    exact ⟨Wire.boolean b, rest, take_eq_ok.2 ⟨rfl, rfl⟩, by cases b <;> rfl⟩

/-! ## Texts -/

theorem blob_eq_ok {l : List UInt8} :
    blob bytes = .ok (l, rest) ↔ l.length < lengthLimit ∧ bytes = Wire.blob l ++ rest := by
  rw [blob, bind_eq_ok]
  constructor
  · rintro ⟨count, behind, hcount, htake⟩
    obtain ⟨hlt, rfl⟩ := number_eq_ok.1 hcount
    obtain ⟨rfl, rfl⟩ := take_eq_ok.1 htake
    exact ⟨hlt, (List.append_assoc _ _ _).symm⟩
  · rintro ⟨hlt, rfl⟩
    exact ⟨l.length, l ++ rest, number_eq_ok.2 ⟨hlt, List.append_assoc _ _ _⟩,
      take_eq_ok.2 ⟨rfl, rfl⟩⟩

theorem text_eq_ok {s : String} :
    text bytes = .ok (s, rest) ↔
      (Utf8.encode s).length < lengthLimit ∧ bytes = Wire.text s ++ rest := by
  rw [text, bind_eq_ok]
  constructor
  · rintro ⟨l, behind, hblob, hread⟩
    obtain ⟨hlt, rfl⟩ := blob_eq_ok.1 hblob
    cases hdecode : Utf8.decode l with
    | error flaw =>
        rw [hdecode] at hread
        cases hread
    | ok s' =>
        rw [hdecode] at hread
        obtain ⟨rfl, rfl⟩ := done_eq_ok.1 hread
        rw [Utf8.eq_encode_of_decode hdecode] at hlt ⊢
        exact ⟨hlt, rfl⟩
  · rintro ⟨hlt, rfl⟩
    refine ⟨Utf8.encode s, rest, blob_eq_ok.2 ⟨hlt, rfl⟩, ?_⟩
    rw [Utf8.decode_encode]
    rfl

theorem ringId_eq_ok {k : RingId} :
    ringId bytes = .ok (k, rest) ↔ ∃ s, k.SpelledBy s ∧ bytes = Wire.text s ++ rest := by
  rw [ringId, bind_eq_ok]
  constructor
  · rintro ⟨s, behind, htext, hread⟩
    obtain ⟨hlt, rfl⟩ := text_eq_ok.1 htext
    cases hparse : RingId.parse s with
    | error fault =>
        rw [hparse] at hread
        cases hread
    | ok k' =>
        rw [hparse] at hread
        obtain ⟨rfl, rfl⟩ := done_eq_ok.1 hread
        exact ⟨s, ⟨hparse, hlt⟩, rfl⟩
  · rintro ⟨s, ⟨hparse, hlt⟩, rfl⟩
    refine ⟨s, rest, text_eq_ok.2 ⟨hlt, rfl⟩, ?_⟩
    rw [hparse]
    rfl

theorem status_eq_ok {s : Status} :
    status bytes = .ok (s, rest) ↔ bytes = Wire.text s.word ++ rest := by
  rw [status, bind_eq_ok]
  constructor
  · rintro ⟨word, behind, htext, hread⟩
    obtain ⟨-, rfl⟩ := text_eq_ok.1 htext
    cases hof : Status.ofWord? word with
    | none =>
        rw [hof] at hread
        cases hread
    | some s' =>
        rw [hof] at hread
        obtain ⟨rfl, rfl⟩ := done_eq_ok.1 hread
        rw [Status.word_of_ofWord? hof]
  · rintro rfl
    have hlt : (Utf8.encode s.word).length < lengthLimit := by
      cases s <;> decide
    exact ⟨s.word, rest, text_eq_ok.2 ⟨hlt, rfl⟩, by cases s <;> rfl⟩

end Reader

end ChordRing
