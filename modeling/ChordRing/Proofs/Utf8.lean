import Mathlib.Tactic
import ChordRing.Text.Utf8

/-!
# Texts survive their bytes

`Utf8.decode` undoes `Utf8.encode` (`decode_encode`) and reads nothing but what `Utf8.encode` writes
(`eq_encode_of_decode`). The reader takes the bytes of one character at a time, with one lemma for
each width (`decodeFrom_one` to `decodeFrom_four`), and those are the bytes that the writer makes of
it (`decodeFrom_encodeChar`). The other way round, again with one lemma for each width
(`encodeChar_one` to `encodeChar_four`), the writer gives back the bytes that were taken.
-/

namespace ChordRing.Utf8

/-! ## Bytes -/

theorem toNat_byte {n : Nat} (h : n < 256) : (UInt8.ofNat n).toNat = n := by
  rw [UInt8.toNat_ofNat', Nat.mod_eq_of_lt h]

theorem not_lt_byte {b bound : UInt8} (h : bound.toNat ≤ b.toNat) : ¬ b < bound :=
  UInt8.not_lt.2 (UInt8.le_iff_toNat_le.2 h)

theorem le_byte {b bound : UInt8} (h : ¬ b < bound) : bound.toNat ≤ b.toNat :=
  UInt8.le_iff_toNat_le.1 (UInt8.not_lt.1 h)

theorem char_bounds (c : Char) :
    c.toNat < 0xD800 ∨ 0xDFFF < c.toNat ∧ c.toNat < 0x110000 := c.valid

theorem isContinuation_iff {b : UInt8} :
    isContinuation b = true ↔ 0x80 ≤ b.toNat ∧ b.toNat < 0xC0 := by
  simp [isContinuation, UInt8.le_iff_toNat_le, UInt8.lt_iff_toNat_lt]

theorem fitsThree_iff {b b₁ : UInt8} :
    fitsThree b b₁ = true ↔ 0x80 ≤ b₁.toNat ∧ b₁.toNat < 0xC0 ∧
      (b.toNat = 0xE0 → 0xA0 ≤ b₁.toNat) ∧ (b.toNat = 0xED → b₁.toNat < 0xA0) := by
  simp only [fitsThree, isContinuation, beq_iff_eq, ← UInt8.toNat_inj, UInt8.le_iff_toNat_le,
    UInt8.lt_iff_toNat_lt]
  split
  · simp_all
    omega
  · split
    · simp_all
      omega
    · simp_all

theorem fitsFour_iff {b b₁ : UInt8} :
    fitsFour b b₁ = true ↔ 0x80 ≤ b₁.toNat ∧ b₁.toNat < 0xC0 ∧
      (b.toNat = 0xF0 → 0x90 ≤ b₁.toNat) ∧ (b.toNat = 0xF4 → b₁.toNat < 0x90) := by
  simp only [fitsFour, isContinuation, beq_iff_eq, ← UInt8.toNat_inj, UInt8.le_iff_toNat_le,
    UInt8.lt_iff_toNat_lt]
  split
  · simp_all
    omega
  · split
    · simp_all
      omega
    · simp_all

/-! ## Reading one character -/

variable (acc : List Char) (start : Nat) (rest : List UInt8) {b b₁ b₂ b₃ : UInt8}

theorem decodeFrom_one (h : b.toNat < 0x80) :
    decodeFrom acc start (b :: rest) = decodeFrom (Char.ofNat b.toNat :: acc) (start + 1) rest := by
  have h₁ : b < 0x80 := UInt8.lt_iff_toNat_lt.2 h
  rw [decodeFrom.eq_def]
  simp only [if_pos h₁]

theorem decodeFrom_two (hlo : 0xC2 ≤ b.toNat) (hhi : b.toNat < 0xE0)
    (h : isContinuation b₁ = true) :
    decodeFrom acc start (b :: b₁ :: rest) =
      decodeFrom (charOf 0xC0 b [b₁] :: acc) (start + 2) rest := by
  have h₁ : ¬ b < 0x80 := not_lt_byte (show 0x80 ≤ b.toNat by omega)
  have h₂ : ¬ b < 0xC2 := not_lt_byte (show 0xC2 ≤ b.toNat by omega)
  have h₃ : b < 0xE0 := UInt8.lt_iff_toNat_lt.2 hhi
  rw [decodeFrom.eq_def]
  simp only [if_neg h₁, if_neg h₂, if_pos h₃, h, if_true]

theorem decodeFrom_three (hlo : 0xE0 ≤ b.toNat) (hhi : b.toNat < 0xF0)
    (hfit : fitsThree b b₁ = true) (h : isContinuation b₂ = true) :
    decodeFrom acc start (b :: b₁ :: b₂ :: rest) =
      decodeFrom (charOf 0xE0 b [b₁, b₂] :: acc) (start + 3) rest := by
  have h₁ : ¬ b < 0x80 := not_lt_byte (show 0x80 ≤ b.toNat by omega)
  have h₂ : ¬ b < 0xC2 := not_lt_byte (show 0xC2 ≤ b.toNat by omega)
  have h₃ : ¬ b < 0xE0 := not_lt_byte (show 0xE0 ≤ b.toNat by omega)
  have h₄ : b < 0xF0 := UInt8.lt_iff_toNat_lt.2 hhi
  rw [decodeFrom.eq_def]
  simp only [if_neg h₁, if_neg h₂, if_neg h₃, if_pos h₄, hfit, h, if_true]

theorem decodeFrom_four (hlo : 0xF0 ≤ b.toNat) (hhi : b.toNat < 0xF5)
    (hfit : fitsFour b b₁ = true) (h : isContinuation b₂ = true) (h' : isContinuation b₃ = true) :
    decodeFrom acc start (b :: b₁ :: b₂ :: b₃ :: rest) =
      decodeFrom (charOf 0xF0 b [b₁, b₂, b₃] :: acc) (start + 4) rest := by
  have h₁ : ¬ b < 0x80 := not_lt_byte (show 0x80 ≤ b.toNat by omega)
  have h₂ : ¬ b < 0xC2 := not_lt_byte (show 0xC2 ≤ b.toNat by omega)
  have h₃ : ¬ b < 0xE0 := not_lt_byte (show 0xE0 ≤ b.toNat by omega)
  have h₄ : ¬ b < 0xF0 := not_lt_byte (show 0xF0 ≤ b.toNat by omega)
  have h₅ : b < 0xF5 := UInt8.lt_iff_toNat_lt.2 hhi
  rw [decodeFrom.eq_def]
  simp only [if_neg h₁, if_neg h₂, if_neg h₃, if_neg h₄, if_pos h₅, hfit, h, h', if_true]

/-- The bytes of a character are read as that character, whatever follows them. -/
theorem decodeFrom_encodeChar (c : Char) :
    ∃ start', decodeFrom acc start (encodeChar c ++ rest) = decodeFrom (c :: acc) start' rest := by
  have hc := char_bounds c
  have hofNat : Char.ofNat c.toNat = c := Char.ofNat_toNat c
  simp only [encodeChar]
  generalize c.toNat = n at hc hofNat
  -- one case for each width; the bytes put together again give the number of the character
  split
  · have hb := toNat_byte (n := n) (by omega)
    refine ⟨start + 1, ?_⟩
    rw [List.singleton_append, decodeFrom_one _ _ _ (by omega), hb, hofNat]
  split
  · have hb := toNat_byte (n := 0xC0 + n / 64) (by omega)
    have hb₁ := toNat_byte (n := 0x80 + n % 64) (by omega)
    refine ⟨start + 2, ?_⟩
    rw [List.cons_append, List.singleton_append, decodeFrom_two _ _ _ (by omega) (by omega)
      (isContinuation_iff.2 (by omega))]
    have hn : (0xC0 + n / 64 - 0xC0) * 64 + (0x80 + n % 64 - 0x80) = n := by omega
    simp only [charOf, List.foldl_cons, List.foldl_nil, hb, hb₁, hn, hofNat]
  split
  · have hb := toNat_byte (n := 0xE0 + n / 4096) (by omega)
    have hb₁ := toNat_byte (n := 0x80 + n / 64 % 64) (by omega)
    have hb₂ := toNat_byte (n := 0x80 + n % 64) (by omega)
    refine ⟨start + 3, ?_⟩
    rw [List.cons_append, List.cons_append, List.singleton_append,
      decodeFrom_three _ _ _ (by omega) (by omega) (fitsThree_iff.2 (by omega))
        (isContinuation_iff.2 (by omega))]
    have hn : ((0xE0 + n / 4096 - 0xE0) * 64 + (0x80 + n / 64 % 64 - 0x80)) * 64 +
        (0x80 + n % 64 - 0x80) = n := by omega
    simp only [charOf, List.foldl_cons, List.foldl_nil, hb, hb₁, hb₂, hn, hofNat]
  · have hb := toNat_byte (n := 0xF0 + n / 262144) (by omega)
    have hb₁ := toNat_byte (n := 0x80 + n / 4096 % 64) (by omega)
    have hb₂ := toNat_byte (n := 0x80 + n / 64 % 64) (by omega)
    have hb₃ := toNat_byte (n := 0x80 + n % 64) (by omega)
    refine ⟨start + 4, ?_⟩
    rw [List.cons_append, List.cons_append, List.cons_append, List.singleton_append,
      decodeFrom_four _ _ _ (by omega) (by omega) (fitsFour_iff.2 (by omega))
        (isContinuation_iff.2 (by omega)) (isContinuation_iff.2 (by omega))]
    have hn : (((0xF0 + n / 262144 - 0xF0) * 64 + (0x80 + n / 4096 % 64 - 0x80)) * 64 +
        (0x80 + n / 64 % 64 - 0x80)) * 64 + (0x80 + n % 64 - 0x80) = n := by omega
    simp only [charOf, List.foldl_cons, List.foldl_nil, hb, hb₁, hb₂, hb₃, hn, hofNat]

/-- Characters are read back in order behind those already read. -/
theorem decodeFrom_encodeChars (cs : List Char) :
    ∀ (acc : List Char) (start : Nat),
      decodeFrom acc start (encodeChars cs) = .ok (acc.reverse ++ cs) := by
  induction cs with
  | nil =>
      intro acc start
      rw [List.append_nil]
      rfl
  | cons c cs ih =>
      intro acc start
      obtain ⟨start', hstep⟩ := decodeFrom_encodeChar acc start (encodeChars cs) c
      have hcons : encodeChars (c :: cs) = encodeChar c ++ encodeChars cs := rfl
      rw [hcons, hstep, ih, List.reverse_cons, List.append_assoc, List.singleton_append]

/-- **Every text is read back from its bytes.** -/
theorem decode_encode (s : String) : decode (encode s) = .ok s := by
  rw [decode, encode, decodeFrom_encodeChars, List.reverse_nil, List.nil_append]
  exact congrArg Except.ok (String.ofList_toList)

/-! ## Writing what was read -/

variable {acc start} {bytes : List UInt8}

/-- A number that no surrogate has is the number of a character. -/
theorem toNat_char {n : Nat} (h : n < 0xD800 ∨ 0xDFFF < n ∧ n < 0x110000) :
    (Char.ofNat n).toNat = n := by
  rw [Char.ofNat, dif_pos (show n.isValidChar from h)]
  show (UInt32.ofNatLT n _).toNat = n
  exact UInt32.toNat_ofNatLT

/-- A byte of which the number is known. -/
theorem byte_eq {n : Nat} (h : b.toNat = n) : UInt8.ofNat n = b := by
  rw [← h, UInt8.ofNat_toNat]

theorem encodeChar_one (h : b.toNat < 0x80) : encodeChar (Char.ofNat b.toNat) = [b] := by
  simp only [encodeChar, toNat_char (n := b.toNat) (by omega), if_pos h, UInt8.ofNat_toNat]

/-- The bytes of a character are found from its number `n`, which they give put together. -/
theorem encodeChar_two (hlo : 0xC2 ≤ b.toNat) (hhi : b.toNat < 0xE0)
    (h : isContinuation b₁ = true) : encodeChar (charOf 0xC0 b [b₁]) = [b, b₁] := by
  obtain ⟨h₁, h₁'⟩ := isContinuation_iff.1 h
  have hchar : ∀ n, n = (b.toNat - 0xC0) * 64 + (b₁.toNat - 0x80) →
      encodeChar (Char.ofNat n) = [b, b₁] := by
    intro n hn
    simp only [encodeChar, toNat_char (n := n) (by omega)]
    rw [if_neg (by omega), if_pos (by omega), byte_eq (b := b) (by omega),
      byte_eq (b := b₁) (by omega)]
  exact hchar _ rfl

theorem encodeChar_three (hlo : 0xE0 ≤ b.toNat) (hhi : b.toNat < 0xF0)
    (hfit : fitsThree b b₁ = true) (h : isContinuation b₂ = true) :
    encodeChar (charOf 0xE0 b [b₁, b₂]) = [b, b₁, b₂] := by
  obtain ⟨h₁, h₁', hlow, hhigh⟩ := fitsThree_iff.1 hfit
  obtain ⟨h₂, h₂'⟩ := isContinuation_iff.1 h
  have hchar : ∀ n, n = ((b.toNat - 0xE0) * 64 + (b₁.toNat - 0x80)) * 64 + (b₂.toNat - 0x80) →
      encodeChar (Char.ofNat n) = [b, b₁, b₂] := by
    intro n hn
    simp only [encodeChar, toNat_char (n := n) (by omega)]
    rw [if_neg (by omega), if_neg (by omega), if_pos (by omega), byte_eq (b := b) (by omega),
      byte_eq (b := b₁) (by omega), byte_eq (b := b₂) (by omega)]
  exact hchar _ rfl

theorem encodeChar_four (hlo : 0xF0 ≤ b.toNat) (hhi : b.toNat < 0xF5)
    (hfit : fitsFour b b₁ = true) (h : isContinuation b₂ = true) (h' : isContinuation b₃ = true) :
    encodeChar (charOf 0xF0 b [b₁, b₂, b₃]) = [b, b₁, b₂, b₃] := by
  obtain ⟨h₁, h₁', hlow, hhigh⟩ := fitsFour_iff.1 hfit
  obtain ⟨h₂, h₂'⟩ := isContinuation_iff.1 h
  obtain ⟨h₃, h₃'⟩ := isContinuation_iff.1 h'
  have hchar : ∀ n, n = (((b.toNat - 0xF0) * 64 + (b₁.toNat - 0x80)) * 64 +
      (b₂.toNat - 0x80)) * 64 + (b₃.toNat - 0x80) →
      encodeChar (Char.ofNat n) = [b, b₁, b₂, b₃] := by
    intro n hn
    simp only [encodeChar, toNat_char (n := n) (by omega)]
    rw [if_neg (by omega), if_neg (by omega), if_neg (by omega), byte_eq (b := b) (by omega),
      byte_eq (b := b₁) (by omega), byte_eq (b := b₂) (by omega), byte_eq (b := b₃) (by omega)]
  exact hchar _ rfl

/-- The characters `cs` are those read before, held last first, and those that `bytes` spell. -/
def Spells (acc : List Char) (bytes : List UInt8) (cs : List Char) : Prop :=
  ∃ spelled, cs = acc.reverse ++ spelled ∧ bytes = encodeChars spelled

theorem Spells.cons {c : Char} {cs : List Char} {taken : List UInt8}
    (h : Spells (c :: acc) bytes cs) (htaken : encodeChar c = taken) :
    Spells acc (taken ++ bytes) cs := by
  obtain ⟨spelled, rfl, rfl⟩ := h
  refine ⟨c :: spelled, ?_, ?_⟩
  · rw [List.reverse_cons, List.append_assoc, List.singleton_append]
  · rw [← htaken]
    rfl

/-- Whatever is read is what its bytes spell. -/
theorem spells_of_decodeFrom {cs : List Char} (h : decodeFrom acc start bytes = .ok cs) :
    Spells acc bytes cs := by
  -- one case for each way through the reader; four of them read a character
  fun_induction decodeFrom acc start bytes with
  | case1 acc start =>
      cases h
      exact ⟨[], (List.append_nil _).symm, rfl⟩
  | case2 acc start b rest hone ih =>
      exact (ih h).cons (encodeChar_one (UInt8.lt_iff_toNat_lt.1 hone))
  | case5 acc start b _ hlo hhi b₁ rest hcont ih =>
      exact (ih h).cons (encodeChar_two (le_byte hlo) (UInt8.lt_iff_toNat_lt.1 hhi) hcont)
  | case9 acc start b _ _ hlo hhi b₁ hfit b₂ rest hcont ih =>
      exact (ih h).cons
        (encodeChar_three (le_byte hlo) (UInt8.lt_iff_toNat_lt.1 hhi) hfit hcont)
  | case15 acc start b _ _ _ hlo hhi b₁ hfit b₂ hcont b₃ rest hcont' ih =>
      exact (ih h).cons
        (encodeChar_four (le_byte hlo) (UInt8.lt_iff_toNat_lt.1 hhi) hfit hcont hcont')
  | _ => cases h

/-- **Nothing is read but the bytes of a text.** -/
theorem eq_encode_of_decode {s : String} (h : decode bytes = .ok s) : bytes = encode s := by
  cases hread : decodeFrom [] 0 bytes with
  | error flaw =>
      rw [decode, hread] at h
      cases h
  | ok cs =>
      rw [decode, hread] at h
      cases h
      obtain ⟨spelled, hcs, hbytes⟩ := spells_of_decodeFrom hread
      rw [List.reverse_nil, List.nil_append] at hcs
      rw [encode, String.toList_ofList, hcs, hbytes]

end ChordRing.Utf8
