import ChordRing.Proofs.Numerals

/-!
# Ring ids survive their digits

`RingId.parse` undoes `RingId.hex` (`RingId.parse_hex`). A written ring id has nothing to trim, its
four characters are four bytes, and they are the digits of its number (`Text.digits_hexChars`). Of
all the texts that are read as a ring id, the one with exactly four lower-case digits is the one that
is written (`RingId.canonical_iff_eq_hex`). With the grammar of the texts that are read, this is all
there is to say on the two directions (`RingId.parse_accepts_numerals`).
-/

namespace ChordRing

namespace Text

/-- A written digit is the digit of its value, is not blank, and takes one byte. -/
theorem hexDigit_spec {d : Nat} (h : d < 16) :
    IsDigit (hexDigit d) d ∧ isBlank (hexDigit d) = false ∧ (hexDigit d).utf8Size = 1 := by
  interval_cases d <;> decide

theorem mem_hexChars {width value : Nat} {c : Char} (h : c ∈ hexChars width value) :
    ∃ d < 16, c = hexDigit d := by
  induction width generalizing value with
  | zero => exact absurd h List.not_mem_nil
  | succ width ih =>
      rcases List.mem_append.1 h with h | h
      · exact ih h
      · exact ⟨value % 16, Nat.mod_lt _ (by norm_num), List.mem_singleton.1 h⟩

/-- Written digits stand for the number that is written, as far as they reach. -/
theorem digits_hexChars (width value : Nat) : ∃ values,
    List.Forall₂ IsDigit (hexChars width value) values ∧
      Nat.ofDigits 16 values.reverse = value % 16 ^ width := by
  -- the last digit is written last, so the induction splits it off at the end
  induction width generalizing value with
  | zero => exact ⟨[], .nil, (Nat.mod_one value).symm⟩
  | succ width ih =>
      obtain ⟨values, hdigits, hvalue⟩ := ih (value / 16)
      obtain ⟨hlast, -⟩ := hexDigit_spec (Nat.mod_lt value (by norm_num : 16 > 0))
      refine ⟨values ++ [value % 16], List.rel_append hdigits (.cons hlast .nil), ?_⟩
      calc Nat.ofDigits 16 (values ++ [value % 16]).reverse
          = value % 16 + 16 * (value / 16 % 16 ^ width) := by
            rw [List.reverse_append, List.reverse_singleton, List.singleton_append,
              Nat.ofDigits_cons, hvalue]
        _ = value % 16 ^ (width + 1) := by rw [pow_succ', Nat.mod_mul]

/-- A written number takes one byte for each digit. -/
theorem length_encode_hex (width value : Nat) :
    (Utf8.encode (Text.hex width value)).length = width := by
  have hone : ∀ c ∈ hexChars width value, (Utf8.encodeChar c).length = 1 := by
    intro c hc
    obtain ⟨d, hd, rfl⟩ := mem_hexChars hc
    interval_cases d <;> decide
  rw [Utf8.encode, Text.hex, String.toList_ofList, Utf8.encodeChars, List.length_flatMap,
    List.map_congr_left hone, List.map_const', List.sum_replicate, length_hexChars, smul_eq_mul,
    Nat.mul_one]

/-- A lower-case hexadecimal digit. -/
def IsLowerHex (c : Char) : Prop := ('0' ≤ c ∧ c ≤ '9') ∨ ('a' ≤ c ∧ c ≤ 'f')

instance (c : Char) : Decidable (IsLowerHex c) := inferInstanceAs (Decidable (_ ∨ _))

/-- The lower-case digits are those that are written. -/
theorem isLowerHex_iff {c : Char} : IsLowerHex c ↔ ∃ d < 16, c = hexDigit d := by
  constructor
  · intro h
    simp only [IsLowerHex, Char.le_def, UInt32.le_iff_toNat_le] at h
    have hchar : Char.ofNat c.toNat = c := Char.ofNat_toNat c
    change (48 ≤ c.toNat ∧ c.toNat ≤ 57) ∨ (97 ≤ c.toNat ∧ c.toNat ≤ 102) at h
    generalize c.toNat = n at h hchar
    rcases h with ⟨hlo, hhi⟩ | ⟨hlo, hhi⟩
    · refine ⟨n - 48, by omega, ?_⟩
      rw [hexDigit, if_pos (by omega), ← hchar]
      congr 1
      show n = 48 + (n - 48)
      omega
    · refine ⟨n - 97 + 10, by omega, ?_⟩
      rw [hexDigit, if_neg (by omega), ← hchar]
      congr 1
      show n = 97 + (n - 97 + 10 - 10)
      omega
  · rintro ⟨d, hd, rfl⟩
    interval_cases d <;> decide

/-- Digits are the writing of their number. -/
theorem exists_eq_hexChars {cs : List Char} (h : ∀ c ∈ cs, IsLowerHex c) :
    ∃ n < 16 ^ cs.length, cs = hexChars cs.length n := by
  induction cs using List.reverseRecOn with
  | nil => exact ⟨0, Nat.one_pos, rfl⟩
  | append_singleton cs c ih =>
      obtain ⟨n, hn, hcs⟩ := ih fun d hd => h d (List.mem_append_left _ hd)
      obtain ⟨d, hd, hc⟩ := isLowerHex_iff.1 (h c (List.mem_append_right _ List.mem_cons_self))
      refine ⟨n * 16 + d, ?_, ?_⟩
      · rw [List.length_append, List.length_singleton, pow_succ]
        omega
      · have hdiv : (n * 16 + d) / 16 = n := by omega
        have hmod : (n * 16 + d) % 16 = d := by omega
        rw [List.length_append, List.length_singleton, hexChars, hdiv, hmod, ← hcs, ← hc]

end Text

namespace RingId

open Text

theorem denotes_hex (k : RingId) : Denotes k.hex k.toNat := by
  have hdigit : ∀ c ∈ hexChars 4 k.toNat, isBlank c = false ∧ c.utf8Size = 1 := by
    intro c hc
    obtain ⟨d, hd, rfl⟩ := mem_hexChars hc
    exact (hexDigit_spec hd).2
  have hsize : k.hex.utf8ByteSize = 4 := by
    rw [hex, Text.hex, utf8ByteSize_ofList, List.map_congr_left fun c hc => (hdigit c hc).2,
      List.map_const', List.sum_replicate, length_hexChars, smul_eq_mul]
  have hnumeral : Numeral (hexChars 4 k.toNat) k.toNat := by
    obtain ⟨values, hdigits, hvalue⟩ := digits_hexChars 4 k.toNat
    have hne : hexChars 4 k.toNat ≠ [] := by
      rw [← List.length_pos_iff, length_hexChars]
      norm_num
    have hmod : k.toNat % 16 ^ 4 = k.toNat := Nat.mod_eq_of_lt (toNat_lt k)
    have hwritten := Numeral.unsigned hne hdigits
    rwa [hvalue, hmod] at hwritten
  refine ⟨k.hex, ?_, by omega, ?_⟩
  · rw [hex, Text.hex, String.toList_ofList]
    exact stripped_self fun c hc => (hdigit c hc).1
  · rw [hex, Text.hex, String.toList_ofList]
    exact hnumeral

/-- Reading undoes writing. -/
theorem parse_hex (k : RingId) : parse k.hex = .ok k := parse_eq_ok_iff.2 (denotes_hex k)

/-- Exactly four lower-case hexadecimal digits. -/
def Canonical (s : String) : Prop := s.toList.length = 4 ∧ ∀ c ∈ s.toList, IsLowerHex c

instance (s : String) : Decidable (Canonical s) :=
  @instDecidableAnd _ _ _ (List.decidableBAll IsLowerHex s.toList)

theorem canonical_hex (k : RingId) : Canonical k.hex := by
  rw [Canonical, hex, Text.hex, String.toList_ofList]
  exact ⟨length_hexChars 4 k.toNat, fun c hc => isLowerHex_iff.2 (mem_hexChars hc)⟩

theorem Canonical.exists_eq_hex {s : String} (h : Canonical s) : ∃ k : RingId, s = k.hex := by
  obtain ⟨hlength, hdigits⟩ := h
  obtain ⟨n, hn, hs⟩ := exists_eq_hexChars hdigits
  rw [hlength] at hn hs
  have hlt : n < 65536 := hn
  refine ⟨ofNat n, ?_⟩
  rw [hex, toNat_ofNat, Nat.mod_eq_of_lt hlt, Text.hex, ← hs, String.ofList_toList]

/-- Of the texts that are read as a ring id, the canonical one is the one that is written. -/
theorem canonical_iff_eq_hex {s : String} {k : RingId} (h : parse s = .ok k) :
    Canonical s ↔ s = k.hex := by
  constructor
  · intro hcanonical
    obtain ⟨written, rfl⟩ := hcanonical.exists_eq_hex
    rw [parse_hex] at h
    rw [Except.ok.inj h]
  · rintro rfl
    exact canonical_hex k

/-- **A text is read as a ring id exactly if it is a numeral of one to four bytes between white
space, and then as the number of its digits.** There is always room for that number, and every other
text is refused, for its length or for a character that is no digit. What is written is read back,
and of the texts that are read the ones written the same again are those of four lower-case
digits. -/
theorem parse_accepts_numerals (s : String) :
    (∀ k, parse s = .ok k ↔ Denotes s k.toNat) ∧ (∀ n, Denotes s n → n < 65536) ∧
      ((∃ fault, (parse s).mapError ChordError.invalidNodeId = .error (.invalidNodeId fault) ∧
          (fault = .length s ∨ fault = .digits s .invalidDigit)) ↔ ∀ n, ¬ Denotes s n) ∧
      (∀ k : RingId, parse k.hex = .ok k) ∧
      ((∃ k, parse s = .ok k ∧ k.hex = s) ↔ Canonical s) := by
  refine ⟨fun _ => parse_eq_ok_iff, fun _ hn => hn.lt, parse_refused_iff, parse_hex, ?_⟩
  constructor
  · rintro ⟨k, -, rfl⟩
    exact canonical_hex k
  · intro h
    obtain ⟨k, rfl⟩ := h.exists_eq_hex
    exact ⟨k, parse_hex k, rfl⟩

/-- A sign takes one of the four bytes, and white space of any script is no part of the numeral. -/
example : parse "\u3000+3Dc " = .ok ⟨0x3dc⟩ := by decide +kernel

end RingId

end ChordRing
