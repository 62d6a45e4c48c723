import Mathlib.Data.List.TakeWhile
import Mathlib.Data.Nat.Digits.Lemmas
import ChordRing.Failure
import ChordRing.Proofs.Clockwise

/-!
# The texts that are ring ids

`RingId.parse` takes exactly the texts of one grammar (`RingId.Denotes`), which is stated here
without the reader: between white space stands a numeral of one to four bytes, and a numeral is a
plus sign or none with one hexadecimal digit or more behind it. What is read is the number to base 16
that the digits stand for (`parse_eq_ok_iff`). Four bytes hold no more than four digits, so the
reader never meets its bound, and whatever text it refuses it refuses for its length or for a
character that is no digit (`parse_of_not_denotes`).
-/

namespace ChordRing

namespace Text

/-! ## White space at the ends -/

/-- The characters `core` remain of `cs` without the white space at its two ends. -/
structure Stripped (cs core : List Char) : Prop where
  around : ∃ before after, cs = before ++ (core ++ after) ∧ (∀ c ∈ before, isBlank c = true) ∧
    ∀ c ∈ after, isBlank c = true
  head : ∀ c ∈ core.head?, isBlank c = false
  last : ∀ c ∈ core.getLast?, isBlank c = false

theorem dropWhile_append_of_head {p : Char → Bool} {front rest : List Char}
    (hfront : ∀ c ∈ front, p c = true) (hrest : ∀ c ∈ rest.head?, p c = false) :
    (front ++ rest).dropWhile p = rest := by
  rw [List.dropWhile_append_of_pos hfront]
  cases rest with
  | nil => rfl
  | cons c rest => exact List.dropWhile_cons_of_neg (by simp [hrest c rfl])

theorem head_dropWhile {p : Char → Bool} (cs : List Char) :
    ∀ c ∈ (cs.dropWhile p).head?, p c = false := by
  intro c hc
  have hnot := List.head?_dropWhile_not p cs
  rw [Option.mem_def.1 hc] at hnot
  exact hnot

theorem Stripped.trimChars_eq {cs core : List Char} (h : Stripped cs core) :
    trimChars cs = core := by
  obtain ⟨⟨before, after, rfl, hbefore, hafter⟩, hhead, hlast⟩ := h
  cases core with
  | nil =>
      have hblank : ∀ c ∈ before ++ after, isBlank c = true := by
        intro c hc
        exact (List.mem_append.1 hc).elim (hbefore c) (hafter c)
      have hnil : (before ++ ([] ++ after)).dropWhile isBlank = [] := by
        rw [List.nil_append, ← List.append_nil (before ++ after)]
        exact dropWhile_append_of_head hblank (by simp)
      rw [trimChars, hnil]
      rfl
  | cons c core =>
      have hfront : (before ++ (c :: core ++ after)).dropWhile isBlank = c :: core ++ after :=
        dropWhile_append_of_head hbefore hhead
      have hback : (c :: core ++ after).reverse.dropWhile isBlank = (c :: core).reverse := by
        rw [List.reverse_append]
        apply dropWhile_append_of_head
        · exact fun d hd => hafter d (List.mem_reverse.1 hd)
        · rw [List.head?_reverse]
          exact hlast
      rw [trimChars, hfront, hback, List.reverse_reverse]

/-- A text without white space has nothing to trim. -/
theorem stripped_self {cs : List Char} (h : ∀ c ∈ cs, isBlank c = false) : Stripped cs cs where
  around := ⟨[], [], (List.append_nil cs).symm, nofun, nofun⟩
  head := fun c hc => h c (List.mem_of_mem_head? hc)
  last := fun c hc => h c (List.mem_of_getLast? hc)

theorem stripped_trimChars (cs : List Char) : Stripped cs (trimChars cs) := by
  -- white space is dropped from the front first, and then from the back of what is left
  let back := (cs.dropWhile isBlank).reverse
  have hback : cs.dropWhile isBlank = trimChars cs ++ (back.takeWhile isBlank).reverse := by
    rw [trimChars, ← List.reverse_append, List.takeWhile_append_dropWhile, List.reverse_reverse]
  refine ⟨⟨cs.takeWhile isBlank, (back.takeWhile isBlank).reverse, ?_, ?_, ?_⟩, ?_, ?_⟩
  · rw [← hback, List.takeWhile_append_dropWhile]
  · exact fun c hc => List.mem_takeWhile_imp hc
  · exact fun c hc => List.mem_takeWhile_imp (List.mem_reverse.1 hc)
  · intro c hc
    apply head_dropWhile cs c
    rw [hback, List.head?_append, Option.mem_def.1 hc]
    rfl
  · intro c hc
    rw [trimChars, List.getLast?_reverse] at hc
    exact head_dropWhile back c hc

theorem Stripped.trim_eq {s core : String} (h : Stripped s.toList core.toList) :
    trim s = core := by
  rw [trim, h.trimChars_eq, String.ofList_toList]

theorem stripped_trim (s : String) : Stripped s.toList (trim s).toList := by
  rw [trim, String.toList_ofList]
  exact stripped_trimChars s.toList

/-! ## Numerals -/

/-- The hexadecimal digits in ascending order, in lower case. -/
def lowerDigits : List Char :=
  ['0', '1', '2', '3', '4', '5', '6', '7', '8', '9', 'a', 'b', 'c', 'd', 'e', 'f']

/-- The hexadecimal digits in ascending order, in upper case. -/
def upperDigits : List Char :=
  ['0', '1', '2', '3', '4', '5', '6', '7', '8', '9', 'A', 'B', 'C', 'D', 'E', 'F']

/-- The character is the hexadecimal digit of value `d`, in one case or the other. -/
def IsDigit (c : Char) (d : Nat) : Prop := lowerDigits[d]? = some c ∨ upperDigits[d]? = some c

instance (c : Char) (d : Nat) : Decidable (IsDigit c d) := inferInstanceAs (Decidable (_ ∨ _))

/-- A numeral with its value: one digit or more, the highest first, with a plus sign or without. -/
inductive Numeral : List Char → Nat → Prop
  | unsigned {digits : List Char} {values : List Nat} : digits ≠ [] →
      List.Forall₂ IsDigit digits values → Numeral digits (Nat.ofDigits 16 values.reverse)
  | signed {digits : List Char} {values : List Nat} : digits ≠ [] →
      List.Forall₂ IsDigit digits values → Numeral ('+' :: digits) (Nat.ofDigits 16 values.reverse)

theorem IsDigit.lt {c : Char} {d : Nat} (h : IsDigit c d) : d < 16 := by
  rcases h with h | h
  · exact (List.getElem?_eq_some_iff.1 h).1
  · exact (List.getElem?_eq_some_iff.1 h).1

theorem isDigit_ofNat :
    (∀ n, 48 ≤ n → n ≤ 57 → IsDigit (Char.ofNat n) (n - 48)) ∧
      (∀ n, 97 ≤ n → n ≤ 102 → IsDigit (Char.ofNat n) (n - 97 + 10)) ∧
      ∀ n, 65 ≤ n → n ≤ 70 → IsDigit (Char.ofNat n) (n - 65 + 10) := by
  refine ⟨?_, ?_, ?_⟩ <;> intro n hlo hhi <;> interval_cases n <;> decide

theorem isDigit_of_hexValue? {c : Char} {d : Nat} (h : hexValue? c = some d) : IsDigit c d := by
  obtain ⟨hdigits, hsmall, hlarge⟩ := isDigit_ofNat
  have hchar : Char.ofNat c.toNat = c := Char.ofNat_toNat c
  have hrange : ∀ {lo hi : Char}, lo ≤ c ∧ c ≤ hi → lo.toNat ≤ c.toNat ∧ c.toNat ≤ hi.toNat :=
    fun h => ⟨UInt32.le_iff_toNat_le.1 h.1, UInt32.le_iff_toNat_le.1 h.2⟩
  unfold hexValue? at h
  split_ifs at h with h₀ h₁ h₂
  · obtain ⟨hlo, hhi⟩ := hrange h₀
    exact hchar ▸ Option.some.inj h ▸ hdigits c.toNat hlo hhi
  · obtain ⟨hlo, hhi⟩ := hrange h₁
    exact hchar ▸ Option.some.inj h ▸ hsmall c.toNat hlo hhi
  · obtain ⟨hlo, hhi⟩ := hrange h₂
    exact hchar ▸ Option.some.inj h ▸ hlarge c.toNat hlo hhi

/-- The reader knows the sixteen digits of either case with their values, and no other character. -/
theorem digitValue?_eq_some {c : Char} {d : Nat} : digitValue? 16 c = some d ↔ IsDigit c d := by
  constructor
  · intro h
    rw [digitValue?, Option.filter_eq_some_iff] at h
    exact isDigit_of_hexValue? h.1
  · intro h
    have hlt := h.lt
    rcases h with h | h
    · interval_cases d <;> cases h <;> decide
    · interval_cases d <;> cases h <;> decide

theorem not_isDigit_plus (d : Nat) : ¬ IsDigit '+' d := by
  intro h
  have hplus := digitValue?_eq_some.2 h
  cases hplus

theorem lt_pow_of_digits {digits : List Char} {values : List Nat}
    (h : List.Forall₂ IsDigit digits values) :
    Nat.ofDigits 16 values.reverse < 16 ^ digits.length := by
  have hlt : ∀ d ∈ values, d < 16 := by
    induction h with
    | nil => simp
    | cons hc _ ih => exact List.forall_mem_cons.2 ⟨hc.lt, ih⟩
  have hvalue := Nat.ofDigits_lt_base_pow_length (by norm_num : 1 < 16)
    fun d hd => hlt d (List.mem_reverse.1 hd)
  rwa [List.length_reverse, ← h.length_eq] at hvalue

/-- A numeral stands for a number that its characters could write. -/
theorem Numeral.lt {cs : List Char} {n : Nat} (h : Numeral cs n) : n < 16 ^ cs.length := by
  cases h with
  | unsigned _ hdigits => exact lt_pow_of_digits hdigits
  | signed _ hdigits =>
      apply Nat.lt_of_lt_of_le (lt_pow_of_digits hdigits)
      exact Nat.pow_le_pow_right (by norm_num) (Nat.le_succ _)

/-! ## Reading numerals -/

section Reading

variable {bound : Nat}

/-- One digit more stays below the bound if there is room for all that are left. -/
theorem room_after_digit {value d length : Nat} (hd : d < 16)
    (room : (value + 1) * 16 ^ (length + 1) ≤ bound) :
    ¬ bound ≤ value * 16 + d ∧ (value * 16 + d + 1) * 16 ^ length ≤ bound := by
  have hstep : (value * 16 + d + 1) * 16 ^ length ≤ bound := by
    calc (value * 16 + d + 1) * 16 ^ length
        ≤ (value + 1) * 16 * 16 ^ length := Nat.mul_le_mul_right _ (by omega)
      _ = (value + 1) * 16 ^ (length + 1) := by rw [pow_succ', Nat.mul_assoc]
      _ ≤ bound := room
  have hpow : 0 < 16 ^ length := Nat.pow_pos (by norm_num)
  have hle : value * 16 + d + 1 ≤ (value * 16 + d + 1) * 16 ^ length := Nat.le_mul_of_pos_right _ hpow
  exact ⟨by omega, hstep⟩

/-- Digits are read as their number, behind the number read before them. -/
theorem readDigits_of_digits {digits : List Char} {values : List Nat}
    (h : List.Forall₂ IsDigit digits values) :
    ∀ value, (value + 1) * 16 ^ digits.length ≤ bound →
      readDigits 16 bound value digits =
        .ok (value * 16 ^ digits.length + Nat.ofDigits 16 values.reverse) := by
  induction h with
  | nil =>
      intro value _
      simp [readDigits]
  | @cons c d digits values hc hdigits ih =>
      intro value room
      obtain ⟨hbelow, hroom⟩ := room_after_digit hc.lt room
      have hvalue : (value * 16 + d) * 16 ^ digits.length + Nat.ofDigits 16 values.reverse =
          value * 16 ^ (digits.length + 1) + Nat.ofDigits 16 (d :: values).reverse := by
        rw [List.reverse_cons, Nat.ofDigits_append, Nat.ofDigits_singleton, List.length_reverse,
          ← hdigits.length_eq]
        ring
      simp only [readDigits, digitValue?_eq_some.2 hc, if_neg hbelow, ih _ hroom, hvalue,
        List.length_cons]

/-- Characters that are not all digits are refused for one that is none. -/
theorem readDigits_of_not_digits {cs : List Char} (h : ∀ values, ¬ List.Forall₂ IsDigit cs values) :
    ∀ value, (value + 1) * 16 ^ cs.length ≤ bound →
      readDigits 16 bound value cs = .error .invalidDigit := by
  induction cs with
  | nil => exact absurd .nil (h [])
  | cons c cs ih =>
      intro value room
      cases hc : digitValue? 16 c with
      | none => simp only [readDigits, hc]
      | some d =>
          have hdigit := digitValue?_eq_some.1 hc
          obtain ⟨hbelow, hroom⟩ := room_after_digit hdigit.lt room
          have hrest : ∀ values, ¬ List.Forall₂ IsDigit cs values :=
            fun values hvalues => h (d :: values) (.cons hdigit hvalues)
          simp only [readDigits, hc, if_neg hbelow, ih hrest _ hroom]

theorem readNat_plus {cs : List Char} (h : cs ≠ []) :
    readNat 16 bound ('+' :: cs) = readDigits 16 bound 0 cs := by
  cases cs with
  | nil => exact absurd rfl h
  | cons c cs => rfl

theorem readNat_of_ne_plus {c : Char} {cs : List Char} (h : c ≠ '+') :
    readNat 16 bound (c :: cs) = readDigits 16 bound 0 (c :: cs) := by
  unfold readNat
  split <;> simp_all

/-- A numeral is read as its number if every numeral of its length has one below the bound. -/
theorem Numeral.readNat_eq {cs : List Char} {n : Nat} (h : Numeral cs n)
    (room : 16 ^ cs.length ≤ bound) : readNat 16 bound cs = .ok n := by
  cases h with
  | @unsigned digits values hne hdigits =>
      have hread := readDigits_of_digits hdigits 0 (by simpa using room)
      cases hdigits with
      | nil => exact absurd rfl hne
      | @cons c d digits values hc hdigits =>
          have hsign : c ≠ '+' := fun heq => not_isDigit_plus d (heq ▸ hc)
          rw [readNat_of_ne_plus hsign, hread, Nat.zero_mul, Nat.zero_add]
  | @signed digits values hne hdigits =>
      have hless : 16 ^ digits.length ≤ 16 ^ (digits.length + 1) :=
        Nat.pow_le_pow_right (by norm_num) (Nat.le_succ _)
      have hroom : (0 + 1) * 16 ^ digits.length ≤ bound := by
        rw [Nat.zero_add, Nat.one_mul]
        exact Nat.le_trans hless room
      rw [readNat_plus hne, readDigits_of_digits hdigits 0 hroom, Nat.zero_mul, Nat.zero_add]

/-- Characters that are no numeral are refused for one that is no digit. -/
theorem readNat_of_not_numeral {cs : List Char} (hne : cs ≠ []) (h : ∀ n, ¬ Numeral cs n)
    (room : 16 ^ cs.length ≤ bound) : readNat 16 bound cs = .error .invalidDigit := by
  cases cs with
  | nil => exact absurd rfl hne
  | cons c cs =>
      by_cases hsign : c = '+'
      · subst hsign
        cases cs with
        | nil => rfl
        | cons c cs =>
            rw [readNat_plus (List.cons_ne_nil c cs)]
            apply readDigits_of_not_digits
            · exact fun values hvalues => h _ (.signed (List.cons_ne_nil c cs) hvalues)
            · rw [List.length_cons, pow_succ] at room
              omega
      · rw [readNat_of_ne_plus hsign]
        apply readDigits_of_not_digits
        · exact fun values hvalues => h _ (.unsigned (List.cons_ne_nil c cs) hvalues)
        · omega

end Reading

theorem utf8ByteSize_ofList (cs : List Char) :
    (String.ofList cs).utf8ByteSize = (cs.map Char.utf8Size).sum := by
  induction cs with
  | nil => rfl
  | cons c cs ih =>
      rw [String.ofList_cons, String.utf8ByteSize_append, String.utf8ByteSize_singleton, ih,
        List.map_cons, List.sum_cons]

/-- Every character takes one byte at least. -/
theorem length_le_utf8ByteSize (cs : List Char) : cs.length ≤ (String.ofList cs).utf8ByteSize := by
  have hone : ∀ size ∈ cs.map Char.utf8Size, 1 ≤ size := by
    intro size hsize
    obtain ⟨c, -, rfl⟩ := List.mem_map.1 hsize
    exact c.utf8Size_pos
  have hsum := List.length_le_sum_of_one_le _ hone
  rwa [List.length_map, ← utf8ByteSize_ofList] at hsum

end Text

namespace RingId

open Text

/-- The text stands for the number: apart from the white space at its ends it is a numeral, and of
one to four bytes. -/
def Denotes (s : String) (n : Nat) : Prop :=
  ∃ core : String, Stripped s.toList core.toList ∧
    (1 ≤ core.utf8ByteSize ∧ core.utf8ByteSize ≤ 4) ∧ Numeral core.toList n

/-- Four bytes have room for four characters. -/
theorem room_of_utf8ByteSize_le {core : String} (h : core.utf8ByteSize ≤ 4) :
    16 ^ core.toList.length ≤ 0x10000 := by
  have hlength := length_le_utf8ByteSize core.toList
  rw [String.ofList_toList] at hlength
  calc 16 ^ core.toList.length ≤ 16 ^ 4 := Nat.pow_le_pow_right (by norm_num) (by omega)
    _ = 0x10000 := by norm_num

theorem Denotes.lt {s : String} {n : Nat} (h : Denotes s n) : n < 65536 := by
  obtain ⟨core, -, ⟨-, hsize⟩, hnumeral⟩ := h
  exact Nat.lt_of_lt_of_le hnumeral.lt (room_of_utf8ByteSize_le hsize)

theorem Denotes.parse_eq {s : String} {n : Nat} (h : Denotes s n) : parse s = .ok (ofNat n) := by
  obtain ⟨core, hcore, hsize, hnumeral⟩ := h
  have hfits : ¬ (core.utf8ByteSize = 0 ∨ 4 < core.utf8ByteSize) := by omega
  simp only [parse, hcore.trim_eq, if_neg hfits,
    hnumeral.readNat_eq (room_of_utf8ByteSize_le hsize.2)]

/-- A text that stands for no number is refused, for its length or for a character. -/
theorem parse_of_not_denotes {s : String} (h : ∀ n, ¬ Denotes s n) :
    parse s = .error (.length s) ∨ parse s = .error (.digits s .invalidDigit) := by
  by_cases hsize : (trim s).utf8ByteSize = 0 ∨ 4 < (trim s).utf8ByteSize
  · exact Or.inl (by simp only [parse, if_pos hsize])
  · right
    have hnumeral : ∀ n, ¬ Numeral (trim s).toList n :=
      fun n hn => h n ⟨trim s, stripped_trim s, by omega, hn⟩
    have hne : (trim s).toList ≠ [] := by
      intro hnil
      rw [String.toList_eq_nil_iff] at hnil
      exact hsize (Or.inl (by rw [hnil]; rfl))
    have hread := readNat_of_not_numeral hne hnumeral (room_of_utf8ByteSize_le (by omega))
    simp only [parse, if_neg hsize, hread]

theorem parse_eq_ok_iff {s : String} {k : RingId} : parse s = .ok k ↔ Denotes s k.toNat := by
  constructor
  · intro h
    by_cases hdenotes : ∃ n, Denotes s n
    · obtain ⟨n, hn⟩ := hdenotes
      have hk : ofNat n = k := Except.ok.inj (hn.parse_eq.symm.trans h)
      rwa [← hk, toNat_ofNat, Nat.mod_eq_of_lt hn.lt]
    · rcases parse_of_not_denotes (not_exists.1 hdenotes) with herror | herror
      · cases herror.symm.trans h
      · cases herror.symm.trans h
  · intro h
    rw [h.parse_eq]
    exact congrArg _ (eq_of_toNat_eq (by rw [toNat_ofNat, Nat.mod_eq_of_lt (toNat_lt k)]))

/-- A text is refused as no ring id exactly if it stands for no number. -/
theorem parse_refused_iff {s : String} :
    (∃ fault, (parse s).mapError ChordError.invalidNodeId = .error (.invalidNodeId fault) ∧
        (fault = .length s ∨ fault = .digits s .invalidDigit)) ↔ ∀ n, ¬ Denotes s n := by
  constructor
  · rintro ⟨fault, hfault, -⟩ n hn
    rw [hn.parse_eq] at hfault
    cases hfault
  · intro h
    rcases parse_of_not_denotes h with herror | herror
    · exact ⟨.length s, by rw [herror]; rfl, Or.inl rfl⟩
    · exact ⟨.digits s .invalidDigit, by rw [herror]; rfl, Or.inr rfl⟩

end RingId

end ChordRing
