import ChordRing.Proofs.Spelling

/-!
# Messages survive their bytes

`Message.decode` undoes `Message.encode` for every message whose texts and blobs have lengths that
four bytes can hold (`Message.decode_encode`): what a message is written as is one of its spellings.
Different messages of this kind are therefore written differently
(`Message.decoding_undoes_encoding`).
-/

namespace ChordRing

namespace Message

/-- A message is read back from its bytes. -/
theorem decode_encode {m : Message} (h : ∀ n ∈ m.lengths, n < lengthLimit) :
    decode m.encode = .ok m := by
  rw [← m.written_layout]
  refine decode_eq_ok.2 ⟨h, _, ?_, m.layout.spelled_written⟩
  intro s hs
  obtain ⟨k, -, rfl⟩ := List.mem_map.1 hs
  exact k.spelledBy_hex.2

/-- **Decoding undoes encoding.** A message of any kind, with texts and blobs whose lengths four
bytes can hold, is read back from its bytes, and no other such message is written as the same
bytes. -/
theorem decoding_undoes_encoding {m : Message} (h : ∀ n ∈ m.lengths, n < lengthLimit) :
    decode m.encode = .ok m ∧
      ∀ m' : Message, (∀ n ∈ m'.lengths, n < lengthLimit) → m'.encode = m.encode → m' = m := by
  refine ⟨decode_encode h, ?_⟩
  intro m' h' heq
  have hread : decode m.encode = .ok m' := heq ▸ decode_encode h'
  rw [decode_encode h] at hread
  exact (Except.ok.inj hread).symm

/-- A file whose name takes two bytes for a letter. -/
theorem decoding_undoes_encoding_file :
    let m : Message := ⟨⟨"peer-7", "10.0.0.7"⟩, .storeFileRequest ⟨0x3dcf⟩ "thé" [0, 255, 13]⟩
    let m' : Message := ⟨⟨"peer-7", "10.0.0.7"⟩, .storeFileRequest ⟨0x3dcf⟩ "the" [0, 255, 13]⟩
    m.lengths = [6, 8, 4, 3] ∧ decode m.encode = .ok m ∧ m'.encode ≠ m.encode := by
  intro m m'
  have hlengths : ∀ n ∈ m.lengths, n < lengthLimit := by decide
  have hlengths' : ∀ n ∈ m'.lengths, n < lengthLimit := by decide
  obtain ⟨hdecode, hinj⟩ := decoding_undoes_encoding hlengths
  refine ⟨by decide, hdecode, ?_⟩
  intro heq
  exact absurd (hinj m' hlengths' heq) (by decide)

/-- No text or blob is longer than the message. -/
theorem le_length_encode {m : Message} {n : Nat} (h : n ∈ m.lengths) : n ≤ m.encode.length := by
  have hbody : ∀ n ∈ m.body.lengths, n ≤ m.body.fields.length := by
    intro n hn
    cases hm : m.body <;> rw [hm] at hn <;>
      simp only [Body.lengths, List.mem_cons, List.not_mem_nil, or_false] at hn <;>
      simp only [Body.fields, Wire.identifier, Wire.text, Wire.blob, List.length_append] <;>
      omega
  simp only [encode, Wire.text, Wire.blob, List.length_append]
  rcases List.mem_cons.1 h with rfl | h
  · omega
  rcases List.mem_cons.1 h with rfl | h
  · omega
  · have hle := hbody n h
    omega

/-- A message that is small enough to be read off a connection is read back from its bytes. -/
theorem decode_encode_of_length_le {m : Message} (h : m.encode.length ≤ maxMessageBytes) :
    decode m.encode = .ok m :=
  decode_encode fun n hn => Nat.lt_of_le_of_lt (Nat.le_trans (le_length_encode hn) h)
    (by norm_num [maxMessageBytes, lengthLimit])

end Message

end ChordRing
