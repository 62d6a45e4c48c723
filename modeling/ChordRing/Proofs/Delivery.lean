import ChordRing.Proofs.Course
import ChordRing.Proofs.RoundTrip

/-!
# Deliveries

What one exchange comes to when its message is small enough to be read off a connection: the node
that is reached processes exactly that message, and the sender reads exactly the reply
(`Delivers.of_peer`, `Delivers.of_discovery`). `Header.Carries` says that all messages of the ring
protocol about a peer are small enough under a header.
-/

namespace ChordRing

/-! ## Sizes -/

/-- The message is small enough to be read off a connection. -/
def Message.Fits (m : Message) : Prop := m.encode.length ≤ maxMessageBytes

/-- Under the header, the longest message about a peer is small enough: a search that it
requests. -/
def Header.Carries (h : Header) (p : Identifier) : Prop :=
  (⟨h, .findSuccessorRequest p.id p 0⟩ : Message).Fits

instance (m : Message) : Decidable m.Fits := inferInstanceAs (Decidable (_ ≤ _))

instance (h : Header) (p : Identifier) : Decidable (h.Carries p) :=
  inferInstanceAs (Decidable (Message.Fits _))

namespace Wire

@[simp] theorem length_number (n : Nat) : (number n).length = 4 := rfl

@[simp] theorem length_boolean (b : Bool) : (boolean b).length = 1 := rfl

@[simp] theorem length_text (s : String) : (text s).length = 4 + (Utf8.encode s).length := by
  rw [text, blob, List.length_append, length_number]

@[simp] theorem length_ringId (k : RingId) : (ringId k).length = 8 := by
  rw [ringId, length_text, RingId.hex, Text.length_encode_hex]

@[simp] theorem length_identifier (p : Identifier) :
    (identifier p).length = 12 + (Utf8.encode p.hostname).length := by
  rw [identifier, List.length_append, length_ringId, length_text]
  omega

end Wire

theorem Message.length_encode (h : Header) (b : Body) :
    (⟨h, b⟩ : Message).encode.length = 12 + (Utf8.encode h.hostname).length +
      (Utf8.encode h.ipAddress).length + b.fields.length := by
  simp only [Message.encode, List.length_append, Wire.length_number, Wire.length_text]
  omega

/-- A body with no more fields than a search for the peer is small enough too. -/
theorem Header.Carries.fits {h : Header} {p : Identifier} {b : Body} (hc : h.Carries p)
    (hb : b.fields.length ≤ 24 + (Utf8.encode p.hostname).length) : (⟨h, b⟩ : Message).Fits := by
  have hle : (⟨h, .findSuccessorRequest p.id p 0⟩ : Message).encode.length ≤ maxMessageBytes := hc
  rw [Message.length_encode] at hle
  simp only [Body.fields, List.length_append, Wire.length_ringId, Wire.length_identifier,
    Wire.length_number] at hle
  rw [Message.Fits, Message.length_encode]
  omega

namespace Network

theorem readRequest?_encode {m : Message} (h : m.Fits) : readRequest? m.encode = some m := by
  rw [readRequest?, if_neg (Nat.not_lt.2 h), Message.decode_encode_of_length_le h]
  rfl

theorem readReply_encode {m : Message} (h : m.Fits) : readReply m.encode = .ok (some m) := by
  have hne : m.encode.isEmpty = false := by
    have hlen := Message.length_encode m.header m.body
    rw [List.isEmpty_eq_false_iff]
    intro hnil
    rw [hnil, List.length_nil] at hlen
    omega
  rw [readReply, if_neg (Nat.not_lt.2 h), hne, Message.decode_encode_of_length_le h]
  rfl

/-- Whoever reads a request reads what was sent. -/
theorem readRequest?_eq_some {m m' : Message} (h : readRequest? m.encode = some m') : m' = m := by
  by_cases hfits : m.Fits
  · rw [readRequest?_encode hfits] at h
    exact (Option.some.inj h).symm
  · rw [readRequest?, if_pos (Nat.lt_of_not_le hfits)] at h
    cases h

/-- Whoever reads a reply reads what was sent. -/
theorem readReply_eq_ok {m m' : Message} (h : readReply m.encode = .ok (some m')) : m' = m := by
  by_cases hfits : m.Fits
  · rw [readReply_encode hfits] at h
    exact (Option.some.inj (Except.ok.inj h)).symm
  · rw [readReply, if_pos (Nat.lt_of_not_le hfits)] at h
    cases h

end Network

/-! ## Exchanges -/

open Network

variable {Inv : Network → Prop} {patience : Nat} {n : Network} {address : String} {i : Nat}
  {m : Message} {Q : Network → Outcome → Prop}

theorem ne_bound_of_serving (h : n.presence? i = some .serving) :
    n.presence? i ≠ some .bound := by
  rw [h]
  exact fun heq => Presence.noConfusion (Option.some.inj heq)

/-- A serving peer that is reached processes the message, and the sender reads its reply. -/
theorem Delivers.of_peer {p : Peer} {rendezvous : Option String}
    {R : Network → Except ChordError (Option Message) → Prop} (hdial : n.dial address = .ok i)
    (hserving : n.presence? i = some .serving)
    (hpeer : n.service? i = some (.peer p rendezvous)) (hfits : m.Fits)
    (h : Assures Inv patience (.peer i) (p.answer m).run n R)
    (hreply : ∀ n' r, R n' r → Q n' (readReply (replyBytes r))) :
    Delivers Inv (patience + 1) n ⟨address, m⟩ Q := by
  have hbound := ne_bound_of_serving hserving
  -- the message survives its bytes, so the task that is carried out is the one for it
  obtain ⟨n', r, hrun, hR⟩ := h.ends
  constructor
  · intro s hs
    simp only [inside, hdial, if_neg hbound, hpeer, readRequest?_encode hfits] at hs
    exact h.passes s hs
  · refine ⟨n', readReply (replyBytes r), ?_, hreply n' r hR⟩
    simp only [exchange, hdial, connect, if_neg hbound, serve, hpeer, readRequest?_encode hfits,
      hrun, Option.map_some]

/-- A serving discovery node that is reached processes the message with the next lot, and the
sender reads its reply. -/
theorem Delivers.of_discovery {d : Discovery} (hdial : n.dial address = .ok i)
    (hserving : n.presence? i = some .serving) (hservice : n.service? i = some (.discovery d))
    (hfits : m.Fits)
    (h : Q (n.draw.2.setService i (.discovery (d.process n.draw.1 m).1))
      (readReply (replyBytes (d.process n.draw.1 m).2))) :
    Delivers Inv (patience + 1) n ⟨address, m⟩ Q := by
  have hbound := ne_bound_of_serving hserving
  constructor
  · intro s hs
    simp only [inside, hdial, if_neg hbound, hservice] at hs
    exact absurd hs List.not_mem_nil
  · refine ⟨_, _, ?_, h⟩
    simp only [exchange, hdial, connect, if_neg hbound, serve, hservice, readRequest?_encode hfits,
      Option.map_some]

end ChordRing
