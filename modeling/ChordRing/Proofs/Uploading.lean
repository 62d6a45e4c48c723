import ChordRing.Upload
import ChordRing.Proofs.Growth
import ChordRing.Proofs.Intake
import ChordRing.Proofs.Membership
import ChordRing.Proofs.Traffic

/-!
# Uploads reach their owners

A client uploads files one after another (`Network.uploads`). Each upload draws a member at the
discovery node, looks the key up through it, and stores the file at the member that the lookup comes
to. In a ring with right tables this is the member nearest to the key, whichever member is drawn, so
in the end each file is with the one member that is responsible for it, the last one of each key,
and nothing else has changed (`Network.uploads_reach_owners`). An upload is confirmed under the
header of the owner, which may be longer than the one of the client, and so the confirmation of a
file whose name is very long is not read (`Trio.upload_of_long_name`).
-/

namespace ChordRing

/-! ## A series of uploads -/

/-- A file to be uploaded. -/
structure Posting where
  name : String
  bytes : List UInt8
  deriving DecidableEq, Repr

namespace Posting

/-- What is stored of it, under the key that its bytes have. -/
def item (key : List UInt8 → RingId) (u : Posting) : StoredItem := ⟨key u.bytes, u.name, u.bytes⟩

@[simp] theorem key_item (key : List UInt8 → RingId) (u : Posting) :
    (u.item key).key = key u.bytes := rfl

/-- The request to store it. -/
def request (client : Header) (key : List UInt8 → RingId) (u : Posting) : Message :=
  ⟨client, .storeFileRequest (key u.bytes) u.name u.bytes⟩

/-- The last of the uploads with a key. -/
def lastUnder (key : List UInt8 → RingId) (uploads : List Posting) (k : RingId) :
    Option StoredItem :=
  (uploads.map (item key)).reverse.find? fun item => item.key == k

theorem lastUnder_cons (key : List UInt8 → RingId) (u : Posting) (rest : List Posting)
    (k : RingId) : lastUnder key (u :: rest) k =
      (lastUnder key rest k).or (if key u.bytes = k then some (u.item key) else none) := by
  rw [lastUnder, List.map_cons, List.reverse_cons, List.find?_append]
  by_cases hk : key u.bytes = k <;> simp [lastUnder, item, hk]

end Posting

namespace Network

/-- A client uploads files one after another, each under the key that `key` makes of its bytes. An
`upload` is one of these with `fileKey` for `key`. -/
def uploads (client : Header) (discovery : String) (key : List UInt8 → RingId) :
    List Posting → Network → Option (Network × List (Except NodeError Receipt))
  | [], n => some (n, [])
  | u :: rest, n =>
      (n.run (uploadAs client discovery (key u.bytes) u.name u.bytes)).bind fun r =>
        (uploads client discovery key rest r.1).map fun rs => (rs.1, r.2 :: rs.2)

theorem uploads_cons {client : Header} {discovery : String} {key : List UInt8 → RingId}
    {n n' : Network} {u : Posting} {result : Except NodeError Receipt}
    (h : n.run (uploadAs client discovery (key u.bytes) u.name u.bytes) = some (n', result))
    (rest : List Posting) :
    n.uploads client discovery key (u :: rest) =
      (n'.uploads client discovery key rest).map fun rs => (rs.1, result :: rs.2) := by
  rw [uploads, h, Option.bind_some]

end Network

/-! ## One upload -/

namespace Exchange

/-- What a client makes of the outcome of a request to store a file: it takes no other reply than
the confirmation of the key. -/
def confirm (owner : Identifier) (k : RingId) : Outcome → Except NetworkError Unit
  | .error e => .error e
  | .ok none => .error (.server (.noAnswer (addressOf owner) .storeFileRequest))
  | .ok (some ⟨h, .storeFileResponse stored name⟩) =>
      if stored = k then .ok ()
      else .error (.message (unexpected .storeFileResponse ⟨h, .storeFileResponse stored name⟩))
  | .ok (some reply) => .error (.message (unexpected .storeFileResponse reply))

theorem storeFile_eq {σ : Type} (h : Header) (owner : Identifier) (k : RingId) (name : String)
    (bytes : List UInt8) : (storeFile h owner k name bytes : Attempt σ NetworkError Unit) =
      .mk (.call ⟨addressOf owner, ⟨h, .storeFileRequest k name bytes⟩⟩ fun outcome =>
        .done (confirm owner k outcome)) := by
  refine congrArg (Task.call _) (funext fun outcome => ?_)
  rcases outcome with e | reply
  · rfl
  · cases reply with
    | none => rfl
    | some reply =>
        obtain ⟨h', b⟩ := reply
        cases b with
        | storeFileResponse stored name =>
            show (if stored = k then (pure () : Attempt σ NetworkError Unit) else throw _).run =
              .done (if stored = k then .ok () else .error _)
            split <;> rfl
        | _ => rfl

/-- What an upload makes of the outcome of its last request. -/
def receipt (owner : Identifier) (k : RingId) (name : String) (outcome : Outcome) :
    Except NodeError Receipt :=
  ((confirm owner k outcome).mapError .network).map fun _ => ⟨k, name, owner⟩

end Exchange

/-- An upload asks for any member, looks the key up through it, and stores the file at the owner. -/
theorem uploadAs_run (client : Header) (discovery : String) (k : RingId) (name : String)
    (bytes : List UInt8) :
    ∃ drawn, (uploadAs client discovery k name bytes : Attempt Unit NodeError Receipt).run =
        .call ⟨Rendezvous.addressOf discovery, ⟨client, .getRandomPeerRequest⟩⟩ drawn ∧
      (∀ e, drawn (.error e) = .done (.error (.discovery (.network e)))) ∧
      (∀ h, drawn (.ok (some ⟨h, .statusResponse .error⟩)) =
        .done (.error (.discovery .noPeers))) ∧
      ∀ h entry, ∃ found, drawn (.ok (some ⟨h, .getRandomPeerResponse entry⟩)) =
          .call ⟨Exchange.addressOf entry, ⟨client, .lookupRequest k 0⟩⟩ found ∧
        ∀ h owner, found (.ok (some ⟨h, .lookupResponse owner⟩)) =
          .call ⟨Exchange.addressOf owner, ⟨client, .storeFileRequest k name bytes⟩⟩ fun outcome =>
            .done (Exchange.receipt owner k name outcome) := by
  refine ⟨_, rfl, fun _ => rfl, fun _ => rfl, fun h entry => ⟨_, rfl, fun h owner => ?_⟩⟩
  show ((Exchange.storeFile client owner k name bytes).adapt NodeError.network >>= fun _ =>
    (pure ⟨k, name, owner⟩ : Attempt Unit NodeError Receipt)).run = _
  rw [Exchange.storeFile_eq]
  refine congrArg (Task.call _) (funext fun outcome => ?_)
  show Task.andThen _ (Task.andThen _ (.done (Exchange.confirm owner k outcome))) = _
  rw [Exchange.receipt]
  cases Exchange.confirm owner k outcome with
  | error e => rfl
  | ok _ => rfl

/-- The owner's confirmation that it holds a file. -/
def Cast.confirmation (cast : Cast) (owner : Identifier) (k : RingId) (name : String) : Message :=
  ⟨(cast.site owner).header, .storeFileResponse k name⟩

/-- The confirmation is small enough if the request was, unless the owner's header is longer than
the client's by more than the bytes of the file take. -/
theorem Cast.confirmation_fits {cast : Cast} {owner : Identifier} {client : Header} {k : RingId}
    {name : String} {bytes : List UInt8}
    (hfits : (⟨client, .storeFileRequest k name bytes⟩ : Message).Fits)
    (hheader : (Utf8.encode (cast.site owner).header.hostname).length +
        (Utf8.encode (cast.site owner).header.ipAddress).length ≤
      (Utf8.encode client.hostname).length + (Utf8.encode client.ipAddress).length +
        (4 + bytes.length)) :
    (cast.confirmation owner k name).Fits := by
  rw [Message.Fits, Message.length_encode] at hfits
  rw [Cast.confirmation, Message.Fits, Message.length_encode]
  simp only [Body.fields, Wire.blob, List.length_append, Wire.length_ringId, Wire.length_text,
    Wire.length_number] at hfits ⊢
  omega

/-- What an upload says of a file that is with its owner: it gives a receipt, unless the owner's
confirmation is too long to be read. -/
theorem Cast.receipt_eq (cast : Cast) (owner : Identifier) (k : RingId) (name : String) :
    Exchange.receipt owner k name (Network.readReply (cast.confirmation owner k name).encode) =
      if (cast.confirmation owner k name).Fits then .ok ⟨k, name, owner⟩
      else .error (.network (.message (.tooLarge maxMessageBytes))) := by
  split
  · rename_i hfits
    rw [Network.readReply_encode hfits, Exchange.receipt, Cast.confirmation, Exchange.confirm,
      if_pos rfl]
    rfl
  · rename_i hlong
    rw [Network.readReply, if_pos (Nat.lt_of_not_le hlong)]
    rfl

namespace Network

variable {n : Network} {client : Header} {k : RingId} {name : String} {bytes : List UInt8}

/-- Under the header of a client that may store a file, its other requests are small enough too. -/
theorem fits_of_store (hfits : (⟨client, .storeFileRequest k name bytes⟩ : Message).Fits) :
    (⟨client, .getRandomPeerRequest⟩ : Message).Fits ∧ client.Poses .holder := by
  rw [Message.Fits, Message.length_encode] at hfits
  simp only [Body.fields, List.length_append, Wire.length_ringId, Wire.length_text] at hfits
  constructor
  · rw [Message.Fits, Message.length_encode]
    simp only [Body.fields, List.length_nil]
    omega
  · intro k hops
    rw [Message.Fits, Message.length_encode]
    simp only [Quest.request, Body.fields, List.length_append, Wire.length_ringId,
      Wire.length_number]
    omega

/-- A client asks the discovery node. -/
theorem Registers.exchange {discovery : String} {desk : Nat} {h : Header} {r : Registry}
    {m : Message} {patience : Nat} (hr : n.Registers discovery desk h r) (hm : m.Fits)
    (hpatience : 0 < patience) :
    Network.exchange patience n ⟨Rendezvous.addressOf discovery, m⟩ =
      some (n.consult desk ((⟨h, r⟩ : Discovery).process n.draw.1 m).1,
        readReply (replyBytes ((⟨h, r⟩ : Discovery).process n.draw.1 m).2)) := by
  obtain ⟨patience, rfl⟩ := Nat.exists_eq_succ_of_ne_zero (Nat.ne_zero_of_lt hpatience)
  have hbound := ne_bound_of_serving hr.serving
  simp only [Network.exchange, hr.reached, connect, if_neg hbound, serve, hr.service,
    readRequest?_encode hm, Option.map_some]
  rfl

/-- Without members an upload is told so, if that can be read, and nothing changes but the lots. -/
theorem Registers.upload_fails {discovery : String} {desk : Nat} {h : Header} {r : Registry}
    (hr : n.Registers discovery desk h r) (hnobody : r.members = [])
    (hfits : (⟨client, .storeFileRequest k name bytes⟩ : Message).Fits) :
    n.run (uploadAs client discovery k name bytes) =
      some (n.consult desk ⟨h, r⟩, .error (.discovery
        (if (⟨h, .statusResponse .error⟩ : Message).Fits then .noPeers
        else .network (.message (.tooLarge maxMessageBytes))))) := by
  obtain ⟨drawn, hask, herror, hnone, -⟩ := uploadAs_run client discovery k name bytes
  obtain ⟨body, hrandom, -, hempty⟩ := (⟨h, r⟩ : Discovery).exists_random n.draw.1 client
  obtain rfl := hempty.2 hnobody
  have hpatience : 0 < n.patience := Nat.succ_pos _
  have hexchange := hr.exchange (fits_of_store hfits).1 hpatience
  rw [hrandom, replyBytes] at hexchange
  by_cases hstatus : (⟨h, .statusResponse .error⟩ : Message).Fits
  · rw [readReply_encode hstatus] at hexchange
    simp only [run, hask, perform, hexchange, hnone, if_pos hstatus]
  · rw [readReply, if_pos (Nat.lt_of_not_le hstatus)] at hexchange
    simp only [run, hask, perform, hexchange, herror, if_neg hstatus]

namespace Scene

variable {cast : Cast} {members : Finset Identifier} {view : Identifier → PeerState} {r : Registry}
  {patience : Nat}

/-- The discovery node names a member, whichever lot is drawn. -/
theorem exchange_random (scene : n.Scene cast members view r) (roomy : cast.Roomy)
    (hpeers : members ⊆ cast.peers) (lists : r.Lists members) (hne : members.Nonempty)
    (hfits : (⟨client, .getRandomPeerRequest⟩ : Message).Fits) (hpatience : 0 < patience) :
    ∃ entry ∈ members, exchange patience n
        ⟨Rendezvous.addressOf cast.discovery, ⟨client, .getRandomPeerRequest⟩⟩ =
      some (n.consult cast.desk ⟨cast.header, r⟩,
        .ok (some ⟨cast.header, .getRandomPeerResponse entry⟩)) := by
  obtain ⟨body, hrandom, hanswer, hnone⟩ :=
    (⟨cast.header, r⟩ : Discovery).exists_random n.draw.1 client
  have hexchange := scene.registers.exchange hfits hpatience
  rw [hrandom] at hexchange
  rcases hanswer with ⟨entry, hentry, rfl⟩ | rfl
  · have hmember := (lists.mem entry).1 hentry
    have hreply : (⟨cast.header, .getRandomPeerResponse entry⟩ : Message).Fits :=
      (roomy.carries entry (hpeers hmember)).fits (by simp [Body.fields])
    rw [replyBytes, readReply_encode hreply] at hexchange
    exact ⟨entry, hmember, hexchange⟩
  · have hempty : members = ∅ := lists.members_eq_nil_iff.1 (hnone.1 rfl)
    exact absurd hempty hne.ne_empty

/-- A lookup comes to the member that is nearest to the key, whichever member it starts at. -/
theorem exchange_lookup (scene : n.Scene cast members view r) (roomy : cast.Roomy)
    (hpeers : members ⊆ cast.peers) (distinct : DistinctIds members)
    (exact : ∀ p ∈ members, (view p).Exact members p) {entry : Identifier}
    (hentry : entry ∈ members) (hposes : client.Poses .holder) (hpatience : 16 < patience) :
    ∃ owner h, Nearest members k owner ∧
      exchange patience n ⟨Exchange.addressOf entry, ⟨client, .lookupRequest k 0⟩⟩ =
        some (n, .ok (some ⟨h, .lookupResponse owner⟩)) := by
  obtain ⟨forwards, hforwards, owner, hwalk, howner⟩ :=
    walk_of_exact distinct exact .holder k hentry
  have hsites : ∀ p ∈ members, (cast.site p).header.Poses .holder := fun p hp =>
    (roomy.sites.carries p (hpeers hp) p (hpeers hp)).poses.2
  have hdelivers : Delivers (fun _ => True) patience n _ _ :=
    (scene.hosts.mono hpeers).delivers_search scene.awake (roomy.sites.mono hpeers) hsites trivial
      howner.1 hwalk client 0 patience hposes (by simpa using Nat.le_succ_of_le hforwards)
      (by omega)
  obtain ⟨_, _, hexchange, rfl, s, -, rfl⟩ := hdelivers.ends
  exact ⟨owner, (cast.site s).header, howner, hexchange⟩

/-- A peer stores a file. -/
theorem exchange_store (scene : n.Scene cast members view r) {owner : Identifier}
    (howner : owner ∈ members) (hpeer : owner ∈ cast.peers)
    (hfits : (⟨client, .storeFileRequest k name bytes⟩ : Message).Fits) (hpatience : 0 < patience) :
    exchange patience n ⟨Exchange.addressOf owner, ⟨client, .storeFileRequest k name bytes⟩⟩ =
      some (n.changePeer (cast.site owner).seat (·.store ⟨k, name, bytes⟩),
        readReply (cast.confirmation owner k name).encode) := by
  obtain ⟨patience, rfl⟩ := Nat.exists_eq_succ_of_ne_zero (Nat.ne_zero_of_lt hpatience)
  obtain ⟨rendezvous, hservice⟩ := scene.hosts.service hpeer
  have hbound := ne_bound_of_serving (scene.awake owner howner)
  rw [exchange_of_peer (scene.hosts.reached owner hpeer) hbound hservice hfits]
  rfl

/-- An upload stores the file at the member that is nearest to the key, whichever member is drawn,
and changes nothing else. -/
theorem run_upload (scene : n.Scene cast members view r) (roomy : cast.Roomy)
    (hpeers : members ⊆ cast.peers) (lists : r.Lists members) (distinct : DistinctIds members)
    (exact : ∀ p ∈ members, (view p).Exact members p) (hne : members.Nonempty)
    (hfits : (⟨client, .storeFileRequest k name bytes⟩ : Message).Fits) :
    ∃ owner, Nearest members k owner ∧
      n.run (uploadAs client cast.discovery k name bytes) =
        some ((n.consult cast.desk ⟨cast.header, r⟩).changePeer (cast.site owner).seat
          (·.store ⟨k, name, bytes⟩),
          if (cast.confirmation owner k name).Fits then .ok ⟨k, name, owner⟩
          else .error (.network (.message (.tooLarge maxMessageBytes)))) := by
  obtain ⟨hrandom, hposes⟩ := fits_of_store hfits
  obtain ⟨member, hmember⟩ := hne
  obtain ⟨hpatience, -⟩ := scene.enough_patience roomy (hpeers hmember)
  obtain ⟨drawn, hask, -, -, hdrawn⟩ := uploadAs_run client cast.discovery k name bytes
  obtain ⟨entry, hentry, hexchange⟩ :=
    scene.exchange_random roomy hpeers lists ⟨member, hmember⟩ hrandom (Nat.zero_lt_of_lt hpatience)
  obtain ⟨found, hlookup, hfound⟩ := hdrawn cast.header entry
  have scene₁ := scene.consult r
  obtain ⟨owner, h, howner, hexchange₁⟩ :=
    scene₁.exchange_lookup roomy hpeers distinct exact hentry hposes hpatience
  have hexchange₂ :=
    scene₁.exchange_store howner.1 (hpeers howner.1) hfits (Nat.zero_lt_of_lt hpatience)
  refine ⟨owner, howner, ?_⟩
  simp only [run, hask, perform, hexchange, hlookup, hexchange₁, hfound, hexchange₂,
    cast.receipt_eq]

end Scene

end Network

/-! ## One upload after another -/

namespace Items

/-- The items stand in ascending order of their keys. -/
def Ascending (items : Items) : Prop := items.Pairwise fun a b => a.key.value < b.key.value

theorem mem_store {item other : StoredItem} {items : Items} (h : other ∈ items.store item) :
    other = item ∨ other ∈ items := by
  induction items with
  | nil => exact Or.inl (List.mem_singleton.1 h)
  | cons held rest ih =>
      rw [store] at h
      split at h
      · rcases List.mem_cons.1 h with h | h
        · exact Or.inl h
        · exact Or.inr (List.mem_cons_of_mem held h)
      · split at h
        · exact List.mem_cons.1 h
        · rcases List.mem_cons.1 h with rfl | h
          · exact Or.inr List.mem_cons_self
          · exact (ih h).imp_right (List.mem_cons_of_mem held)

theorem Ascending.store {items : Items} (h : items.Ascending) (item : StoredItem) :
    (items.store item).Ascending := by
  induction items with
  | nil => exact List.pairwise_singleton _ item
  | cons held rest ih =>
      obtain ⟨hheld, hrest⟩ := List.pairwise_cons.1 h
      rw [Items.store]
      split
      · rename_i hsame
        exact List.pairwise_cons.2 ⟨fun other hother => hsame ▸ hheld other hother, hrest⟩
      · rename_i hother
        split
        · rename_i hbelow
          refine List.pairwise_cons.2 ⟨fun other hmem => ?_, h⟩
          rcases List.mem_cons.1 hmem with rfl | hmem
          · exact hbelow
          · exact UInt16.lt_trans hbelow (hheld other hmem)
        · rename_i hnot
          refine List.pairwise_cons.2 ⟨fun other hmem => ?_, ih hrest⟩
          rcases mem_store hmem with rfl | hmem
          · have hne : held.key.value ≠ other.key.value := fun heq =>
              hother (congrArg RingId.mk heq.symm)
            exact UInt16.lt_of_le_of_ne (UInt16.not_lt.1 hnot) hne
          · exact hheld other hmem

end Items

theorem PeerState.Exact.store {members : Finset Identifier} {p : Identifier} {s : PeerState}
    (h : s.Exact members p) (item : StoredItem) : (s.store item).Exact members p :=
  ⟨h.predecessor, h.owner, h.converged⟩

/-- The states after the uploads: each file is with the member that is nearest to its key, the last
one of each key, and nothing else has changed. -/
structure Filed (members : Finset Identifier) (key : List UInt8 → RingId) (uploads : List Posting)
    (view view' : Identifier → PeerState) : Prop where
  same : ∀ p, view' p = { view p with items := (view' p).items }
  stored : ∀ p k, Nearest members k p →
    (view' p).items.find? k = (Posting.lastUnder key uploads k).or ((view p).items.find? k)
  kept : ∀ p k, ¬Nearest members k p → (view' p).items.find? k = (view p).items.find? k
  ascending : ∀ p, (view p).items.Ascending → (view' p).items.Ascending

namespace Filed

variable {members : Finset Identifier} {key : List UInt8 → RingId}
  {view view' : Identifier → PeerState}

theorem nil : Filed members key [] view view where
  same := fun _ => rfl
  stored := fun _ _ _ => rfl
  kept := fun _ _ _ => rfl
  ascending := fun _ h => h

/-- One file at one member is found there under its key, and nothing else is found elsewhere. -/
theorem find?_update_store (view : Identifier → PeerState) (owner p : Identifier)
    (item : StoredItem) (k : RingId) :
    (Function.update view owner ((view owner).store item) p).items.find? k =
      if p = owner ∧ item.key = k then some item else (view p).items.find? k := by
  by_cases hp : p = owner
  · rw [hp, Function.update_self, PeerState.store, Items.find?_store]
    simp only [true_and]
  · rw [Function.update_of_ne hp, if_neg fun h => hp h.1]

/-- What a file leaves behind that is uploaded before the others. -/
theorem cons {u : Posting} {rest : List Posting} {owner : Identifier}
    (distinct : DistinctIds members) (howner : Nearest members (key u.bytes) owner)
    (h : Filed members key rest
      (Function.update view owner ((view owner).store (u.item key))) view') :
    Filed members key (u :: rest) view view' where
  same := by
    intro p
    rw [h.same p]
    by_cases hp : p = owner
    · rw [hp, Function.update_self]
      rfl
    · rw [Function.update_of_ne hp]
  stored := by
    intro p k hk
    -- the member nearest to the key of the file is its owner, and no other member is
    have hiff : p = owner ∧ key u.bytes = k ↔ key u.bytes = k :=
      ⟨And.right, fun heq => ⟨hk.unique distinct (heq ▸ howner), heq⟩⟩
    rw [h.stored p k hk, Posting.lastUnder_cons, Option.or_assoc, find?_update_store,
      Posting.key_item]
    by_cases heq : key u.bytes = k
    · rw [if_pos (hiff.2 heq), if_pos heq, Option.some_or]
    · rw [if_neg fun hpk => heq (hiff.1 hpk), if_neg heq, Option.none_or]
  kept := by
    intro p k hk
    rw [h.kept p k hk, find?_update_store]
    refine if_neg ?_
    rintro ⟨rfl, rfl⟩
    exact hk howner
  ascending := by
    intro p hp
    apply h.ascending p
    by_cases hpo : p = owner
    · rw [hpo, Function.update_self]
      exact Items.Ascending.store (hpo ▸ hp) _
    · rwa [Function.update_of_ne hpo]

end Filed

namespace Network

namespace Scene

variable {n : Network} {client : Header} {cast : Cast} {members : Finset Identifier}
  {view : Identifier → PeerState} {r : Registry} {key : List UInt8 → RingId}

/-- A series of uploads to a ring. -/
theorem run_uploads (roomy : cast.Roomy) (hpeers : members ⊆ cast.peers) (lists : r.Lists members)
    (distinct : DistinctIds members) (hne : members.Nonempty) (uploads : List Posting)
    (hfits : ∀ u ∈ uploads, (u.request client key).Fits) (scene : n.Scene cast members view r)
    (exact : ∀ p ∈ members, (view p).Exact members p) :
    ∃ n' view' results, n.uploads client cast.discovery key uploads = some (n', results) ∧
      List.Forall₂ (fun u result => ∃ owner, Nearest members (key u.bytes) owner ∧
        result = if (cast.confirmation owner (key u.bytes) u.name).Fits
          then .ok ⟨key u.bytes, u.name, owner⟩
          else .error (.network (.message (.tooLarge maxMessageBytes)))) uploads results ∧
      n'.Scene cast members view' r ∧ Filed members key uploads view view' ∧
      ∀ j, (∀ p ∈ members, (cast.site p).seat ≠ j) → n'.service? j = n.service? j := by
  -- induction on the uploads: the first one leaves a ring that the others meet
  induction uploads generalizing n view with
  | nil => exact ⟨n, view, [], rfl, .nil, scene, .nil, fun _ _ => rfl⟩
  | cons u rest ih =>
      obtain ⟨owner, howner, hrun⟩ := scene.run_upload roomy hpeers lists distinct exact hne
        (hfits u List.mem_cons_self)
      have scene₁ := (scene.consult r).changePeer (hpeers howner.1) (·.store (u.item key))
      have exact₁ : ∀ p ∈ members, (Function.update view owner
          ((view owner).store (u.item key)) p).Exact members p := by
        intro p hp
        by_cases hpo : p = owner
        · rw [hpo, Function.update_self]
          exact (exact owner howner.1).store _
        · rw [Function.update_of_ne hpo]
          exact exact p hp
      obtain ⟨n', view', results, hruns, hresults, scene', hfiled, hothers⟩ :=
        ih (fun u' hu' => hfits u' (List.mem_cons_of_mem u hu')) scene₁ exact₁
      refine ⟨n', view', _ :: results, ?_, .cons ⟨owner, howner, rfl⟩ hresults, scene',
        hfiled.cons distinct howner, ?_⟩
      · rw [uploads_cons hrun, ← Posting.item, hruns, Option.map_some]
      · intro j hj
        rw [hothers j hj, service?_changePeer_of_ne _ _ _ (hj owner howner.1).symm, service?,
          nodes_consult_self scene.registers.service, service?]

end Scene

/-- A series of uploads where there is no member. -/
theorem Registers.uploads_fail {n : Network} {discovery : String} {desk : Nat} {h client : Header}
    {r : Registry} {key : List UInt8 → RingId} (hr : n.Registers discovery desk h r)
    (hnobody : r.members = []) (uploads : List Posting)
    (hfits : ∀ u ∈ uploads, (u.request client key).Fits) :
    ∃ n', n.uploads client discovery key uploads =
        some (n', uploads.map fun _ => .error (.discovery
          (if (⟨h, .statusResponse .error⟩ : Message).Fits then .noPeers
          else .network (.message (.tooLarge maxMessageBytes))))) ∧ n'.nodes = n.nodes := by
  induction uploads generalizing n with
  | nil => exact ⟨n, rfl, rfl⟩
  | cons u rest ih =>
      have hrun := hr.upload_fails hnobody (hfits u List.mem_cons_self)
      obtain ⟨n', hruns, hnodes⟩ :=
        ih (hr.consult r) fun u' hu' => hfits u' (List.mem_cons_of_mem u hu')
      refine ⟨n', ?_, hnodes.trans (nodes_consult_self hr.service)⟩
      rw [uploads_cons hrun, hruns, Option.map_some, List.map_cons]

/-- **Uploads land on the one responsible peer.** In a ring with right tables whose registry lists
the members, upload any files whose requests are small enough to be read, under keys that depend on
their bytes alone. The headers leave room for the requests and replies of a lookup (`Cast.Roomy`).
Whichever members are drawn, each upload ends with the member that is nearest to the key as the
owner. It gives a receipt of the key, the name and the owner if the owner's confirmation is small
enough as well, and otherwise says that it is too large. In the end, each member holds the last of
the uploaded files with each key that it is nearest to, and what it held before under all other
keys; no other field of a peer has changed, no other node, and no entry of the registry. Without
members, each upload says that there is no peer, or that the status it got is too large, and changes
nothing. -/
theorem uploads_reach_owners {n : Network} {cast : Cast} {members : Finset Identifier}
    {view : Identifier → PeerState} {r : Registry} (scene : n.Scene cast members view r)
    (roomy : cast.Roomy) (hpeers : members ⊆ cast.peers) (lists : r.Lists members)
    (distinct : DistinctIds members) (exact : ∀ p ∈ members, (view p).Exact members p)
    (client : Header) (key : List UInt8 → RingId) (uploads : List Posting)
    (hfits : ∀ u ∈ uploads, (u.request client key).Fits) :
    (members.Nonempty → ∃ n' view' results,
      n.uploads client cast.discovery key uploads = some (n', results) ∧
      List.Forall₂ (fun u result => ∃ owner, Nearest members (key u.bytes) owner ∧
        result = if (cast.confirmation owner (key u.bytes) u.name).Fits
          then .ok ⟨key u.bytes, u.name, owner⟩
          else .error (.network (.message (.tooLarge maxMessageBytes)))) uploads results ∧
      n'.Scene cast members view' r ∧ Filed members key uploads view view' ∧
      ∀ j, (∀ p ∈ members, (cast.site p).seat ≠ j) → n'.service? j = n.service? j) ∧
    (members = ∅ → ∃ n', n.uploads client cast.discovery key uploads =
        some (n', uploads.map fun _ => .error (.discovery
          (if (⟨cast.header, .statusResponse .error⟩ : Message).Fits then .noPeers
          else .network (.message (.tooLarge maxMessageBytes))))) ∧ n'.nodes = n.nodes) := by
  constructor
  · intro hne
    exact Scene.run_uploads roomy hpeers lists distinct hne uploads hfits scene exact
  · intro hempty
    have hnobody : r.members = [] := lists.members_eq_nil_iff.2 hempty
    exact scene.registers.uploads_fail hnobody uploads hfits

end Network

namespace Trio

/-! ## Two files with one key -/

open Network

def roster : Registry := ⟨[first, second, third]⟩

def drafts : List Posting := [⟨"draft", [1]⟩, ⟨"final", [2, 3]⟩]

theorem scene_view (r : Registry) : (network view r).Scene cast members view r :=
  ⟨hosts view r, awake view r, registers view r⟩

theorem cast_roomy : cast.Roomy := ⟨roomy, header_carries⟩

theorem lists_roster : roster.Lists members :=
  ⟨fun p => by simp [roster, members], by decide +kernel⟩

theorem distinctIds_members : DistinctIds members := by decide +kernel

theorem exact_view : ∀ p ∈ members, (view p).Exact members p := by
  have previous : ∀ p ∈ members, Previous members p (view p).predecessor := by decide +kernel
  have owner : ∀ p ∈ members, (view p).table.owner = p := by decide +kernel
  have converged : ∀ p ∈ members, (view p).table.Converged members := by decide +kernel
  exact fun p hp => ⟨previous p hp, owner p hp, converged p hp⟩

/-- Two files have a key of the second peer, which keeps the later one. -/
theorem uploads_reach_owners_of_trio :
    (network view roster).Scene cast members view roster ∧ cast.Roomy ∧ members ⊆ cast.peers ∧
      roster.Lists members ∧ DistinctIds members ∧ (∀ p ∈ members, (view p).Exact members p) ∧
      (∀ u ∈ drafts, (u.request header fun _ => ⟨50⟩).Fits) ∧
      ∃ n' view', (network view roster).uploads header "10.0.0.9" (fun _ => ⟨50⟩) drafts =
          some (n', [.ok ⟨⟨50⟩, "draft", second⟩, .ok ⟨⟨50⟩, "final", second⟩]) ∧
        n'.Scene cast members view' roster ∧
        (view' second).items.find? ⟨50⟩ = some ⟨⟨50⟩, "final", [2, 3]⟩ ∧
        (view' third).items.find? ⟨50⟩ = none := by
  have hfits : ∀ u ∈ drafts, (u.request header fun _ => ⟨50⟩).Fits := by decide +kernel
  have hsecond : Nearest members ⟨50⟩ second := by decide +kernel
  have hthird : ¬Nearest members ⟨50⟩ third := by decide +kernel
  obtain ⟨n', view', results, hrun, hresults, scene', hfiled, -⟩ :=
    (uploads_reach_owners (scene_view roster) cast_roomy (Finset.Subset.refl _) lists_roster
      distinctIds_members exact_view header (fun _ => ⟨50⟩) drafts hfits).1 ⟨second, hsecond.1⟩
  have hconfirmed : ∀ u ∈ drafts, (cast.confirmation second ⟨50⟩ u.name).Fits := fun u hu =>
    Cast.confirmation_fits (hfits u hu)
      (Nat.le_trans (by decide +kernel) (Nat.le_add_right _ (4 + u.bytes.length)))
  obtain _ | ⟨⟨o₁, ho₁, h₁⟩, _ | ⟨⟨o₂, ho₂, h₂⟩, _ | _⟩⟩ := hresults
  obtain rfl := ho₁.unique distinctIds_members hsecond
  obtain rfl := ho₂.unique distinctIds_members hsecond
  rw [if_pos (hconfirmed _ (by simp [drafts]))] at h₁ h₂
  rw [h₁, h₂] at hrun
  refine ⟨scene_view roster, cast_roomy, Finset.Subset.refl _, lists_roster, distinctIds_members,
    exact_view, hfits, n', view', hrun, scene', ?_, ?_⟩
  · rw [hfiled.stored second _ hsecond]
    rfl
  · rw [hfiled.kept third _ hthird]
    rfl

/-! ## A name that is too long -/

/-- A file without content, whose name has `n` bytes. -/
def named (n : Nat) : Posting := ⟨String.ofList (List.replicate n 'a'), []⟩

theorem length_name_named (n : Nat) : (Utf8.encode (named n).name).length = n := by
  have hone : (Utf8.encodeChar 'a').length = 1 := by decide
  rw [named, Utf8.encode, String.toList_ofList, Utf8.encodeChars, List.length_flatMap,
    List.map_replicate, hone, List.sum_replicate, smul_eq_mul, Nat.mul_one]

/-- The request of a client with an empty header. -/
theorem fits_request_named_iff {n : Nat} {key : List UInt8 → RingId} :
    ((named n).request ⟨"", ""⟩ key).Fits ↔ n + 28 ≤ maxMessageBytes := by
  have hempty : (Utf8.encode "").length = 0 := by decide
  have hbytes : (named n).bytes.length = 0 := rfl
  rw [Posting.request, Message.Fits, Message.length_encode]
  simp only [Body.fields, Wire.blob, List.length_append, Wire.length_ringId, Wire.length_text,
    Wire.length_number, length_name_named, hempty, hbytes]
  omega

theorem fits_confirmation_named_iff {n : Nat} {p : Identifier} (hp : p ∈ members) {k : RingId} :
    (cast.confirmation p k (named n).name).Fits ↔ n + 40 ≤ maxMessageBytes := by
  have hheader : (Utf8.encode (cast.site p).header.hostname).length = 8 ∧
      (Utf8.encode (cast.site p).header.ipAddress).length = 8 := by
    revert p
    decide +kernel
  rw [Cast.confirmation, Message.Fits, Message.length_encode]
  simp only [Body.fields, List.length_append, Wire.length_ringId, Wire.length_text,
    length_name_named, hheader.1, hheader.2]
  omega

theorem upload_unconfirmed {client : Header} {u : Posting}
    (hfits : (u.request client fun _ => ⟨50⟩).Fits)
    (hlong : ∀ p ∈ members, ¬(cast.confirmation p ⟨50⟩ u.name).Fits) :
    ∃ n', (network view roster).uploads client "10.0.0.9" (fun _ => ⟨50⟩) [u] =
      some (n', [.error (.network (.message (.tooLarge maxMessageBytes)))]) := by
  have hne : members.Nonempty := ⟨first, by decide +kernel⟩
  have hall : ∀ u' ∈ [u], (u'.request client fun _ => ⟨50⟩).Fits := by
    rintro u' hu'
    rwa [List.mem_singleton.1 hu']
  obtain ⟨n', view', results, hrun, hresults, -⟩ :=
    (scene_view roster).run_uploads cast_roomy (Finset.Subset.refl _) lists_roster
      distinctIds_members hne [u] hall exact_view
  obtain _ | ⟨⟨owner, howner, rfl⟩, _ | _⟩ := hresults
  rw [if_neg (hlong owner howner.1)] at hrun
  exact ⟨n', hrun⟩

/-- Under the empty header of the client the request is just small enough, and under the header of
the owner the confirmation is not: the upload gives no receipt. -/
theorem upload_of_long_name :
    (network view roster).Scene cast members view roster ∧ cast.Roomy ∧ members ⊆ cast.peers ∧
      roster.Lists members ∧ DistinctIds members ∧ (∀ p ∈ members, (view p).Exact members p) ∧
      ((named 67108836).request ⟨"", ""⟩ fun _ => ⟨50⟩).Fits ∧
      ∃ n', (network view roster).uploads ⟨"", ""⟩ "10.0.0.9" (fun _ => ⟨50⟩) [named 67108836] =
        some (n', [.error (.network (.message (.tooLarge maxMessageBytes)))]) := by
  have hfits : ((named 67108836).request ⟨"", ""⟩ fun _ => ⟨50⟩).Fits :=
    fits_request_named_iff.2 (by norm_num [maxMessageBytes])
  have hlong : ∀ p ∈ members, ¬(cast.confirmation p ⟨50⟩ (named 67108836).name).Fits := by
    intro p hp
    rw [fits_confirmation_named_iff hp]
    norm_num [maxMessageBytes]
  exact ⟨scene_view roster, cast_roomy, Finset.Subset.refl _, lists_roster, distinctIds_members,
    exact_view, hfits, upload_unconfirmed hfits hlong⟩

end Trio

end ChordRing
