import ChordRing.Proofs.Changes
import ChordRing.Proofs.Delivery

/-!
# Traffic

What is sent on account of one exchange. `Network.traffic` lists the envelopes that a task sends, in
the order in which they are sent, and `Network.onward` those that are sent within the node that
serves an exchange, as when a peer hands on what it is asked. Both come with what they are where a
message reaches nobody (`exchange_of_unreached`) and where it reaches a peer (`exchange_of_peer`,
`onward_of_peer`).
-/

namespace ChordRing

variable {σ α : Type}

namespace Network

/-- The envelopes that a task sends, where `within` lists those that are sent within the node that
serves one of them. -/
def traffic (within : Network → Envelope → List Envelope) (carry : Carrier) (seat : Seat σ) :
    NodeTask σ α → Network → List Envelope
  | .done _, _ => []
  | .locked change next, n =>
      traffic within carry seat (next (seat.read (seat.change change n))) (seat.change change n)
  | .call envelope next, n =>
      envelope :: (within n envelope ++
        match carry n envelope with
        | some (n', outcome) => traffic within carry seat (next outcome) n'
        | none => [])

/-- The envelopes that are sent within the node that serves an exchange. Only peers send any. -/
def onward : (patience : Nat) → Network → Envelope → List Envelope
  | 0, _, _ => []
  | patience + 1, n, envelope =>
      match n.dial envelope.address with
      | .error _ => []
      | .ok i =>
          if n.presence? i = some .bound then []
          else
            match n.service? i, readRequest? envelope.message.encode with
            | some (.peer p _), some m =>
                traffic (onward patience) (exchange patience) (.peer i) (p.answer m).run n
            | _, _ => []

/-- The envelopes that are sent while an attempt of a client is carried out. -/
def sent {ε : Type} (n : Network) (attempt : Attempt Unit ε α) : List Envelope :=
  traffic (onward n.patience) (exchange n.patience) .client attempt.run n

/-! ## One exchange -/

variable {n : Network} {patience i : Nat} {address : String} {m : Message}

/-- Nobody is reached, so nothing changes, nothing is sent and nothing comes back. -/
theorem exchange_of_unreached {fault : AddressFault} (patience : Nat) (m : Message)
    (hdial : n.dial address = .error fault) :
    exchange (patience + 1) n ⟨address, m⟩ =
        some (n, .error (.connectionFailed (.at address fault))) ∧
      onward (patience + 1) n ⟨address, m⟩ = [] := by
  constructor
  · simp only [exchange, hdial]
  · simp only [onward, hdial]

/-- A peer that is reached carries out its answer, and the sender reads its reply. -/
theorem exchange_of_peer {p : Peer} {rendezvous : Option String}
    (hdial : n.dial address = .ok i) (hbound : n.presence? i ≠ some .bound)
    (hpeer : n.service? i = some (.peer p rendezvous)) (hfits : m.Fits) :
    exchange (patience + 1) n ⟨address, m⟩ =
      (perform (exchange patience) (.peer i) (p.answer m).run n).map fun r =>
        (r.1, readReply (replyBytes r.2)) := by
  simp only [exchange, hdial, connect, if_neg hbound, serve, hpeer, readRequest?_encode hfits,
    Option.map_map]
  rfl

theorem onward_of_peer {p : Peer} {rendezvous : Option String}
    (hdial : n.dial address = .ok i) (hbound : n.presence? i ≠ some .bound)
    (hpeer : n.service? i = some (.peer p rendezvous)) (hfits : m.Fits) :
    onward (patience + 1) n ⟨address, m⟩ =
      traffic (onward patience) (exchange patience) (.peer i) (p.answer m).run n := by
  simp only [onward, hdial, if_neg hbound, hpeer, readRequest?_encode hfits]

/-! ## One section of a peer -/

variable {carry : Carrier} {within : Network → Envelope → List Envelope} {p : Peer}
  {next : PeerState → NodeTask PeerState α}

theorem read_changePeer (h : n.peer? i = some p) (f : PeerState → PeerState) :
    (Seat.peer i).read (n.changePeer i f) = f p.state := by
  show (((n.changePeer i f).peer? i).map (·.state)).getD default = f p.state
  rw [peer?_changePeer, if_pos rfl, h]
  rfl

theorem perform_locked (h : n.peer? i = some p) (f : PeerState → PeerState) :
    perform carry (.peer i) (.locked f next) n =
      perform carry (.peer i) (next (f p.state)) (n.changePeer i f) := by
  rw [← read_changePeer h f]
  rfl

theorem traffic_locked (h : n.peer? i = some p) (f : PeerState → PeerState) :
    traffic within carry (.peer i) (.locked f next) n =
      traffic within carry (.peer i) (next (f p.state)) (n.changePeer i f) := by
  rw [← read_changePeer h f]
  rfl

/-- A section that only reads changes nothing. -/
theorem perform_read (h : n.peer? i = some p) :
    perform carry (.peer i) (.locked id next) n = perform carry (.peer i) (next p.state) n := by
  rw [perform_locked h, changePeer_id, id]

theorem traffic_read (h : n.peer? i = some p) :
    traffic within carry (.peer i) (.locked id next) n =
      traffic within carry (.peer i) (next p.state) n := by
  rw [traffic_locked h, changePeer_id, id]

end Network

end ChordRing
