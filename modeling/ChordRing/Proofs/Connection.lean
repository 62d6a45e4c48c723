import ChordRing.Proofs.Hearsay
import ChordRing.Proofs.Traffic

/-!
# One connection, all or nothing

A node that serves a connection reads one message off it, processes the message, and sends back the
reply (`Network.serve_eq`). What cannot be read is not processed at all, what is sent back is read
as the reply that processing came to, and a failure sends back nothing and leaves the node as it
was, unless the message announced a newcomer and could not be passed on: then the node has taken
note of the newcomer (`Network.connection_all_or_nothing`).
-/

namespace ChordRing

/-- A discovery node that refuses a message is as it was. -/
theorem Discovery.process_fst_of_error {d : Discovery} {lot : Nat} {m : Message}
    {e : DiscoveryError} (h : (d.process lot m).2 = .error e) : (d.process lot m).1 = d := by
  obtain ⟨h', b⟩ := m
  cases b with
  | networkJoinNotification p => cases h
  | networkExitNotification p => cases h
  | getRandomPeerRequest =>
      rw [process]
      cases d.registry.pick? lot <;> rfl
  | _ => rfl

namespace Network

/-- The node with the number is a peer or a discovery node. -/
def Listens (n : Network) (i : Nat) : Prop :=
  (∃ p rendezvous, n.service? i = some (.peer p rendezvous)) ∨
    ∃ d, n.service? i = some (.discovery d)

/-- What the node with the number makes of a message that it has read. -/
def process (carry : Carrier) (n : Network) (i : Nat) (m : Message) :
    Option (Network × Except NodeError (Option Message)) :=
  match n.service? i with
  | some (.peer p _) =>
      (perform carry (.peer i) (p.answer m).run n).map fun r => (r.1, r.2.mapError .chord)
  | some (.discovery d) =>
      let (lot, n) := n.draw
      let (d, result) := d.process lot m
      some (n.setService i (.discovery d), result.mapError .discovery)
  | _ => none

variable {n n' : Network} {i : Nat} {m : Message} {carry : Carrier}

/-- A connection is the reading of a message, its processing and the sending of the reply. -/
theorem serve_eq (listens : n.Listens i) (carry : Carrier) (bytes : List UInt8) :
    serve carry n i bytes =
      match readRequest? bytes with
      | none => some (n, [])
      | some m => (process carry n i m).map fun r => (r.1, replyBytes r.2) := by
  have hbytes : ∀ (ε : Type) (f : ε → NodeError) (result : Except ε (Option Message)),
      replyBytes (result.mapError f) = replyBytes result := by
    intro ε f result
    rcases result with e | reply
    · rfl
    · cases reply <;> rfl
  rcases listens with ⟨p, rendezvous, hservice⟩ | ⟨d, hservice⟩
  · rw [serve, hservice]
    cases readRequest? bytes with
    | none => rfl
    | some m => simp only [process, hservice, Option.map_map, Function.comp_def, hbytes]
  · rw [serve, hservice]
    cases readRequest? bytes with
    | none => rfl
    | some m => simp only [process, hservice, Option.map_some, hbytes]

/-- A peer fails over nothing that it takes note of, announcements of newcomers apart. -/
theorem noted_of_error {p : Peer} {e : ChordError}
    (hjoin : ∀ x, m.body ≠ .networkJoinNotification x)
    (hrun : perform carry (.peer i) (p.answer m).run n = some (n', .error e)) (self : Identifier)
    (s : PeerState) : s.noted self m.body = s := by
  obtain ⟨h, b⟩ := m
  cases b with
  | networkJoinNotification x => exact absurd rfl (hjoin x)
  | predecessorNotification p => cases hrun
  | successorNotification p => cases hrun
  | storeFileRequest key name bytes => cases hrun
  | moveFileRequest key name bytes => cases hrun
  | _ => rfl

/-- A peer fails over the announcement of a newcomer only if it cannot pass it on. It has taken note
of the newcomer then. -/
theorem join_error {patience : Nat} {p : Peer} {rendezvous : Option String} {h : Header}
    {x : Identifier} {e : ChordError} (hservice : n.service? i = some (.peer p rendezvous))
    (hrun : perform (exchange patience) (.peer i) (p.answer ⟨h, .networkJoinNotification x⟩).run n =
      some (n', .error e)) :
    ∃ fault, e = .network fault ∧
      exchange patience (n.changePeer i (·.learn x)) ⟨Exchange.addressOf p.state.successor,
        ⟨p.header, .networkJoinNotification x⟩⟩ = some (n', .error fault) ∧
      n'.service? i = some (.peer { p with state := p.state.learn x } rendezvous) := by
  have hpeer := peer?_of_service? hservice
  by_cases hx : x = p.identifier
  · subst hx
    rw [p.answer_join_self h] at hrun
    cases hrun
  · rw [p.answer_join h hx, perform_locked hpeer] at hrun
    have hnoted : (n.changePeer i (·.learn x)).service? i = some (.peer
        { p with state := p.state.learn x } rendezvous) := service?_changePeer_of_peer _ hservice
    split at hrun
    · cases hrun
    · rw [perform] at hrun
      cases hsent : exchange patience (n.changePeer i (·.learn x))
          ⟨Exchange.addressOf (p.state.learn x).successor,
            ⟨p.header, .networkJoinNotification x⟩⟩ with
      | none =>
          rw [hsent] at hrun
          cases hrun
      | some r =>
          obtain ⟨n₁, outcome⟩ := r
          rw [hsent] at hrun
          cases outcome with
          | ok reply => cases hrun
          | error fault =>
              cases hrun
              refine ⟨fault, rfl, hsent, ?_⟩
              -- the announcement may have come back, and says nothing new then
              rcases told_exchange patience hsent i _ rendezvous hnoted with hsame | hagain
              · exact hsame
              · rw [hagain, PeerState.noted, if_neg hx, PeerState.learn_learn]

/-- A node that fails over a message is as it was, unless the message announced a newcomer. -/
theorem service?_of_error {patience : Nat} {e : NodeError} (listens : n.Listens i)
    (hjoin : ∀ x, m.body ≠ .networkJoinNotification x)
    (hrun : process (exchange patience) n i m = some (n', .error e)) :
    n'.service? i = n.service? i := by
  rcases listens with ⟨p, rendezvous, hservice⟩ | ⟨d, hservice⟩
  · simp only [process, hservice] at hrun
    obtain ⟨⟨n₁, result⟩, hanswer, heq⟩ := Option.map_eq_some_iff.1 hrun
    obtain ⟨rfl, hresult⟩ := Prod.mk.inj heq
    cases result with
    | ok reply => cases hresult
    | error fault =>
        have hcarry : ∀ n n' e outcome, m.body.SameNews e.message.body →
            exchange patience n e = some (n', outcome) → Told m.body n n' :=
          fun n n' e outcome hsame hsent => (told_exchange patience hsent).of_sameNews hsame
        rcases told_answer hservice hcarry hanswer i p rendezvous hservice with hsame | hnoted
        · rw [hsame, hservice]
        · rw [hnoted, hservice, noted_of_error hjoin hanswer]
  · simp only [process, hservice] at hrun
    obtain ⟨rfl, hresult⟩ := Prod.mk.inj (Option.some.inj hrun)
    cases hprocess : (d.process n.draw.1 m).2 with
    | ok reply =>
        rw [hprocess] at hresult
        cases hresult
    | error fault =>
        rw [Discovery.process_fst_of_error hprocess]
        exact (service?_setService_self (n := n.draw.2) hservice _).trans hservice.symm

theorem learned_of_error {patience : Nat} {e : NodeError} {x : Identifier} (listens : n.Listens i)
    (hbody : m.body = .networkJoinNotification x)
    (hrun : process (exchange patience) n i m = some (n', .error e)) :
    ∃ p rendezvous fault, n.service? i = some (.peer p rendezvous) ∧ e = .chord (.network fault) ∧
      exchange patience (n.changePeer i (·.learn x)) ⟨Exchange.addressOf p.state.successor,
        ⟨p.header, .networkJoinNotification x⟩⟩ = some (n', .error fault) ∧
      n'.service? i = some (.peer { p with state := p.state.learn x } rendezvous) := by
  obtain ⟨h, b⟩ := m
  obtain rfl : b = .networkJoinNotification x := hbody
  rcases listens with ⟨p, rendezvous, hservice⟩ | ⟨d, hservice⟩
  · simp only [process, hservice] at hrun
    obtain ⟨⟨n₁, result⟩, hanswer, heq⟩ := Option.map_eq_some_iff.1 hrun
    obtain ⟨rfl, hresult⟩ := Prod.mk.inj heq
    cases result with
    | ok reply => cases hresult
    | error fault =>
        obtain ⟨fault', rfl, hsent, hlearned⟩ := join_error hservice hanswer
        cases hresult
        exact ⟨p, rendezvous, fault', hservice, rfl, hsent, hlearned⟩
  · simp only [process, hservice] at hrun
    cases hrun

/-- **One connection, all or nothing.** Bytes that are too many or no message are not processed: the
network stays as it is, and nothing is sent back. Of a message that is processed, what is sent back
is read as the reply, and nothing is sent back without one. A node that fails over a message is as
it was, unless the message announced a newcomer: then the node is a peer that could not pass the
announcement on to its successor, and its finger table is tightened with the newcomer and all else
as it was. -/
theorem connection_all_or_nothing (listens : n.Listens i) (bytes : List UInt8) :
    ((maxMessageBytes < bytes.length ∨ ∀ m, Message.decode bytes ≠ .ok m) →
      ∀ carry, serve carry n i bytes = some (n, [])) ∧
    ∀ m, bytes.length ≤ maxMessageBytes → Message.decode bytes = .ok m →
      ∀ patience n' result, process (exchange patience) n i m = some (n', result) →
      ∃ sent, serve (exchange patience) n i bytes = some (n', sent) ∧
        (∀ reply, result = .ok (some reply) → (∀ k ∈ reply.lengths, k < lengthLimit) →
          Message.decode sent = .ok reply) ∧
        (result = .ok none → sent = []) ∧
        ∀ e, result = .error e → sent = [] ∧
          ((∀ x, m.body ≠ .networkJoinNotification x) → n'.service? i = n.service? i) ∧
          ∀ x, m.body = .networkJoinNotification x → ∃ p rendezvous fault,
            n.service? i = some (.peer p rendezvous) ∧ e = .chord (.network fault) ∧
            exchange patience (n.changePeer i (·.learn x)) ⟨Exchange.addressOf p.state.successor,
              ⟨p.header, .networkJoinNotification x⟩⟩ = some (n', .error fault) ∧
            n'.service? i = some (.peer
              { p with state := { p.state with table := p.state.table.update x } } rendezvous) := by
  constructor
  · intro hbad carry
    have hnone : readRequest? bytes = none := by
      rw [readRequest?]
      split
      · rfl
      · rename_i hshort
        cases hdecode : Message.decode bytes with
        | error e => rfl
        | ok m => exact absurd hdecode ((hbad.resolve_left hshort) m)
    rw [serve_eq listens, hnone]
  · intro m hshort hdecode patience n' result hrun
    have hread : readRequest? bytes = some m := by
      rw [readRequest?, if_neg (Nat.not_lt.2 hshort), hdecode]
      rfl
    refine ⟨replyBytes result, ?_, ?_, ?_, ?_⟩
    · rw [serve_eq listens, hread]
      simp only [hrun, Option.map_some]
    · rintro reply rfl hlengths
      exact Message.decode_encode hlengths
    · rintro rfl
      rfl
    · rintro e rfl
      exact ⟨rfl, fun hjoin => service?_of_error listens hjoin hrun,
        fun x hbody => learned_of_error listens hbody hrun⟩

end Network

/-! ## A peer that cannot pass on what it hears -/

namespace Trio

open Network

/-- The first peer alone, with a successor that is not there. -/
def alone : Network := ⟨[node (view first) first [10, 0, 0, 1]], true, [], []⟩

def news : Message := ⟨header, .networkJoinNotification fourth⟩

theorem process_alone : process (exchange 1) alone 0 news =
    some (alone.changePeer 0 (·.learn fourth),
      .error (.chord (.network (.connectionFailed (.at "10.0.0.2:9001" .refused))))) := by
  let p := (site first).peer first (view first)
  have hservice : alone.service? 0 = some (.peer p none) := rfl
  have hother : fourth ≠ p.identifier := by decide +kernel
  have hpassed : ¬((p.state.learn fourth).successor = fourth ∨
      (p.state.learn fourth).successor = p.identifier) := by decide +kernel
  have haddress : Exchange.addressOf (p.state.learn fourth).successor = "10.0.0.2:9001" := by
    decide +kernel
  have hdial : (alone.changePeer 0 (·.learn fourth)).dial "10.0.0.2:9001" = .error .refused := by
    rw [dial_changePeer]
    cbv
  have hunreached :=
    (exchange_of_unreached 0 ⟨p.header, .networkJoinNotification fourth⟩ hdial).1
  simp only [process, hservice]
  rw [news, p.answer_join header hother, perform_locked (peer?_of_service? hservice),
    if_neg hpassed, perform, haddress, hunreached]
  rfl

/-- The first peer learns of the newcomer, fails to tell the second, and sends nothing back. Its
table holds the newcomer where it had the third peer at a greater distance. -/
theorem connection_all_or_nothing_of_first :
    alone.Listens 0 ∧ news.encode.length ≤ maxMessageBytes ∧
      Message.decode news.encode = .ok news ∧
      serve (exchange 1) alone 0 news.encode = some (alone.changePeer 0 (·.learn fourth), []) ∧
      (∃ fault, exchange 1 (alone.changePeer 0 (·.learn fourth))
        ⟨"10.0.0.2:9001", ⟨(site first).header, .networkJoinNotification fourth⟩⟩ =
          some (alone.changePeer 0 (·.learn fourth), .error fault)) ∧
      (alone.changePeer 0 (·.learn fourth)).service? 0 = some (.peer ((site first).peer first
        ⟨third, second, ⟨first, List.replicate 7 second ++ [fourth] ++ List.replicate 8 third⟩, [],
          .joined⟩) none) := by
  have listens : alone.Listens 0 := Or.inl ⟨_, _, rfl⟩
  have hfits : news.encode.length ≤ maxMessageBytes := by decide +kernel
  have hdecode := Message.decode_encode_of_length_le hfits
  obtain ⟨sent, hserve, -, -, herror⟩ :=
    (connection_all_or_nothing listens news.encode).2 news hfits hdecode 1 _ _ process_alone
  obtain ⟨rfl, -, hlearned⟩ := herror _ rfl
  obtain ⟨p, rendezvous, fault, hp, -, hsent, hservice⟩ := hlearned fourth rfl
  obtain ⟨rfl, rfl⟩ : (site first).peer first (view first) = p ∧ none = rendezvous := by
    have hfirst : alone.service? 0 = some (.peer ((site first).peer first (view first)) none) := rfl
    simpa using hfirst.symm.trans hp
  have haddress : Exchange.addressOf (view first).successor = "10.0.0.2:9001" := by decide +kernel
  have htable : (view first).table.update fourth =
      ⟨first, List.replicate 7 second ++ [fourth] ++ List.replicate 8 third⟩ := by decide +kernel
  refine ⟨listens, hfits, hdecode, hserve, ⟨fault, haddress ▸ hsent⟩, ?_⟩
  rw [hservice, Site.peer, htable]
  rfl

end Trio

end ChordRing
