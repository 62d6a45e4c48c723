import ChordRing.Proofs.Traffic
import ChordRing.Proofs.Trail

/-!
# Forwarding ends

A request that peers hand on ends in every network of peers, whatever is in their tables. A client
that sends a search gets the answer of the trail, under the header of the peer that answers, or a
failure if there is no trail; the request is handed on as often as the ceilings allow, with nothing
but its hop count changed (`Network.searches_end`).
-/

namespace ChordRing

namespace Network

variable {n : Network} {quest : Quest} {k : RingId} {limit : Nat} {via next : Identifier}
  {relay : Peer}

/-! ## One exchange of a search -/

/-- A search for `k` on its way to `via`. -/
def inquiry (quest : Quest) (k : RingId) (h : Header) (via : Identifier) (hops : UInt32) :
    Envelope :=
  ⟨Exchange.addressOf via, ⟨h, quest.request k hops⟩⟩

/-- Within `patience`, the exchange that brings a search to `via` settles. -/
def SettlesWithin (n : Network) (quest : Quest) (k : RingId) (limit patience : Nat) (h : Header)
    (via : Identifier) (hops : UInt32) : Prop :=
  ∃ n' outcome, exchange patience n (inquiry quest k h via hops) = some (n', outcome) ∧
    n.Settles quest k limit hops.toNat via (onward patience n (inquiry quest k h via hops)) n'
      outcome

/-- A discovery node answers no search and stays as it is. -/
theorem exchange_of_discovery {patience i : Nat} {address : String} {d : Discovery} {h : Header}
    {hops : UInt32} (hdial : n.dial address = .ok i) (hbound : n.presence? i ≠ some .bound)
    (hservice : n.service? i = some (.discovery d)) (hposes : h.Poses quest) :
    exchange (patience + 1) n ⟨address, ⟨h, quest.request k hops⟩⟩ =
      some (n.consult i d, .ok none) := by
  have hprocess : ∀ lot, d.process lot ⟨h, quest.request k hops⟩ =
      (d, .error (.unsupportedRequest (quest.request k hops).kind.name)) := by
    intro lot
    cases quest <;> rfl
  simp only [exchange, hdial, connect, if_neg hbound, serve, hservice,
    readRequest?_encode (hposes k hops), hprocess, Option.map_some]
  rfl

theorem onward_of_no_peer {patience i : Nat} {address : String} {m : Message}
    (hdial : n.dial address = .ok i) (hpeer : n.peer? i = none) :
    onward (patience + 1) n ⟨address, m⟩ = [] := by
  simp only [onward, hdial]
  split
  · rfl
  · split
    · rename_i hservice _
      obtain ⟨node, hnode, hp⟩ := Option.map_eq_some_iff.1 hservice
      rw [peer?, hnode, Option.bind_some, Node.peer?, hp] at hpeer
      cases hpeer
    · rfl

/-- A search that reaches no peer comes back without an answer. -/
theorem settlesWithin_of_no_attendant {patience : Nat} {h : Header} {hops : UInt32}
    (ofPeers : n.OfPeers) (hnone : n.attendant? via = none) (hposes : h.Poses quest) :
    n.SettlesWithin quest k limit (patience + 1) h via hops := by
  have hstop : ∀ forwards peer found,
      ¬ n.Trail quest k hops.toNat via forwards peer found := not_trail_of_no_attendant hnone
  cases hdial : n.dial (Exchange.addressOf via) with
  | error fault =>
      obtain ⟨hrun, hsent⟩ := exchange_of_unreached patience ⟨h, quest.request k hops⟩ hdial
      refine ⟨n, _, hrun, ?_⟩
      rw [inquiry, hsent]
      exact settles_of_stop hstop rfl (error_ne_reply _)
  | ok i =>
      have hpeer : n.peer? i = none := by rwa [attendant?, hdial] at hnone
      obtain ⟨node, hnode, -⟩ := exists_open_of_dial hdial
      have hservice : n.service? i = some node.service := by rw [service?, hnode, Option.map_some]
      unfold SettlesWithin inquiry
      rw [onward_of_no_peer hdial hpeer]
      cases hnow : node.service with
      | script replies received =>
          exact absurd (hservice.trans (congrArg some hnow)) (ofPeers.unscripted i _ _)
      | peer p rendezvous =>
          rw [peer?, hnode, Option.bind_some, Node.peer?, hnow] at hpeer
          cases hpeer
      | discovery d =>
          rw [hnow] at hservice
          exact ⟨_, _, exchange_of_discovery hdial (ofPeers.unbound i) hservice hposes,
            settles_of_stop hstop (nodes_setService_self hservice) none_ne_reply⟩

/-- A peer that is reached by a search follows the route that its state gives. -/
theorem exchange_of_attendant {h : Header} (ofPeers : n.OfPeers)
    (hrelay : n.attendant? via = some relay) (hposes : h.Poses quest) (k : RingId) (hops : UInt32)
    (patience : Nat) :
    ∃ i, n.peer? i = some relay ∧
      exchange (patience + 1) n (inquiry quest k h via hops) =
        (perform (exchange patience) (.peer i)
          (relay.follow quest k hops (quest.route relay.state k)) n).map
            (fun r => (r.1, readReply (replyBytes r.2))) ∧
      onward (patience + 1) n (inquiry quest k h via hops) =
        traffic (onward patience) (exchange patience) (.peer i)
          (relay.follow quest k hops (quest.route relay.state k)) n := by
  obtain ⟨i, hdial, hi⟩ := exists_peer_of_attendant hrelay
  obtain ⟨rendezvous, hservice⟩ := service?_of_peer? hi
  refine ⟨i, hi, ?_, ?_⟩
  · rw [inquiry, exchange_of_peer hdial (ofPeers.unbound i) hservice (hposes k hops),
      Peer.answer_request, perform_read hi]
  · rw [inquiry, onward_of_peer hdial (ofPeers.unbound i) hservice (hposes k hops),
      Peer.answer_request, traffic_read hi]

/-- What a peer relays is what came back, and a failure if nothing did. -/
theorem relay_cases (address : String) (kind : Kind) (outcome : Outcome) :
    ∃ result, Peer.relay address kind outcome = .done result ∧
      (∀ m, outcome = .ok (some m) → result = .ok (some m)) ∧
      ((∀ m, outcome ≠ .ok (some m)) → ∃ e, result = .error e) := by
  rcases outcome with error | reply
  · exact ⟨.error (.network error), rfl, nofun, fun _ => ⟨_, rfl⟩⟩
  · cases reply with
    | none => exact ⟨.error (.network (.server (.noAnswer address kind))), rfl, nofun,
        fun _ => ⟨_, rfl⟩⟩
    | some m => exact ⟨.ok (some m), rfl, fun _ h => congrArg _ (Except.ok.inj h),
        fun h => absurd rfl (h m)⟩

theorem readReply_of_error (e : ChordError) :
    readReply (replyBytes (.error e : Except ChordError (Option Message))) = .ok none := rfl

theorem readReply_of_reply {m : Message} (h : m.Fits) :
    readReply (replyBytes (.ok (some m) : Except ChordError (Option Message))) = .ok (some m) :=
  readReply_encode h

/-- A peer that answers a search, or that has come to its ceiling, sends nothing on. -/
theorem settlesWithin_of_done {patience : Nat} {h : Header} {hops : UInt32} (ofPeers : n.OfPeers)
    (hrelay : n.attendant? via = some relay) (hposes : h.Poses quest)
    {result : Except ChordError (Option Message)} {outcome : Outcome}
    (hfollow : relay.follow quest k hops (quest.route relay.state k) = .done result)
    (hread : readReply (replyBytes result) = outcome)
    (hsettles : n.Settles quest k limit hops.toNat via [] n outcome) :
    n.SettlesWithin quest k limit (patience + 1) h via hops := by
  obtain ⟨i, -, hexchange, honward⟩ := exchange_of_attendant ofPeers hrelay hposes k hops patience
  rw [hfollow] at hexchange honward
  refine ⟨n, outcome, ?_, ?_⟩
  · rw [hexchange, ← hread]
    rfl
  · rw [honward]
    exact hsettles

/-- A peer below its ceiling makes the search settle that its next peer makes settle. -/
theorem SettlesWithin.relayed {patience : Nat} {h : Header} {hops : UInt32} (ofPeers : n.OfPeers)
    (conveys : n.Conveys quest k) (hrelay : n.attendant? via = some relay)
    (hposes : h.Poses quest) (hroute : quest.route relay.state k = .forward next)
    (hlt : hops.toNat < relay.maxHops) (hlimit : relay.maxHops ≤ limit)
    (hcount : (hops + 1).toNat = hops.toNat + 1)
    (hrest : n.SettlesWithin quest k limit patience relay.header next (hops + 1)) :
    n.SettlesWithin quest k limit (patience + 1) h via hops := by
  obtain ⟨i, -, hexchange, honward⟩ := exchange_of_attendant ofPeers hrelay hposes k hops patience
  obtain ⟨n', outcome, hrun, hsettles⟩ := hrest
  obtain ⟨result, hresult, hanswered, hfailed⟩ := relay_cases (Exchange.addressOf next)
    (quest.request k (hops + 1)).kind outcome
  have hfollow : relay.follow quest k hops (quest.route relay.state k) =
      .call (inquiry quest k relay.header next (hops + 1))
        (Peer.relay (Exchange.addressOf next) (quest.request k (hops + 1)).kind) := by
    rw [hroute, Peer.follow, if_neg (Nat.not_le.2 hlt), inquiry]
  rw [hcount] at hsettles
  refine ⟨n', readReply (replyBytes result), ?_, ?_⟩
  · rw [hexchange, hfollow]
    simp only [perform, hrun, hresult, Option.map_some]
  · rw [honward, hfollow]
    simp only [traffic, hrun, hresult, List.append_nil]
    refine hsettles.relayed conveys hrelay hroute hlt hlimit hcount rfl ?_ ?_
    · intro m hfits hm
      rw [hanswered m hm]
      exact readReply_of_reply hfits
    · intro hm
      obtain ⟨e, rfl⟩ := hfailed hm
      rw [readReply_of_error]
      exact none_ne_reply

/-- **Every exchange of a search settles**, where no ceiling exceeds the limit and the patience
covers the forwards that are left. -/
theorem settlesWithin (ofPeers : n.OfPeers) (conveys : n.Conveys quest k)
    (hlimit : limit < 2 ^ 32) (ceiling : ∀ i p, n.peer? i = some p → p.maxHops ≤ limit) :
    ∀ (patience : Nat) (h : Header) (via : Identifier) (hops : UInt32), h.Poses quest →
      limit - hops.toNat < patience → n.SettlesWithin quest k limit patience h via hops := by
  -- induction on the patience: every forward uses up one of the forwards that are left
  intro patience
  induction patience with
  | zero => exact fun h via hops _ hpatience => absurd hpatience (Nat.not_lt_zero _)
  | succ patience ih =>
      intro h via hops hposes hpatience
      cases hrelay : n.attendant? via with
      | none => exact settlesWithin_of_no_attendant ofPeers hrelay hposes
      | some relay =>
          obtain ⟨i, -, hi⟩ := exists_peer_of_attendant hrelay
          have hmax := ceiling i relay hi
          cases hroute : quest.route relay.state k with
          | answer found =>
              exact settlesWithin_of_done ofPeers hrelay hposes (by rw [hroute, Peer.follow])
                (readReply_of_reply (conveys.responses i relay found hi hroute))
                (settles_of_answer hrelay hroute)
          | forward next =>
              by_cases hceiling : relay.maxHops ≤ hops.toNat
              · exact settlesWithin_of_done ofPeers hrelay hposes
                  (by rw [hroute, Peer.follow, if_pos hceiling]) (readReply_of_error _)
                  (settles_of_stop (not_trail_of_ceiling hrelay hroute hceiling) rfl none_ne_reply)
              · have hcount : (hops + 1).toNat = hops.toNat + 1 := by
                  rw [UInt32.toNat_add, UInt32.toNat_one, Nat.mod_eq_of_lt (by omega)]
                exact .relayed ofPeers conveys hrelay hposes hroute (Nat.lt_of_not_le hceiling) hmax
                  hcount (ih relay.header next (hops + 1) (conveys.requests i relay hi) (by omega))

/-! ## What a client sees -/

/-- A request ends with the reply, and with a failure if there is none. -/
theorem request_run (address : String) (m : Message) :
    ∃ next, (Exchange.request address m : Attempt Unit NetworkError Message).run =
        .call ⟨address, m⟩ next ∧
      (∀ reply, next (.ok (some reply)) = .done (.ok reply)) ∧
      ∀ outcome, (∀ reply, outcome ≠ .ok (some reply)) → ∃ e, next outcome = .done (.error e) := by
  refine ⟨_, rfl, fun reply => rfl, ?_⟩
  rintro (error | reply) hnone
  · exact ⟨_, rfl⟩
  · cases reply with
    | none => exact ⟨_, rfl⟩
    | some reply => exact absurd rfl (hnone reply)

/-- **Forwarding always ends and never invents an answer.** Let every node on a network either serve
or be out of reach (`OfPeers.unbound`: none is bound without serving, where a caller would wait),
and let the peers' messages on account of the search be small enough to be read (`Conveys`).
Whatever the peers have in their tables, a search that a client sends comes to an end and changes no
node. It is handed on no more often than the greatest ceiling allows, and every time with one hop
more and nothing else changed. If the routing walk over the peers reaches an answer, the client gets
it in a response of the right kind under the header of the peer that answered; otherwise it gets an
error. -/
theorem searches_end (ofPeers : n.OfPeers) (conveys : n.Conveys quest k) {limit : Nat}
    (hlimit : limit < 2 ^ 32) (ceiling : ∀ i p, n.peer? i = some p → p.maxHops ≤ limit)
    {client : Header} (hclient : client.Poses quest) (via : Identifier) (hops : UInt32) :
    let attempt : Attempt Unit NetworkError Message :=
      Exchange.request (Exchange.addressOf via) ⟨client, quest.request k hops⟩
    ∃ n' result, n.run attempt = some (n', result) ∧ n'.nodes = n.nodes ∧
      (n.sent attempt).length ≤ (limit - hops.toNat) + 1 ∧
      quest.CountedFrom k hops.toNat (n.sent attempt) ∧
      (∀ forwards peer found, n.Trail quest k hops.toNat via forwards peer found →
        (n.sent attempt).length = forwards + 1 ∧
          result = .ok ⟨peer.header, quest.response found⟩) ∧
      ((∀ forwards peer found, ¬ n.Trail quest k hops.toNat via forwards peer found) →
        ∃ e, result = .error e) := by
  intro attempt
  -- the network's own patience bounds every ceiling too, so the smaller of the two bounds will do
  have hpatience := n.length_le_patience
  have hceiling : ∀ i p, n.peer? i = some p → p.maxHops ≤ min limit (n.patience - 2) := by
    intro i p hp
    have hmax := maxHops_le_patience hp
    have hle := ceiling i p hp
    omega
  obtain ⟨n', outcome, hrun, hsettles⟩ := settlesWithin ofPeers conveys
    (Nat.lt_of_le_of_lt (Nat.min_le_left _ _) hlimit) hceiling n.patience client via hops hclient
    (by omega)
  obtain ⟨next, hattempt, hreply, hfailure⟩ := request_run (Exchange.addressOf via)
    ⟨client, quest.request k hops⟩
  have hend : ∃ result, next outcome = .done result := by
    rcases hsettles.result with ⟨peer, found, -, rfl⟩ | ⟨-, hnone⟩
    · exact ⟨_, hreply _⟩
    · obtain ⟨e, he⟩ := hfailure outcome hnone
      exact ⟨_, he⟩
  obtain ⟨result, hresult⟩ := hend
  rw [inquiry] at hrun hsettles
  have hsent : n.sent attempt = ⟨Exchange.addressOf via, ⟨client, quest.request k hops⟩⟩ ::
      onward n.patience n ⟨Exchange.addressOf via, ⟨client, quest.request k hops⟩⟩ := by
    rw [sent, hattempt]
    simp only [traffic, hrun, hresult, List.append_nil]
  rw [hsent]
  refine ⟨n', result, ?_, hsettles.unchanged, ?_, .cons rfl rfl hsettles.counted, ?_, ?_⟩
  · rw [run, hattempt]
    simp only [perform, hrun, hresult]
  · have hfew := hsettles.few
    rw [List.length_cons]
    omega
  · intro forwards peer found htrail
    rcases hsettles.result with ⟨peer', found', htrail', rfl⟩ | ⟨hnone, -⟩
    · obtain ⟨hforwards, rfl, rfl⟩ := htrail.unique htrail'
      rw [hreply] at hresult
      injection hresult with hresult
      exact ⟨by rw [List.length_cons, hforwards], hresult.symm⟩
    · exact absurd htrail (hnone _ _ _)
  · intro hnone
    rcases hsettles.result with ⟨peer, found, htrail, -⟩ | ⟨-, hunanswered⟩
    · exact absurd htrail (hnone _ _ _)
    · obtain ⟨e, he⟩ := hfailure outcome hunanswered
      rw [hresult] at he
      injection he with he
      exact ⟨e, he⟩

theorem Hosts.attendant {site : Identifier → Site} {peers : Finset Identifier}
    {view : Identifier → PeerState} (hosts : n.Hosts site peers view) {p : Identifier}
    (hp : p ∈ peers) : n.attendant? p = some ((site p).peer p (view p)) := by
  rw [attendant?, hosts.reached p hp]
  exact hosts.peer p hp

end Network

namespace Trio

/-! ## Three peers hand on -/

open Network

theorem exists_of_peer {state : Identifier → PeerState} {r : Registry} {i : Nat} {p : Peer}
    (h : (network state r).peer? i = some p) : ∃ q ∈ members, p = (site q).peer q (state q) := by
  match i, h with
  | 1, h => exact ⟨first, by decide +kernel, (Option.some.inj h).symm⟩
  | 2, h => exact ⟨second, by decide +kernel, (Option.some.inj h).symm⟩
  | 3, h => exact ⟨third, by decide +kernel, (Option.some.inj h).symm⟩

theorem ofPeers (state : Identifier → PeerState) (r : Registry) : (network state r).OfPeers where
  unbound := by
    intro i
    match i with
    | 0 | 1 | 2 | 3 => exact nofun
    | _ + 4 => exact nofun
  unscripted := by
    intro i replies received
    match i with
    | 0 | 1 | 2 | 3 => exact nofun
    | _ + 4 => exact nofun

/-- From the first peer the search goes to the second, which answers. -/
theorem searches_end_at_second :
    (network view .empty).OfPeers ∧ (network view .empty).Conveys (.successor first) ⟨65000⟩ ∧
      16 < 2 ^ 32 ∧ (∀ i p, (network view .empty).peer? i = some p → p.maxHops ≤ 16) ∧
      header.Poses (.successor first) ∧
      ∃ n', (network view .empty).run (Exchange.request (Exchange.addressOf first)
          ⟨header, (Quest.successor first).request ⟨65000⟩ 3⟩) =
        some (n', .ok ⟨(site second).header, .peerIdentifierResponse third⟩) := by
  have conveys : (network view .empty).Conveys (.successor first) ⟨65000⟩ := by
    constructor
    · intro i p hp
      obtain ⟨q, hq, rfl⟩ := exists_of_peer hp
      exact (poses hq).1
    · intro i p found hp hroute
      obtain ⟨q, hq, rfl⟩ := exists_of_peer hp
      have hroutes : ∀ q ∈ members,
          (∃ next ∈ members, (Quest.successor first).route (view q) ⟨65000⟩ = .forward next) ∨
            (Quest.successor first).route (view q) ⟨65000⟩ = .answer third := by
        decide +kernel
      rcases hroutes q hq with ⟨next, -, h⟩ | h
      · exact Route.noConfusion (h.symm.trans hroute)
      · obtain rfl := Route.answer.inj (h.symm.trans hroute)
        exact (roomy.carries q hq third (by decide +kernel)).response_fits _
  have ceiling : ∀ i p, (network view .empty).peer? i = some p → p.maxHops ≤ 16 := by
    intro i p hp
    obtain ⟨q, -, rfl⟩ := exists_of_peer hp
    exact Nat.le_refl 16
  refine ⟨ofPeers _ _, conveys, by norm_num, ceiling, header_poses.1, ?_⟩
  have hforward : (Quest.successor first).route (view first) ⟨65000⟩ = .forward second := by
    decide +kernel
  have hanswer : (Quest.successor first).route (view second) ⟨65000⟩ = .answer third := by
    decide +kernel
  have htrail : (network view .empty).Trail (.successor first) ⟨65000⟩ 3 first 1
      ((site second).peer second (view second)) third :=
    .forward ((hosts view .empty).attendant (by decide +kernel)) hforward (by decide +kernel)
      (.answer ((hosts view .empty).attendant (by decide +kernel)) hanswer)
  obtain ⟨n', result, hrun, -, -, -, htrails, -⟩ :=
    searches_end (ofPeers _ _) conveys (by norm_num) ceiling header_poses.1 first 3
  obtain ⟨-, rfl⟩ := htrails _ _ _ htrail
  exact ⟨n', hrun⟩

end Trio

end ChordRing
