import ChordRing.Proofs.Search

/-!
# Trails of searches

The routing walk over the peers that are there: `Network.Trail` follows the host names in the tables
to whoever serves there, and stops at a peer's ceiling. There is at most one trail from where a
search is (`Network.Trail.unique`). `Network.Settles` says what is left of a search that has come to
an end, with a lemma for each way in which a peer deals with it: nobody is there, the peer answers,
it has come to its ceiling, or it hands the search on and relays what comes back.
-/

namespace ChordRing

namespace Network

/-! ## The walk over the peers that are there -/

/-- The peer that serves those who call on `via`. -/
def attendant? (n : Network) (via : Identifier) : Option Peer :=
  match n.dial (Exchange.addressOf via) with
  | .error _ => none
  | .ok i => n.peer? i

/-- A search for `k` that reaches `via` after `hops` forwards is answered with `found` by `peer`
after some forwards more, where nobody is asked to exceed its ceiling. -/
inductive Trail (n : Network) (quest : Quest) (k : RingId) :
    Nat → Identifier → Nat → Peer → Identifier → Prop
  | answer {hops : Nat} {via found : Identifier} {peer : Peer} :
      n.attendant? via = some peer → quest.route peer.state k = .answer found →
        Trail n quest k hops via 0 peer found
  | forward {hops forwards : Nat} {via next found : Identifier} {relay peer : Peer} :
      n.attendant? via = some relay → quest.route relay.state k = .forward next →
        hops < relay.maxHops → Trail n quest k (hops + 1) next forwards peer found →
          Trail n quest k hops via (forwards + 1) peer found

variable {n : Network} {quest : Quest} {k : RingId}

/-- A trail ends or goes on at the peer where it is, as this peer routes the search. -/
theorem Trail.step {hops forwards : Nat} {via found : Identifier} {relay peer : Peer}
    (hrelay : n.attendant? via = some relay) (h : n.Trail quest k hops via forwards peer found) :
    (forwards = 0 ∧ peer = relay ∧ quest.route relay.state k = .answer found) ∨
      ∃ next rest, forwards = rest + 1 ∧ quest.route relay.state k = .forward next ∧
        hops < relay.maxHops ∧ n.Trail quest k (hops + 1) next rest peer found := by
  cases h with
  | answer hpeer hroute =>
      obtain rfl := Option.some.inj (hrelay.symm.trans hpeer)
      exact Or.inl ⟨rfl, rfl, hroute⟩
  | forward hpeer hroute hlt hrest =>
      obtain rfl := Option.some.inj (hrelay.symm.trans hpeer)
      exact Or.inr ⟨_, _, rfl, hroute, hlt, hrest⟩

theorem Trail.unique {hops forwards forwards' : Nat} {via found found' : Identifier}
    {peer peer' : Peer} (h : n.Trail quest k hops via forwards peer found)
    (h' : n.Trail quest k hops via forwards' peer' found') :
    forwards = forwards' ∧ peer = peer' ∧ found = found' := by
  induction h generalizing forwards' with
  | answer hpeer hroute =>
      rcases h'.step hpeer with ⟨rfl, rfl, hroute'⟩ | ⟨_, _, -, hroute', -, -⟩
      · exact ⟨rfl, rfl, Route.answer.inj (hroute.symm.trans hroute')⟩
      · exact Route.noConfusion (hroute.symm.trans hroute')
  | forward hpeer hroute _ _ ih =>
      rcases h'.step hpeer with ⟨-, -, hroute'⟩ | ⟨next, rest, rfl, hroute', -, hrest⟩
      · exact Route.noConfusion (hroute.symm.trans hroute')
      · obtain rfl := Route.forward.inj (hroute.symm.trans hroute')
        obtain ⟨rfl, hpeers, hfound⟩ := ih hrest
        exact ⟨rfl, hpeers, hfound⟩

/-! ## What is assumed of the network -/

/-- A network of peers, and perhaps of discovery nodes: whoever can be reached serves, and nobody
recites what it was given to say. A node that is bound and does not serve is excluded, since it
would keep its callers waiting. -/
structure OfPeers (n : Network) : Prop where
  unbound : ∀ i, n.presence? i ≠ some .bound
  unscripted : ∀ i replies received, n.service? i ≠ some (.script replies received)

/-- Whatever the peers send on account of a search for `k` is small enough. -/
structure Conveys (n : Network) (quest : Quest) (k : RingId) : Prop where
  requests : ∀ i p, n.peer? i = some p → p.header.Poses quest
  responses : ∀ i p found, n.peer? i = some p → quest.route p.state k = .answer found →
    (⟨p.header, quest.response found⟩ : Message).Fits

theorem exists_peer_of_attendant {n : Network} {via : Identifier} {peer : Peer}
    (h : n.attendant? via = some peer) :
    ∃ i, n.dial (Exchange.addressOf via) = .ok i ∧ n.peer? i = some peer := by
  unfold attendant? at h
  split at h
  · cases h
  · exact ⟨_, ‹_›, h⟩

/-- The answer at the end of a trail is small enough. -/
theorem Trail.fits {n : Network} {quest : Quest} {k : RingId} (conveys : n.Conveys quest k)
    {hops forwards : Nat} {via found : Identifier} {peer : Peer}
    (h : n.Trail quest k hops via forwards peer found) :
    (⟨peer.header, quest.response found⟩ : Message).Fits := by
  induction h with
  | answer hpeer hroute =>
      obtain ⟨i, -, hi⟩ := exists_peer_of_attendant hpeer
      exact conveys.responses i _ _ hi hroute
  | forward _ _ _ _ ih => exact ih

end Network

/-- The envelopes bring the request of one search, the first of them after `hops` forwards and each
other one after one forward more. -/
def Quest.CountedFrom (quest : Quest) (k : RingId) (hops : Nat) (sent : List Envelope) : Prop :=
  ∀ j envelope, sent[j]? = some envelope →
    ∃ count : UInt32, count.toNat = hops + j ∧ envelope.message.body = quest.request k count

namespace Quest

variable {quest : Quest} {k : RingId} {hops : Nat}

theorem countedFrom_nil : quest.CountedFrom k hops [] :=
  fun j envelope h => absurd h (by simp)

theorem CountedFrom.cons {sent : List Envelope} {envelope : Envelope} {count : UInt32}
    (hcount : count.toNat = hops) (hbody : envelope.message.body = quest.request k count)
    (h : quest.CountedFrom k (hops + 1) sent) : quest.CountedFrom k hops (envelope :: sent) := by
  intro j other hother
  cases j with
  | zero =>
      obtain rfl := Option.some.inj hother
      exact ⟨count, by omega, hbody⟩
  | succ j =>
      obtain ⟨c, hc, hrest⟩ := h j other hother
      exact ⟨c, by omega, hrest⟩

end Quest

namespace Network

variable {n : Network} {quest : Quest} {k : RingId}

/-! ## What becomes of a search -/

/-- What has become of a search that reached `via` after `hops` forwards and was handed on in the
envelopes `sent`: nothing has changed, and the outcome is the answer of the trail, if there is
one. -/
structure Settles (n : Network) (quest : Quest) (k : RingId) (limit hops : Nat) (via : Identifier)
    (sent : List Envelope) (n' : Network) (outcome : Outcome) : Prop where
  unchanged : n'.nodes = n.nodes
  few : sent.length ≤ limit - hops
  counted : quest.CountedFrom k (hops + 1) sent
  result : (∃ peer found, n.Trail quest k hops via sent.length peer found ∧
      outcome = .ok (some ⟨peer.header, quest.response found⟩)) ∨
    (∀ forwards peer found, ¬ n.Trail quest k hops via forwards peer found) ∧
      ∀ m, outcome ≠ .ok (some m)

variable {limit : Nat} {via next : Identifier} {relay : Peer}

theorem settles_of_answer {hops : Nat} {found : Identifier}
    (hrelay : n.attendant? via = some relay) (hroute : quest.route relay.state k = .answer found) :
    n.Settles quest k limit hops via [] n
      (.ok (some ⟨relay.header, quest.response found⟩)) where
  unchanged := rfl
  few := Nat.zero_le _
  counted := Quest.countedFrom_nil
  result := Or.inl ⟨relay, found, .answer hrelay hroute, rfl⟩

theorem error_ne_reply (e : NetworkError) (m : Message) : (.error e : Outcome) ≠ .ok (some m) := by
  intro h
  cases h

theorem none_ne_reply (m : Message) : (.ok none : Outcome) ≠ .ok (some m) := by
  intro h
  cases h

/-- A search that nobody answers or hands on ends there. -/
theorem settles_of_stop {hops : Nat} {n' : Network} {outcome : Outcome}
    (hstop : ∀ forwards peer found, ¬ n.Trail quest k hops via forwards peer found)
    (hnodes : n'.nodes = n.nodes) (houtcome : ∀ m, outcome ≠ .ok (some m)) :
    n.Settles quest k limit hops via [] n' outcome where
  unchanged := hnodes
  few := Nat.zero_le _
  counted := Quest.countedFrom_nil
  result := Or.inr ⟨hstop, houtcome⟩

theorem not_trail_of_no_attendant {hops : Nat} (hnone : n.attendant? via = none) :
    ∀ forwards peer found, ¬ n.Trail quest k hops via forwards peer found := by
  intro forwards peer found htrail
  cases htrail with
  | answer hpeer _ =>
      rw [hnone] at hpeer
      cases hpeer
  | forward hpeer _ _ _ =>
      rw [hnone] at hpeer
      cases hpeer

theorem not_trail_of_ceiling {hops : Nat} (hrelay : n.attendant? via = some relay)
    (hroute : quest.route relay.state k = .forward next) (hceiling : relay.maxHops ≤ hops) :
    ∀ forwards peer found, ¬ n.Trail quest k hops via forwards peer found := by
  intro forwards peer found htrail
  rcases htrail.step hrelay with ⟨-, -, hroute'⟩ | ⟨_, _, -, -, hlt, -⟩
  · exact Route.noConfusion (hroute.symm.trans hroute')
  · omega

/-- A peer that hands a search on relays what becomes of it. -/
theorem Settles.relayed {hops count : UInt32} {sent : List Envelope} {n' : Network}
    {outcome outcome' : Outcome} {envelope : Envelope}
    (h : n.Settles quest k limit (hops.toNat + 1) next sent n' outcome)
    (conveys : n.Conveys quest k) (hrelay : n.attendant? via = some relay)
    (hroute : quest.route relay.state k = .forward next) (hlt : hops.toNat < relay.maxHops)
    (hlimit : relay.maxHops ≤ limit) (hcount : count.toNat = hops.toNat + 1)
    (hbody : envelope.message.body = quest.request k count)
    (hanswered : ∀ m, m.Fits → outcome = .ok (some m) → outcome' = .ok (some m))
    (hfailed : (∀ m, outcome ≠ .ok (some m)) → ∀ m, outcome' ≠ .ok (some m)) :
    n.Settles quest k limit hops.toNat via (envelope :: sent) n' outcome' where
  unchanged := h.unchanged
  few := by
    have hfew := h.few
    rw [List.length_cons]
    omega
  counted := .cons hcount hbody h.counted
  result := by
    rcases h.result with ⟨peer, found, htrail, houtcome⟩ | ⟨hnone, houtcome⟩
    · exact Or.inl ⟨peer, found, .forward hrelay hroute hlt htrail,
        hanswered _ (htrail.fits conveys) houtcome⟩
    · refine Or.inr ⟨?_, hfailed houtcome⟩
      intro forwards peer found htrail
      rcases htrail.step hrelay with ⟨-, -, hroute'⟩ | ⟨_, _, -, hroute', -, hrest⟩
      · exact Route.noConfusion (hroute.symm.trans hroute')
      · obtain rfl := Route.forward.inj (hroute.symm.trans hroute')
        exact hnone _ _ _ hrest

end Network

end ChordRing
