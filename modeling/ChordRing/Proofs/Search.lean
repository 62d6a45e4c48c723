import ChordRing.Proofs.Hosting
import ChordRing.Proofs.Transition

/-!
# Searches on a network

A walk over the states of the peers is what a search on the network does. A peer answers a search
as `Quest.route` says (`Peer.answer_request`), so an exchange that starts a search follows the walk,
changes nothing and brings back the walk's answer (`Network.Hosts.delivers_search`), as long as no
peer on the way has seen the request forwarded too often. `Network.Hosts.run_ask` is the same for a
client.
-/

namespace ChordRing

/-! ## What a peer does with a search -/

namespace Quest

/-- The request of a search for `k` that was forwarded `hops` times. -/
def request (quest : Quest) (k : RingId) (hops : UInt32) : Body :=
  match quest with
  | .successor requester => .findSuccessorRequest k requester hops
  | .holder => .lookupRequest k hops

/-- The response to a search that found a peer. -/
def response (quest : Quest) (found : Identifier) : Body :=
  match quest with
  | .successor _ => .peerIdentifierResponse found
  | .holder => .lookupResponse found

/-- What a client does that searches for `k` through a peer. -/
def ask (quest : Quest) (header : Header) (via : Identifier) (k : RingId) :
    Attempt Unit NetworkError Identifier :=
  match quest with
  | .successor requester => Exchange.findSuccessor header via k requester
  | .holder => Exchange.lookup header via k

end Quest

/-- Under the header, every request of the search is small enough. -/
def Header.Poses (h : Header) (quest : Quest) : Prop :=
  ∀ k hops, (⟨h, quest.request k hops⟩ : Message).Fits

theorem Header.Carries.poses {h : Header} {p : Identifier} (hc : h.Carries p) :
    h.Poses (.successor p) ∧ h.Poses .holder := by
  constructor
  · exact fun k hops => hc.fits (by simp [Quest.request, Body.fields]; omega)
  · exact fun k hops => hc.fits (by simp [Quest.request, Body.fields]; omega)

theorem Header.Carries.response_fits {h : Header} {p : Identifier} (hc : h.Carries p)
    (quest : Quest) : (⟨h, quest.response p⟩ : Message).Fits := by
  cases quest <;> exact hc.fits (by simp [Quest.response, Body.fields])

namespace Peer

/-- What a peer makes of the reply to a request that it handed on. -/
def relay (address : String) (kind : Kind) :
    Outcome → NodeTask PeerState (Except ChordError (Option Message))
  | .ok (some reply) => .done (.ok (some reply))
  | .ok none => .done (.error (.network (.server (.noAnswer address kind))))
  | .error error => .done (.error (.network error))

/-- A route once it is decided: a reply, a refusal, or the request handed on. -/
def follow (peer : Peer) (quest : Quest) (k : RingId) (hops : UInt32) :
    Route → NodeTask PeerState (Except ChordError (Option Message))
  | .answer found => .done (.ok (some ⟨peer.header, quest.response found⟩))
  | .forward next =>
      if peer.maxHops ≤ hops.toNat then .done (.error (.hopLimitExceeded k peer.maxHops))
      else
        .call ⟨Exchange.addressOf next, ⟨peer.header, quest.request k (hops + 1)⟩⟩
          (relay (Exchange.addressOf next) (quest.request k (hops + 1)).kind)

/-- A request is handed on under the peer's own header, unless it was forwarded too often. -/
theorem forward_run (peer : Peer) (next : Identifier) (k : RingId) (hops : UInt32) (body : Body) :
    ExceptT.run (do
        peer.checkHops k hops
        peer.forward next body : Answer) =
      if peer.maxHops ≤ hops.toNat then .done (.error (.hopLimitExceeded k peer.maxHops))
      else
        .call ⟨Exchange.addressOf next, ⟨peer.header, body⟩⟩
          (relay (Exchange.addressOf next) body.kind) := by
  unfold checkHops
  split
  · rfl
  · refine congrArg (Task.call _) (funext fun outcome => ?_)
    rcases outcome with error | reply
    · rfl
    · cases reply <;> rfl

theorem follow_run (peer : Peer) (quest : Quest) (k : RingId) (hops : UInt32) (route : Route) :
    ExceptT.run (match route with
      | .answer found => peer.reply (quest.response found)
      | .forward next => (do
          peer.checkHops k hops
          peer.forward next (quest.request k (hops + 1)) : Answer)) =
      peer.follow quest k hops route := by
  cases route with
  | answer found => rfl
  | forward next => exact peer.forward_run next k hops _

/-- A peer looks at its state once and follows the route it finds there. -/
theorem answer_request (peer : Peer) (h : Header) (quest : Quest) (k : RingId) (hops : UInt32) :
    (peer.answer ⟨h, quest.request k hops⟩).run =
      .locked id fun s => peer.follow quest k hops (quest.route s k) := by
  cases quest with
  | successor requester =>
      exact congrArg (Task.locked id) (funext fun s =>
        peer.follow_run (.successor requester) k hops (Route.findSuccessor s.table k))
  | holder =>
      exact congrArg (Task.locked id) (funext fun s =>
        peer.follow_run .holder k hops (Route.lookup s.table s.predecessor k))

end Peer

/-- A search is one exchange, and its response is what it brings back. -/
theorem Quest.ask_run (quest : Quest) (h : Header) (via : Identifier) (k : RingId) :
    ∃ next, (quest.ask h via k).run =
        .call ⟨Exchange.addressOf via, ⟨h, quest.request k 0⟩⟩ next ∧
      ∀ h' found, next (.ok (some ⟨h', quest.response found⟩)) = .done (.ok found) := by
  cases quest <;> exact ⟨_, rfl, fun _ _ => rfl⟩

/-! ## Following a walk -/

/-- Each of `peers` forwards what was forwarded fewer than sixteen times, and under its header the
messages of the ring protocol about each of them are small enough to be read. -/
structure Roomy (site : Identifier → Site) (peers : Finset Identifier) : Prop where
  maxHops : ∀ p ∈ peers, 16 ≤ (site p).maxHops
  carries : ∀ p ∈ peers, ∀ q ∈ peers, (site p).header.Carries q

theorem Roomy.mono {site : Identifier → Site} {peers fewer : Finset Identifier}
    (h : Roomy site peers) (hsub : fewer ⊆ peers) : Roomy site fewer where
  maxHops := fun p hp => h.maxHops p (hsub hp)
  carries := fun p hp q hq => h.carries p (hsub hp) q (hsub hq)

namespace Network

variable {n : Network} {site : Identifier → Site} {peers : Finset Identifier}
  {view : Identifier → PeerState} {p q : Identifier} {quest : Quest} {k : RingId}

/-- A search follows the walk over the states, changes nothing and brings back the answer. -/
theorem Hosts.delivers_search {Inv : Network → Prop} (hosts : n.Hosts site peers view)
    (awake : n.Awake site peers) (roomy : Roomy site peers)
    (poses : ∀ p ∈ peers, (site p).header.Poses quest) (hinv : Inv n) (hq : q ∈ peers)
    {forwards : Nat} (walk : Route.Walk peers (fun p => quest.route (view p) k) p forwards q) :
    ∀ (h : Header) (hops : UInt32) (patience : Nat), h.Poses quest →
      hops.toNat + forwards ≤ 16 → forwards < patience →
      Delivers Inv patience n ⟨Exchange.addressOf p, ⟨h, quest.request k hops⟩⟩ fun n' outcome =>
        n' = n ∧ ∃ r ∈ peers, outcome = .ok (some ⟨(site r).header, quest.response q⟩) := by
  -- induction on the walk: each peer on it looks at its state once, and answers or hands on
  induction walk with
  | @answer p q hp hroute =>
      intro h hops patience hposes _ hpatience
      obtain ⟨patience, rfl⟩ := Nat.exists_eq_succ_of_ne_zero (Nat.ne_zero_of_lt hpatience)
      obtain ⟨rendezvous, hservice⟩ := hosts.service hp
      refine .of_peer (hosts.reached p hp) (awake p hp) hservice (hposes k hops)
        (R := fun n' r => n' = n ∧ r = .ok (some ⟨(site p).header, quest.response q⟩)) ?_ ?_
      · rw [Peer.answer_request]
        apply hosts.assures_read hp hinv
        rw [hroute]
        exact .done hinv ⟨rfl, rfl⟩
      · rintro n' r ⟨rfl, rfl⟩
        have hfits := (roomy.carries p hp q hq).response_fits quest
        exact ⟨rfl, p, hp, readReply_encode hfits⟩
  | @forward p f q forwards hp hroute _ ih =>
      intro h hops patience hposes hhops hpatience
      obtain ⟨patience, rfl⟩ := Nat.exists_eq_succ_of_ne_zero (Nat.ne_zero_of_lt hpatience)
      obtain ⟨rendezvous, hservice⟩ := hosts.service hp
      have hmax := roomy.maxHops p hp
      have hnext : (hops + 1).toNat = hops.toNat + 1 := by
        rw [UInt32.toNat_add, UInt32.toNat_one, Nat.mod_eq_of_lt (by omega)]
      refine .of_peer (hosts.reached p hp) (awake p hp) hservice (hposes k hops)
        (R := fun n' r => n' = n ∧
          ∃ s ∈ peers, r = .ok (some ⟨(site s).header, quest.response q⟩)) ?_ ?_
      · rw [Peer.answer_request]
        refine hosts.assures_read hp hinv ?_
        have hfollow : ¬ (site p).maxHops ≤ hops.toNat := by omega
        rw [hroute, Peer.follow, Site.peer, if_neg hfollow]
        have hrest := ih hq (site p).header (hops + 1) patience (poses p hp) (by omega) (by omega)
        apply Assures.call hinv hrest
        rintro n' outcome ⟨rfl, s, hs, rfl⟩
        exact .done hinv ⟨rfl, s, hs, rfl⟩
      · rintro n' r ⟨rfl, s, hs, rfl⟩
        have hfits := (roomy.carries s hs q hq).response_fits quest
        exact ⟨rfl, s, hs, readReply_encode hfits⟩

/-- A network with one such peer has the patience for a search that is handed on sixteen times. -/
theorem Hosts.sixteen_lt_patience (hosts : n.Hosts site peers view) (roomy : Roomy site peers)
    (hp : p ∈ peers) : 16 < n.patience := by
  have hmax : 16 ≤ ((site p).peer p (view p)).maxHops := roomy.maxHops p hp
  have hle := maxHops_le_patience (hosts.peer p hp)
  omega

/-- A client that searches through a peer gets the answer of the walk that starts there. -/
theorem Hosts.run_ask (hosts : n.Hosts site peers view) (awake : n.Awake site peers)
    (roomy : Roomy site peers) (poses : ∀ p ∈ peers, (site p).header.Poses quest) {h : Header}
    (hposes : h.Poses quest) (hp : p ∈ peers) (hq : q ∈ peers) {forwards : Nat}
    (hforwards : forwards ≤ 16)
    (walk : Route.Walk peers (fun p => quest.route (view p) k) p forwards q) :
    n.run (quest.ask h p k) = some (n, .ok q) := by
  have hpatience := hosts.sixteen_lt_patience roomy hp
  obtain ⟨next, hask, hnext⟩ := quest.ask_run h p k
  have hdelivers : Delivers (fun _ => True) n.patience n _ _ :=
    hosts.delivers_search awake roomy poses trivial hq walk h 0 n.patience hposes
      (by simpa using hforwards) (by omega)
  obtain ⟨n', outcome, hrun, rfl, r, -, rfl⟩ := hdelivers.ends
  rw [run, hask, perform, hrun]
  simp only [hnext, perform]

/-- **Fifteen forwards are enough.** If the members' full tables are converged and their
predecessors are true, both searches for `k` reach the member nearest to `k` from every start after
at most fifteen forwards. So on every network that hosts the members, if every ceiling is sixteen or
more and the messages of the search are small enough to be read (`Roomy`, `Header.Poses`), a search
that enters with no hops is answered, and no peer refuses it. -/
theorem searches_within_fifteen {members : Finset Identifier} {view : Identifier → PeerState}
    (distinct : DistinctIds members) (owner : ∀ p ∈ members, (view p).table.owner = p)
    (converged : ∀ p ∈ members, (view p).table.Converged members)
    (previous : ∀ p ∈ members, Previous members p (view p).predecessor) {start : Identifier}
    (hstart : start ∈ members) (k : RingId) :
    ∃ found, Nearest members k found ∧ ∀ quest : Quest,
      (∃ forwards ≤ 15,
        Route.Walk members (fun p => quest.route (view p) k) start forwards found) ∧
      ∀ (n : Network) (site : Identifier → Site) (client : Header), n.Hosts site members view →
        n.Awake site members → Roomy site members →
        (∀ p ∈ members, (site p).header.Poses quest) → client.Poses quest →
        n.run (quest.ask client start k) = some (n, .ok found) := by
  have right : ∀ p ∈ members, (view p).Exact members p := fun p hp =>
    ⟨previous p hp, owner p hp, converged p hp⟩
  obtain ⟨found, hfound⟩ := exists_nearest ⟨start, hstart⟩ k
  refine ⟨found, hfound, ?_⟩
  intro quest
  obtain ⟨forwards, hforwards, q, hwalk, hq⟩ := walk_of_exact distinct right quest k hstart
  obtain rfl := hfound.unique distinct hq
  exact ⟨⟨forwards, hforwards, hwalk⟩, fun n site client hosts awake roomy poses hposes =>
    hosts.run_ask awake roomy poses hposes hstart hfound.1 (Nat.le_succ_of_le hforwards) hwalk⟩

end Network

/-! ## Three peers on a network -/

namespace Trio

/-- The three peers of a ring by themselves, with converged tables. -/
def table (p : Identifier) : FingerTable :=
  if p = first then ⟨p, List.replicate 7 second ++ List.replicate 9 third⟩
  else if p = second then ⟨p, List.replicate 16 third⟩
  else ⟨p, List.replicate 9 first ++ List.replicate 7 third⟩

def successor (p : Identifier) : Identifier :=
  if p = first then second else if p = second then third else first

def view (p : Identifier) : PeerState := ⟨predecessor p, successor p, table p, [], .joined⟩

/-- The peers are numbered in their order, behind a discovery node. -/
def site (p : Identifier) : Site :=
  ⟨if p = first then 1 else if p = second then 2 else 3, 16, ⟨p.hostname, p.hostname⟩⟩

def node (state : PeerState) (p : Identifier) (ip : List Nat) : Node :=
  ⟨⟨ip, 9001⟩, .serving, .peer ((site p).peer p state) none⟩

def header : Header := ⟨"10.0.0.9:9000", "10.0.0.9"⟩

/-- A discovery node that knows the members in `r`, and the three peers. -/
def network (state : Identifier → PeerState) (r : Registry) : Network :=
  ⟨[⟨⟨[10, 0, 0, 9], 9000⟩, .serving, .discovery ⟨header, r⟩⟩,
    node (state first) first [10, 0, 0, 1], node (state second) second [10, 0, 0, 2],
    node (state third) third [10, 0, 0, 3]], true, [], []⟩

open Network

theorem mem_members {p : Identifier} (hp : p ∈ members) : p = first ∨ p = second ∨ p = third := by
  simpa [members] using hp

theorem hosts (state : Identifier → PeerState) (r : Registry) :
    (network state r).Hosts site members state where
  reached := by
    intro p hp
    rcases mem_members hp with rfl | rfl | rfl <;> cbv
  peer := by
    intro p hp
    rcases mem_members hp with rfl | rfl | rfl <;> rfl

theorem awake (state : Identifier → PeerState) (r : Registry) :
    (network state r).Awake site members := by
  intro p hp
  rcases mem_members hp with rfl | rfl | rfl <;> rfl

theorem roomy : Roomy site members where
  maxHops := fun _ _ => Nat.le_refl 16
  carries := by decide +kernel

theorem poses {p : Identifier} (hp : p ∈ members) :
    (site p).header.Poses (.successor first) ∧ (site p).header.Poses .holder :=
  (roomy.carries p hp first (by decide +kernel)).poses

theorem header_poses : header.Poses (.successor first) ∧ header.Poses .holder :=
  Header.Carries.poses (by decide +kernel : header.Carries first)

/-- The key just behind the second peer is looked up through the third one. -/
theorem searches_within_fifteen_of_trio :
    DistinctIds members ∧ (∀ p ∈ members, (view p).table.owner = p) ∧
      (∀ p ∈ members, (view p).table.Converged members) ∧
      (∀ p ∈ members, Previous members p (view p).predecessor) ∧ third ∈ members ∧
      ∃ found, Nearest members ⟨101⟩ found ∧
        (∃ forwards ≤ 15,
          Route.Walk members (fun p => Quest.holder.route (view p) ⟨101⟩) third forwards found) ∧
        (network view .empty).run (Quest.holder.ask header third ⟨101⟩) =
          some (network view .empty, .ok found) := by
  have distinct : DistinctIds members := by decide +kernel
  have owner : ∀ p ∈ members, (view p).table.owner = p := by decide +kernel
  have converged : ∀ p ∈ members, (view p).table.Converged members := by decide +kernel
  have previous : ∀ p ∈ members, Previous members p (view p).predecessor := by decide +kernel
  have hstart : third ∈ members := by decide +kernel
  obtain ⟨found, hfound, hquest⟩ :=
    searches_within_fifteen distinct owner converged previous hstart ⟨101⟩
  obtain ⟨hwalk, hrun⟩ := hquest .holder
  exact ⟨distinct, owner, converged, previous, hstart, found, hfound, hwalk,
    hrun _ site header (hosts view .empty) (awake view .empty) roomy (fun _ hp => (poses hp).2)
      header_poses.2⟩

end Trio

end ChordRing
