import ChordRing.Proofs.Linking
import ChordRing.Proofs.Refresh

/-!
# Repairing a finger table

A peer that knows its next member can forget everything else: a refresh fills in the fingers beyond
the successor from what the other members know (`Network.refresh_repairs`). The searches for them
start at the successor and come closer to a position beyond it with every forward, so none of them
comes by the peer itself, whose table cannot lead them astray (`Route.exists_walk_toward`,
`Route.not_mem_toward`). How the rendezvous service is reached makes no difference, since a refresh
does not speak to it (`Peer.handle_refresh`).
-/

namespace ChordRing

open RingId FingerTable PeerState

/-! ## Searches that keep to one side -/

namespace Route

variable {members : Finset Identifier} {s k : RingId} {x : Identifier}

/-- The members from the position `s` on to the key. -/
def toward (members : Finset Identifier) (s k : RingId) : Finset Identifier :=
  members.filter fun p => distance p.id k ≤ distance s k

/-- A member with a key beyond its successor does not lie between the successor and the key. -/
theorem not_mem_toward (members : Finset Identifier) (hs : s ≠ x.id) (hk : k ≠ x.id)
    (hbeyond : ¬ k.isBetween x.id s = true) : x ∉ toward members s k := by
  intro hmem
  have hle : distance x.id k ≤ distance s k := (Finset.mem_filter.1 hmem).2
  have hspos := distance_pos.2 (Ne.symm hs)
  have hkpos := distance_pos.2 (Ne.symm hk)
  have hlt : distance x.id s < distance x.id k := by
    by_contra hnot
    exact hbeyond (isBetween_iff.2 ⟨hkpos, Nat.le_of_not_lt hnot⟩)
  rw [distance_of_le (o := x.id) (Nat.le_of_lt hlt)] at hle
  omega

/-- Where the tables of the members on the way are converged, a search stays on the way. -/
theorem findSuccessor_toward (distinct : DistinctIds members) (table : Identifier → FingerTable)
    (right : ∀ p ∈ toward members s k, (table p).owner = p ∧ (table p).Converged members)
    {p : Identifier} (hp : p ∈ toward members s k) :
    Steps (toward members s k) (Nearest members k)
      (fun f p => halvings members k f < halvings members k p)
      (fun p => findSuccessor (table p) k) p := by
  obtain ⟨hmem, hle⟩ := Finset.mem_filter.1 hp
  obtain ⟨howner, hconv⟩ := right p hp
  rcases findSuccessor_halves distinct table hmem howner hconv k with h | ⟨f, hf, hroute, hhalf⟩
  · exact Or.inl h
  -- the forward that halves the way also comes closer to the key
  rcases findSuccessor_step distinct table hmem howner hconv.sound k with
    ⟨q, hanswer, -⟩ | ⟨f', -, hroute', hcloser⟩
  · exact nomatch hroute.symm.trans hanswer
  · obtain rfl : f = f' := Route.forward.inj (hroute.symm.trans hroute')
    have hstays : f ∈ toward members s k :=
      Finset.mem_filter.2 ⟨hf, Nat.le_trans (Nat.le_of_lt hcloser) hle⟩
    exact Or.inr ⟨f, hstays, hroute, hhalf⟩

theorem exists_walk_toward (distinct : DistinctIds members) (view : Identifier → PeerState)
    {start : Identifier} (hstart : start ∈ members) (requester : Identifier)
    (right : ∀ p ∈ toward members start.id k,
      (view p).table.owner = p ∧ (view p).table.Converged members) :
    ∃ n ≤ 15, ∃ q, Walk (toward members start.id k)
      (fun p => Quest.route (.successor requester) (view p) k) start n q ∧ Nearest members k q := by
  obtain ⟨n, hn, q, hwalk, hq⟩ := exists_walk (halvings members k)
    (fun p hp => findSuccessor_toward distinct (fun p => (view p).table) right hp) start
    (Finset.mem_filter.2 ⟨hstart, Nat.le_refl _⟩)
  exact ⟨n, Nat.le_trans hn (halvings_le members k start), q, hwalk, hq⟩

end Route

/-! ## Tasks that do not speak to the rendezvous service -/

/-- A task is carried out alike by all that carry out its calls alike. -/
theorem Task.handle_congr {σ C C' α : Type} {R : C → Type} {R' : C' → Type} {calls : C → Prop}
    {sections : (σ → σ) → Prop} {carry carry' : (c : C) → Task σ C' R' (R c)} {t : Task σ C R α}
    (h : t.Confined calls sections) (hcarry : ∀ c, calls c → carry c = carry' c) :
    handle carry t = handle carry' t := by
  induction h with
  | done a => rfl
  | locked _ _ ih => exact congrArg (locked _) (funext ih)
  | call hcall _ ih =>
      simp only [handle]
      rw [hcarry _ hcall, funext ih]

theorem Network.RendezvousAt.carry_eq (rendezvous : RendezvousAt) (header : Header)
    (discovery : String) {c : Call} (h : ¬ c.ToRendezvous) :
    rendezvous.carry header c = Call.carry header discovery c := by
  cases rendezvous <;> cases c <;> first | rfl | exact absurd trivial h

theorem Peer.handle_refresh (rendezvous : Network.RendezvousAt) (header : Header)
    (discovery : String) (x : Identifier) :
    Task.handle (rendezvous.carry header) (Peer.refresh x).run =
      Task.handle (Call.carry header discovery) (Peer.refresh x).run :=
  Task.handle_congr (Peer.linking_refresh x) fun _ h => rendezvous.carry_eq header discovery h

/-- Peers at their sites by themselves. The discovery node is one that nobody reaches. -/
def Cast.ofSites (site : Identifier → Site) (peers : Finset Identifier) : Cast where
  site := site
  peers := peers
  discovery := ""
  desk := 0
  header := ⟨"", ""⟩

/-! ## The refresh of a peer that is right up to its successor -/

/-- The peer `x` knows its next member, and the fingers for the positions up to that one are right.
What the other fingers hold is left open. -/
structure PeerState.UpToSuccessor (members : Finset Identifier) (x : Identifier) (s : PeerState) :
    Prop where
  owner : s.table.owner = x
  size : s.table.size = fullSize
  successor : Next members x s.successor
  fingers : ∀ i q, s.table.get? i = some q →
    (s.table.position i).isBetween x.id s.successor.id = true →
      Nearest members (s.table.position i) q

namespace PeerState.UpToSuccessor

variable {members : Finset Identifier} {x : Identifier} {s : PeerState} {e : Nat × RingId}

instance : Decidable (s.UpToSuccessor members x) :=
  decidable_of_iff (s.table.owner = x ∧ s.table.size = fullSize ∧ Next members x s.successor ∧
      ∀ i ∈ List.range s.table.size, ∀ q ∈ s.table.get? i,
        (s.table.position i).isBetween x.id s.successor.id = true →
          Nearest members (s.table.position i) q)
    ⟨fun h => ⟨h.1, h.2.1, h.2.2.1, fun i q hq => h.2.2.2 i (List.mem_range.2 (get?_lt hq)) q hq⟩,
      fun h => ⟨h.owner, h.size, h.successor, fun i _ q hq => h.fingers i q hq⟩⟩

/-- No finger covers the position of the peer itself. -/
theorem position_ne (h : s.UpToSuccessor members x) (he : e ∈ Peer.staleFingers x s) :
    e.2 ≠ x.id := by
  obtain ⟨hi, hposition, -⟩ := mem_staleFingers.1 he
  rw [h.size] at hi
  have hlap : 2 ^ e.1 < 65536 := Nat.pow_lt_pow_right (by norm_num) hi
  have hdistance := distance_ahead x.id hlap
  rw [hposition, position_eq_ahead h.size, h.owner]
  intro heq
  rw [heq, distance_self] at hdistance
  exact absurd hdistance.symm (Nat.two_pow_pos e.1).ne'

/-- Right answers for the fingers beyond the successor make the table converged, and nothing else is
changed. -/
theorem exists_resolved (h : s.UpToSuccessor members x) {found : RingId → Identifier}
    (hfound : ∀ k, Nearest members k (found k)) :
    ∃ table : FingerTable, s.resolved found (Peer.staleFingers x s) = { s with table } ∧
      table.owner = x ∧ table.Converged members := by
  obtain ⟨table, htable, howner, -⟩ := resolved_eq found (Peer.staleFingers x s) s
  have hconv := resolved_converged h.size (fun e _ => hfound e.2) h.fingers
  rw [htable] at hconv
  exact ⟨table, htable, howner.trans h.owner, hconv⟩

variable {view : Identifier → PeerState}

/-- A peer that is not alone is not its own successor. -/
theorem successor_ne (h : s.UpToSuccessor members x) (distinct : DistinctIds members)
    (two : 2 ≤ members.card) (hx : x ∈ members) : s.successor ≠ x := by
  intro heq
  obtain ⟨p, hp, hpx⟩ := Finset.exists_mem_ne two x
  exact hpx (h.successor.eq_of_id_eq distinct hx (congrArg Identifier.id heq) p hp)

/-- A search for a finger beyond the successor ends at the nearest member, whatever state `now` the
peer has come to, since it does not come by the peer. -/
theorem exists_walk (h : s.UpToSuccessor members x) (distinct : DistinctIds members)
    (two : 2 ≤ members.card) (hx : x ∈ members)
    (right : ∀ p ∈ members, p ≠ x → (view p).table.owner = p ∧ (view p).table.Converged members)
    (he : e ∈ Peer.staleFingers x s) (now : PeerState) :
    ∃ forwards ≤ 15, ∃ q, Route.Walk members
      (fun p => Quest.route (.successor x) (Function.update view x now p) e.2) s.successor
        forwards q ∧ Nearest members e.2 q := by
  have hid : s.successor.id ≠ x.id := fun hid =>
    h.successor_ne distinct two hx (distinct h.successor.mem hx hid)
  have hnot : x ∉ Route.toward members s.successor.id e.2 :=
    Route.not_mem_toward members hid (h.position_ne he) (mem_staleFingers.1 he).2.2
  have hright : ∀ p ∈ Route.toward members s.successor.id e.2,
      (Function.update view x now p).table.owner = p ∧
        (Function.update view x now p).table.Converged members := by
    intro p hp
    have hpx : p ≠ x := fun heq => hnot (heq ▸ hp)
    rw [Function.update_of_ne hpx]
    exact right p (Finset.mem_filter.1 hp).1 hpx
  obtain ⟨forwards, hle, q, hwalk, hq⟩ :=
    Route.exists_walk_toward distinct (Function.update view x now) h.successor.mem x hright
  exact ⟨forwards, hle, q, hwalk.mono (Finset.filter_subset _ _), hq⟩

end PeerState.UpToSuccessor

namespace Network

variable {n : Network} {site : Identifier → Site} {members : Finset Identifier}
  {view : Identifier → PeerState} {x : Identifier}

/-- Carried out on the network, the refresh sets the fingers beyond the successor to the members
nearest to their positions, and that is all it does. -/
theorem Hosts.refresh {cast : Cast} (hosts : n.Hosts cast.site members view)
    (awake : n.Awake cast.site members) (roomy : Roomy cast.site members)
    (distinct : DistinctIds members) (two : 2 ≤ members.card) (hx : x ∈ members)
    (upTo : (view x).UpToSuccessor members x)
    (right : ∀ p ∈ members, p ≠ x → (view p).table.owner = p ∧ (view p).table.Converged members)
    {found : RingId → Identifier} (hfound : ∀ k, Nearest members k (found k)) {patience : Nat}
    (hpatience : 16 < patience) :
    Completes (fun _ => True) patience cast x (Peer.refresh x) n fun n' _ =>
      n' = n.changePeer (cast.site x).seat fun _ =>
        (view x).resolved found (Peer.staleFingers x (view x)) := by
  have hpeer := hosts.peer x hx
  refine Completes.refresh (fun n' now => n' = n.changePeer (cast.site x).seat fun _ => now)
    (hosts.read hx) (upTo.successor_ne distinct two hx) (fun _ _ _ => trivial) ?_ ?_ ?_
  · rintro _ now e he rfl
    obtain ⟨forwards, hforwards, q, hwalk, hq⟩ := upTo.exists_walk distinct two hx right he now
    obtain rfl := hq.unique distinct (hfound e.2)
    exact (hosts.changePeer hx fun _ => now).findSuccessor (awake.changePeer _ _) roomy
      (fun p hp => (roomy.carries p hp x hx).poses.1) (roomy.carries x hx x hx).poses.1 trivial hq.1
      (Nat.le_succ_of_le hforwards) hpatience hwalk
  · rintro _ now e - rfl
    exact changePeer_changePeer n _ _ _
  · have hself : n.changePeer (cast.site x).seat (fun _ => view x) =
        n.changePeer (cast.site x).seat id := changePeer_congr hpeer rfl
    rw [hself, changePeer_id]

/-- **A refresh repairs every finger beyond the successor.** In a ring of two or more members, of
which all but `x` have converged tables while `x` is right up to its successor, let all ceilings be
sixteen or more, and let every header leave room for each message of the ring protocol about each
member (`roomy`). The refresh of `x` succeeds. It leaves `x` with a converged table and changes
nothing else on the network. -/
theorem refresh_repairs (hosts : n.Hosts site members view) (awake : n.Awake site members)
    (roomy : Roomy site members) (distinct : DistinctIds members) (two : 2 ≤ members.card)
    (hx : x ∈ members) (upTo : (view x).UpToSuccessor members x)
    (right : ∀ p ∈ members, p ≠ x → (view p).table.owner = p ∧ (view p).table.Converged members)
    (rendezvous : RendezvousAt) :
    ∃ table : FingerTable, table.owner = x ∧ table.Converged members ∧
      n.refresh (site x).seat rendezvous =
        some (n.changePeer (site x).seat fun s => { s with table }, .ok ()) := by
  choose found hfound using exists_nearest ⟨x, hx⟩
  obtain ⟨table, htable, howner, hconv⟩ := upTo.exists_resolved hfound
  refine ⟨table, howner, hconv, ?_⟩
  have hpeer := hosts.peer x hx
  have hpatience := hosts.sixteen_lt_patience roomy hx
  have hosts' : n.Hosts (Cast.ofSites site members).site members view := hosts
  obtain ⟨n', result, hrun, ⟨⟩, rfl, rfl⟩ :=
    (hosts'.refresh awake roomy distinct two hx upTo right hfound hpatience).ends
  have hact : n.refresh (site x).seat rendezvous =
      perform (exchange n.patience) (.peer (site x).seat)
        (Task.handle (rendezvous.carry (site x).header) (Peer.refresh x).run) n := by
    rw [refresh, act, hpeer]
    rfl
  rw [hact, Peer.handle_refresh rendezvous _ "" x]
  refine hrun.trans ?_
  rw [htable]
  exact congrArg (fun m => some (m, _)) (changePeer_congr hpeer rfl)

end Network

namespace Trio

/-- The three peers, of which the first one holds strangers in all fingers beyond its successor. -/
def forgetfulView (p : Identifier) : PeerState :=
  if p = first then
    { view first with table :=
        ⟨first, List.replicate 7 second ++ List.replicate 9 ⟨"10.0.0.7", ⟨7⟩⟩⟩ }
  else view p

open Network

theorem refresh_repairs_first :
    (forgetfulView first).UpToSuccessor members first ∧
      ¬ (forgetfulView first).table.Converged members ∧
      ∃ table : FingerTable, table.owner = first ∧ table.Converged members ∧
        (network forgetfulView .empty).refresh (site first).seat (.named "10.0.0.9:9000") =
          some ((network forgetfulView .empty).changePeer (site first).seat
            fun s => { s with table }, .ok ()) := by
  have distinct : DistinctIds members := by decide +kernel
  have two : 2 ≤ members.card := by decide +kernel
  have hfirst : first ∈ members := by decide +kernel
  have upTo : (forgetfulView first).UpToSuccessor members first := by decide +kernel
  have right : ∀ p ∈ members, p ≠ first →
      (forgetfulView p).table.owner = p ∧ (forgetfulView p).table.Converged members := by
    decide +kernel
  exact ⟨upTo, by decide +kernel, refresh_repairs (hosts forgetfulView .empty)
    (awake forgetfulView .empty) roomy distinct two hfirst upTo right _⟩

end Trio

end ChordRing
