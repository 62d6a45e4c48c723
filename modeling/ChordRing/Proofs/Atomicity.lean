import ChordRing.Proofs.Admission

/-!
# A join is atomic for readers

`Network.joinCourse` lists the networks that a join passes through: those between two calls, between
two stages of the announcement, and between two fingers of the refresh. At each of them every search
through a member of the ring is answered, with the member that is right for the ring before the
join or for the ring after it (`Network.join_is_atomic`).
-/

namespace ChordRing

open RingId FingerTable PeerState

namespace Network

/-- The networks that the join of the peer with a number passes through. -/
def joinCourse (n : Network) (i : Nat) (rendezvous : RendezvousAt) : List Network :=
  match (n.serveFrom i).peer? i with
  | none => []
  | some p =>
      course (inside (n.serveFrom i).patience) (exchange (n.serveFrom i).patience) (.peer i)
        (Task.handle (rendezvous.carry p.header) (Peer.join p.identifier).run) (n.serveFrom i)

namespace Scene

variable {n : Network} {cast : Cast} {awake : Finset Identifier} {r : Registry}
  {view : Identifier → PeerState} {x : Identifier}

/-- A peer serves before it joins. -/
theorem serveFrom (scene : n.Scene cast awake view r) (hx : x ∈ cast.peers) :
    (n.serveFrom (cast.site x).seat).Scene cast (insert x awake) view r where
  hosts := scene.hosts.serveFrom _
  awake := by
    intro p hp
    rcases Finset.mem_insert.1 hp with rfl | hp
    · exact presence?_serveFrom_self n _ (scene.hosts.reached p hx)
    · exact presence?_serveFrom_of_serving n _ (scene.awake p hp)
  registers := scene.registers.serveFrom _

theorem enough_patience (scene : n.Scene cast awake view r) (roomy : cast.Roomy)
    (hx : x ∈ cast.peers) : 16 < n.patience ∧ cast.peers.card ≤ n.patience := by
  have hcard := scene.hosts.card_le_patience
  exact ⟨scene.hosts.sixteen_lt_patience roomy.sites hx, by omega⟩

/-- What is shown of the attempt to join is so of the join on the network. -/
theorem join_ends {Inv : Network → Prop} {Q : Network → Except ChordError Unit → Prop}
    (scene : n.Scene cast awake view r) (hx : x ∈ cast.peers)
    (h : Concludes Inv (n.serveFrom (cast.site x).seat).patience cast x (Peer.join x)
      (n.serveFrom (cast.site x).seat) Q) :
    (∃ n' result, n.join (cast.site x).seat (.named cast.discovery) = some (n', result) ∧
        Q n' result) ∧
      ∀ s ∈ n.joinCourse (cast.site x).seat (.named cast.discovery), Inv s := by
  have hpeer := (scene.hosts.serveFrom (cast.site x).seat).peer x hx
  constructor
  · obtain ⟨n', result, hrun, hQ⟩ := h.ends
    refine ⟨n', result, ?_, hQ⟩
    rw [join, act, hpeer]
    exact hrun
  · rw [joinCourse, hpeer]
    exact h.passes

end Scene

/-- **A join is atomic for readers.** A newcomer whose ring id is free joins a settled ring through
whichever member the discovery node draws. All ceilings are sixteen or more, and under the headers
of the peers and of the discovery node there is room for each message of the ring protocol about
each peer (`roomy`, `carries`). The join succeeds, and at every point of it every search for `k`
through any member is answered, with the member nearest to `k` in the ring without the newcomer or
in the ring with it. -/
theorem join_is_atomic {n : Network} {site : Identifier → Site} {members : Finset Identifier}
    {x : Identifier} {view : Identifier → PeerState} {discovery : String} {desk : Nat}
    {header : Header} {r : Registry} (hosts : n.Hosts site (insert x members) view)
    (awake : n.Awake site (insert x members)) (roomy : Roomy site (insert x members))
    (registers : n.Registers discovery desk header r)
    (carries : ∀ p ∈ insert x members, header.Carries p) (distinct : DistinctIds members)
    (settled : ∀ p ∈ members, (view p).Settled members p) (free : ∀ p ∈ members, p.id ≠ x.id)
    (fresh : (view x).table = .new fullSize x) (hne : r.members ≠ [])
    (known : ∀ p ∈ r.members, p ∈ members) :
    (∃ n', n.join (site x).seat (.named discovery) = some (n', .ok ())) ∧
      ∀ s ∈ n.joinCourse (site x).seat (.named discovery), ∀ start ∈ members, ∀ (quest : Quest)
        (client : Header) (k : RingId), client.Poses quest →
        (∀ p ∈ insert x members, (site p).header.Poses quest) →
        ∃ q, s.run (quest.ask client start k) = some (s, .ok q) ∧
          (Nearest members k q ∨ Nearest (insert x members) k q) := by
  have hx := Finset.mem_insert_self x members
  let cast : Cast := ⟨site, insert x members, discovery, desk, header⟩
  have hroomy : cast.Roomy := ⟨roomy, carries⟩
  have hscene : n.Scene cast (insert x members) view r := ⟨hosts, awake, registers⟩
  have hserving := hscene.serveFrom hx
  rw [Finset.insert_idem] at hserving
  obtain ⟨henough, hcard⟩ := hserving.enough_patience hroomy hx
  have arrival : Arrival cast (insert x members) members x
      (n.serveFrom (site x).seat).patience :=
    { roomy := hroomy, peers := Finset.Subset.refl _, awake := Finset.Subset.refl _, distinct, free,
      enough := henough,
      card := Nat.le_trans (Finset.card_le_card (Finset.subset_insert x members)) hcard }
  obtain ⟨contact, hcontact⟩ := List.exists_mem_of_ne_nil _ hne
  obtain ⟨s, hs⟩ := exists_nearest ⟨contact, known contact hcontact⟩ x.id
  obtain ⟨p, hp⟩ := exists_previous hs.1
  have hview : Function.update view x (view x) = view := Function.update_eq_self x view
  have hjoin : Completes (fun s => ∃ view' r', s.Scene cast (insert x members) view' r' ∧
      Transition members x view') (n.serveFrom (site x).seat).patience cast x (Peer.join x)
      (n.serveFrom (site x).seat) _ :=
    Scene.join_free arrival (fun n' view' r' scene' h => ⟨view', r', scene', h⟩) settled hs hp
      fresh hne known (hview.symm ▸ hserving)
  obtain ⟨⟨n', result, hrun, hend⟩, hpasses⟩ := hscene.join_ends hx hjoin
  obtain ⟨a, rfl, -⟩ := hend
  refine ⟨⟨n', hrun⟩, ?_⟩
  intro s hs start hstart quest client k hposes hsites
  obtain ⟨view', r', scene', htransition⟩ := hpasses s hs
  obtain ⟨forwards, hforwards, q, hwalk, hnear⟩ := htransition.walk distinct free quest k hstart
  have hq : q ∈ insert x members := by
    rcases hnear with hnear | hnear
    · exact Finset.mem_insert_of_mem hnear.1
    · exact hnear.1
  exact ⟨q, scene'.hosts.run_ask scene'.awake roomy hsites hposes
    (Finset.mem_insert_of_mem hstart) hq hforwards hwalk, hnear⟩

end Network

namespace Trio

/-! ## The second of three peers joins -/

/-- The first and the third peer as a ring, and the second one before it joins. -/
def pair : Finset Identifier := {first, third}

def pairTable (p : Identifier) : FingerTable :=
  if p = first then ⟨p, List.replicate 16 third⟩
  else ⟨p, List.replicate 9 first ++ List.replicate 7 third⟩

def pairView (p : Identifier) : PeerState :=
  if p = first then ⟨third, third, pairTable p, [], .joined⟩
  else if p = second then .new p fullSize
  else ⟨first, first, pairTable p, [], .joined⟩

theorem insert_pair : insert second pair = members := by decide +kernel

open Network

theorem registers (state : Identifier → PeerState) (r : Registry) :
    (network state r).Registers "10.0.0.9" 0 header r where
  reached := by cbv
  serving := rfl
  service := rfl

theorem header_carries : ∀ p ∈ members, header.Carries p := by decide +kernel

theorem pair_settled : ∀ p ∈ pair, (pairView p).Settled pair p := by
  have predecessor : ∀ p ∈ pair, Previous pair p (pairView p).predecessor := by decide +kernel
  have owner : ∀ p ∈ pair, (pairView p).table.owner = p := by decide +kernel
  have converged : ∀ p ∈ pair, (pairView p).table.Converged pair := by decide +kernel
  have successor : ∀ p ∈ pair, Next pair p (pairView p).successor := by decide +kernel
  exact fun p hp => ⟨⟨predecessor p hp, owner p hp, converged p hp⟩, successor p hp⟩

/-- While the second peer joins the other two, a key that will be its own is looked up through the
first one. -/
theorem join_is_atomic_of_second :
    (∀ p ∈ pair, (pairView p).Settled pair p) ∧ (∀ p ∈ pair, p.id ≠ second.id) ∧
      (∃ n', (network pairView ⟨[first, third]⟩).join (site second).seat (.named "10.0.0.9") =
        some (n', .ok ())) ∧
      ∀ s ∈ (network pairView ⟨[first, third]⟩).joinCourse (site second).seat (.named "10.0.0.9"),
        ∃ q, s.run (Quest.holder.ask header first ⟨50⟩) = some (s, .ok q) ∧
          (Nearest pair ⟨50⟩ q ∨ Nearest (insert second pair) ⟨50⟩ q) := by
  have distinct : DistinctIds pair := by decide +kernel
  have free : ∀ p ∈ pair, p.id ≠ second.id := by decide +kernel
  have fresh : (pairView second).table = .new fullSize second := by decide +kernel
  have known : ∀ p ∈ (⟨[first, third]⟩ : Registry).members, p ∈ pair := by decide +kernel
  have hstart : first ∈ pair := by decide +kernel
  obtain ⟨hjoin, hpoints⟩ := join_is_atomic (insert_pair.symm ▸ hosts pairView ⟨[first, third]⟩)
    (insert_pair.symm ▸ awake pairView ⟨[first, third]⟩) (insert_pair.symm ▸ roomy)
    (registers pairView ⟨[first, third]⟩) (insert_pair.symm ▸ header_carries) distinct pair_settled
    free fresh (List.cons_ne_nil _ _) known
  refine ⟨pair_settled, free, hjoin, fun s hs => hpoints s hs first hstart .holder header ⟨50⟩
    header_poses.2 fun p hp => (poses ?_).2⟩
  rwa [insert_pair] at hp

end Trio

end ChordRing
