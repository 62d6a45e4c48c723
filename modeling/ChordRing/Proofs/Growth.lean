import ChordRing.Proofs.Atomicity

/-!
# A ring grows by joins

Peers that know nobody attempt to join one after another through one discovery node
(`Network.afterJoins`). Those whose ring id is free when their turn comes are admitted
(`admitted`). After every attempt the ring is in order, and its state is determined by who its
members are (`Network.joins_keep_ring_in_order`).
-/

namespace ChordRing

open RingId FingerTable PeerState

/-! ## Two settled states of one member are one -/

theorem FingerTable.Converged.unique {members : Finset Identifier} {t t' : FingerTable}
    (distinct : DistinctIds members) (h : t.Converged members) (h' : t'.Converged members)
    (howner : t.owner = t'.owner) : t = t' := by
  rcases t with ⟨owner, entries⟩
  rcases t' with ⟨owner', entries'⟩
  obtain rfl : owner = owner' := howner
  refine congrArg (FingerTable.mk owner) (List.ext_getElem? fun i => ?_)
  by_cases hi : i < fullSize
  · obtain ⟨p, hp, hnear⟩ := h.exists_get? hi
    obtain ⟨q, hq, hnear'⟩ := h'.exists_get? hi
    obtain rfl := hnear.unique distinct hnear'
    exact hp.trans hq.symm
  · have hlen : entries.length ≤ i := (Nat.le_of_eq h.size).trans (Nat.not_lt.1 hi)
    have hlen' : entries'.length ≤ i := (Nat.le_of_eq h'.size).trans (Nat.not_lt.1 hi)
    rw [List.getElem?_eq_none hlen, List.getElem?_eq_none hlen']

/-- A member of a ring that it joined and that nothing was stored at. -/
structure PeerState.Joined (members : Finset Identifier) (p : Identifier) (s : PeerState) : Prop
    extends Settled members p s where
  phase : s.phase = .joined
  items : s.items = []

/-- The state of such a member is determined by the members. -/
theorem PeerState.Joined.unique {members : Finset Identifier} {p : Identifier} {s s' : PeerState}
    (distinct : DistinctIds members) (h : s.Joined members p) (h' : s'.Joined members p) :
    s = s' := by
  rcases s with ⟨predecessor, successor, table, items, phase⟩
  rcases s' with ⟨predecessor', successor', table', items', phase'⟩
  obtain rfl := h.predecessor.unique distinct h'.predecessor
  obtain rfl := Nearest.unique distinct h.successor h'.successor
  obtain rfl := h.converged.unique distinct h'.converged (h.owner.trans h'.owner.symm)
  obtain rfl : items = items' := h.items.trans h'.items.symm
  obtain rfl : phase = phase' := h.phase.trans h'.phase.symm
  rfl

/-! ## Attempts one after another -/

/-- The members after attempts to join, of which the latest stands first: a peer is admitted unless
a member holds its ring id. -/
def admitted : List Identifier → Finset Identifier
  | [] => ∅
  | x :: earlier =>
      if ∃ p ∈ admitted earlier, p.id = x.id then admitted earlier else insert x (admitted earlier)

theorem admitted_subset : ∀ attempts, admitted attempts ⊆ attempts.toFinset
  | [] => Finset.Subset.refl _
  | x :: earlier => by
      rw [admitted, List.toFinset_cons]
      split
      · exact (admitted_subset earlier).trans (Finset.subset_insert x _)
      · exact Finset.insert_subset_insert x (admitted_subset earlier)

theorem mem_of_mem_admitted {attempts : List Identifier} {p : Identifier}
    (h : p ∈ admitted attempts) : p ∈ attempts :=
  List.mem_toFinset.1 (admitted_subset attempts h)

theorem admitted_of_free {earlier : List Identifier} {x : Identifier}
    (free : ∀ p ∈ admitted earlier, p.id ≠ x.id) :
    admitted (x :: earlier) = insert x (admitted earlier) := by
  rw [admitted, if_neg]
  rintro ⟨p, hp, hid⟩
  exact free p hp hid

theorem distinctIds_admitted : ∀ attempts, DistinctIds (admitted attempts)
  | [] => by
      rw [admitted, DistinctIds, Finset.coe_empty]
      exact Set.injOn_empty _
  | x :: earlier => by
      rw [admitted]
      split
      · exact distinctIds_admitted earlier
      · rename_i hfree
        push Not at hfree
        exact distinctIds_insert (distinctIds_admitted earlier) hfree

namespace Network

/-- The network after attempts to join through the discovery node of some name, of which the latest
stands first, or `none` if one does not come to an end. -/
def afterJoins (n : Network) (seat : Identifier → Nat) (discovery : String) :
    List Identifier → Option Network
  | [] => some n
  | x :: earlier =>
      (n.afterJoins seat discovery earlier).bind fun before =>
        (before.join (seat x) (.named discovery)).map Prod.fst

/-- Peers that have full tables and know nobody, and a discovery node that knows nobody. Each peer
attempts to join at most once. -/
structure Fresh (n : Network) (cast : Cast) (attempts : List Identifier) : Prop where
  once : attempts.Nodup
  peers : ∀ p ∈ attempts, p ∈ cast.peers
  hosts : n.Hosts cast.site cast.peers fun p => .new p fullSize
  registers : n.Registers cast.discovery cast.desk cast.header .empty
  roomy : cast.Roomy

/-- Without the last attempt the others still are attempts of fresh peers. -/
theorem Fresh.earlier {n : Network} {cast : Cast} {x : Identifier} {earlier : List Identifier}
    (h : n.Fresh cast (x :: earlier)) : n.Fresh cast earlier where
  once := (List.nodup_cons.1 h.once).2
  peers := fun p hp => h.peers p (List.mem_cons_of_mem x hp)
  hosts := h.hosts
  registers := h.registers
  roomy := h.roomy

/-- Every member has the right neighbours and fingers and has joined, and the discovery node knows
exactly the members. -/
structure InOrder (n : Network) (cast : Cast) (members : Finset Identifier) : Prop where
  joined : ∀ p ∈ members, (n.peerState (cast.site p).seat).Joined members p
  registers : ∃ r, n.Registers cast.discovery cast.desk cast.header r ∧ r.Lists members

/-- What a run of attempts keeps: the members have joined, those that have not attempted it know
nobody, and the registry lists the members. -/
structure Grown (n : Network) (cast : Cast) (attempts : List Identifier)
    (view : Identifier → PeerState) (r : Registry) : Prop where
  scene : n.Scene cast (admitted attempts) view r
  joined : ∀ p ∈ admitted attempts, (view p).Joined (admitted attempts) p
  fresh : ∀ p ∈ cast.peers, p ∉ attempts → view p = .new p fullSize
  lists : r.Lists (admitted attempts)

/-- The state that a peer of a grown ring is in. -/
theorem Grown.peerState_eq {n : Network} {cast : Cast} {attempts : List Identifier}
    {view : Identifier → PeerState} {r : Registry} (h : n.Grown cast attempts view r)
    {p : Identifier} (hp : p ∈ cast.peers) : n.peerState (cast.site p).seat = view p :=
  h.scene.hosts.read hp

theorem Grown.inOrder {n : Network} {cast : Cast} {attempts : List Identifier}
    {view : Identifier → PeerState} {r : Registry} (h : n.Grown cast attempts view r)
    (hpeers : ∀ p ∈ attempts, p ∈ cast.peers) : n.InOrder cast (admitted attempts) where
  joined := by
    intro p hp
    rw [h.peerState_eq (hpeers p (mem_of_mem_admitted hp))]
    exact h.joined p hp
  registers := ⟨r, h.scene.registers, h.lists⟩

theorem Fresh.grown {n : Network} {cast : Cast} {attempts : List Identifier}
    (h : n.Fresh cast attempts) : n.Grown cast [] (fun p => .new p fullSize) .empty where
  scene := ⟨h.hosts, fun p hp => absurd hp (Finset.notMem_empty p), h.registers⟩
  joined := fun p hp => absurd hp (Finset.notMem_empty p)
  fresh := fun _ _ _ => rfl
  lists := Registry.lists_empty

namespace Grown

variable {n : Network} {cast : Cast} {earlier : List Identifier} {view : Identifier → PeerState}
  {r : Registry} {x : Identifier}

/-- The attempt of the first member succeeds. -/
theorem attempt_first (h : n.Grown cast earlier view r) (roomy : cast.Roomy) (hx : x ∈ cast.peers)
    (honce : x ∉ earlier) (hempty : admitted earlier = ∅) :
    ∃ last view' r', n.join (cast.site x).seat (.named cast.discovery) = some (last, .ok ()) ∧
      last.Grown cast (x :: earlier) view' r' := by
  have free : ∀ p ∈ admitted earlier, p.id ≠ x.id := by
    rw [hempty]
    exact fun p hp => absurd hp (Finset.notMem_empty p)
  have hadmitted := admitted_of_free free
  have hnew := h.fresh x hx honce
  have hview : Function.update view x (view x) = view := Function.update_eq_self x view
  have hserving := h.scene.serveFrom hx
  obtain ⟨henough, -⟩ := hserving.enough_patience roomy hx
  have hr : r.members = [] := h.lists.members_eq_nil_iff.2 hempty
  have hjoin : Completes (fun _ => True) _ cast x (Peer.join x) _ _ :=
    Scene.join_first (hview.symm ▸ hserving) roomy hx (Nat.lt_trans (by norm_num) henough) hr
      fun _ _ _ _ => trivial
  obtain ⟨⟨last, result, hrun, _, rfl, hscene⟩, -⟩ := h.scene.join_ends hx hjoin
  refine ⟨last, _, _, hrun, hadmitted ▸ hscene, ?_, ?_, ?_⟩
  · intro p hp
    rw [hadmitted, hempty] at hp ⊢
    obtain rfl := Finset.mem_singleton.1 hp
    rw [Function.update_self, hnew]
    exact ⟨⟨⟨previous_singleton p, rfl, converged_new p⟩, next_singleton p⟩, rfl, rfl⟩
  · intro p hp hnot
    have hpx : p ≠ x := fun heq => hnot (heq ▸ List.mem_cons_self)
    rw [Function.update_of_ne hpx]
    exact h.fresh p hp fun hmem => hnot (List.mem_cons_of_mem x hmem)
  · rw [hadmitted]
    exact h.lists.insert free

/-- The attempt of one more member succeeds, whichever member it is given to contact. -/
theorem attempt_another (h : n.Grown cast earlier view r) (roomy : cast.Roomy)
    (hpeers : ∀ p ∈ earlier, p ∈ cast.peers) (hx : x ∈ cast.peers) (honce : x ∉ earlier)
    (free : ∀ p ∈ admitted earlier, p.id ≠ x.id) (hne : (admitted earlier).Nonempty) :
    ∃ last view' r', n.join (cast.site x).seat (.named cast.discovery) = some (last, .ok ()) ∧
      last.Grown cast (x :: earlier) view' r' := by
  have hadmitted := admitted_of_free free
  have hnew := h.fresh x hx honce
  have hview : Function.update view x (view x) = view := Function.update_eq_self x view
  have hserving := h.scene.serveFrom hx
  obtain ⟨henough, hcard⟩ := hserving.enough_patience roomy hx
  have hmembers : ∀ p ∈ admitted earlier, p ∈ cast.peers := fun p hp =>
    hpeers p (mem_of_mem_admitted hp)
  have hdistinct := distinctIds_admitted earlier
  obtain ⟨s, hs⟩ := exists_nearest hne x.id
  obtain ⟨p, hp⟩ := exists_previous hs.1
  have arrival : Arrival cast (insert x (admitted earlier)) (admitted earlier) x
      (n.serveFrom (cast.site x).seat).patience :=
    { roomy, peers := Finset.insert_subset hx hmembers, awake := Finset.Subset.refl _,
      distinct := hdistinct, free, enough := henough,
      card := Nat.le_trans (Finset.card_le_card hmembers) hcard }
  have settled : ∀ q ∈ admitted earlier, (view q).Settled (admitted earlier) q :=
    fun q hq => (h.joined q hq).toSettled
  have hjoin : Completes (fun _ => True) _ cast x (Peer.join x) _ _ :=
    Scene.join_free arrival (fun _ _ _ _ _ => trivial) settled hs hp (by rw [hnew]; rfl)
      (List.ne_nil_of_mem ((h.lists.mem s).2 hs.1)) (fun q hq => (h.lists.mem q).1 hq)
      (hview.symm ▸ hserving)
  obtain ⟨⟨last, result, hrun, _, rfl, st, hscene, hsettled, hitems, hphase⟩, -⟩ :=
    h.scene.join_ends hx hjoin
  refine ⟨last, _, _, hrun, hadmitted ▸ hscene, ?_, ?_, ?_⟩
  · intro q hq
    rw [hadmitted] at hq ⊢
    rcases Finset.mem_insert.1 hq with rfl | hq
    · rw [Function.update_self]
      exact ⟨hsettled, hphase, hitems.trans (by rw [hnew]; rfl)⟩
    · obtain ⟨hsame, hsame'⟩ := welcomed_rest (admitted earlier) x s p q view
      rw [update_apply_of_mem free hq]
      exact ⟨welcomed_settled hdistinct free hs hp settled q hq,
        hsame'.trans (h.joined q hq).phase, hsame.trans (h.joined q hq).items⟩
  · intro q hq hnot
    have hqx : q ≠ x := fun heq => hnot (heq ▸ List.mem_cons_self)
    have hqm : q ∉ admitted earlier := fun hmem =>
      hnot (List.mem_cons_of_mem x (mem_of_mem_admitted hmem))
    rw [Function.update_of_ne hqx, welcomed_of_notMem hqm hs.1 hp.1]
    exact h.fresh q hq fun hmem => hnot (List.mem_cons_of_mem x hmem)
  · rw [hadmitted]
    exact h.lists.insert free

/-- An attempt with a free ring id succeeds and adds a member. -/
theorem attempt_free (h : n.Grown cast earlier view r) (roomy : cast.Roomy)
    (hpeers : ∀ p ∈ earlier, p ∈ cast.peers) (hx : x ∈ cast.peers) (honce : x ∉ earlier)
    (free : ∀ p ∈ admitted earlier, p.id ≠ x.id) :
    ∃ last view' r', n.join (cast.site x).seat (.named cast.discovery) = some (last, .ok ()) ∧
      last.Grown cast (x :: earlier) view' r' := by
  rcases (admitted earlier).eq_empty_or_nonempty with hempty | hne
  · exact h.attempt_first roomy hx honce hempty
  · exact h.attempt_another roomy hpeers hx honce free hne

/-- An attempt with a ring id that a member holds is turned away and changes nothing. -/
theorem attempt_taken (h : n.Grown cast earlier view r) (roomy : cast.Roomy) (hx : x ∈ cast.peers)
    (honce : x ∉ earlier) (taken : ∃ p ∈ admitted earlier, p.id = x.id) :
    ∃ last, n.join (cast.site x).seat (.named cast.discovery) =
        some (last, .error (.idCollision x.id)) ∧
      last.Grown cast (x :: earlier) view r ∧ view x = .new x fullSize := by
  have hadmitted : admitted (x :: earlier) = admitted earlier := if_pos taken
  have hnew := h.fresh x hx honce
  have hview : Function.update view x (view x) = view := Function.update_eq_self x view
  have hserving := h.scene.serveFrom hx
  obtain ⟨henough, -⟩ := hserving.enough_patience roomy hx
  obtain ⟨p, hp, hid⟩ := taken
  have hjoin : Concludes (fun _ => True) _ cast x (Peer.join x) _ _ :=
    Scene.join_taken (hview.symm ▸ hserving) roomy hx (Nat.lt_trans (by norm_num) henough)
      ⟨p, (h.lists.mem p).2 hp, hid⟩ fun _ _ _ _ => trivial
  obtain ⟨⟨last, result, hrun, rfl, hscene⟩, -⟩ := h.scene.join_ends hx hjoin
  have hsame : ((view x).enter .registering).enter .unjoined = view x := by
    rw [hnew]
    rfl
  rw [hsame, hview] at hscene
  refine ⟨last, hrun, ⟨?_, ?_, ?_, ?_⟩, hnew⟩
  · rw [hadmitted]
    exact ⟨hscene.hosts, hscene.awake.mono (Finset.subset_insert x _), hscene.registers⟩
  · rw [hadmitted]
    exact h.joined
  · exact fun q hq hnot => h.fresh q hq fun hmem => hnot (List.mem_cons_of_mem x hmem)
  · rw [hadmitted]
    exact h.lists

end Grown

/-- Every run of attempts comes to an end and leaves a grown ring. -/
theorem Fresh.exists_grown {n : Network} {cast : Cast} :
    ∀ {attempts : List Identifier}, n.Fresh cast attempts →
      ∃ last view r,
        n.afterJoins (fun p => (cast.site p).seat) cast.discovery attempts = some last ∧
          last.Grown cast attempts view r
  | [], fresh => ⟨n, _, _, rfl, fresh.grown⟩
  | x :: earlier, fresh => by
      have honce := (List.nodup_cons.1 fresh.once).1
      have hx := fresh.peers x List.mem_cons_self
      obtain ⟨before, view, r, hbefore, hgrown⟩ := fresh.earlier.exists_grown
      by_cases htaken : ∃ p ∈ admitted earlier, p.id = x.id
      · obtain ⟨last, hrun, hlast, -⟩ := hgrown.attempt_taken fresh.roomy hx honce htaken
        exact ⟨last, _, _, by rw [afterJoins, hbefore, Option.bind_some, hrun]; rfl, hlast⟩
      · push Not at htaken
        obtain ⟨last, view', r', hrun, hlast⟩ :=
          hgrown.attempt_free fresh.roomy fresh.earlier.peers hx honce htaken
        exact ⟨last, _, _, by rw [afterJoins, hbefore, Option.bind_some, hrun]; rfl, hlast⟩

/-- Two rings in order with the same members are in the same state. -/
theorem InOrder.unique {n n' : Network} {cast cast' : Cast} {members : Finset Identifier}
    (distinct : DistinctIds members) (h : n.InOrder cast members) (h' : n'.InOrder cast' members) :
    (∀ p ∈ members, n'.peerState (cast'.site p).seat = n.peerState (cast.site p).seat) ∧
      ∀ r r', n.Registers cast.discovery cast.desk cast.header r →
        n'.Registers cast'.discovery cast'.desk cast'.header r' → r' = r := by
  refine ⟨fun p hp => (h'.joined p hp).unique distinct (h.joined p hp), ?_⟩
  intro r r' hr hr'
  obtain ⟨listed, hlisted, hlists⟩ := h.registers
  obtain ⟨listed', hlisted', hlists'⟩ := h'.registers
  rw [hr.unique hlisted, hr'.unique hlisted']
  exact hlists'.unique hlists

/-- A ring in order fixes the state in which any run of attempts with its members ends. -/
theorem InOrder.agrees {n n' last' : Network} {cast cast' : Cast} {members : Finset Identifier}
    {attempts : List Identifier} (h : n.InOrder cast members) (fresh : n'.Fresh cast' attempts)
    (hadmitted : admitted attempts = members)
    (hrun : n'.afterJoins (fun p => (cast'.site p).seat) cast'.discovery attempts = some last') :
    (∀ p ∈ admitted attempts,
      last'.peerState (cast'.site p).seat = n.peerState (cast.site p).seat) ∧
      ∀ r r', n.Registers cast.discovery cast.desk cast.header r →
        last'.Registers cast'.discovery cast'.desk cast'.header r' → r' = r := by
  obtain ⟨last, view, r, hrun', hgrown⟩ := fresh.exists_grown
  obtain rfl : last' = last := Option.some.inj (hrun.symm.trans hrun')
  have horder := hgrown.inOrder fresh.peers
  subst hadmitted
  exact h.unique (distinctIds_admitted attempts) horder

/-- **Sequential joins keep the ring in order.** On a fresh network all ceilings are sixteen or
more, and under every header there is room for each message of the ring protocol about each peer
(`Fresh.roomy`). Let peers attempt to join there one after another, and `x` last. The attempt of `x`
succeeds if its ring id is free; otherwise it ends with a collision, leaves `x` unjoined and changes
no member and no registry. Either way the ring is in order before and after, and its state depends
only on who its members are. -/
theorem joins_keep_ring_in_order {n : Network} {cast : Cast} {x : Identifier}
    {earlier : List Identifier} (fresh : n.Fresh cast (x :: earlier)) :
    ∃ before last result,
      n.afterJoins (fun p => (cast.site p).seat) cast.discovery earlier = some before ∧
      before.join (cast.site x).seat (.named cast.discovery) = some (last, result) ∧
      before.InOrder cast (admitted earlier) ∧ last.InOrder cast (admitted (x :: earlier)) ∧
      ((∀ p ∈ admitted earlier, p.id ≠ x.id) → result = .ok ()) ∧
      ((∃ p ∈ admitted earlier, p.id = x.id) →
        result = .error (.idCollision x.id) ∧
        (last.peerState (cast.site x).seat).phase = .unjoined ∧
        (∀ p ∈ admitted earlier,
          last.peerState (cast.site p).seat = before.peerState (cast.site p).seat) ∧
        ∀ r, before.Registers cast.discovery cast.desk cast.header r →
          last.Registers cast.discovery cast.desk cast.header r) ∧
      ∀ (n' : Network) (cast' : Cast) (attempts : List Identifier) (last' : Network),
        n'.Fresh cast' attempts → admitted attempts = admitted (x :: earlier) →
        n'.afterJoins (fun p => (cast'.site p).seat) cast'.discovery attempts = some last' →
        (∀ p ∈ admitted attempts,
          last'.peerState (cast'.site p).seat = last.peerState (cast.site p).seat) ∧
        ∀ r r', last.Registers cast.discovery cast.desk cast.header r →
          last'.Registers cast'.discovery cast'.desk cast'.header r' → r' = r := by
  have honce := (List.nodup_cons.1 fresh.once).1
  have hpeers := fresh.earlier.peers
  have hx := fresh.peers x List.mem_cons_self
  obtain ⟨before, view, r, hbefore, hgrown⟩ := fresh.earlier.exists_grown
  by_cases htaken : ∃ p ∈ admitted earlier, p.id = x.id
  · obtain ⟨last, hrun, hlast, hnew⟩ := hgrown.attempt_taken fresh.roomy hx honce htaken
    have horder := hlast.inOrder fresh.peers
    refine ⟨before, last, _, hbefore, hrun, hgrown.inOrder hpeers, horder, ?_, ?_,
      fun _ _ _ _ => horder.agrees⟩
    · intro free
      obtain ⟨p, hp, hid⟩ := htaken
      exact absurd hid (free p hp)
    · intro _
      refine ⟨rfl, ?_, ?_, ?_⟩
      · rw [hlast.peerState_eq hx, hnew]
        rfl
      · intro p hp
        have hmem := hpeers p (mem_of_mem_admitted hp)
        rw [hlast.peerState_eq hmem, hgrown.peerState_eq hmem]
      · intro r' hr'
        rw [hr'.unique hgrown.scene.registers]
        exact hlast.scene.registers
  · push Not at htaken
    obtain ⟨last, view', r', hrun, hlast⟩ :=
      hgrown.attempt_free fresh.roomy hpeers hx honce htaken
    have horder := hlast.inOrder fresh.peers
    refine ⟨before, last, _, hbefore, hrun, hgrown.inOrder hpeers, horder, fun _ => rfl, ?_,
      fun _ _ _ _ => horder.agrees⟩
    rintro ⟨p, hp, hid⟩
    exact absurd hid (htaken p hp)

end Network

namespace Trio

/-! ## Three peers join one after another -/

def cast : Cast := ⟨site, members, "10.0.0.9", 0, header⟩

open Network

theorem fresh : (network (fun p => .new p fullSize) .empty).Fresh cast [third, second, first] where
  once := by decide +kernel
  peers := by decide +kernel
  hosts := hosts _ _
  registers := registers _ _
  roomy := ⟨roomy, header_carries⟩

/-- The third peer is the last to join. -/
theorem joins_keep_ring_in_order_of_third :
    (network (fun p => .new p fullSize) .empty).Fresh cast [third, second, first] ∧
      ∃ before last, (network (fun p => .new p fullSize) .empty).afterJoins
          (fun p => (cast.site p).seat) cast.discovery [second, first] = some before ∧
        before.join (cast.site third).seat (.named cast.discovery) = some (last, .ok ()) ∧
        last.InOrder cast (admitted [third, second, first]) := by
  obtain ⟨before, last, result, hbefore, hrun, -, horder, hfree, -, -⟩ :=
    joins_keep_ring_in_order fresh
  obtain rfl : result = .ok () := hfree (by decide +kernel)
  exact ⟨fresh, before, last, hbefore, hrun, horder⟩

end Trio

end ChordRing
