import ChordRing.Proofs.Changes
import ChordRing.Proofs.Delivery

/-!
# Hosting

Where the peers of a ring are found on a network. `Network.Hosts` says that every host name of a
set of peers leads to the peer's own node and what state each peer is in, `Network.Awake` that peers
serve, and `Network.Registers` that a discovery node of some name serves and what its registry is.
`Site` is what never changes of a peer.
-/

namespace ChordRing

/-- Where a peer is, how often a request may have been forwarded that it forwards, and the header of
what it sends. -/
structure Site where
  seat : Nat
  maxHops : Nat
  header : Header

/-- The peer at a site. -/
def Site.peer (site : Site) (p : Identifier) (s : PeerState) : Peer :=
  ⟨p, site.maxHops, site.header, s⟩

namespace Network

/-- The host name of each of `peers` leads to that peer's site, and the peer there is in the state
that `view` gives. -/
structure Hosts (n : Network) (site : Identifier → Site) (peers : Finset Identifier)
    (view : Identifier → PeerState) : Prop where
  reached : ∀ p ∈ peers, n.dial (Exchange.addressOf p) = .ok (site p).seat
  peer : ∀ p ∈ peers, n.peer? (site p).seat = some ((site p).peer p (view p))

/-- Each of `peers` serves. -/
def Awake (n : Network) (site : Identifier → Site) (peers : Finset Identifier) : Prop :=
  ∀ p ∈ peers, n.presence? (site p).seat = some .serving

/-- The discovery node of some name is the node with the number `desk`, serves, sends under the
header `h` and knows the members in `r`. -/
structure Registers (n : Network) (discovery : String) (desk : Nat) (h : Header) (r : Registry) :
    Prop where
  reached : n.dial (Rendezvous.addressOf discovery) = .ok desk
  serving : n.presence? desk = some .serving
  service : n.service? desk = some (.discovery ⟨h, r⟩)

variable {n : Network} {site : Identifier → Site} {peers : Finset Identifier}
  {view : Identifier → PeerState} {p q : Identifier}

/-! ## Patience -/

/-- The greatest of some numbers is not exceeded by the one it started from, nor by any other. -/
theorem le_foldl_max (f : Node → Nat) (l : List Node) :
    ∀ start, start ≤ l.foldl (fun most node => most.max (f node)) start ∧
      ∀ node ∈ l, f node ≤ l.foldl (fun most node => most.max (f node)) start := by
  induction l with
  | nil => exact fun start => ⟨Nat.le_refl start, fun node h => absurd h List.not_mem_nil⟩
  | cons first rest ih =>
      intro start
      obtain ⟨hstart, hrest⟩ := ih (start.max (f first))
      refine ⟨Nat.le_trans (Nat.le_max_left _ _) hstart, ?_⟩
      intro node hnode
      rcases List.mem_cons.1 hnode with rfl | hnode
      · exact Nat.le_trans (Nat.le_max_right _ _) hstart
      · exact hrest node hnode

theorem length_le_patience (n : Network) : n.nodes.length + 2 ≤ n.patience :=
  Nat.add_le_add_right (le_foldl_max _ n.nodes n.nodes.length).1 2

theorem maxHops_le_patience {i : Nat} {p : Peer} (h : n.peer? i = some p) :
    p.maxHops + 2 ≤ n.patience := by
  obtain ⟨node, hnode, hp⟩ := Option.bind_eq_some_iff.1 h
  have hle := (le_foldl_max (fun node => (node.peer?.map (·.maxHops)).getD 0) n.nodes
    n.nodes.length).2 node (List.mem_of_getElem? hnode)
  rw [hp] at hle
  exact Nat.add_le_add_right hle 2

namespace Hosts

/-- Two peers are never at one site. -/
theorem seat_inj (h : n.Hosts site peers view) (hp : p ∈ peers) (hq : q ∈ peers)
    (heq : (site p).seat = (site q).seat) : p = q := by
  have hpeer := h.peer p hp
  rw [heq, h.peer q hq] at hpeer
  exact (congrArg Peer.identifier (Option.some.inj hpeer)).symm

theorem mono {fewer : Finset Identifier} (h : n.Hosts site peers view) (hsub : fewer ⊆ peers) :
    n.Hosts site fewer view :=
  ⟨fun p hp => h.reached p (hsub hp), fun p hp => h.peer p (hsub hp)⟩

theorem read (h : n.Hosts site peers view) (hp : p ∈ peers) :
    (Seat.peer (site p).seat).read n = view p := by
  show ((n.peer? (site p).seat).map (·.state)).getD default = view p
  rw [h.peer p hp]
  rfl

theorem service (h : n.Hosts site peers view) (hp : p ∈ peers) :
    ∃ rendezvous, n.service? (site p).seat = some (.peer ((site p).peer p (view p)) rendezvous) :=
  service?_of_peer? (h.peer p hp)

/-- A change of one peer's state changes the view of that peer alone. -/
theorem changePeer (h : n.Hosts site peers view) (hp : p ∈ peers) (f : PeerState → PeerState) :
    (n.changePeer (site p).seat f).Hosts site peers
      (Function.update view p (f (view p))) where
  reached := by
    intro q hq
    rw [dial_changePeer, h.reached q hq]
  peer := by
    intro q hq
    rw [peer?_changePeer, h.peer q hq]
    by_cases hqp : q = p
    · rw [hqp, if_pos rfl, Function.update_self]
      rfl
    · rw [if_neg fun heq => hqp (h.seat_inj hp hq heq).symm, Function.update_of_ne hqp]

theorem consult {j : Nat} {d : Discovery} (h : n.Hosts site peers view)
    (hd : n.service? j = some (.discovery d)) (d' : Discovery) :
    (n.consult j d').Hosts site peers view where
  reached := by
    intro p hp
    rw [dial_consult, h.reached p hp]
  peer := by
    intro p hp
    rw [peer?_consult hd, h.peer p hp]

theorem serveFrom (h : n.Hosts site peers view) (i : Nat) :
    (n.serveFrom i).Hosts site peers view where
  reached := by
    intro p hp
    rw [dial_serveFrom, h.reached p hp]
  peer := by
    intro p hp
    rw [peer?_serveFrom, h.peer p hp]

theorem card_le_patience (h : n.Hosts site peers view) : peers.card + 2 ≤ n.patience := by
  have hinj : Set.InjOn (fun p => (site p).seat) (peers : Set Identifier) :=
    fun p hp q hq => h.seat_inj hp hq
  have hmaps : ∀ p ∈ peers, (site p).seat ∈ Finset.range n.nodes.length := by
    intro p hp
    obtain ⟨node, hnode, -⟩ := Option.bind_eq_some_iff.1 (h.peer p hp)
    exact Finset.mem_range.2 (List.getElem?_eq_some_iff.1 hnode).1
  have hcard := Finset.card_le_card_of_injOn _ hmaps hinj
  rw [Finset.card_range] at hcard
  have hle := n.length_le_patience
  omega

/-- A section of a peer's task goes on with the state it leaves. -/
theorem assures_locked {Inv : Network → Prop} {patience : Nat} {α : Type}
    {Q : Network → α → Prop} {f : PeerState → PeerState} {next : PeerState → NodeTask PeerState α}
    (h : n.Hosts site peers view) (hp : p ∈ peers) (hinv : Inv n)
    (hnext : Assures Inv patience (.peer (site p).seat) (next (f (view p)))
      (n.changePeer (site p).seat f) Q) :
    Assures Inv patience (.peer (site p).seat) (.locked f next) n Q := by
  apply Assures.locked hinv
  have hread := (h.changePeer hp f).read hp
  rw [Function.update_self] at hread
  show Assures Inv patience _ (next ((Seat.peer (site p).seat).read
    (n.changePeer (site p).seat f))) (n.changePeer (site p).seat f) Q
  rw [hread]
  exact hnext

/-- A section that only reads changes nothing. -/
theorem assures_read {Inv : Network → Prop} {patience : Nat} {α : Type}
    {Q : Network → α → Prop} {next : PeerState → NodeTask PeerState α}
    (h : n.Hosts site peers view) (hp : p ∈ peers) (hinv : Inv n)
    (hnext : Assures Inv patience (.peer (site p).seat) (next (view p)) n Q) :
    Assures Inv patience (.peer (site p).seat) (.locked id next) n Q := by
  apply h.assures_locked hp hinv
  rw [changePeer_id]
  exact hnext

end Hosts

namespace Awake

theorem mono {fewer : Finset Identifier} (h : n.Awake site peers) (hsub : fewer ⊆ peers) :
    n.Awake site fewer :=
  fun p hp => h p (hsub hp)

theorem changePeer (h : n.Awake site peers) (i : Nat) (f : PeerState → PeerState) :
    (n.changePeer i f).Awake site peers := by
  intro p hp
  rw [presence?_changePeer, h p hp]

theorem consult (h : n.Awake site peers) (j : Nat) (d : Discovery) :
    (n.consult j d).Awake site peers := by
  intro p hp
  rw [presence?_consult, h p hp]

end Awake

namespace Registers

variable {discovery : String} {desk : Nat} {h : Header} {r : Registry}

/-- A discovery node knows one set of members. -/
theorem unique {r' : Registry} (hr : n.Registers discovery desk h r)
    (hr' : n.Registers discovery desk h r') : r = r' := by
  have hservice := hr.service
  rw [hr'.service] at hservice
  injection hservice with hservice
  injection hservice with hd
  exact (congrArg Discovery.registry hd).symm

theorem changePeer (hr : n.Registers discovery desk h r) (i : Nat) (f : PeerState → PeerState) :
    (n.changePeer i f).Registers discovery desk h r where
  reached := by rw [dial_changePeer, hr.reached]
  serving := by rw [presence?_changePeer, hr.serving]
  service := service?_changePeer_of_discovery n i f hr.service

theorem consult (hr : n.Registers discovery desk h r) (r' : Registry) :
    (n.consult desk ⟨h, r'⟩).Registers discovery desk h r' where
  reached := by rw [dial_consult, hr.reached]
  serving := by rw [presence?_consult, hr.serving]
  service := service?_consult hr.service _

theorem serveFrom (hr : n.Registers discovery desk h r) (i : Nat) :
    (n.serveFrom i).Registers discovery desk h r where
  reached := by rw [dial_serveFrom, hr.reached]
  serving := presence?_serveFrom_of_serving n i hr.serving
  service := by rw [service?_serveFrom, hr.service]

end Registers

end Network

end ChordRing
