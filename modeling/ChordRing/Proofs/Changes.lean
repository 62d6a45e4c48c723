import Mathlib.Tactic
import ChordRing.Network.Lifecycle

/-!
# Changes of a network

A network changes in the state of one peer (`changePeer`), in one discovery node and the lots
(`consult`), or in the presence of one node (`serveFrom`). For each of them, what it leaves alone:
where an address leads, who is present, which peer a node is, which discovery node.
-/

namespace ChordRing

/-! ## Changes of one node -/

namespace Node

theorem changeState_id (node : Node) : node.changeState id = node := by
  rcases node with ⟨endpoint, presence, service⟩
  cases service <;> rfl

theorem endpoint_changeState (f : PeerState → PeerState) (node : Node) :
    (node.changeState f).endpoint = node.endpoint := by
  rcases node with ⟨endpoint, presence, service⟩
  cases service <;> rfl

theorem presence_changeState (f : PeerState → PeerState) (node : Node) :
    (node.changeState f).presence = node.presence := by
  rcases node with ⟨endpoint, presence, service⟩
  cases service <;> rfl

/-- What of a node decides whether an address leads to it. -/
def sign (node : Node) : Endpoint × Bool := (node.endpoint, node.presence != .closed)

theorem sign_changeState (f : PeerState → PeerState) (node : Node) :
    (node.changeState f).sign = node.sign := by
  rw [sign, sign, endpoint_changeState, presence_changeState]

theorem changeState_changeState (f g : PeerState → PeerState) (node : Node) :
    (node.changeState f).changeState g = node.changeState (g ∘ f) := by
  rcases node with ⟨endpoint, presence, service⟩
  cases service <;> rfl

theorem changeState_congr {f g : PeerState → PeerState} {node : Node} {p : Peer}
    (hp : node.peer? = some p) (h : f p.state = g p.state) :
    node.changeState f = node.changeState g := by
  rcases node with ⟨endpoint, presence, service⟩
  cases service with
  | peer q rendezvous =>
      obtain rfl : q = p := Option.some.inj hp
      simp only [changeState, h]
  | discovery d => rfl
  | script replies received => rfl

theorem peer?_changeState (f : PeerState → PeerState) (node : Node) :
    (node.changeState f).peer? = node.peer?.map fun p => { p with state := f p.state } := by
  rcases node with ⟨endpoint, presence, service⟩
  cases service <;> rfl

end Node

namespace Network

theorem changePeer_id (n : Network) (i : Nat) : n.changePeer i id = n := by
  have hid : Node.changeState id = id := funext Node.changeState_id
  rcases n with ⟨nodes, connected, lots, names⟩
  simp only [changePeer, hid, List.modify_id]

/-- Two changes of one peer in a row are one. -/
theorem changePeer_changePeer (n : Network) (i : Nat) (f g : PeerState → PeerState) :
    (n.changePeer i f).changePeer i g = n.changePeer i (g ∘ f) := by
  have hcomp : Node.changeState g ∘ Node.changeState f = Node.changeState (g ∘ f) :=
    funext (Node.changeState_changeState f g)
  rw [changePeer, changePeer, changePeer, List.modify_modify_eq, hcomp]

/-- Only what a change makes of the peer's state matters. -/
theorem changePeer_congr {n : Network} {i : Nat} {p : Peer} {f g : PeerState → PeerState}
    (hp : n.peer? i = some p) (h : f p.state = g p.state) :
    n.changePeer i f = n.changePeer i g := by
  obtain ⟨node, hnode, hpeer⟩ := Option.bind_eq_some_iff.1 hp
  have hnodes : n.nodes.modify i (Node.changeState f) = n.nodes.modify i (Node.changeState g) := by
    apply List.ext_getElem?
    intro j
    rw [List.getElem?_modify, List.getElem?_modify]
    by_cases hij : i = j
    · subst hij
      simp [hnode, Node.changeState_congr hpeer h]
    · simp [hij]
  rw [changePeer, changePeer, hnodes]

/-- What no node's change shows is not shown by the list of nodes. -/
theorem map_modify {γ : Type} (key : Node → γ) {f : Node → Node} {i : Nat} (l : List Node)
    (h : ∀ node, l[i]? = some node → key (f node) = key node) :
    (l.modify i f).map key = l.map key := by
  apply List.ext_getElem?
  intro j
  rw [List.getElem?_map, List.getElem?_map, List.getElem?_modify]
  by_cases hij : i = j
  · subst hij
    cases hnode : l[i]? with
    | none => rfl
    | some node => simp [h node hnode]
  · simp [hij]

theorem listener?_congr {n m : Network} (h : n.nodes.map Node.sign = m.nodes.map Node.sign)
    (endpoint : Endpoint) : n.listener? endpoint = m.listener? endpoint := by
  have hsign : ∀ l : List Node, l.findIdx? (fun node => node.endpoint == endpoint &&
      node.presence != .closed) = (l.map Node.sign).findIdx? fun s => s.1 == endpoint && s.2 := by
    intro l
    rw [List.findIdx?_map]
    rfl
  rw [listener?, listener?, hsign, hsign, h]

theorem dial_congr {n m : Network} (h : n.nodes.map Node.sign = m.nodes.map Node.sign)
    (hconnected : n.connected = m.connected) (hnames : n.names = m.names) (address : String) :
    n.dial address = m.dial address := by
  have hlistener : n.listener? = m.listener? := funext (listener?_congr h)
  unfold dial
  simp only [hlistener, hconnected, hnames]

/-- A node that an address leads to is not closed. -/
theorem exists_open_of_dial {n : Network} {address : String} {i : Nat}
    (h : n.dial address = .ok i) : ∃ node, n.nodes[i]? = some node ∧ node.presence ≠ .closed := by
  unfold dial at h
  cases hresolve : Endpoint.resolve n.names address with
  | error fault =>
      rw [hresolve] at h
      cases h
  | ok endpoints =>
      simp only [hresolve, bind, Except.bind] at h
      by_cases hconnected : n.connected = true
      · rw [if_pos hconnected] at h
        cases hfound : endpoints.findSome? n.listener? with
        | none =>
            rw [hfound] at h
            cases h
        | some j =>
            rw [hfound] at h
            obtain rfl : j = i := Except.ok.inj h
            obtain ⟨endpoint, -, hlistener⟩ := List.exists_of_findSome?_eq_some hfound
            obtain ⟨hj, hopen, -⟩ := List.findIdx?_eq_some_iff_getElem.1 hlistener
            rw [Bool.and_eq_true, bne_iff_ne] at hopen
            exact ⟨n.nodes[j], List.getElem?_eq_getElem hj, hopen.2⟩
      · rw [if_neg hconnected] at h
        cases h

theorem service?_of_peer? {n : Network} {i : Nat} {p : Peer} (h : n.peer? i = some p) :
    ∃ rendezvous, n.service? i = some (.peer p rendezvous) := by
  obtain ⟨node, hnode, hp⟩ := Option.bind_eq_some_iff.1 h
  rcases node with ⟨endpoint, presence, service⟩
  cases service with
  | peer q rendezvous =>
      obtain rfl : q = p := Option.some.inj hp
      exact ⟨rendezvous, by rw [service?, hnode, Option.map_some]⟩
  | discovery d => exact absurd hp (by simp [Node.peer?])
  | script replies received => exact absurd hp (by simp [Node.peer?])

theorem peer?_of_service? {n : Network} {i : Nat} {p : Peer} {rendezvous : Option String}
    (h : n.service? i = some (.peer p rendezvous)) : n.peer? i = some p := by
  obtain ⟨node, hnode, hservice⟩ := Option.map_eq_some_iff.1 h
  rw [peer?, hnode, Option.bind_some, Node.peer?, hservice]

/-! ## The state of one peer -/

section ChangePeer

variable (n : Network) (i : Nat) (f : PeerState → PeerState)

@[simp] theorem dial_changePeer (address : String) :
    (n.changePeer i f).dial address = n.dial address := by
  have hsign : (n.changePeer i f).nodes.map Node.sign = n.nodes.map Node.sign :=
    map_modify Node.sign n.nodes fun node _ => Node.sign_changeState f node
  exact dial_congr hsign rfl rfl address

@[simp] theorem presence?_changePeer (j : Nat) :
    (n.changePeer i f).presence? j = n.presence? j := by
  rw [presence?, presence?, ← List.getElem?_map, ← List.getElem?_map]
  exact congrArg (·[j]?) (map_modify Node.presence n.nodes fun node _ =>
    Node.presence_changeState f node)

theorem peer?_changePeer (j : Nat) :
    (n.changePeer i f).peer? j =
      if i = j then (n.peer? j).map fun p => { p with state := f p.state } else n.peer? j := by
  simp only [peer?, changePeer, List.getElem?_modify]
  by_cases hij : i = j
  · simp only [if_pos hij]
    cases n.nodes[j]? with
    | none => rfl
    | some node => exact Node.peer?_changeState f node
  · simp only [if_neg hij]
    cases n.nodes[j]? <;> rfl

theorem service?_changePeer_of_discovery {j : Nat} {d : Discovery}
    (h : n.service? j = some (.discovery d)) :
    (n.changePeer i f).service? j = some (.discovery d) := by
  obtain ⟨node, hnode, hservice⟩ := Option.map_eq_some_iff.1 h
  rw [service?, changePeer]
  simp only [List.getElem?_modify, hnode]
  by_cases hij : i = j
  · simp [hij, Node.changeState, hservice]
  · simp [hij, hservice]

variable {n i} in
theorem service?_changePeer_of_peer {p : Peer} {rendezvous : Option String}
    (h : n.service? i = some (.peer p rendezvous)) :
    (n.changePeer i f).service? i = some (.peer { p with state := f p.state } rendezvous) := by
  obtain ⟨node, hnode, hservice⟩ := Option.map_eq_some_iff.1 h
  rw [service?, changePeer]
  simp only [List.getElem?_modify, hnode]
  simp [Node.changeState, hservice]

theorem service?_changePeer_of_ne {j : Nat} (h : j ≠ i) :
    (n.changePeer i f).service? j = n.service? j := by
  simp only [service?, changePeer, List.getElem?_modify, if_neg h.symm]
  cases n.nodes[j]? <;> rfl

end ChangePeer

/-! ## The service of one node -/

theorem service?_setService_self {n : Network} {i : Nat} {old : Service}
    (h : n.service? i = some old) (service : Service) :
    (n.setService i service).service? i = some service := by
  obtain ⟨node, hnode, -⟩ := Option.map_eq_some_iff.1 h
  simp only [service?, setService, List.getElem?_modify, hnode]
  rfl

theorem service?_setService_of_ne {n : Network} {i j : Nat} (h : j ≠ i) (service : Service) :
    (n.setService i service).service? j = n.service? j := by
  simp only [service?, setService, List.getElem?_modify, if_neg h.symm]
  cases n.nodes[j]? <;> rfl

theorem nodes_setService_self {n : Network} {i : Nat} {service : Service}
    (h : n.service? i = some service) : (n.setService i service).nodes = n.nodes := by
  obtain ⟨node, hnode, rfl⟩ := Option.map_eq_some_iff.1 h
  apply List.ext_getElem?
  intro j
  rw [setService, List.getElem?_modify]
  by_cases hij : i = j
  · subst hij
    rw [hnode]
    simp
  · simp [hij]

/-! ## The discovery node and the lots -/

section Consult

/-- The network after a discovery node served a message: a lot is drawn, and the node has become
`d`. -/
def consult (n : Network) (j : Nat) (d : Discovery) : Network :=
  n.draw.2.setService j (.discovery d)

variable {n : Network} {j : Nat} {d : Discovery}

theorem dial_consult (d' : Discovery) (address : String) :
    (n.consult j d').dial address = n.dial address := by
  have hsign : (n.consult j d').nodes.map Node.sign = n.nodes.map Node.sign :=
    map_modify Node.sign n.nodes fun _ _ => rfl
  exact dial_congr hsign rfl rfl address

theorem presence?_consult (d' : Discovery) (i : Nat) :
    (n.consult j d').presence? i = n.presence? i := by
  rw [presence?, presence?, ← List.getElem?_map, ← List.getElem?_map]
  exact congrArg (·[i]?) (map_modify Node.presence n.nodes fun _ _ => rfl)

theorem peer?_consult (h : n.service? j = some (.discovery d)) (d' : Discovery) (i : Nat) :
    (n.consult j d').peer? i = n.peer? i := by
  obtain ⟨node, hnode, hservice⟩ := Option.map_eq_some_iff.1 h
  have hpeer : (n.consult j d').nodes.map Node.peer? = n.nodes.map Node.peer? := by
    apply map_modify Node.peer? n.nodes
    intro node' hnode'
    obtain rfl : node = node' := Option.some.inj (hnode.symm.trans hnode')
    rw [Node.peer?, Node.peer?, hservice]
  -- which peer a node is can be read off a list that does not change
  have hbind : ∀ m : Network, m.peer? i = (m.nodes.map Node.peer?)[i]?.join := by
    intro m
    rw [List.getElem?_map, peer?]
    cases m.nodes[i]? <;> rfl
  rw [hbind, hbind, hpeer]

/-- A discovery node that stays as it is costs a lot and nothing else. -/
theorem nodes_consult_self (h : n.service? j = some (.discovery d)) :
    (n.consult j d).nodes = n.nodes :=
  nodes_setService_self (n := n.draw.2) h

theorem service?_consult (h : n.service? j = some (.discovery d)) (d' : Discovery) :
    (n.consult j d').service? j = some (.discovery d') := by
  obtain ⟨node, hnode, -⟩ := Option.map_eq_some_iff.1 h
  rw [service?, consult, setService]
  simp only [draw, List.getElem?_modify, hnode]
  rfl

end Consult

/-! ## Presence -/

section ServeFrom

variable (n : Network) (i : Nat)

/-- Making a node serve changes at most its presence, from bound to serving. -/
theorem serveFrom_cases :
    n.serveFrom i = n ∨
      n.presence? i = some .bound ∧ n.serveFrom i = n.setPresence i .serving := by
  unfold serveFrom
  by_cases h : n.presence? i = some .bound
  · exact Or.inr ⟨h, if_pos h⟩
  · exact Or.inl (if_neg h)

theorem dial_serveFrom (address : String) : (n.serveFrom i).dial address = n.dial address := by
  rcases serveFrom_cases n i with h | ⟨hbound, h⟩
  · rw [h]
  · rw [h]
    have hsign : (n.setPresence i .serving).nodes.map Node.sign = n.nodes.map Node.sign := by
      apply map_modify Node.sign n.nodes
      intro node hnode
      have hpresence : node.presence = .bound := by
        rw [presence?, hnode] at hbound
        exact Option.some.inj hbound
      rw [Node.sign, Node.sign, hpresence]
      rfl
    exact dial_congr hsign rfl rfl address

theorem peer?_serveFrom (j : Nat) : (n.serveFrom i).peer? j = n.peer? j := by
  rcases serveFrom_cases n i with h | ⟨-, h⟩
  · rw [h]
  · rw [h, peer?, peer?, setPresence]
    simp only [List.getElem?_modify]
    by_cases hij : i = j
    · simp only [if_pos hij]
      cases n.nodes[j]? <;> rfl
    · simp only [if_neg hij]
      cases n.nodes[j]? <;> rfl

theorem service?_serveFrom (j : Nat) : (n.serveFrom i).service? j = n.service? j := by
  rcases serveFrom_cases n i with h | ⟨-, h⟩
  · rw [h]
  · rw [h, service?, service?, ← List.getElem?_map, ← List.getElem?_map]
    exact congrArg (·[j]?) (map_modify Node.service n.nodes fun _ _ => rfl)

theorem presence?_serveFrom_of_serving {j : Nat} (h : n.presence? j = some .serving) :
    (n.serveFrom i).presence? j = some .serving := by
  rcases serveFrom_cases n i with hs | ⟨hbound, hs⟩
  · rw [hs, h]
  · have hij : i ≠ j := by
      rintro rfl
      rw [h] at hbound
      exact Presence.noConfusion (Option.some.inj hbound)
    rw [hs, ← h, presence?, presence?, setPresence]
    simp only [List.getElem?_modify, if_neg hij]
    cases n.nodes[j]? <;> rfl

/-- A node that takes connections serves once it is made to. -/
theorem presence?_serveFrom_self {address : String} (h : n.dial address = .ok i) :
    (n.serveFrom i).presence? i = some .serving := by
  obtain ⟨node, hnode, hopen⟩ := exists_open_of_dial h
  unfold serveFrom
  by_cases hbound : n.presence? i = some .bound
  · rw [if_pos hbound, presence?, setPresence]
    simp only [List.getElem?_modify, hnode]
    rfl
  · rw [if_neg hbound]
    rw [presence?, hnode] at hbound ⊢
    cases hp : node.presence with
    | bound => exact absurd (by rw [Option.map_some, hp]) hbound
    | serving => rw [Option.map_some, hp]
    | closed => exact absurd hp hopen

end ServeFrom

end Network

end ChordRing
