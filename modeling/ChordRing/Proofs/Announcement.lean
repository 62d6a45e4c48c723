import ChordRing.Proofs.Search

/-!
# Announcements

What the notifications of a join do. `Network.Scene` gathers where the peers and the discovery node
are and what they know. A peer that answers in one section changes its own state and nothing else
(`Network.Scene.delivers_section`). An announcement is passed on from each member to its successor
and ends before the newcomer, so that in the end every member from the first one on has learned of
it (`Network.Scene.delivers_flood`); at every point on the way each member has learned of it or not.
-/

namespace ChordRing

open RingId

/-- Who takes part and where: the sites of all peers, and the discovery node by its name, its number
and its header. -/
structure Cast where
  site : Identifier → Site
  peers : Finset Identifier
  discovery : String
  desk : Nat
  header : Header

namespace Network

/-- All peers of the cast are in the states that `view` gives, those in `awake` serve, and the
discovery node knows the members in `r`. -/
structure Scene (n : Network) (cast : Cast) (awake : Finset Identifier)
    (view : Identifier → PeerState) (r : Registry) : Prop where
  hosts : n.Hosts cast.site cast.peers view
  awake : n.Awake cast.site awake
  registers : n.Registers cast.discovery cast.desk cast.header r

namespace Scene

variable {n : Network} {cast : Cast} {awake : Finset Identifier} {view : Identifier → PeerState}
  {r : Registry} {p : Identifier} {Inv : Network → Prop} {patience : Nat}

theorem changePeer (h : n.Scene cast awake view r) (hp : p ∈ cast.peers)
    (f : PeerState → PeerState) :
    (n.changePeer (cast.site p).seat f).Scene cast awake (Function.update view p (f (view p)))
      r where
  hosts := h.hosts.changePeer hp f
  awake := h.awake.changePeer _ f
  registers := h.registers.changePeer _ f

theorem consult (h : n.Scene cast awake view r) (r' : Registry) :
    (n.consult cast.desk ⟨cast.header, r'⟩).Scene cast awake view r' where
  hosts := h.hosts.consult h.registers.service _
  awake := h.awake.consult _ _
  registers := h.registers.consult r'

/-- A peer that answers in one section changes its own state, and its reply comes back. -/
theorem delivers_section (h : n.Scene cast awake view r) (hpatience : 0 < patience)
    (hp : p ∈ cast.peers) (hawake : p ∈ awake) {m : Message} (hm : m.Fits)
    {f : PeerState → PeerState} {g : PeerState → Message}
    (hrun : (((cast.site p).peer p (view p)).answer m).run =
      .locked f fun s => .done (.ok (some (g s))))
    (hreply : (g (f (view p))).Fits) (hinv : Inv n)
    (hinv' : Inv (n.changePeer (cast.site p).seat f)) :
    Delivers Inv patience n ⟨Exchange.addressOf p, m⟩ fun n' outcome =>
      n' = n.changePeer (cast.site p).seat f ∧ outcome = .ok (some (g (f (view p)))) := by
  obtain ⟨patience, rfl⟩ := Nat.exists_eq_succ_of_ne_zero (Nat.ne_zero_of_lt hpatience)
  obtain ⟨rendezvous, hservice⟩ := h.hosts.service hp
  refine .of_peer (h.hosts.reached p hp) (h.awake p hawake) hservice hm
    (R := fun n' result => n' = n.changePeer (cast.site p).seat f ∧
      result = .ok (some (g (f (view p))))) ?_ ?_
  · rw [hrun]
    exact h.hosts.assures_locked hp hinv (.done hinv' ⟨rfl, rfl⟩)
  · rintro n' result ⟨rfl, rfl⟩
    exact ⟨rfl, readReply_encode hreply⟩

end Scene

end Network

/-! ## Learning of a newcomer one by one -/

/-- The states after an announcement of `x` that started at `p`: the members of `ring` from `p` on
up to `x` have learned of it. -/
def swept (ring : Finset Identifier) (x p : Identifier) (view : Identifier → PeerState)
    (q : Identifier) : PeerState :=
  if q ∈ ring ∧ distance q.id x.id ≤ distance p.id x.id then (view q).learn x else view q

/-- Some of the members of `ring` from `p` on up to `x` have learned of `x`, and nothing else has
changed. -/
def Sweeping (ring : Finset Identifier) (x p : Identifier) (view now : Identifier → PeerState) :
    Prop :=
  ∀ q, now q = view q ∨
    q ∈ ring ∧ distance q.id x.id ≤ distance p.id x.id ∧ now q = (view q).learn x

section Sweep

variable {ring : Finset Identifier} {x p q s : Identifier} {view now : Identifier → PeerState}

/-- A member behind `p` up to `x` is not met before the next one behind `p`. -/
theorem distance_le_of_before (free : ∀ p ∈ ring, p.id ≠ x.id)
    (h : Next (insert x ring) p s) (hq : q ∈ ring) (hqp : q.id ≠ p.id)
    (hle : distance q.id x.id ≤ distance p.id x.id) :
    distance p.id s.id ≤ distance p.id q.id ∧ distance p.id q.id < distance p.id x.id := by
  have hnext := h.distance_le (Finset.mem_insert_of_mem hq) hqp
  have hne : distance p.id q.id ≠ distance p.id x.id := fun heq => free q hq (distance_inj.1 heq)
  have hlt := distance_lt p.id q.id
  rw [distance_eq_ite p.id q.id x.id] at hle
  refine ⟨hnext.2, ?_⟩
  split at hle <;> omega

/-- The next member behind `p` is closer to `x`, unless it is `x`. -/
theorem next_before_newcomer (free : ∀ p ∈ ring, p.id ≠ x.id) (hp : p ∈ ring)
    (h : Next (insert x ring) p s) (hsx : s ≠ x) :
    s ∈ ring ∧ distance s.id x.id = distance p.id x.id - distance p.id s.id ∧
      0 < distance p.id s.id ∧ distance p.id s.id ≤ distance p.id x.id := by
  have hs : s ∈ ring := (Finset.mem_insert.1 h.mem).resolve_left hsx
  obtain ⟨hpos, hle⟩ := h.distance_le (Finset.mem_insert_self x ring) (free p hp).symm
  exact ⟨hs, distance_of_le hle, hpos, hle⟩

/-- With a newcomer on the ring, no member comes next to itself. -/
theorem next_ne_self (free : ∀ p ∈ ring, p.id ≠ x.id) (hp : p ∈ ring)
    (h : Next (insert x ring) p s) : s ≠ p := by
  rintro rfl
  have hpos := (h.distance_le (Finset.mem_insert_self x ring) (free s hp).symm).1
  rw [distance_self] at hpos
  exact Nat.lt_irrefl 0 hpos

/-- Nobody's successor changes when a member learns of the newcomer. -/
theorem successor_update_learn (view : Identifier → PeerState) (p x q : Identifier) :
    (Function.update view p ((view p).learn x) q).successor = (view q).successor := by
  by_cases hqp : q = p
  · rw [hqp, Function.update_self]
    rfl
  · rw [Function.update_of_ne hqp]

/-- The announcement ends at the member that `x` comes next to. -/
theorem update_learn_eq_swept (distinct : DistinctIds ring) (free : ∀ p ∈ ring, p.id ≠ x.id)
    (hp : p ∈ ring) (h : Next (insert x ring) p x) (view : Identifier → PeerState) :
    Function.update view p ((view p).learn x) = swept ring x p view := by
  funext q
  by_cases hqp : q = p
  · rw [hqp, Function.update_self, swept, if_pos ⟨hp, Nat.le_refl _⟩]
  · rw [Function.update_of_ne hqp, swept, if_neg]
    rintro ⟨hq, hle⟩
    have hid : q.id ≠ p.id := fun heq => hqp (distinct hq hp heq)
    have hbefore := distance_le_of_before free h hq hid hle
    omega

/-- What starts at `p` goes on from the next member behind it. -/
theorem swept_update_learn (distinct : DistinctIds ring) (free : ∀ p ∈ ring, p.id ≠ x.id)
    (hp : p ∈ ring) (h : Next (insert x ring) p s) (hsx : s ≠ x)
    (view : Identifier → PeerState) :
    swept ring x s (Function.update view p ((view p).learn x)) = swept ring x p view := by
  obtain ⟨-, hdist, hpos, hpx⟩ := next_before_newcomer free hp h hsx
  funext q
  by_cases hqp : q = p
  · have hpast : ¬ (p ∈ ring ∧ distance p.id x.id ≤ distance s.id x.id) := by omega
    rw [hqp, swept, swept, if_neg hpast, if_pos ⟨hp, Nat.le_refl _⟩, Function.update_self]
  · rw [swept, swept, Function.update_of_ne hqp]
    -- a member other than `p` is on the arc from `p` if and only if it is on the arc from `s`
    refine if_congr (and_congr_right fun hq => ⟨fun hle => by omega, fun hle => ?_⟩) rfl rfl
    have hid : q.id ≠ p.id := fun heq => hqp (distinct hq hp heq)
    obtain ⟨hsq, hqx⟩ := distance_le_of_before free h hq hid hle
    rw [distance_of_le (Nat.le_of_lt hqx)]
    omega

theorem Sweeping.refl (ring : Finset Identifier) (x p : Identifier)
    (view : Identifier → PeerState) : Sweeping ring x p view view := fun _ => Or.inl rfl

theorem sweeping_update_learn (hp : p ∈ ring) (view : Identifier → PeerState) :
    Sweeping ring x p view (Function.update view p ((view p).learn x)) := by
  intro q
  by_cases hqp : q = p
  · rw [hqp, Function.update_self]
    exact Or.inr ⟨hp, Nat.le_refl _, rfl⟩
  · exact Or.inl (Function.update_of_ne hqp _ _)

theorem sweeping_swept (ring : Finset Identifier) (x p : Identifier)
    (view : Identifier → PeerState) : Sweeping ring x p view (swept ring x p view) := by
  intro q
  by_cases hq : q ∈ ring ∧ distance q.id x.id ≤ distance p.id x.id
  · exact Or.inr ⟨hq.1, hq.2, if_pos hq⟩
  · exact Or.inl (if_neg hq)

theorem Sweeping.of_update_learn (hp : p ∈ ring)
    (hlt : distance s.id x.id < distance p.id x.id)
    (h : Sweeping ring x s (Function.update view p ((view p).learn x)) now) :
    Sweeping ring x p view now := by
  intro q
  rcases h q with heq | ⟨hq, hle, heq⟩
  · rw [heq]
    exact sweeping_update_learn hp view q
  · have hqp : q ≠ p := by
      rintro rfl
      omega
    rw [Function.update_of_ne hqp] at heq
    exact Or.inr ⟨hq, by omega, heq⟩

end Sweep

/-! ## The announcement on the network -/

namespace Peer

/-- What a peer does with the announcement of another one. -/
theorem answer_join (peer : Peer) (h : Header) {x : Identifier} (hx : x ≠ peer.identifier) :
    (peer.answer ⟨h, .networkJoinNotification x⟩).run = .locked (·.learn x) fun s =>
      if s.successor = x ∨ s.successor = peer.identifier then .done (.ok none)
      else
        .call ⟨Exchange.addressOf s.successor, ⟨peer.header, .networkJoinNotification x⟩⟩ fun
          | .ok _ => .done (.ok none)
          | .error error => .done (.error (.network error)) := by
  show (peer.passOnJoin x).run = _
  rw [passOnJoin, if_neg hx]
  refine congrArg (Task.locked _) (funext fun s => ?_)
  show ExceptT.run (if s.successor = x ∨ s.successor = peer.identifier then pure none
    else (do
      (Exchange.notify (Exchange.addressOf s.successor)
        ⟨peer.header, .networkJoinNotification x⟩).adapt .network
      pure none) : Answer) = _
  split
  · rfl
  · refine congrArg (Task.call _) (funext fun outcome => ?_)
    cases outcome <;> rfl

/-- A peer does nothing with the announcement of itself. -/
theorem answer_join_self (peer : Peer) (h : Header) :
    (peer.answer ⟨h, .networkJoinNotification peer.identifier⟩).run = .done (.ok none) := by
  show (peer.passOnJoin peer.identifier).run = _
  rw [passOnJoin, if_pos rfl]
  rfl

end Peer

namespace Network

/-- **An announcement reaches every member from `p` on up to the newcomer**, and is over then. -/
theorem Scene.delivers_flood {cast : Cast} {awake ring : Finset Identifier} {r : Registry}
    {x : Identifier} {Inv : Network → Prop} (distinct : DistinctIds ring)
    (free : ∀ p ∈ ring, p.id ≠ x.id) (hpeers : ring ⊆ cast.peers) (hawake : ring ⊆ awake)
    (carries : ∀ p ∈ ring, (cast.site p).header.Carries x) :
    ∀ (patience : Nat) (n : Network) (view : Identifier → PeerState) (h : Header) (p : Identifier),
      n.Scene cast awake view r → h.Carries x → p ∈ ring →
      (∀ q ∈ ring, Next (insert x ring) q (view q).successor) →
      (Route.ahead ring x.id p).card < patience →
      (∀ n' now, n'.Scene cast awake now r → Sweeping ring x p view now → Inv n') →
      Delivers Inv patience n ⟨Exchange.addressOf p, ⟨h, .networkJoinNotification x⟩⟩
        fun n' outcome => outcome = .ok none ∧ n'.Scene cast awake (swept ring x p view) r := by
  -- induction on the patience, which exceeds the number of members still ahead of `p`
  intro patience
  induction patience with
  | zero => exact fun n view h p _ _ _ _ hcard => absurd hcard (Nat.not_lt_zero _)
  | succ patience ih =>
      intro n view h p scene hcarries hp hsuccessor hcard hinv
      have hpeer := hpeers hp
      have hfits : (⟨h, .networkJoinNotification x⟩ : Message).Fits :=
        hcarries.fits (by simp [Body.fields])
      have hxp : x ≠ p := fun heq => free p hp (heq ▸ rfl)
      obtain ⟨rendezvous, hservice⟩ := scene.hosts.service hpeer
      refine .of_peer (scene.hosts.reached p hpeer) (scene.awake p (hawake hp)) hservice hfits
        (R := fun n' result => result = .ok none ∧ n'.Scene cast awake (swept ring x p view) r)
        ?_ ?_
      · rw [Peer.answer_join _ h hxp]
        apply scene.hosts.assures_locked hpeer
          (hinv n view scene (Sweeping.refl ring x p view))
        have hscene := scene.changePeer hpeer (·.learn x)
        have hnow := hinv _ _ hscene (sweeping_update_learn hp view)
        have hnext := hsuccessor p hp
        have hself : ((view p).learn x).successor = (view p).successor := rfl
        have hne : (view p).successor ≠ p := next_ne_self free hp hnext
        rw [hself]
        by_cases hx : (view p).successor = x
        · rw [if_pos (Or.inl hx)]
          rw [hx] at hnext
          rw [update_learn_eq_swept distinct free hp hnext] at hscene
          exact .done hnow ⟨rfl, hscene⟩
        · have hon : ¬ ((view p).successor = x ∨ (view p).successor = p) := by
            rintro (heq | heq)
            · exact hx heq
            · exact hne heq
          obtain ⟨hs, hdist, hpos, hle⟩ := next_before_newcomer free hp hnext hx
          have hcloser : distance (view p).successor.id x.id < distance p.id x.id := by omega
          have hahead := Route.card_ahead_lt_of_closer hs hcloser
          rw [Site.peer, if_neg hon]
          have hsuccessor' : ∀ q ∈ ring, Next (insert x ring) q
              (Function.update view p ((view p).learn x) q).successor := by
            intro q hq
            rw [successor_update_learn]
            exact hsuccessor q hq
          have hrest := ih _ _ (cast.site p).header (view p).successor hscene (carries p hp) hs
            hsuccessor' (by omega) fun n' now hnow' hsweep =>
              hinv n' now hnow' (hsweep.of_update_learn hp hcloser)
          apply Assures.call hnow hrest
          rintro n' outcome ⟨rfl, hscene'⟩
          rw [swept_update_learn distinct free hp hnext hx] at hscene'
          exact .done (hinv n' _ hscene' (sweeping_swept ring x p view)) ⟨rfl, hscene'⟩
      · rintro n' result ⟨rfl, hscene⟩
        exact ⟨rfl, hscene⟩

end Network

end ChordRing
