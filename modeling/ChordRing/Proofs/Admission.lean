import ChordRing.Proofs.Enrolment
import ChordRing.Proofs.Joining

/-!
# Admission

A whole join, from the registration to the announcement to the discovery node, in its three forms.
The first peer of all is a ring by itself (`Network.Scene.join_first`); a peer whose ring id is
free links through the member that it is given (`Network.Scene.join_free`); a peer whose ring id is
held is turned away and leaves everything as it was (`Network.Scene.join_taken`).
-/

namespace ChordRing

open RingId FingerTable PeerState

/-- A join after the registration is what the discovery node's answer makes of it. -/
theorem Peer.join_eq (self : Identifier) :
    Peer.join self = (Peer.update (·.enter .registering) : PeerAttempt ChordError Unit) >>= fun _ =>
      (Peer.register self).adapt (fun e => .joinFailed (.registration e)) >>= fun registration =>
        if registration.accepted then
          if registration.contact ≠ self then
            (Peer.link self registration.contact).adapt (fun e => .joinFailed (.linking e)) >>=
              fun _ => (Peer.announceMember self).adapt (fun e => .joinFailed (.announcement e)) >>=
              fun _ => (Peer.update (·.enter .joined) : PeerAttempt ChordError Unit)
          else
            (Peer.announceMember self).adapt (fun e => .joinFailed (.announcement e)) >>=
              fun _ => (Peer.update (·.enter .joined) : PeerAttempt ChordError Unit)
        else
          (Peer.update (·.enter .unjoined) : PeerAttempt ChordError Unit) >>= fun _ =>
            throw (.idCollision self.id) :=
  rfl

namespace Network.Scene

variable {n : Network} {cast : Cast} {awake members : Finset Identifier} {r : Registry}
  {view : Identifier → PeerState} {x s p : Identifier} {st : PeerState} {Inv : Network → Prop}
  {patience : Nat}

/-- The announcement to the discovery node, which ends every successful join. -/
theorem enrol (scene : n.Scene cast awake (Function.update view x st) r) (roomy : cast.Roomy)
    (hx : x ∈ cast.peers) (henough : 0 < patience)
    (hinv : ∀ n' now r', n'.Scene cast awake (Function.update view x now) r' →
      now.table = st.table → now.predecessor = st.predecessor → Inv n') :
    Completes Inv patience cast x
      ((Peer.announceMember x).adapt (fun e => ChordError.joinFailed (.announcement e)) >>=
        fun _ => (Peer.update (·.enter .joined) : PeerAttempt ChordError Unit)) n fun n' _ =>
      n'.Scene cast awake (Function.update view x (st.enter .joined)) (r.insert x) := by
  apply ((scene.announceMember roomy hx henough (hinv n st r scene rfl rfl)
    fun n' scene' => hinv n' st _ scene' rfl rfl).adapt _).bind
  intro n₁ _ hnow₁ scene₁
  exact scene₁.update hx (·.enter .joined) hnow₁ fun n' scene' => hinv n' _ _ scene' rfl rfl

/-- The first peer of all is handed back to itself and is a ring by itself. -/
theorem join_first (scene : n.Scene cast awake (Function.update view x st) r) (roomy : cast.Roomy)
    (hx : x ∈ cast.peers) (henough : 0 < patience) (hr : r.members = [])
    (hinv : ∀ n' now r', n'.Scene cast awake (Function.update view x now) r' → Inv n') :
    Completes Inv patience cast x (Peer.join x) n fun n' _ =>
      n'.Scene cast awake (Function.update view x ((st.enter .registering).enter .joined))
        (r.insert x) := by
  -- an empty registry hands the candidate back to itself, whatever lot is drawn
  have hregister : ∀ lot, ∃ contact ∈ cast.peers, contact = x ∧
      (⟨cast.header, r⟩ : Discovery).register lot x = .registerPeerResponse true contact :=
    fun lot => ⟨x, hx, rfl, Discovery.register_first hr lot⟩
  rw [Peer.join_eq]
  apply (scene.update hx (·.enter .registering) (hinv n st r scene)
    fun n' => hinv n' _ r).bind
  intro n₁ _ hnow₁ scene₁
  apply ((scene₁.register roomy hx henough hregister hnow₁ fun n' => hinv n' _ r).adapt _).bind
  rintro n₂ registration - ⟨scene₂, haccepted, hcontact⟩
  rw [if_pos haccepted, if_neg (not_not_intro hcontact)]
  exact scene₂.enrol roomy hx henough fun n' now r' scene' _ _ => hinv n' now r' scene'

/-- A peer whose ring id is held is turned away. -/
theorem join_taken (scene : n.Scene cast awake (Function.update view x st) r) (roomy : cast.Roomy)
    (hx : x ∈ cast.peers) (henough : 0 < patience) (hr : ∃ p ∈ r.members, p.id = x.id)
    (hinv : ∀ n' now r', n'.Scene cast awake (Function.update view x now) r' → Inv n') :
    Concludes Inv patience cast x (Peer.join x) n fun n' result =>
      result = .error (.idCollision x.id) ∧
        n'.Scene cast awake (Function.update view x ((st.enter .registering).enter .unjoined))
          r := by
  have hregister : ∀ lot, ∃ contact ∈ cast.peers, contact = x ∧
      (⟨cast.header, r⟩ : Discovery).register lot x = .registerPeerResponse false contact :=
    fun lot => ⟨x, hx, rfl, Discovery.register_taken hr lot⟩
  rw [Peer.join_eq]
  apply (scene.update hx (·.enter .registering) (hinv n st r scene)
    fun n' => hinv n' _ r).concludes_bind
  intro n₁ _ hnow₁ scene₁
  apply ((scene₁.register roomy hx henough hregister hnow₁
    fun n' => hinv n' _ r).adapt _).concludes_bind
  rintro n₂ registration hnow₂ ⟨scene₂, haccepted, -⟩
  rw [haccepted, if_neg Bool.false_ne_true]
  apply (scene₂.update hx (·.enter .unjoined) hnow₂ fun n' => hinv n' _ r).concludes_bind
  intro n₃ _ hnow₃ scene₃
  exact .throw hnow₃ ⟨rfl, scene₃⟩

/-- **A peer whose ring id is free becomes a settled member**, whichever member it is given to
contact, and the ring is in transition throughout. -/
theorem join_free (arrival : Arrival cast awake members x patience)
    (hinv : ∀ n' view' r', n'.Scene cast awake view' r' → Transition members x view' → Inv n')
    (settled : ∀ q ∈ members, (view q).Settled members q) (hs : Nearest members x.id s)
    (hp : Previous members s p) (hnew : st.table = .new fullSize x) (hne : r.members ≠ [])
    (hr : ∀ q ∈ r.members, q ∈ members)
    (scene : n.Scene cast awake (Function.update view x st) r) :
    Completes Inv patience cast x (Peer.join x) n fun n' _ => ∃ st' : PeerState,
      n'.Scene cast awake (Function.update (welcomed members x s p view) x st') (r.insert x) ∧
        st'.Settled (insert x members) x ∧ st'.items = st.items ∧ st'.phase = .joined := by
  have hx := arrival.mem_peers
  have henough := arrival.patience_pos
  have right : ∀ q ∈ members, (view q).Exact members q := fun q hq => (settled q hq).toExact
  have hbefore : ∀ n' st', n'.Scene cast awake (Function.update view x st') r → Inv n' :=
    fun n' st' scene' => hinv n' _ r scene' (transition_before arrival.free right st')
  have hregister : ∀ lot, ∃ contact ∈ cast.peers, contact ∈ members ∧
      (⟨cast.header, r⟩ : Discovery).register lot x = .registerPeerResponse true contact := by
    intro lot
    obtain ⟨contact, hcontact, hreg⟩ := Discovery.exists_register_free
      (d := ⟨cast.header, r⟩) hne (fun q hq => arrival.free q (hr q hq)) lot
    exact ⟨contact, arrival.members_peers (hr contact hcontact), hr contact hcontact, hreg⟩
  rw [Peer.join_eq]
  apply (scene.update hx (·.enter .registering) (hbefore n st scene)
    fun n' => hbefore n' _).bind
  intro n₁ _ hnow₁ scene₁
  apply ((scene₁.register arrival.roomy hx henough hregister hnow₁
    fun n' => hbefore n' _).adapt _).bind
  rintro n₂ registration - ⟨scene₂, haccepted, hcontact⟩
  have hself := arrival.ne hcontact
  rw [if_pos haccepted, if_pos hself]
  have hnew' : (st.enter .registering).table = .new fullSize x := hnew
  apply ((scene₂.link arrival hinv settled hs hp hnew' hcontact).adapt _).bind
  rintro n₃ _ - ⟨st', scene₃, hsettled, hitems⟩
  have hwelcomed := welcomed_settled arrival.distinct arrival.free hs hp settled
  have hmixed : ∀ q ∈ members, (welcomed members x s p view q).Mixed members x q := fun q hq =>
    (hwelcomed q hq).toExact.mixed_insert
  refine (scene₃.enrol arrival.roomy hx henough fun n' now r' scene' htable hpred =>
    hinv n' _ r' scene' (transition_after arrival.free hmixed ⟨?_, ?_, ?_⟩)).mono ?_
  · rw [hpred]
    exact hsettled.predecessor
  · rw [htable]
    exact hsettled.owner
  · rw [htable]
    exact hsettled.converged.sound
  · intro n' _ scene'
    exact ⟨_, scene', ⟨⟨hsettled.predecessor, hsettled.owner, hsettled.converged⟩,
      hsettled.successor⟩, hitems, rfl⟩

end Network.Scene

end ChordRing
