import ChordRing.Proofs.Delivery
import ChordRing.Proofs.Intake

/-!
# What an exchange leaves with the peers

A message may be passed on from peer to peer, and may come back to a peer while it waits for the
exchange that it made on account of it. Wherever it gets, it says the same, and to be told twice is
to be told once (`PeerState.noted_noted`). So whoever serves an exchange and whoever is asked on the
way, each peer of the network is in the end as it was, or has taken note of that one message
(`Network.told_exchange`).
-/

namespace ChordRing

/-! ## To be told twice -/

theorem FingerTable.update_update (t : FingerTable) (p : Identifier) :
    (t.update p).update p = t.update p := by
  have hentry : ∀ i current,
      t.tightened p i (t.tightened p i current) = t.tightened p i current := by
    intro i current
    by_cases htightens : tightens p (t.position i) current = true
    · simp only [tightened, if_pos htightens, ite_self]
    · simp only [tightened, if_neg htightens]
  have hposition : (t.update p).tightened p = t.tightened p := by
    funext i current
    rw [tightened, position_update, tightened]
  rw [update, hposition]
  simp only [update, List.mapIdx_mapIdx, Function.comp_def, hentry]

theorem Items.store_store (item : StoredItem) (items : Items) :
    (items.store item).store item = items.store item := by
  induction items with
  | nil => simp [store]
  | cons held rest ih =>
      by_cases hsame : item.key = held.key
      · simp [store, hsame]
      · by_cases hbefore : item.key.value < held.key.value
        · simp [store, hsame, hbefore]
        · simp [store, hsame, hbefore, ih]

namespace PeerState

theorem learn_learn (p : Identifier) (s : PeerState) : (s.learn p).learn p = s.learn p := by
  simp only [learn, FingerTable.update_update]

/-- A message that comes again changes nothing. -/
theorem noted_noted (self : Identifier) (b : Body) (s : PeerState) :
    (s.noted self b).noted self b = s.noted self b := by
  cases b with
  | predecessorNotification p =>
      simp only [noted, meetPredecessor, setPredecessor, learn, FingerTable.update_update]
  | successorNotification p => simp only [noted, setSuccessor, learn, FingerTable.update_update]
  | networkJoinNotification p =>
      rw [noted, noted]
      split
      · rfl
      · exact s.learn_learn p
  | storeFileRequest key name bytes => simp only [noted, store, Items.store_store]
  | moveFileRequest key name bytes => simp only [noted, store, Items.store_store]
  | _ => rfl

end PeerState

/-! ## To be told of on a network -/

namespace Network

/-- Each peer is as it was, or has taken note of the message. -/
def Told (b : Body) (n n' : Network) : Prop :=
  ∀ j p rendezvous, n.service? j = some (.peer p rendezvous) →
    n'.service? j = some (.peer p rendezvous) ∨
      n'.service? j = some (.peer { p with state := p.state.noted p.identifier b } rendezvous)

variable {n n' n'' : Network} {b : Body} {i : Nat} {p : Peer} {rendezvous : Option String}
  {carry : Carrier} {α : Type}

theorem Told.refl (b : Body) (n : Network) : Told b n n := fun _ _ _ h => Or.inl h

theorem Told.trans (h : Told b n n') (h' : Told b n' n'') : Told b n n'' := by
  intro j p rendezvous hp
  rcases h j p rendezvous hp with hp' | hp'
  · exact h' j p rendezvous hp'
  · rcases h' j _ rendezvous hp' with hp'' | hp''
    · exact Or.inr hp''
    · right
      rw [hp'']
      simp only [PeerState.noted_noted]

theorem Told.of_sameNews {b' : Body} (h : Told b' n n') (hsame : b.SameNews b') : Told b n n' := by
  intro j p rendezvous hp
  rw [← hsame]
  exact h j p rendezvous hp

/-- One peer takes note of the message. -/
theorem told_changePeer (hp : n.service? i = some (.peer p rendezvous)) :
    Told b n (n.changePeer i (PeerState.noted p.identifier b)) := by
  intro j q rendezvous' hq
  by_cases hj : j = i
  · subst hj
    cases hp.symm.trans hq
    exact Or.inr (service?_changePeer_of_peer _ hp)
  · exact Or.inl ((service?_changePeer_of_ne n i _ hj).trans hq)

/-- Another node than a peer does something. -/
theorem told_setService (hnone : ∀ p rendezvous, n.service? i ≠ some (.peer p rendezvous))
    (b : Body) (service : Service) : Told b n (n.setService i service) := by
  intro j p rendezvous hp
  by_cases hj : j = i
  · subst hj
    exact absurd hp (hnone p rendezvous)
  · exact Or.inl ((service?_setService_of_ne hj service).trans hp)

/-- A task that only passes the message on. -/
theorem told_perform {t : NodeTask PeerState α} (ht : Peer.Repeats b t)
    (hcarry : ∀ n n' e outcome, b.SameNews e.message.body → carry n e = some (n', outcome) →
      Told b n n') {result : α} (hrun : perform carry (.peer i) t n = some (n', result)) :
    Told b n n' := by
  induction ht generalizing n with
  | done a =>
      cases hrun
      exact .refl b _
  | locked hsection _ _ => exact hsection.elim
  | @call e next hsame _ ih =>
      rw [perform] at hrun
      cases hsent : carry n e with
      | none =>
          rw [hsent] at hrun
          cases hrun
      | some r =>
          obtain ⟨n₁, outcome⟩ := r
          rw [hsent] at hrun
          exact (hcarry n n₁ e outcome hsame hsent).trans (ih outcome hrun)

/-- A peer that answers a message. -/
theorem told_answer {m : Message} (hp : n.service? i = some (.peer p rendezvous))
    (hcarry : ∀ n n' e outcome, m.body.SameNews e.message.body → carry n e = some (n', outcome) →
      Told m.body n n') {result : Except ChordError (Option Message)}
    (hrun : perform carry (.peer i) (p.answer m).run n = some (n', result)) :
    Told m.body n n' := by
  rcases p.answer_cases m with ⟨next, hanswer, hrepeats⟩ | ⟨hrepeats, -⟩
  · rw [hanswer, perform] at hrun
    exact (told_changePeer hp).trans (told_perform (hrepeats _) hcarry hrun)
  · exact told_perform hrepeats hcarry hrun

/-- One connection with a message. -/
theorem told_serve {m : Message} {bytes : List UInt8}
    (hcarry : ∀ n n' e outcome, m.body.SameNews e.message.body → carry n e = some (n', outcome) →
      Told m.body n n') (hrun : serve carry n i m.encode = some (n', bytes)) :
    Told m.body n n' := by
  rw [serve] at hrun
  cases hservice : n.service? i with
  | none =>
      rw [hservice] at hrun
      cases hrun
      exact .refl _ _
  | some service =>
      rw [hservice] at hrun
      cases service with
      | script replies received =>
          cases hrun
          exact told_setService (by simp [hservice]) _ _
      | discovery d =>
          have hnone : ∀ p rendezvous, n.service? i ≠ some (.peer p rendezvous) := by
            simp [hservice]
          cases hm : readRequest? m.encode with
          | none =>
              simp only [hm] at hrun
              cases hrun
              exact .refl _ _
          | some m' =>
              simp only [hm] at hrun
              cases hrun
              exact told_setService (n := n.draw.2) hnone _ _
      | peer p rendezvous =>
          cases hm : readRequest? m.encode with
          | none =>
              simp only [hm] at hrun
              cases hrun
              exact .refl _ _
          | some m' =>
              obtain rfl := readRequest?_eq_some hm
              simp only [hm] at hrun
              obtain ⟨⟨n₁, result⟩, hanswer, hread⟩ := Option.map_eq_some_iff.1 hrun
              cases hread
              exact told_answer hservice hcarry hanswer

/-- **An exchange tells the peers of one message only.** Whoever is reached and whoever is asked on
the way, each peer is then as it was, or has taken note of the message once. -/
theorem told_exchange (patience : Nat) {e : Envelope} {outcome : Outcome}
    (hrun : exchange patience n e = some (n', outcome)) : Told e.message.body n n' := by
  -- the induction is on the patience, which every exchange within an exchange has less of
  induction patience generalizing n n' e outcome with
  | zero => cases hrun
  | succ patience ih =>
      have hcarry : ∀ n n' e' outcome, e.message.body.SameNews e'.message.body →
          exchange patience n e' = some (n', outcome) → Told e.message.body n n' :=
        fun n n' e' outcome hsame hsent => (ih hsent).of_sameNews hsame
      cases hdial : n.dial e.address with
      | error fault =>
          simp only [exchange, hdial] at hrun
          cases hrun
          exact .refl _ _
      | ok i =>
          simp only [exchange, hdial, connect] at hrun
          obtain ⟨⟨n₁, bytes⟩, hserve, hread⟩ := Option.map_eq_some_iff.1 hrun
          cases hread
          split at hserve
          · cases hserve
          · exact told_serve hcarry hserve

end Network

end ChordRing
