import ChordRing.Proofs.Admission
import ChordRing.Proofs.Intake

/-!
# What a join asks of the rendezvous service

A join registers first and announces the peer last, and in between it speaks to other peers only
(`Peer.join_run`, `Peer.linking_linkage`): while a peer links to the ring, the rendezvous service
hears nothing of it, and the peer does not count as joined.
-/

namespace ChordRing

/-! ## Tasks that keep to some calls and sections -/

namespace Task

variable {σ C ε ε' α β : Type} {R : C → Type} {calls : C → Prop} {sections : (σ → σ) → Prop}

theorem Confined.andThen {f : α → Task σ C R β} {t : Task σ C R α} (h : t.Confined calls sections)
    (hnext : ∀ a, (f a).Confined calls sections) :
    (Task.andThen f t).Confined calls sections := by
  induction h with
  | done a => exact hnext a
  | locked hsection _ ih => exact .locked hsection ih
  | call hcall _ ih => exact .call hcall ih

theorem Confined.bind {t : ExceptT ε (Task σ C R) α} {f : α → ExceptT ε (Task σ C R) β}
    (h : t.run.Confined calls sections) (hnext : ∀ a, (f a).run.Confined calls sections) :
    (t >>= f).run.Confined calls sections := by
  show (Task.andThen (ExceptT.bindCont f) t.run).Confined calls sections
  apply h.andThen
  intro result
  cases result with
  | error e => exact .done _
  | ok a => exact hnext a

theorem Confined.adapt {t : ExceptT ε (Task σ C R) α} (f : ε → ε')
    (h : t.run.Confined calls sections) : (t.adapt f).run.Confined calls sections := by
  show (Task.andThen _ t.run).Confined calls sections
  exact h.andThen fun result => .done _

end Task

/-! ## Calls of the rendezvous service -/

/-- The call goes to the rendezvous service. -/
def Call.ToRendezvous : Call → Prop
  | .register _ | .announceMember _ | .announceExit _ => True
  | _ => False

namespace Call

/-- A registration says what the reply says, and fails without such a reply. -/
theorem carry_register (h : Header) (discovery : String) (x : Identifier) :
    ∃ read, (carry h discovery (.register x) : NodeTask PeerState _) =
        .call ⟨Rendezvous.addressOf discovery, ⟨h, .registerPeerRequest x⟩⟩ read ∧
      (∀ h' accepted contact, read (.ok (some ⟨h', .registerPeerResponse accepted contact⟩)) =
        .done (.ok ⟨accepted, contact⟩)) ∧
      ∀ outcome,
        (∀ h' accepted contact, outcome ≠ .ok (some ⟨h', .registerPeerResponse accepted contact⟩)) →
        ∃ e, read outcome = .done (.error e) := by
  refine ⟨_, rfl, fun _ _ _ => rfl, ?_⟩
  rintro (e | reply) hother
  · exact ⟨_, rfl⟩
  · cases reply with
    | none => exact ⟨_, rfl⟩
    | some reply =>
        obtain ⟨h', b⟩ := reply
        cases b with
        | registerPeerResponse accepted contact => exact absurd rfl (hother h' accepted contact)
        | _ => exact ⟨_, rfl⟩

/-- An announcement succeeds whatever the node sends back. -/
theorem carry_announceMember (h : Header) (discovery : String) (x : Identifier) :
    ∃ read, (carry h discovery (.announceMember x) : NodeTask PeerState _) =
        .call ⟨Rendezvous.addressOf discovery, ⟨h, .networkJoinNotification x⟩⟩ read ∧
      (∀ reply, read (.ok reply) = .done (.ok ())) ∧
      ∀ e, read (.error e) = .done (.error (.network e)) :=
  ⟨_, rfl, fun _ => rfl, fun _ => rfl⟩

end Call

/-! ## The steps of a join -/

namespace Peer

/-- The task does not speak to the rendezvous service and does not enter the last phase of a
join. -/
abbrev Linking {α : Type} (t : PeerTask α) : Prop :=
  t.Confined (fun c => ¬ c.ToRendezvous)
    fun change => ∀ s : PeerState, s.phase ≠ .joined → (change s).phase ≠ .joined

section Linking

variable {ε α : Type}

theorem linking_update {f : PeerState → PeerState}
    (h : ∀ s : PeerState, s.phase ≠ .joined → (f s).phase ≠ .joined) :
    Linking (update f : PeerAttempt ε Unit).run :=
  .locked h fun _ => .done _

theorem linking_enter {phase : Phase} (h : phase ≠ .joined) :
    Linking (update (·.enter phase) : PeerAttempt ε Unit).run :=
  linking_update fun _ _ => h

/-- One call, of which nothing is known but that it goes to another peer. -/
theorem linking_call {c : Call} {result : c.Reply → Except ε α} {t : PeerAttempt ε α}
    (hrun : t.run = .call c fun reply => .done (result reply)) (h : ¬ c.ToRendezvous) :
    Linking t.run := by
  rw [hrun]
  exact .call h fun _ => .done _

theorem linking_resolveFingers (self via : Identifier) (fingers : List (Nat × RingId)) :
    Linking (resolveFingers self via fingers).run := by
  induction fingers with
  | nil => exact .done _
  | cons e rest ih =>
      refine Task.Confined.bind (linking_call rfl fun h => h) fun found => ?_
      exact Task.Confined.bind (linking_update fun _ h => h) fun _ => ih

theorem linking_refresh (self : Identifier) : Linking (refresh self).run := by
  rw [refresh_run]
  exact .locked (fun _ h => h) fun s => linking_resolveFingers _ _ _

theorem linking_link (self contact : Identifier) : Linking (link self contact).run := by
  have hlast : Linking (do
      update (·.enter .refreshingFingerTable)
      refresh self : PeerAttempt NetworkError Unit).run :=
    Task.Confined.bind (linking_enter nofun) fun _ => linking_refresh self
  unfold link
  refine Task.Confined.bind (linking_enter nofun) fun _ => ?_
  refine Task.Confined.bind (linking_call rfl fun h => h) fun successor => ?_
  refine Task.Confined.bind (linking_update fun _ h => h) fun _ => ?_
  refine Task.Confined.bind (linking_call rfl fun h => h) fun predecessor => ?_
  refine Task.Confined.bind (linking_update fun _ h => h) fun _ => ?_
  refine Task.Confined.bind (linking_enter nofun) fun _ => ?_
  refine Task.Confined.bind (linking_call rfl fun h => h) fun _ => ?_
  refine Task.Confined.bind (linking_call rfl fun h => h) fun _ => ?_
  split
  · exact Task.Confined.bind (linking_call rfl fun h => h) fun _ => hlast
  · exact hlast

end Linking

/-- What is left of a join once the peer is announced, or the announcement has failed. -/
def entrance : Except DiscoveryError Unit → PeerTask (Except ChordError Unit)
  | .error e => .done (.error (.joinFailed (.announcement e)))
  | .ok _ => .locked (·.enter .joined) fun _ => .done (.ok ())

/-- What is left of a join once the peer has linked to the ring, or has failed to. -/
def enrolment (self : Identifier) : Except ChordError Unit → PeerTask (Except ChordError Unit)
  | .error e => .done (.error e)
  | .ok _ => .call (.announceMember self) entrance

/-- How a peer links to the ring, which the first of all does not. -/
def linkage (self contact : Identifier) : PeerTask (Except ChordError Unit) :=
  if contact ≠ self then ((link self contact).adapt fun e => .joinFailed (.linking e)).run
  else .done (.ok ())

/-- What is left of a join once the registration is answered. -/
def admission (self : Identifier) :
    Except DiscoveryError Registration → PeerTask (Except ChordError Unit)
  | .error e => .done (.error (.joinFailed (.registration e)))
  | .ok ⟨true, contact⟩ => Task.andThen (enrolment self) (linkage self contact)
  | .ok ⟨false, _⟩ => .locked (·.enter .unjoined) fun _ => .done (.error (.idCollision self.id))

theorem linking_linkage (self contact : Identifier) : Linking (linkage self contact) := by
  rw [linkage]
  split
  · exact (linking_link self contact).adapt _
  · exact .done _

/-- A join registers, links and announces itself, in this order. -/
theorem join_run (self : Identifier) :
    (join self).run = .locked (·.enter .registering) fun _ =>
      .call (.register self) (admission self) := by
  rw [join_eq]
  refine congrArg (Task.locked _) (funext fun _ => congrArg (Task.call _) (funext fun reply => ?_))
  have henrolment : ExceptT.bindCont (fun _ =>
      (announceMember self).adapt (fun e => ChordError.joinFailed (.announcement e)) >>=
        fun _ => (update (·.enter .joined) : PeerAttempt ChordError Unit)) = enrolment self := by
    funext result
    rcases result with e | ⟨⟩
    · rfl
    · refine congrArg (Task.call _) (funext fun reply => ?_)
      rcases reply with e | ⟨⟩ <;> rfl
  rcases reply with e | ⟨accepted, contact⟩
  · rfl
  · cases accepted with
    | false => rfl
    | true =>
        rw [admission, linkage, ← henrolment]
        show ExceptT.run (if contact ≠ self then _ else _) = _
        split
        · rfl
        · rfl

end Peer

end ChordRing
