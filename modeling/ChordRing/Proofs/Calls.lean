import ChordRing.Proofs.Announcement

/-!
# The calls of a joining peer

A peer on its own account runs an attempt whose calls are exchanges on the network. `Completes` says
that such an attempt succeeds, with a rule for each way in which attempts are built, and then with
one lemma for each call, which says how the scene is when the call is over.
-/

namespace ChordRing

variable {σ ε ε' α β : Type}

namespace Task

/-- Carrying out two tasks in a row is carrying out one after the other. -/
theorem handle_andThen {C C' : Type} {R : C → Type} {R' : C' → Type}
    (carry : (c : C) → Task σ C' R' (R c)) (f : α → Task σ C R β) (t : Task σ C R α) :
    handle carry (andThen f t) = andThen (fun a => handle carry (f a)) (handle carry t) := by
  -- induction on the first task, whose calls are the only thing that is replaced
  induction t with
  | done a => rfl
  | locked change next ih =>
      simp only [andThen, handle]
      exact congrArg (locked change) (funext ih)
  | call c next ih =>
      simp only [andThen, handle]
      rw [andThen_andThen]
      exact congrArg (andThen · (carry c)) (funext ih)

end Task

/-- A task of the peer `x` with its calls carried out on the network. -/
def Cast.conduct (cast : Cast) (x : Identifier) (t : PeerTask α) : NodeTask PeerState α :=
  Task.handle (Call.carry (cast.site x).header cast.discovery) t

/-- The attempt of the peer `x` ends at a network and with a result that `Q` holds of. -/
def Concludes (Inv : Network → Prop) (patience : Nat) (cast : Cast) (x : Identifier)
    (t : PeerAttempt ε α) (n : Network) (Q : Network → Except ε α → Prop) : Prop :=
  Assures Inv patience (.peer (cast.site x).seat) (cast.conduct x t.run) n Q

/-- The attempt of the peer `x` succeeds, at a network and with a value that `Q` holds of. -/
def Completes (Inv : Network → Prop) (patience : Nat) (cast : Cast) (x : Identifier)
    (t : PeerAttempt ε α) (n : Network) (Q : Network → α → Prop) : Prop :=
  Concludes Inv patience cast x t n fun n' result => ∃ a, result = .ok a ∧ Q n' a

section Rules

variable {Inv : Network → Prop} {patience : Nat} {cast : Cast} {x : Identifier} {n : Network}

theorem Completes.pure {Q : Network → α → Prop} {a : α} (hinv : Inv n) (h : Q n a) :
    Completes Inv patience cast x (Pure.pure a : PeerAttempt ε α) n Q :=
  .done hinv ⟨a, rfl, h⟩

theorem Concludes.throw {Q : Network → Except ε α → Prop} {e : ε} (hinv : Inv n)
    (h : Q n (.error e)) :
    Concludes Inv patience cast x (MonadExcept.throw e : PeerAttempt ε α) n Q :=
  .done hinv h

/-- What follows an attempt that succeeds decides the end. -/
theorem Completes.concludes_bind {Q : Network → Except ε β → Prop} {R : Network → α → Prop}
    {t : PeerAttempt ε α} {f : α → PeerAttempt ε β} (h : Completes Inv patience cast x t n R)
    (hnext : ∀ n' a, Inv n' → R n' a → Concludes Inv patience cast x (f a) n' Q) :
    Concludes Inv patience cast x (t >>= f) n Q := by
  show Assures Inv patience _ (Task.handle _ (Task.andThen (ExceptT.bindCont f) t.run)) n Q
  rw [Task.handle_andThen]
  apply Assures.andThen h
  rintro n' result hinv ⟨a, rfl, hR⟩
  exact hnext n' a hinv hR

theorem Completes.bind {Q : Network → β → Prop} {R : Network → α → Prop}
    {t : PeerAttempt ε α} {f : α → PeerAttempt ε β} (h : Completes Inv patience cast x t n R)
    (hnext : ∀ n' a, Inv n' → R n' a → Completes Inv patience cast x (f a) n' Q) :
    Completes Inv patience cast x (t >>= f) n Q :=
  h.concludes_bind hnext

theorem Completes.mono {Q R : Network → α → Prop} {t : PeerAttempt ε α}
    (h : Completes Inv patience cast x t n R) (himp : ∀ n' a, R n' a → Q n' a) :
    Completes Inv patience cast x t n Q := by
  apply Assures.mono h
  rintro n' result ⟨a, rfl, hR⟩
  exact ⟨a, rfl, himp n' a hR⟩

/-- How a failure is worded makes no difference to an attempt that succeeds. -/
theorem Completes.adapt {Q : Network → α → Prop} {t : PeerAttempt ε α} (f : ε → ε')
    (h : Completes Inv patience cast x t n Q) : Completes Inv patience cast x (t.adapt f) n Q := by
  show Assures Inv patience _ (Task.handle _ (Task.andThen _ t.run)) n _
  rw [Task.handle_andThen]
  refine Assures.andThen h ?_
  rintro n' result hinv ⟨a, rfl, hQ⟩
  exact .done hinv ⟨a, rfl, hQ⟩

/-- A call that is one exchange, whose reply is read as a value. -/
theorem Completes.call {Q : Network → α → Prop} {R : Network → Outcome → Prop}
    {t : PeerAttempt ε α} {envelope : Envelope} {next : Outcome → NodeTask PeerState (Except ε α)}
    (hrun : cast.conduct x t.run = .call envelope next) (hinv : Inv n)
    (h : Delivers Inv patience n envelope R)
    (hnext : ∀ n' outcome, R n' outcome →
      ∃ a, next outcome = .done (.ok a) ∧ Inv n' ∧ Q n' a) :
    Completes Inv patience cast x t n Q := by
  unfold Completes Concludes
  rw [hrun]
  apply Assures.call hinv h
  intro n' outcome hR
  obtain ⟨a, hdone, hinv', hQ⟩ := hnext n' outcome hR
  rw [hdone]
  exact .done hinv' ⟨a, rfl, hQ⟩

/-- A section of the peer's own task changes its state and nothing else. -/
theorem Completes.update {Q : Network → Unit → Prop} {f : PeerState → PeerState} (hinv : Inv n)
    (hinv' : Inv (n.changePeer (cast.site x).seat f))
    (h : Q (n.changePeer (cast.site x).seat f) ()) :
    Completes Inv patience cast x (Peer.update f : PeerAttempt ε Unit) n Q :=
  .locked hinv (.done hinv' ⟨(), rfl, h⟩)

end Rules

/-! ## Exchanges and the replies they expect -/

namespace Exchange

theorem askIdentifier_run (header : Header) (peer : Identifier) (body : Body) :
    ∃ next, (askIdentifier header peer body : Attempt PeerState NetworkError Identifier).run =
        .call ⟨addressOf peer, ⟨header, body⟩⟩ next ∧
      ∀ h found, next (.ok (some ⟨h, .peerIdentifierResponse found⟩)) = .done (.ok found) :=
  ⟨_, rfl, fun _ _ => rfl⟩

theorem askStatus_run (header : Header) (peer : Identifier) (body : Body) :
    ∃ next, (askStatus header peer body : Attempt PeerState NetworkError Unit).run =
        .call ⟨addressOf peer, ⟨header, body⟩⟩ next ∧
      ∀ h, next (.ok (some ⟨h, .statusResponse .ok⟩)) = .done (.ok ()) :=
  ⟨_, rfl, fun _ => rfl⟩

theorem notify_run (address : String) (m : Message) :
    ∃ next, (notify address m : Attempt PeerState NetworkError Unit).run = .call ⟨address, m⟩ next ∧
      next (.ok none) = .done (.ok ()) :=
  ⟨_, rfl, rfl⟩

end Exchange

namespace Rendezvous

theorem register_run (header : Header) (discovery : String) (candidate : Identifier) :
    ∃ next,
      (register header discovery candidate : Attempt PeerState DiscoveryError Registration).run =
        .call ⟨addressOf discovery, ⟨header, .registerPeerRequest candidate⟩⟩ next ∧
      ∀ h accepted contact, next (.ok (some ⟨h, .registerPeerResponse accepted contact⟩)) =
        .done (.ok ⟨accepted, contact⟩) :=
  ⟨_, rfl, fun _ _ _ => rfl⟩

theorem announceMember_run (header : Header) (discovery : String) (peer : Identifier) :
    ∃ next, (announceMember header discovery peer : Attempt PeerState DiscoveryError Unit).run =
        .call ⟨addressOf discovery, ⟨header, .networkJoinNotification peer⟩⟩ next ∧
      next (.ok none) = .done (.ok ()) :=
  ⟨_, rfl, rfl⟩

theorem announceExit_run (header : Header) (discovery : String) (peer : Identifier) :
    ∃ next, (announceExit header discovery peer : Attempt PeerState DiscoveryError Unit).run =
        .call ⟨addressOf discovery, ⟨header, .networkExitNotification peer⟩⟩ next ∧
      next (.ok none) = .done (.ok ()) :=
  ⟨_, rfl, rfl⟩

end Rendezvous

/-! ## Calls in a scene -/

/-- Every peer of the cast has a ceiling of sixteen or more, and under every header, also the
discovery node's, the messages of the ring protocol about each peer are small enough to be read. -/
structure Cast.Roomy (cast : Cast) : Prop where
  sites : ChordRing.Roomy cast.site cast.peers
  carries : ∀ p ∈ cast.peers, cast.header.Carries p

namespace Network

/-- A search on a peer's own account follows the walk of the peers and changes nothing. -/
theorem Hosts.findSuccessor {n : Network} {cast : Cast} {peers : Finset Identifier}
    {view : Identifier → PeerState} {x p q : Identifier} {Inv : Network → Prop} {patience : Nat}
    (hosts : n.Hosts cast.site peers view) (awake : n.Awake cast.site peers)
    (roomy : ChordRing.Roomy cast.site peers)
    (poses : ∀ s ∈ peers, (cast.site s).header.Poses (.successor x))
    (hposes : (cast.site x).header.Poses (.successor x)) (hinv : Inv n) {k : RingId}
    (hq : q ∈ peers) {forwards : Nat} (hforwards : forwards ≤ 16) (hpatience : 16 < patience)
    (walk : Route.Walk peers (fun p => Quest.route (.successor x) (view p) k) p forwards q) :
    Completes Inv patience cast x (Peer.findSuccessor p k x) n fun n' found =>
      n' = n ∧ found = q := by
  obtain ⟨next, hrun, hnext⟩ := Exchange.askIdentifier_run (cast.site x).header p
    (.findSuccessorRequest k x 0)
  have hdelivers := hosts.delivers_search awake roomy poses hinv hq walk (cast.site x).header 0
    patience hposes (by simpa using hforwards) (by omega)
  have hcall : cast.conduct x (Peer.findSuccessor p k x).run = _ := (Task.andThen_done _).trans hrun
  apply Completes.call hcall hinv hdelivers
  rintro n' outcome ⟨rfl, s, -, rfl⟩
  exact ⟨q, hnext _ q, hinv, rfl, rfl⟩

namespace Scene

variable {n : Network} {cast : Cast} {awake : Finset Identifier} {view : Identifier → PeerState}
  {r : Registry} {x p q : Identifier} {Inv : Network → Prop} {patience : Nat}

/-- A section of the peer's own task. -/
theorem update {st : PeerState} (scene : n.Scene cast awake (Function.update view x st) r)
    (hx : x ∈ cast.peers) (f : PeerState → PeerState) (hinv : Inv n)
    (hinv' : ∀ n', n'.Scene cast awake (Function.update view x (f st)) r → Inv n') :
    Completes Inv patience cast x (Peer.update f : PeerAttempt ε Unit) n fun n' _ =>
      n'.Scene cast awake (Function.update view x (f st)) r := by
  have hscene := scene.changePeer hx f
  rw [Function.update_idem, Function.update_self] at hscene
  exact .update hinv (hinv' _ hscene) hscene

/-- A search on the peer's own account follows the walk of `members`. -/
theorem findSuccessor {members : Finset Identifier} (scene : n.Scene cast awake view r)
    (roomy : cast.Roomy) (hmembers : members ⊆ cast.peers) (hawake : members ⊆ awake)
    (hx : x ∈ cast.peers) (hinv : Inv n) {k : RingId} (hq : q ∈ members) {forwards : Nat}
    (hforwards : forwards ≤ 16) (hpatience : 16 < patience)
    (walk : Route.Walk members (fun p => Quest.route (.successor x) (view p) k) p forwards q) :
    Completes Inv patience cast x (Peer.findSuccessor p k x) n fun n' found =>
      n'.Scene cast awake view r ∧ found = q := by
  have hfound : Completes Inv patience cast x (Peer.findSuccessor p k x) n fun n' found =>
      n' = n ∧ found = q :=
    (scene.hosts.mono hmembers).findSuccessor (scene.awake.mono hawake)
      (roomy.sites.mono hmembers)
      (fun s hs => (roomy.sites.carries s (hmembers hs) x hx).poses.1)
      (roomy.sites.carries x hx x hx).poses.1 hinv hq hforwards hpatience walk
  apply hfound.mono
  rintro n' found ⟨rfl, rfl⟩
  exact ⟨scene, rfl⟩

/-- The predecessor that a peer knows of. -/
theorem predecessorOf (scene : n.Scene cast awake view r) (roomy : cast.Roomy)
    (hx : x ∈ cast.peers) (hp : p ∈ cast.peers) (hawake : p ∈ awake)
    (hpred : (view p).predecessor ∈ cast.peers) (hpatience : 0 < patience) (hinv : Inv n) :
    Completes Inv patience cast x (Peer.predecessorOf p) n fun n' found =>
      n'.Scene cast awake view r ∧ found = (view p).predecessor := by
  obtain ⟨next, hrun, hnext⟩ := Exchange.askIdentifier_run (cast.site x).header p
    .getPredecessorRequest
  have hsame : n.changePeer (cast.site p).seat id = n := changePeer_id _ _
  have hfits : (⟨(cast.site x).header, .getPredecessorRequest⟩ : Message).Fits :=
    (roomy.sites.carries x hx x hx).fits (by simp [Body.fields])
  have hreply : (⟨(cast.site p).header, .peerIdentifierResponse (view p).predecessor⟩ :
      Message).Fits := (roomy.sites.carries p hp _ hpred).fits (by simp [Body.fields])
  have hdelivers := scene.delivers_section hpatience hp hawake hfits (f := id)
    (g := fun s => ⟨(cast.site p).header, .peerIdentifierResponse s.predecessor⟩) rfl hreply
    hinv (hsame.symm ▸ hinv)
  have hcall : cast.conduct x (Peer.predecessorOf p).run = _ := (Task.andThen_done _).trans hrun
  apply Completes.call hcall hinv hdelivers
  rintro n' outcome ⟨rfl, rfl⟩
  rw [hsame]
  exact ⟨_, hnext _ _, hinv, scene, rfl⟩

/-- A notification that a peer takes note of in one section. -/
theorem notify (scene : n.Scene cast awake view r) (roomy : cast.Roomy) (hp : p ∈ cast.peers)
    (hawake : p ∈ awake) (hpatience : 0 < patience) (hinv : Inv n)
    {t : PeerAttempt NetworkError Unit} {body : Body} {f : PeerState → PeerState}
    (hcall : cast.conduct x t.run = (Exchange.askStatus (cast.site x).header p body).run)
    (hfits : (⟨(cast.site x).header, body⟩ : Message).Fits)
    (hanswer : ∀ peer : Peer, (peer.answer ⟨(cast.site x).header, body⟩).run =
      .locked f fun _ => .done (.ok (some ⟨peer.header, .statusResponse .ok⟩)))
    (hinv' : ∀ n', n'.Scene cast awake (Function.update view p (f (view p))) r → Inv n') :
    Completes Inv patience cast x t n fun n' _ =>
      n'.Scene cast awake (Function.update view p (f (view p))) r := by
  obtain ⟨next, hrun, hnext⟩ := Exchange.askStatus_run (cast.site x).header p body
  have hscene := scene.changePeer hp f
  have hreply : (⟨(cast.site p).header, .statusResponse .ok⟩ : Message).Fits :=
    (roomy.sites.carries p hp p hp).fits (by
      rw [Body.fields, Wire.length_text]
      have hword : (Utf8.encode Status.ok.word).length = 2 := by decide
      omega)
  have hdelivers := scene.delivers_section hpatience hp hawake hfits (hanswer _) hreply hinv
    (hinv' _ hscene)
  apply Completes.call (hcall.trans hrun) hinv hdelivers
  rintro n' outcome ⟨rfl, rfl⟩
  exact ⟨(), hnext _, hinv' _ hscene, hscene⟩

theorem notifyPredecessor (scene : n.Scene cast awake view r) (roomy : cast.Roomy)
    (hx : x ∈ cast.peers) (hp : p ∈ cast.peers) (hawake : p ∈ awake) (hpatience : 0 < patience)
    (hinv : Inv n)
    (hinv' : ∀ n',
      n'.Scene cast awake (Function.update view p ((view p).meetPredecessor x)) r → Inv n') :
    Completes Inv patience cast x (Peer.notifyPredecessor p x) n fun n' _ =>
      n'.Scene cast awake (Function.update view p ((view p).meetPredecessor x)) r :=
  scene.notify roomy hp hawake hpatience hinv (Task.andThen_done _)
    ((roomy.sites.carries x hx x hx).fits (by simp [Body.fields])) (fun _ => rfl) hinv'

theorem notifySuccessor (scene : n.Scene cast awake view r) (roomy : cast.Roomy)
    (hx : x ∈ cast.peers) (hp : p ∈ cast.peers) (hawake : p ∈ awake) (hpatience : 0 < patience)
    (hinv : Inv n)
    (hinv' : ∀ n',
      n'.Scene cast awake (Function.update view p ((view p).setSuccessor x)) r → Inv n') :
    Completes Inv patience cast x (Peer.notifySuccessor p x) n fun n' _ =>
      n'.Scene cast awake (Function.update view p ((view p).setSuccessor x)) r :=
  scene.notify roomy hp hawake hpatience hinv (Task.andThen_done _)
    ((roomy.sites.carries x hx x hx).fits (by simp [Body.fields])) (fun _ => rfl) hinv'

/-- The announcement of the peer itself, which starts at its next member. -/
theorem announceJoin {members : Finset Identifier} (scene : n.Scene cast awake view r)
    (roomy : cast.Roomy) (distinct : DistinctIds members) (free : ∀ p ∈ members, p.id ≠ x.id)
    (hx : x ∈ cast.peers) (hmembers : members ⊆ cast.peers) (hawake : members ⊆ awake)
    (hp : p ∈ members)
    (hsuccessor : ∀ q ∈ members, Next (insert x members) q (view q).successor)
    (hpatience : members.card ≤ patience) (hinv : Inv n)
    (hinv' : ∀ n' now, n'.Scene cast awake now r → Sweeping members x p view now → Inv n') :
    Completes Inv patience cast x (Peer.announceJoin p x) n fun n' _ =>
      n'.Scene cast awake (swept members x p view) r := by
  obtain ⟨next, hrun, hnext⟩ := Exchange.notify_run (Exchange.addressOf p)
    ⟨(cast.site x).header, .networkJoinNotification x⟩
  have hcard := Route.card_ahead_lt hp x.id
  have hdelivers := scene.delivers_flood distinct free hmembers hawake
    (fun q hq => roomy.sites.carries q (hmembers hq) x hx) patience n view (cast.site x).header p
    (roomy.sites.carries x hx x hx) hp hsuccessor (by omega) hinv'
  have hcall : cast.conduct x (Peer.announceJoin p x).run = _ := (Task.andThen_done _).trans hrun
  apply Completes.call hcall hinv hdelivers
  rintro n' outcome ⟨rfl, hscene⟩
  exact ⟨(), hnext, hinv' n' _ hscene (sweeping_swept members x p view), hscene⟩

/-- The reply of the discovery node to a candidate, whatever lot is drawn. -/
theorem register (scene : n.Scene cast awake view r) (roomy : cast.Roomy) (hx : x ∈ cast.peers)
    (hpatience : 0 < patience) {accepted : Bool} {good : Identifier → Prop}
    (hregister : ∀ lot, ∃ contact ∈ cast.peers, good contact ∧
      (⟨cast.header, r⟩ : Discovery).register lot x = .registerPeerResponse accepted contact)
    (hinv : Inv n) (hinv' : ∀ n', n'.Scene cast awake view r → Inv n') :
    Completes Inv patience cast x (Peer.register x) n fun n' registration =>
      n'.Scene cast awake view r ∧ registration.accepted = accepted ∧
        good registration.contact := by
  obtain ⟨patience, rfl⟩ := Nat.exists_eq_succ_of_ne_zero (Nat.ne_zero_of_lt hpatience)
  obtain ⟨next, hrun, hnext⟩ := Rendezvous.register_run (cast.site x).header cast.discovery x
  obtain ⟨contact, hcontact, hgood, hreg⟩ := hregister n.draw.1
  have hscene := scene.consult r
  have hfits : (⟨(cast.site x).header, .registerPeerRequest x⟩ : Message).Fits :=
    (roomy.sites.carries x hx x hx).fits (by simp [Body.fields])
  have hreply : (⟨cast.header, .registerPeerResponse accepted contact⟩ : Message).Fits :=
    (roomy.carries contact hcontact).fits (by simp [Body.fields]; omega)
  have hread : readReply (replyBytes
      (.ok (some ⟨cast.header, .registerPeerResponse accepted contact⟩) :
        Except DiscoveryError (Option Message))) =
      .ok (some ⟨cast.header, .registerPeerResponse accepted contact⟩) := readReply_encode hreply
  have hdelivers : Delivers Inv (patience + 1) n
      ⟨Rendezvous.addressOf cast.discovery, ⟨(cast.site x).header, .registerPeerRequest x⟩⟩
      fun n' outcome => n'.Scene cast awake view r ∧
        outcome = .ok (some ⟨cast.header, .registerPeerResponse accepted contact⟩) := by
    apply Delivers.of_discovery scene.registers.reached scene.registers.serving
      scene.registers.service hfits
    refine ⟨hscene, ?_⟩
    rw [← hread, ← hreg]
    rfl
  have hcall : cast.conduct x (Peer.register x).run = _ := (Task.andThen_done _).trans hrun
  apply Completes.call hcall hinv hdelivers
  rintro n' outcome ⟨hscene', rfl⟩
  exact ⟨⟨accepted, contact⟩, hnext _ _ _, hinv' n' hscene', hscene', rfl, hgood⟩

/-- An announcement that the discovery node takes note of. -/
theorem inform (scene : n.Scene cast awake view r) (hpatience : 0 < patience) (hinv : Inv n)
    {t : PeerAttempt DiscoveryError Unit} {body : Body} {r' : Registry}
    {next : Outcome → NodeTask PeerState (Except DiscoveryError Unit)}
    (hcall : cast.conduct x t.run =
      .call ⟨Rendezvous.addressOf cast.discovery, ⟨(cast.site x).header, body⟩⟩ next)
    (hnext : next (.ok none) = .done (.ok ()))
    (hfits : (⟨(cast.site x).header, body⟩ : Message).Fits)
    (hprocess : ∀ lot, (⟨cast.header, r⟩ : Discovery).process lot ⟨(cast.site x).header, body⟩ =
      (⟨cast.header, r'⟩, .ok none))
    (hinv' : ∀ n', n'.Scene cast awake view r' → Inv n') :
    Completes Inv patience cast x t n fun n' _ => n'.Scene cast awake view r' := by
  obtain ⟨patience, rfl⟩ := Nat.exists_eq_succ_of_ne_zero (Nat.ne_zero_of_lt hpatience)
  have hdelivers : Delivers Inv (patience + 1) n
      ⟨Rendezvous.addressOf cast.discovery, ⟨(cast.site x).header, body⟩⟩
      fun n' outcome => n'.Scene cast awake view r' ∧ outcome = .ok none := by
    apply Delivers.of_discovery scene.registers.reached scene.registers.serving
      scene.registers.service hfits
    rw [hprocess]
    exact ⟨scene.consult r', rfl⟩
  apply Completes.call hcall hinv hdelivers
  rintro n' outcome ⟨hscene', rfl⟩
  exact ⟨(), hnext, hinv' n' hscene', hscene'⟩

/-- The announcement of the peer itself to the discovery node, which records it. -/
theorem announceMember (scene : n.Scene cast awake view r) (roomy : cast.Roomy)
    (hx : x ∈ cast.peers) (hpatience : 0 < patience) (hinv : Inv n)
    (hinv' : ∀ n', n'.Scene cast awake view (r.insert x) → Inv n') :
    Completes Inv patience cast x (Peer.announceMember x) n fun n' _ =>
      n'.Scene cast awake view (r.insert x) := by
  obtain ⟨next, hrun, hnext⟩ := Rendezvous.announceMember_run (cast.site x).header cast.discovery x
  exact scene.inform hpatience hinv ((Task.andThen_done _).trans hrun) hnext
    ((roomy.sites.carries x hx x hx).fits (by simp [Body.fields])) (fun _ => rfl) hinv'

/-- The farewell of the peer to the discovery node, which forgets it. -/
theorem announceExit (scene : n.Scene cast awake view r) (roomy : cast.Roomy)
    (hx : x ∈ cast.peers) (hpatience : 0 < patience) (hinv : Inv n)
    (hinv' : ∀ n', n'.Scene cast awake view (r.erase x) → Inv n') :
    Completes Inv patience cast x (Peer.announceExit x) n fun n' _ =>
      n'.Scene cast awake view (r.erase x) := by
  obtain ⟨next, hrun, hnext⟩ := Rendezvous.announceExit_run (cast.site x).header cast.discovery x
  exact scene.inform hpatience hinv ((Task.andThen_done _).trans hrun) hnext
    ((roomy.sites.carries x hx x hx).fits (by simp [Body.fields])) (fun _ => rfl) hinv'

end Scene

end Network

end ChordRing
