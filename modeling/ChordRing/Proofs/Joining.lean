import ChordRing.Proofs.Refresh
import ChordRing.Proofs.Welcome

/-!
# Joining a ring

A newcomer that joins a settled ring through any of its members becomes a settled member of it
(`Network.Scene.link`). Up to the moment when the member nearest to it is told, all members are as
they were (`transition_before`); from then on each is mixed and the newcomer is linked
(`transition_after`). So the ring is in transition at every point of the join, and what holds of
rings in transition is assured throughout.
-/

namespace ChordRing

open RingId FingerTable PeerState

variable {members : Finset Identifier} {x s p q : Identifier} {view : Identifier → PeerState}

/-! ## The two halves of a join -/

theorem update_apply_of_mem (free : ∀ q ∈ members, q.id ≠ x.id) (hq : q ∈ members)
    (view : Identifier → PeerState) (st : PeerState) : Function.update view x st q = view q :=
  Function.update_of_ne (fun heq : q = x => free q hq (heq ▸ rfl)) st view

/-- As long as all members are exact, nothing matters of the newcomer. -/
theorem transition_before (free : ∀ q ∈ members, q.id ≠ x.id)
    (right : ∀ q ∈ members, (view q).Exact members q) (st : PeerState) :
    Transition members x (Function.update view x st) where
  mixed := by
    intro q hq
    rw [update_apply_of_mem free hq]
    exact (right q hq).mixed x
  newcomer := by
    left
    intro q hq
    rw [update_apply_of_mem free hq]
    exact (right q hq).converged

/-- Once the newcomer is linked, the members may be mixed. -/
theorem transition_after (free : ∀ q ∈ members, q.id ≠ x.id)
    (mixed : ∀ q ∈ members, (view q).Mixed members x q) {st : PeerState}
    (hst : st.Linked (insert x members) x) :
    Transition members x (Function.update view x st) where
  mixed := by
    intro q hq
    rw [update_apply_of_mem free hq]
    exact mixed q hq
  newcomer := by
    right
    rw [Function.update_self]
    exact hst

theorem linked_update (free : ∀ q ∈ members, q.id ≠ x.id)
    (h : ∀ q ∈ members, (view q).Linked (insert x members) q) {st : PeerState}
    (hst : st.Linked (insert x members) x) :
    ∀ q ∈ insert x members, (Function.update view x st q).Linked (insert x members) q := by
  intro q hq
  rcases Finset.mem_insert.1 hq with rfl | hq
  · rw [Function.update_self]
    exact hst
  · rw [update_apply_of_mem free hq]
    exact h q hq

theorem Sweeping.transition {now : Identifier → PeerState} (hx : x ∉ members)
    (hsweep : Sweeping members x s view now) (h : Transition members x view)
    (hlinked : (view x).Linked (insert x members) x) : Transition members x now where
  mixed := hsweep.mixed h.mixed
  newcomer := by
    right
    rcases hsweep x with heq | ⟨hmem, -, -⟩
    · rw [heq]
      exact hlinked
    · exact absurd hmem hx

/-- The members' part of the states after a notification or the announcement. -/
theorem greeted_update (hsx : s ≠ x) (st : PeerState) :
    greeted x s (Function.update view x st) = Function.update (greeted x s view) x st := by
  rw [greeted, greeted, Function.update_of_ne hsx, Function.update_comm hsx]

theorem adopted_update (hsx : s ≠ x) (hpx : p ≠ x) (st : PeerState) :
    adopted x s p (Function.update view x st) = Function.update (adopted x s p view) x st := by
  rw [adopted, adopted, greeted_update hsx, Function.update_of_ne hpx, Function.update_comm hpx]

theorem swept_update (hx : x ∉ members) (st : PeerState) :
    swept members x s (Function.update view x st) =
      Function.update (swept members x s view) x st := by
  funext q
  by_cases hqx : q = x
  · have hout : ¬ (x ∈ members ∧ distance x.id x.id ≤ distance s.id x.id) := fun h => hx h.1
    rw [hqx, swept, if_neg hout, Function.update_self, Function.update_self]
  · rw [Function.update_of_ne hqx, swept, swept, Function.update_of_ne hqx]

/-! ## Refreshing a linked newcomer -/

namespace PeerState

/-- A linked peer with a table of full size, right or not. -/
structure Filling (members : Finset Identifier) (x : Identifier) (s : PeerState) : Prop
    extends Linked members x s where
  size : s.table.size = fullSize

theorem Filling.setFinger {st : PeerState} {i : Nat} (h : st.Filling members x)
    (hq : Nearest members (st.table.position i) q) : (st.setFinger i q).Filling members x :=
  ⟨h.toLinked.setFinger h.size hq, (size_set _ _ _).trans h.size⟩

/-- All full tables of one peer cover the same positions. -/
theorem Filling.position_eq {st st' : PeerState} (h : st.Filling members x)
    (h' : st'.Filling members x) : st.table.position = st'.table.position := by
  funext i
  rw [position_eq_ahead h.size, position_eq_ahead h'.size, h.owner, h'.owner]

end PeerState

/-- In a ring of linked members, a search finds the member nearest to its key after at most sixteen
forwards, since the ring is in transition at the same time. -/
theorem walk_of_linked_transition (distinct : DistinctIds members)
    (free : ∀ q ∈ members, q.id ≠ x.id) (transition : Transition members x view)
    (linked : ∀ q ∈ insert x members, (view q).Linked (insert x members) q) (quest : Quest)
    (k : RingId) (hs : s ∈ members) {q : Identifier} (hq : Nearest (insert x members) k q) :
    ∃ forwards ≤ 16,
      Route.Walk (insert x members) (fun p => quest.route (view p) k) s forwards q := by
  have hdistinct := distinctIds_insert distinct free
  -- one walk is short and the other right, and they are the same walk
  obtain ⟨n, hn, q', hwalk, -⟩ := transition.walk distinct free quest k hs
  obtain ⟨m, q'', hwalk', hnear⟩ :=
    walk_of_linked hdistinct linked quest k (Finset.mem_insert_of_mem hs)
  obtain ⟨rfl, rfl⟩ := hwalk.unique hwalk'
  obtain rfl := hnear.unique hdistinct hq
  exact ⟨n, hn, hwalk⟩

/-- What a join asks for: the newcomer's ring id is free, all peers serve and have room for all
messages, and the patience is enough. -/
structure Arrival (cast : Cast) (awake members : Finset Identifier) (x : Identifier)
    (patience : Nat) : Prop where
  roomy : cast.Roomy
  peers : insert x members ⊆ cast.peers
  awake : insert x members ⊆ awake
  distinct : DistinctIds members
  free : ∀ q ∈ members, q.id ≠ x.id
  enough : 16 < patience
  card : members.card ≤ patience

namespace Arrival

variable {cast : Cast} {awake : Finset Identifier} {patience : Nat}

theorem mem_peers (h : Arrival cast awake members x patience) : x ∈ cast.peers :=
  h.peers (Finset.mem_insert_self x members)

theorem members_peers (h : Arrival cast awake members x patience) : members ⊆ cast.peers :=
  fun _ hq => h.peers (Finset.mem_insert_of_mem hq)

theorem members_awake (h : Arrival cast awake members x patience) : members ⊆ awake :=
  fun _ hq => h.awake (Finset.mem_insert_of_mem hq)

theorem patience_pos (h : Arrival cast awake members x patience) : 0 < patience :=
  Nat.lt_trans (by norm_num) h.enough

theorem ne (h : Arrival cast awake members x patience) (hq : q ∈ members) : q ≠ x := by
  rintro rfl
  exact h.free q hq rfl

end Arrival

namespace Network

variable {n : Network} {cast : Cast} {awake : Finset Identifier} {r : Registry} {st : PeerState}
  {Inv : Network → Prop} {patience : Nat}

/-- A newcomer that all members know and that is right as far as its next member becomes a settled
member. -/
theorem Scene.settle (arrival : Arrival cast awake members x patience)
    (hinv : ∀ n' view' r', n'.Scene cast awake view' r' → Transition members x view' → Inv n')
    (settled : ∀ q ∈ members, (view q).Settled (insert x members) q)
    (hs : Nearest members x.id s) (hp : Previous members s p) (hst : Newcomer x s p st)
    (scene : n.Scene cast awake (Function.update view x st) r) :
    Completes Inv patience cast x (Peer.refresh x) n fun n' _ => ∃ t : FingerTable,
      n'.Scene cast awake (Function.update view x { st with table := t }) r ∧
        { st with table := t }.Settled (insert x members) x := by
  have hlinked := hst.linked arrival.distinct arrival.free hs hp
  have hmixed : ∀ q ∈ members, (view q).Mixed members x q := fun q hq =>
    (settled q hq).toExact.mixed_insert
  have hnext := next_newcomer arrival.free hs
  choose found hfound using exists_nearest (Finset.insert_nonempty x members)
  have hfilling : st.Filling (insert x members) x := ⟨hlinked, hst.converged.size⟩
  have hgood : ∀ now : PeerState, ∀ e ∈ Peer.staleFingers x st, now.Filling (insert x members) x →
      (now.setFinger e.1 (found e.2)).Filling (insert x members) x := by
    intro now e he hnow
    apply hnow.setFinger
    rw [hnow.position_eq hfilling, ← (mem_staleFingers.1 he).2.1]
    exact hfound e.2
  have hsearch : ∀ now : PeerState, ∀ e ∈ Peer.staleFingers x st,
      now.Filling (insert x members) x → ∃ forwards ≤ 16, Route.Walk (insert x members)
        (fun q => Quest.route (.successor x) (Function.update view x now q) e.2) st.successor
          forwards (found e.2) ∧ found e.2 ∈ insert x members := by
    intro now e _ hnow
    obtain ⟨forwards, hle, hwalk⟩ := walk_of_linked_transition arrival.distinct arrival.free
      (transition_after arrival.free hmixed hnow.toLinked) (linked_update arrival.free
        (fun q hq => (settled q hq).linked) hnow.toLinked) (.successor x) e.2 hs.1 (hfound e.2)
    rw [hst.successor]
    exact ⟨forwards, hle, hwalk, (hfound e.2).1⟩
  have hself : st.successor ≠ x := by
    rw [hst.successor]
    exact arrival.ne hs.1
  have hrun : Completes Inv patience cast x (Peer.refresh x) n _ :=
    Scene.refresh arrival.roomy arrival.peers arrival.awake arrival.mem_peers arrival.enough hself
      hgood hsearch
      (fun n' now scene' hnow => hinv n' _ r scene'
        (transition_after arrival.free hmixed hnow.toLinked)) scene hfilling
  obtain ⟨t, ht, howner, -⟩ := resolved_eq found (Peer.staleFingers x st) st
  -- the fingers that were not looked for cover positions up to the next member
  have hkept : ∀ i q, st.table.get? i = some q →
      (st.table.position i).isBetween x.id st.successor.id →
        Nearest (insert x members) (st.table.position i) q := by
    intro i q hget hbetween
    rw [hst.successor] at hbetween
    obtain ⟨hpos, hle⟩ := isBetween_iff.1 hbetween
    have hnear := hnext.nearest hpos hle
    rwa [hst.nearest arrival.distinct arrival.free hs hp.1 hget hnear]
  have hconv := resolved_converged hst.converged.size (fun e _ => hfound e.2) hkept
  rw [ht] at hconv
  apply hrun.mono
  intro n' _ scene'
  rw [ht] at scene'
  refine ⟨t, scene', ⟨hlinked.predecessor, howner.trans hst.owner, hconv⟩, ?_⟩
  show Next (insert x members) x st.successor
  rw [hst.successor]
  exact hnext

/-- The member nearest to the newcomer is told of its new predecessor. -/
theorem Scene.greet (arrival : Arrival cast awake members x patience) (hs : Nearest members x.id s)
    (hinv : ∀ n', n'.Scene cast awake (Function.update (greeted x s view) x st) r → Inv n')
    (hnow : Inv n) (scene : n.Scene cast awake (Function.update view x st) r) :
    Completes Inv patience cast x (Peer.notifyPredecessor s x) n fun n' _ =>
      n'.Scene cast awake (Function.update (greeted x s view) x st) r := by
  have hview : greeted x s (Function.update view x st) = Function.update (greeted x s view) x st :=
    greeted_update (arrival.ne hs.1) st
  rw [← hview] at hinv ⊢
  exact scene.notifyPredecessor arrival.roomy arrival.mem_peers (arrival.members_peers hs.1)
    (arrival.members_awake hs.1) arrival.patience_pos hnow hinv

/-- The member before it is told of its new successor. -/
theorem Scene.adopt (arrival : Arrival cast awake members x patience) (hs : s ∈ members)
    (hp : p ∈ members)
    (hinv : ∀ n', n'.Scene cast awake (Function.update (adopted x s p view) x st) r → Inv n')
    (hnow : Inv n) (scene : n.Scene cast awake (Function.update (greeted x s view) x st) r) :
    Completes Inv patience cast x (Peer.notifySuccessor p x) n fun n' _ =>
      n'.Scene cast awake (Function.update (adopted x s p view) x st) r := by
  have hview : adopted x s p (Function.update view x st) =
      Function.update (adopted x s p view) x st := adopted_update (arrival.ne hs) (arrival.ne hp) st
  rw [← greeted_update (arrival.ne hs)] at scene
  rw [← hview] at hinv ⊢
  exact scene.notifySuccessor arrival.roomy arrival.mem_peers (arrival.members_peers hp)
    (arrival.members_awake hp) arrival.patience_pos hnow hinv

/-- Every member learns of a linked newcomer, one after the other. -/
theorem Scene.spread (arrival : Arrival cast awake members x patience)
    (hinv : ∀ n' view' r', n'.Scene cast awake view' r' → Transition members x view' → Inv n')
    (settled : ∀ q ∈ members, (view q).Settled members q) (hs : Nearest members x.id s)
    (hp : Previous members s p) (hlinked : st.Linked (insert x members) x) (hnow : Inv n)
    (scene : n.Scene cast awake (Function.update (adopted x s p view) x st) r) :
    Completes Inv patience cast x (Peer.announceJoin s x) n fun n' _ =>
      n'.Scene cast awake (Function.update (welcomed members x s p view) x st) r := by
  have hxm : x ∉ members := fun h => arrival.ne h rfl
  have hadopted := adopted_mixed arrival.free hs hp.1 fun q hq => (settled q hq).toExact.mixed x
  have hnext : ∀ q ∈ members, Next (insert x members) q
      (Function.update (adopted x s p view) x st q).successor := by
    intro q hq
    rw [update_apply_of_mem arrival.free hq]
    exact adopted_next arrival.distinct arrival.free hs hp
      (fun q hq => (settled q hq).successor) q hq
  -- between two stages of the announcement some members have learned of it and some have not
  have hsweep : ∀ n' now, n'.Scene cast awake now r →
      Sweeping members x s (Function.update (adopted x s p view) x st) now → Inv n' := by
    intro n' now scene' hsweeping
    apply hinv n' now r scene'
    apply hsweeping.transition hxm (transition_after arrival.free hadopted hlinked)
    rwa [Function.update_self]
  have hspread := scene.announceJoin arrival.roomy arrival.distinct arrival.free arrival.mem_peers
    arrival.members_peers arrival.members_awake hs.1 hnext arrival.card hnow hsweep
  rwa [swept_update hxm] at hspread

/-- The second half of a join: a newcomer that knows its neighbours tells them of itself, announces
itself along the ring and refreshes its table. -/
theorem Scene.introduce (arrival : Arrival cast awake members x patience)
    (hinv : ∀ n' view' r', n'.Scene cast awake view' r' → Transition members x view' → Inv n')
    (settled : ∀ q ∈ members, (view q).Settled members q) (hs : Nearest members x.id s)
    (hp : Previous members s p) (hst : Newcomer x s p st)
    (scene : n.Scene cast awake (Function.update view x st) r) :
    Completes Inv patience cast x (do
        Peer.notifyPredecessor s x
        Peer.notifySuccessor p x
        if s ≠ x then Peer.announceJoin s x
        Peer.update (·.enter .refreshingFingerTable)
        Peer.refresh x : PeerAttempt NetworkError Unit) n fun n' _ => ∃ st' : PeerState,
      n'.Scene cast awake (Function.update (welcomed members x s p view) x st') r ∧
        st'.Settled (insert x members) x ∧ st'.items = st.items := by
  have hlinked := hst.linked arrival.distinct arrival.free hs hp
  have hst' := hst.enter .refreshingFingerTable
  have hlinked' := hst'.linked arrival.distinct arrival.free hs hp
  have hwelcomed := welcomed_settled arrival.distinct arrival.free hs hp settled
  -- the newcomer is linked from here on, so mixed members make a ring in transition
  have hafter : ∀ n' view' st', (∀ q ∈ members, (view' q).Mixed members x q) →
      st'.Linked (insert x members) x →
        n'.Scene cast awake (Function.update view' x st') r → Inv n' :=
    fun n' _ _ h hst' scene' => hinv n' _ r scene' (transition_after arrival.free h hst')
  have hmixed : ∀ q ∈ members, (view q).Mixed members x q := fun q hq =>
    (settled q hq).toExact.mixed x
  have hgreeted := greeted_mixed arrival.free hs hmixed
  have hadopted := adopted_mixed arrival.free hs hp.1 hmixed
  have hdone : ∀ q ∈ members, (welcomed members x s p view q).Mixed members x q := fun q hq =>
    (hwelcomed q hq).toExact.mixed_insert
  apply (scene.greet arrival hs (fun n' => hafter n' _ _ hgreeted hlinked)
    (hafter n _ _ hmixed hlinked scene)).bind
  intro n₁ _ hnow₁ scene₁
  apply (scene₁.adopt arrival hs.1 hp.1 (fun n' => hafter n' _ _ hadopted hlinked) hnow₁).bind
  intro n₂ _ hnow₂ scene₂
  rw [if_pos (arrival.ne hs.1)]
  apply (scene₂.spread arrival hinv settled hs hp hlinked hnow₂).bind
  intro n₃ _ hnow₃ scene₃
  apply (scene₃.update arrival.mem_peers (·.enter .refreshingFingerTable) hnow₃
    fun n' => hafter n' _ _ hdone hlinked').bind
  intro n₄ _ _ scene₄
  apply (scene₄.settle arrival hinv hwelcomed hs hp hst').mono
  rintro n' _ ⟨t, scene', hsettled⟩
  exact ⟨_, scene', hsettled, rfl⟩

/-- **Linking makes the ring larger.** Through any member of a settled ring, a newcomer that knows
nobody becomes a settled member of the ring with it, and leaves the other members settled in it. -/
theorem Scene.link {contact : Identifier} (arrival : Arrival cast awake members x patience)
    (hinv : ∀ n' view' r', n'.Scene cast awake view' r' → Transition members x view' → Inv n')
    (settled : ∀ q ∈ members, (view q).Settled members q) (hs : Nearest members x.id s)
    (hp : Previous members s p) (hnew : st.table = .new fullSize x) (hcontact : contact ∈ members)
    (scene : n.Scene cast awake (Function.update view x st) r) :
    Completes Inv patience cast x (Peer.link x contact) n fun n' _ => ∃ st' : PeerState,
      n'.Scene cast awake (Function.update (welcomed members x s p view) x st') r ∧
        st'.Settled (insert x members) x ∧ st'.items = st.items := by
  have hx := arrival.mem_peers
  have hsub := arrival.members_peers
  have hawake := arrival.members_awake
  have henough := arrival.patience_pos
  have right : ∀ q ∈ members, (view q).Exact members q := fun q hq => (settled q hq).toExact
  have hbefore : ∀ n' st', n'.Scene cast awake (Function.update view x st') r → Inv n' :=
    fun n' st' scene' => hinv n' _ r scene' (transition_before arrival.free right st')
  obtain rfl : (view s).predecessor = p :=
    (settled s hs.1).predecessor.unique arrival.distinct hp
  unfold Peer.link
  apply (scene.update hx (·.enter .locatingSuccessor) (hbefore n st scene)
    fun n' => hbefore n' _).bind
  intro n₁ _ hnow₁ scene₁
  have right₁ : ∀ q ∈ members,
      (Function.update view x (st.enter .locatingSuccessor) q).Exact members q := by
    intro q hq
    rw [update_apply_of_mem arrival.free hq]
    exact right q hq
  obtain ⟨forwards, hforwards, s', hwalk, hs'⟩ :=
    walk_of_exact arrival.distinct right₁ (.successor x) x.id hcontact
  obtain rfl : s = s' := hs.unique arrival.distinct hs'
  apply (scene₁.findSuccessor arrival.roomy hsub hawake hx hnow₁ hs.1
    (Nat.le_succ_of_le hforwards) arrival.enough hwalk).bind
  rintro n₂ found hnow₂ ⟨scene₂, hfound⟩
  subst found
  apply (scene₂.update hx (·.setSuccessor s) hnow₂ fun n' => hbefore n' _).bind
  intro n₃ _ hnow₃ scene₃
  -- the successor still names its old predecessor
  have hview := update_apply_of_mem arrival.free hs.1 view
    ((st.enter .locatingSuccessor).setSuccessor s)
  have hpred := hp.1
  rw [← hview] at hpred
  apply (scene₃.predecessorOf arrival.roomy hx (hsub hs.1) (hawake hs.1) (hsub hpred) henough
    hnow₃).bind
  rintro n₄ _ hnow₄ ⟨scene₄, rfl⟩
  rw [hview]
  apply (scene₄.update hx (·.meetPredecessor _) hnow₄ fun n' => hbefore n' _).bind
  intro n₅ _ hnow₅ scene₅
  apply (scene₅.update hx (·.enter .exchangingNotifications) hnow₅ fun n' => hbefore n' _).bind
  intro n₆ _ _ scene₆
  have hst : Newcomer x s (view s).predecessor
      (((st.enter .locatingSuccessor).setSuccessor s).meetPredecessor (view s).predecessor) :=
    .of_new hnew
  have hrest := scene₆.introduce arrival hinv settled hs hp (hst.enter .exchangingNotifications)
  exact hrest

end Network

end ChordRing
