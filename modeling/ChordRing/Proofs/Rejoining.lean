import ChordRing.Proofs.Growth

/-!
# Leaving and joining again

A peer that leaves tells only the discovery node, so the other members go on pointing at it. When it
joins again, the search for its successor leads to itself: it takes over its own predecessor and
then tells itself that it is its own new predecessor. The join succeeds, nobody else has changed,
and the peer has itself on both sides (`Network.rejoining_loses_neighbours`). From then on it keeps
every key that is looked up through it.
-/

namespace ChordRing

open RingId FingerTable PeerState

namespace PeerState

/-- The state with the peer `x` on both sides. -/
def between (x : Identifier) (s : PeerState) : PeerState :=
  { s with predecessor := x, successor := x }

variable {members : Finset Identifier} {s : PeerState} {x p q : Identifier}

/-- Whose fingers are right learns nothing from a member. -/
theorem learn_eq_of_converged (distinct : DistinctIds members) (h : s.table.Converged members)
    (hq : q ∈ members) : s.learn q = s := by
  have hupdate := h.update q
  rw [Finset.insert_eq_of_mem hq] at hupdate
  have htable : s.table.update q = s.table := hupdate.unique distinct h rfl
  rw [learn, htable]

/-- The member before `p` need not be told that `p` comes next to it. -/
theorem Settled.setSuccessor_eq (distinct : DistinctIds members) (h : s.Settled members q)
    (hp : Next members q p) : s.setSuccessor p = s := by
  obtain rfl : p = s.successor := Nearest.unique distinct hp h.successor
  rw [setSuccessor, learn_eq_of_converged distinct h.converged hp.mem]

/-- What the peer `x` tells itself, beside the member `p` before it, leaves it between itself and
itself. -/
theorem returned_eq (distinct : DistinctIds members) (h : s.table.Converged members)
    (hx : x ∈ members) (hp : p ∈ members) (phase : Phase) :
    (((s.setSuccessor x).meetPredecessor p).enter phase).meetPredecessor x =
      (s.between x).enter phase := by
  have hlearn : ∀ q ∈ members, s.table.update q = s.table := fun q hq =>
    congrArg PeerState.table (learn_eq_of_converged distinct h hq)
  simp only [setSuccessor, meetPredecessor, setPredecessor, learn, enter, between, hlearn x hx,
    hlearn p hp]

end PeerState

namespace Network

variable {n : Network} {cast : Cast} {awake members : Finset Identifier}
  {view : Identifier → PeerState} {r : Registry} {x contact : Identifier} {patience : Nat}

theorem Scene.peerState_eq (scene : n.Scene cast awake view r) {p : Identifier}
    (hp : p ∈ cast.peers) : n.peerState (cast.site p).seat = view p :=
  scene.hosts.read hp

/-! ## Leaving -/

/-- A peer that leaves is forgotten by the discovery node and by nobody else. -/
theorem Scene.leave (scene : n.Scene cast awake view r) (roomy : cast.Roomy) (hx : x ∈ cast.peers)
    (hpatience : 0 < patience) :
    Completes (fun _ => True) patience cast x (Peer.leave x) n fun n' _ =>
      n'.Scene cast awake (Function.update view x ((view x).enter .left)) (r.erase x) := by
  have hexit := scene.announceExit roomy hx hpatience trivial fun _ _ => trivial
  show Assures _ patience _ (Task.handle _ (Task.andThen _ (Peer.announceExit x).run)) n _
  rw [Task.handle_andThen]
  apply Assures.andThen hexit
  rintro n' result - ⟨_, rfl, scene'⟩
  exact scene'.hosts.assures_locked hx trivial
    (.done trivial ⟨(), rfl, scene'.changePeer hx (·.enter .left)⟩)

theorem Scene.leave_ends (scene : n.Scene cast awake view r) (roomy : cast.Roomy)
    (hx : x ∈ cast.peers) :
    ∃ left, n.leave (cast.site x).seat (.named cast.discovery) = some (left, .ok ()) ∧
      left.Scene cast awake (Function.update view x ((view x).enter .left)) (r.erase x) := by
  have hpatience : 0 < n.patience := Nat.lt_of_lt_of_le (Nat.succ_pos _) n.length_le_patience
  obtain ⟨left, result, hrun, _, rfl, hscene⟩ := (scene.leave roomy hx hpatience).ends
  refine ⟨left, ?_, hscene⟩
  rw [Network.leave, act, scene.hosts.peer x hx]
  exact hrun

/-! ## Joining again -/

/-- A peer that is still pointed at, by others who are right about the ring with it. -/
structure Returns (cast : Cast) (awake members : Finset Identifier) (view : Identifier → PeerState)
    (x p : Identifier) (patience : Nat) : Prop where
  roomy : cast.Roomy
  peers : members ⊆ cast.peers
  awake : members ⊆ awake
  distinct : DistinctIds members
  settled : ∀ q ∈ members, (view q).Settled members q
  mem : x ∈ members
  previous : Previous members x p
  ne : p ≠ x
  enough : 16 < patience

variable {p : Identifier} {phase : Phase} {s : PeerState}

theorem update_update_of_ne (h : p ≠ x) (view : Identifier → PeerState) (st : PeerState) :
    Function.update (Function.update view x st) p (view p) = Function.update view x st := by
  have hself := Function.update_eq_self p (Function.update view x st)
  rwa [Function.update_of_ne h] at hself

/-- The peer finds itself where it looks for its successor, and its own predecessor there. -/
theorem Returns.walk (back : Returns cast awake members view x p patience) (phase : Phase)
    (hcontact : contact ∈ members) :
    ∃ forwards ≤ 16, Route.Walk members (fun q => Quest.route (.successor x)
      (Function.update view x ((view x).enter phase) q) x.id) contact forwards x := by
  have right : ∀ q ∈ members,
      (Function.update view x ((view x).enter phase) q).Exact members q := by
    intro q hq
    by_cases hqx : q = x
    · have h := back.settled x back.mem
      rw [hqx, Function.update_self]
      exact ⟨h.predecessor, h.owner, h.converged⟩
    · rw [Function.update_of_ne hqx]
      exact (back.settled q hq).toExact
  obtain ⟨forwards, hforwards, q, hwalk, hq⟩ :=
    walk_of_exact back.distinct right (.successor x) x.id hcontact
  obtain rfl := hq.unique back.distinct (nearest_self back.mem)
  exact ⟨forwards, Nat.le_succ_of_le hforwards, hwalk⟩

/-- A peer that tells itself of its new predecessor ends up between itself and itself. -/
theorem Scene.link_back (back : Returns cast awake members view x p patience)
    (hcontact : contact ∈ members) (phase : Phase)
    (scene : n.Scene cast awake (Function.update view x ((view x).enter phase)) r) :
    Completes (fun _ => True) patience cast x (Peer.link x contact) n fun n' _ =>
      n'.Scene cast awake
        (Function.update view x (((view x).enter .refreshingFingerTable).between x)) r := by
  have hx := back.peers back.mem
  have hp := back.peers back.previous.1
  have hpatience : 0 < patience := Nat.lt_trans (by norm_num) back.enough
  have hsettled := back.settled x back.mem
  have hconverged : ∀ phase, ((view x).enter phase).table.Converged members :=
    fun _ => hsettled.converged
  have hpredecessor : (view x).predecessor = p :=
    hsettled.predecessor.unique back.distinct back.previous
  unfold Peer.link
  apply (scene.update hx (·.enter .locatingSuccessor) trivial fun _ _ => trivial).bind
  intro n₁ _ _ scene₁
  obtain ⟨forwards, hforwards, hwalk⟩ := back.walk .locatingSuccessor hcontact
  apply (scene₁.findSuccessor back.roomy back.peers back.awake hx trivial back.mem hforwards
    back.enough hwalk).bind
  rintro n₂ found - ⟨scene₂, hfound⟩
  subst found
  apply (scene₂.update hx (·.setSuccessor x) trivial fun _ _ => trivial).bind
  intro n₃ _ _ scene₃
  have hasked : (Function.update view x
      (((view x).enter .locatingSuccessor).setSuccessor x) x).predecessor = p := by
    rw [Function.update_self]
    exact hpredecessor
  apply (scene₃.predecessorOf back.roomy hx hx (back.awake back.mem) (hasked ▸ hp) hpatience
    trivial).bind
  rintro n₄ found - ⟨scene₄, hfound⟩
  obtain rfl : found = p := hfound.trans hasked
  apply (scene₄.update hx (·.meetPredecessor found) trivial fun _ _ => trivial).bind
  intro n₅ _ _ scene₅
  apply (scene₅.update hx (·.enter .exchangingNotifications) trivial fun _ _ => trivial).bind
  intro n₆ _ _ scene₆
  -- the notification that is meant for its successor comes back to itself
  apply (scene₆.notifyPredecessor back.roomy hx hx (back.awake back.mem) hpatience trivial
    fun _ _ => trivial).bind
  intro n₇ _ _ scene₇
  rw [Function.update_self, Function.update_idem] at scene₇
  apply (scene₇.notifySuccessor back.roomy hx hp (back.awake back.previous.1) hpatience trivial
    fun _ _ => trivial).bind
  intro n₈ _ _ scene₈
  rw [Function.update_of_ne back.ne, (back.settled found back.previous.1).setSuccessor_eq
    back.distinct back.previous.2, update_update_of_ne back.ne] at scene₈
  rw [if_neg (not_not_intro rfl)]
  apply (scene₈.update hx (·.enter .refreshingFingerTable) trivial fun _ _ => trivial).bind
  intro n₉ _ _ scene₉
  -- a peer that is its own successor asks nobody
  apply scene₉.hosts.assures_read hx trivial
  rw [Function.update_self]
  show Completes _ patience cast x (if x = x then Pure.pure () else _) n₉ _
  rw [if_pos rfl]
  have hlocating : (((view x).enter phase).enter .locatingSuccessor).table.Converged members :=
    hsettled.converged
  rw [returned_eq back.distinct hlocating back.mem back.previous.1] at scene₉
  exact .pure trivial scene₉

/-- The join of a peer that left succeeds, whichever other member it is given to contact. -/
theorem Scene.join_back (back : Returns cast awake members view x p patience)
    (hlists : r.Lists members)
    (scene : n.Scene cast awake (Function.update view x ((view x).enter phase)) (r.erase x)) :
    Completes (fun _ => True) patience cast x (Peer.join x) n fun n' _ =>
      n'.Scene cast awake (Function.update view x (((view x).enter .joined).between x)) r := by
  have hx := back.peers back.mem
  have hpatience : 0 < patience := Nat.lt_trans (by norm_num) back.enough
  have herased := hlists.erase x
  have free : ∀ q ∈ members.erase x, q.id ≠ x.id := by
    intro q hq heq
    obtain ⟨hne, hmem⟩ := Finset.mem_erase.1 hq
    exact hne (back.distinct hmem back.mem heq)
  -- the registry without the peer hands out another member, and with it lists all of them again
  have hne : (r.erase x).members ≠ [] :=
    List.ne_nil_of_mem ((herased.mem p).2 (Finset.mem_erase.2 ⟨back.ne, back.previous.1⟩))
  have hregister : ∀ lot, ∃ contact ∈ cast.peers, (contact ∈ members ∧ contact ≠ x) ∧
      (⟨cast.header, r.erase x⟩ : Discovery).register lot x =
        .registerPeerResponse true contact := by
    intro lot
    obtain ⟨contact, hcontact, hreg⟩ := Discovery.exists_register_free
      (d := ⟨cast.header, r.erase x⟩) hne (fun q hq => free q ((herased.mem q).1 hq)) lot
    obtain ⟨hcx, hmem⟩ := Finset.mem_erase.1 ((herased.mem contact).1 hcontact)
    exact ⟨contact, back.peers hmem, ⟨hmem, hcx⟩, hreg⟩
  have hagain : (r.erase x).insert x = r := by
    have hinsert := herased.insert free
    rw [Finset.insert_erase back.mem] at hinsert
    exact hinsert.unique hlists
  rw [Peer.join_eq]
  apply (scene.update hx (·.enter .registering) trivial fun _ _ => trivial).bind
  intro n₁ _ _ scene₁
  apply ((scene₁.register back.roomy hx hpatience hregister trivial
    fun _ _ => trivial).adapt _).bind
  rintro n₂ registration - ⟨scene₂, haccepted, hcontact, hself⟩
  rw [if_pos haccepted, if_pos hself]
  apply ((Scene.link_back back hcontact .registering scene₂).adapt _).bind
  intro n₃ _ _ scene₃
  have hend := scene₃.enrol back.roomy hx hpatience fun _ _ _ _ _ _ => trivial
  rw [hagain] at hend
  exact hend

/-- Leaving and joining again comes to an end, and the peer has itself on both sides then. -/
theorem Scene.leave_and_join (scene : n.Scene cast awake view r) (roomy : cast.Roomy)
    (hpeers : members ⊆ cast.peers) (hawake : members ⊆ awake) (distinct : DistinctIds members)
    (settled : ∀ q ∈ members, (view q).Settled members q) (hlists : r.Lists members)
    (hx : x ∈ members) (hmore : members ≠ {x}) :
    ∃ left last, n.leave (cast.site x).seat (.named cast.discovery) = some (left, .ok ()) ∧
      left.join (cast.site x).seat (.named cast.discovery) = some (last, .ok ()) ∧
      last.Scene cast (insert x awake)
        (Function.update view x (((view x).enter .joined).between x)) r := by
  obtain ⟨p, hp⟩ := exists_previous hx
  have hpx : p ≠ x := by
    rintro rfl
    apply hmore
    exact Finset.eq_singleton_iff_unique_mem.2 ⟨hx, hp.2.eq_of_id_eq distinct hx rfl⟩
  obtain ⟨left, hleave, hleft⟩ := scene.leave_ends roomy (hpeers hx)
  have hserving := hleft.serveFrom (hpeers hx)
  obtain ⟨henough, -⟩ := hserving.enough_patience roomy (hpeers hx)
  have back : Returns cast (insert x awake) members view x p
      (left.serveFrom (cast.site x).seat).patience :=
    { roomy, peers := hpeers, awake := hawake.trans (Finset.subset_insert x awake), distinct,
      settled, mem := hx, previous := hp, ne := hpx, enough := henough }
  have hjoin : Concludes (fun _ => True) _ cast x (Peer.join x) _ _ :=
    Scene.join_back back hlists hserving
  obtain ⟨⟨last, result, hrun, _, rfl, hlast⟩, -⟩ := hleft.join_ends (hpeers hx) hjoin
  exact ⟨left, last, hleave, hrun, hlast⟩

/-! ## Lookups afterwards -/

/-- A peer that believes to be alone keeps every key. -/
theorem route_holder_between {s : PeerState} (howner : s.table.owner = x) (k : RingId) :
    Quest.holder.route (s.between x) k = .answer x := by
  show Route.lookup s.table x k = .answer x
  rw [Route.lookup, howner, if_pos]
  simp [Route.owns]

end Network

/-- Where one peer has come to answer with itself, a walk ends as before or at that peer. -/
theorem Route.Walk.diverted {peers : Finset Identifier} {route route' : Identifier → Route}
    {p q x : Identifier} {forwards : Nat} (hsame : ∀ p ≠ x, route' p = route p)
    (hx : route' x = .answer x) (h : Walk peers route p forwards q) :
    ∃ m ≤ forwards, ∃ r, Walk peers route' p m r ∧ (r = q ∨ r = x) := by
  induction h with
  | @answer p q hp hroute =>
      by_cases hpx : p = x
      · exact ⟨0, Nat.le_refl 0, x, .answer hp (hpx ▸ hx), Or.inr rfl⟩
      · exact ⟨0, Nat.le_refl 0, q, .answer hp ((hsame p hpx).trans hroute), Or.inl rfl⟩
  | @forward p f q forwards hp hroute _ ih =>
      by_cases hpx : p = x
      · exact ⟨0, Nat.zero_le _, x, .answer hp (hpx ▸ hx), Or.inr rfl⟩
      · obtain ⟨m, hm, r, hwalk, hr⟩ := ih
        exact ⟨m + 1, Nat.succ_le_succ hm, r, .forward hp ((hsame p hpx).trans hroute) hwalk, hr⟩

namespace Network

variable {n : Network} {cast : Cast} {attempts : List Identifier} {x : Identifier}

/-- A member of a ring that grew by joins leaves it and joins again. -/
theorem Fresh.leave_and_join (fresh : n.Fresh cast attempts) (hx : x ∈ admitted attempts)
    (hmore : admitted attempts ≠ {x}) :
    ∃ before left last view r,
      n.afterJoins (fun p => (cast.site p).seat) cast.discovery attempts = some before ∧
        before.Grown cast attempts view r ∧
        before.leave (cast.site x).seat (.named cast.discovery) = some (left, .ok ()) ∧
        left.join (cast.site x).seat (.named cast.discovery) = some (last, .ok ()) ∧
        last.Scene cast (insert x (admitted attempts))
          (Function.update view x ((view x).between x)) r := by
  obtain ⟨before, view, r, hbefore, hgrown⟩ := fresh.exists_grown
  have hpeers : admitted attempts ⊆ cast.peers := fun p hp =>
    fresh.peers p (mem_of_mem_admitted hp)
  obtain ⟨left, last, hleave, hjoin, hlast⟩ := hgrown.scene.leave_and_join fresh.roomy hpeers
    (Finset.Subset.refl _) (distinctIds_admitted attempts)
    (fun q hq => (hgrown.joined q hq).toSettled) hgrown.lists hx hmore
  have hphase : (view x).enter .joined = view x := by
    have hjoined := (hgrown.joined x hx).phase
    rw [PeerState.enter, ← hjoined]
  rw [hphase] at hlast
  exact ⟨before, left, last, view, r, hbefore, hgrown, hleave, hjoin, hlast⟩

/-- **Joining again leaves a peer between itself and itself.** In a ring of two or more members that
grew by joins, where all ceilings are sixteen or more and every header leaves room for each message
of the ring protocol about each peer (`Fresh.roomy`), let the member `x` leave and join again. Both
succeed, no other member and no registry has changed, and `x` is as it was but for its neighbours,
which are both `x`. A lookup through `x` is answered with `x` whatever the key, and one through
another member with the member that the key belongs to or with `x`. -/
theorem rejoining_loses_neighbours (fresh : n.Fresh cast attempts) (hx : x ∈ admitted attempts)
    (hmore : admitted attempts ≠ {x}) :
    ∃ before left last,
      n.afterJoins (fun p => (cast.site p).seat) cast.discovery attempts = some before ∧
        before.InOrder cast (admitted attempts) ∧
        before.leave (cast.site x).seat (.named cast.discovery) = some (left, .ok ()) ∧
        left.join (cast.site x).seat (.named cast.discovery) = some (last, .ok ()) ∧
        last.peerState (cast.site x).seat = (before.peerState (cast.site x).seat).between x ∧
        (∀ p ∈ admitted attempts, p ≠ x →
          last.peerState (cast.site p).seat = before.peerState (cast.site p).seat) ∧
        (∀ r, before.Registers cast.discovery cast.desk cast.header r →
          last.Registers cast.discovery cast.desk cast.header r) ∧
        ∀ (client : Header) (k : RingId), client.Poses .holder →
          last.run (Quest.holder.ask client x k) = some (last, .ok x) ∧
            ∀ start ∈ admitted attempts, ∃ q,
              last.run (Quest.holder.ask client start k) = some (last, .ok q) ∧
                (Nearest (admitted attempts) k q ∨ q = x) := by
  obtain ⟨before, left, last, view, r, hbefore, hgrown, hleave, hjoin, hlast⟩ :=
    fresh.leave_and_join hx hmore
  have hpeers : admitted attempts ⊆ cast.peers := fun p hp =>
    fresh.peers p (mem_of_mem_admitted hp)
  have right : ∀ p ∈ admitted attempts, (view p).Exact (admitted attempts) p := fun p hp =>
    (hgrown.joined p hp).toExact
  refine ⟨before, left, last, hbefore, hgrown.inOrder fresh.peers, hleave, hjoin, ?_, ?_, ?_, ?_⟩
  · rw [hlast.peerState_eq (hpeers hx), hgrown.peerState_eq (hpeers hx), Function.update_self]
  · intro p hp hpx
    rw [hlast.peerState_eq (hpeers hp), hgrown.peerState_eq (hpeers hp), Function.update_of_ne hpx]
  · intro r' hr'
    rw [hr'.unique hgrown.scene.registers]
    exact hlast.registers
  · intro client k hposes
    have hsame : ∀ p ≠ x, Quest.holder.route (Function.update view x ((view x).between x) p) k =
        Quest.holder.route (view p) k := by
      intro p hpx
      rw [Function.update_of_ne hpx]
    have hanswer : Quest.holder.route (Function.update view x ((view x).between x) x) k =
        .answer x := by
      rw [Function.update_self]
      exact route_holder_between (right x hx).owner k
    have hposed : ∀ p ∈ admitted attempts, (cast.site p).header.Poses .holder := fun p hp =>
      (fresh.roomy.sites.carries p (hpeers hp) x (hpeers hx)).poses.2
    have hask : ∀ {start q forwards}, start ∈ admitted attempts → q ∈ admitted attempts →
        forwards ≤ 16 → Route.Walk (admitted attempts) (fun p => Quest.holder.route
          (Function.update view x ((view x).between x) p) k) start forwards q →
        last.run (Quest.holder.ask client start k) = some (last, .ok q) := fun hstart hq hforwards =>
      (hlast.hosts.mono hpeers).run_ask (hlast.awake.mono (Finset.subset_insert x _))
        (fresh.roomy.sites.mono hpeers) hposed hposes hstart hq hforwards
    refine ⟨hask hx hx (Nat.zero_le 16) (.answer hx hanswer), ?_⟩
    intro start hstart
    obtain ⟨forwards, hforwards, q, hwalk, hq⟩ :=
      walk_of_exact (distinctIds_admitted attempts) right .holder k hstart
    obtain ⟨m, hm, r', hwalk', hr'⟩ := hwalk.diverted hsame hanswer
    rcases hr' with rfl | rfl
    · exact ⟨r', hask hstart hq.1 (by omega) hwalk', Or.inl hq⟩
    · exact ⟨r', hask hstart hx (by omega) hwalk', Or.inr rfl⟩

end Network

namespace Trio

/-! ## The third of three peers joins again -/

open Network

theorem rejoining_loses_neighbours_of_third :
    (network (fun p => .new p fullSize) .empty).Fresh cast [third, second, first] ∧
      third ∈ admitted [third, second, first] ∧ admitted [third, second, first] ≠ {third} ∧
      ∃ before left last, (network (fun p => .new p fullSize) .empty).afterJoins
          (fun p => (cast.site p).seat) cast.discovery [third, second, first] = some before ∧
        before.leave (cast.site third).seat (.named cast.discovery) = some (left, .ok ()) ∧
        left.join (cast.site third).seat (.named cast.discovery) = some (last, .ok ()) ∧
        last.run (Quest.holder.ask header third ⟨50⟩) = some (last, .ok third) := by
  have hthird : third ∈ admitted [third, second, first] := by decide +kernel
  have hmore : admitted [third, second, first] ≠ {third} := by decide +kernel
  obtain ⟨before, left, last, hbefore, -, hleave, hjoin, -, -, -, hlookup⟩ :=
    rejoining_loses_neighbours fresh hthird hmore
  exact ⟨fresh, hthird, hmore, before, left, last, hbefore, hleave, hjoin,
    (hlookup header ⟨50⟩ header_poses.2).1⟩

/-- Afterwards the third peer has itself for a successor, and it has not come to be alone. -/
theorem third_joins_again_beside_itself :
    ∃ before left last, (network (fun p => .new p fullSize) .empty).afterJoins
        (fun p => (cast.site p).seat) cast.discovery [third, second, first] = some before ∧
      before.leave (cast.site third).seat (.named cast.discovery) = some (left, .ok ()) ∧
      left.join (cast.site third).seat (.named cast.discovery) = some (last, .ok ()) ∧
      (last.peerState (cast.site third).seat).successor = third ∧
      ¬ Next (admitted [third, second, first]) third third := by
  obtain ⟨before, left, last, view, r, hbefore, -, hleave, hjoin, hlast⟩ :=
    fresh.leave_and_join (x := third) (by decide +kernel) (by decide +kernel)
  refine ⟨before, left, last, hbefore, hleave, hjoin, ?_, by decide +kernel⟩
  rw [hlast.peerState_eq (by decide +kernel), Function.update_self]
  rfl

end Trio

end ChordRing
