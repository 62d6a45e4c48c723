import ChordRing.Proofs.Calls

/-!
# Refreshing a finger table

A refresh asks the successor for every finger that covers a position beyond it, and sets the finger
to the answer. If the answers are right and the other fingers were, the table is converged
afterwards (`PeerState.resolved_converged`). On the network, each question is a search that starts
at the successor (`Completes.resolveFingers`, `Network.Scene.refresh`).
-/

namespace ChordRing

open RingId FingerTable

namespace PeerState

/-- The state once each of the fingers has been set to what was found for its position. -/
def resolved (found : RingId → Identifier) (fingers : List (Nat × RingId)) (s : PeerState) :
    PeerState :=
  fingers.foldl (fun s e => s.setFinger e.1 (found e.2)) s

variable {members : Finset Identifier} {x q : Identifier} {found : RingId → Identifier}

/-- Nothing but fingers is changed. -/
theorem resolved_eq (found : RingId → Identifier) (fingers : List (Nat × RingId)) :
    ∀ s : PeerState, ∃ t, s.resolved found fingers = { s with table := t } ∧
      t.owner = s.table.owner ∧ t.size = s.table.size := by
  induction fingers with
  | nil => exact fun s => ⟨s.table, rfl, rfl, rfl⟩
  | cons e rest ih =>
      intro s
      obtain ⟨t, ht, howner, hsize⟩ := ih (s.setFinger e.1 (found e.2))
      exact ⟨t, ht, howner, hsize.trans (size_set _ _ _)⟩

/-- A finger is what was found for it, or what it was if nothing was looked for. -/
theorem get?_resolved (fingers : List (Nat × RingId)) {i : Nat} :
    ∀ s : PeerState, (s.resolved found fingers).table.get? i = some q →
      (∃ e ∈ fingers, e.1 = i ∧ q = found e.2) ∨
        (∀ e ∈ fingers, e.1 ≠ i) ∧ s.table.get? i = some q := by
  induction fingers with
  | nil => exact fun s h => Or.inr ⟨fun e he => absurd he List.not_mem_nil, h⟩
  | cons e rest ih =>
      intro s h
      rcases ih (s.setFinger e.1 (found e.2)) h with ⟨e', he', hi, hq⟩ | ⟨hrest, hget⟩
      · exact Or.inl ⟨e', List.mem_cons_of_mem e he', hi, hq⟩
      · rcases get?_set hget with ⟨hi, hq⟩ | ⟨hi, hget⟩
        · exact Or.inl ⟨e, List.mem_cons_self, hi, hq⟩
        · refine Or.inr ⟨fun e' he' => ?_, hget⟩
          rcases List.mem_cons.1 he' with rfl | he'
          · exact hi
          · exact hrest e' he'

theorem mem_staleFingers {s : PeerState} {e : Nat × RingId} :
    e ∈ Peer.staleFingers x s ↔
      e.1 < s.table.size ∧ e.2 = s.table.position e.1 ∧ ¬ e.2.isBetween x.id s.successor.id := by
  rcases e with ⟨i, k⟩
  simp only [Peer.staleFingers, List.mem_filter, List.mem_map, List.mem_range, Prod.mk.injEq,
    Bool.not_eq_true', Bool.not_eq_true]
  constructor
  · rintro ⟨⟨j, hj, rfl, rfl⟩, hk⟩
    exact ⟨hj, rfl, hk⟩
  · rintro ⟨hi, rfl, hk⟩
    exact ⟨⟨i, hi, rfl, rfl⟩, hk⟩

/-- Right answers beyond the successor, and right fingers up to it, make a converged table. -/
theorem resolved_converged {s : PeerState} (hsize : s.table.size = fullSize)
    (hfound : ∀ e ∈ Peer.staleFingers x s, Nearest members e.2 (found e.2))
    (hkept : ∀ i q, s.table.get? i = some q →
      (s.table.position i).isBetween x.id s.successor.id → Nearest members (s.table.position i) q) :
    (s.resolved found (Peer.staleFingers x s)).table.Converged members := by
  obtain ⟨t, ht, howner, hsame⟩ := resolved_eq found (Peer.staleFingers x s) s
  have hposition : ∀ i, t.position i = s.table.position i := by
    intro i
    rw [FingerTable.position, FingerTable.position, howner, hsame]
  have htable : (s.resolved found (Peer.staleFingers x s)).table = t := by rw [ht]
  refine ⟨by rw [htable, hsame, hsize], ?_⟩
  intro i q hq
  rw [htable, hposition]
  -- a finger was looked for, or covers a position up to the successor
  rcases get?_resolved _ s hq with ⟨e, he, rfl, rfl⟩ | ⟨hnone, hget⟩
  · rw [← (mem_staleFingers.1 he).2.1]
    exact hfound e he
  · apply hkept i q hget
    by_contra hstale
    exact hnone (i, s.table.position i)
      (mem_staleFingers.2 ⟨get?_lt hget, rfl, hstale⟩) rfl

/-- A linked peer stays linked when a finger is set to the member nearest to its position. -/
theorem Linked.setFinger {s : PeerState} (h : s.Linked members x) {i : Nat}
    (hsize : s.table.size = fullSize) (hq : Nearest members (s.table.position i) q) :
    (s.setFinger i q).Linked members x where
  predecessor := h.predecessor
  owner := h.owner
  sound := by
    constructor
    · have hlt : 0 < (s.table.set i q).size := by
        rw [size_set, hsize]
        norm_num [fullSize]
      obtain ⟨p, hp⟩ := exists_get? hlt
      show Next members s.table.owner (s.table.set i q).first
      rw [first_of_get? hp]
      rcases get?_set hp with ⟨rfl, rfl⟩ | ⟨-, hget⟩
      · rw [position_eq_ahead hsize] at hq
        exact hq
      · rw [← first_of_get? hget]
        exact h.sound.first
    · intro p hp
      rcases List.mem_or_eq_of_mem_set hp with hp | rfl
      · exact h.sound.entries p hp
      · exact hq.1

end PeerState

/-! ## Refreshing on a network -/

section Rules

open PeerState

variable {Inv : Network → Prop} {patience : Nat} {cast : Cast} {x s : Identifier} {n : Network}
  {found : RingId → Identifier} {At : Network → PeerState → Prop}

/-- Each of the fingers is set to what was found for it, if every search on the way finds that. `At`
says how the network is while the peer is in a state. -/
theorem Completes.resolveFingers (fingers : List (Nat × RingId)) (hinv : ∀ n st, At n st → Inv n)
    (hsearch : ∀ n st, ∀ e ∈ fingers, At n st →
      Completes Inv patience cast x (Peer.findSuccessor s e.2 x) n fun n' q =>
        At n' st ∧ q = found e.2)
    (hset : ∀ n st, ∀ e ∈ fingers, At n st →
      At (n.changePeer (cast.site x).seat (·.setFinger e.1 (found e.2)))
        (st.setFinger e.1 (found e.2))) :
    ∀ n st, At n st → Completes Inv patience cast x (Peer.resolveFingers x s fingers) n
      fun n' _ => At n' (st.resolved found fingers) := by
  -- induction on the fingers, for every state of the peer
  induction fingers with
  | nil => exact fun n st hst => .pure (hinv n st hst) hst
  | cons e rest ih =>
      intro n st hst
      apply (hsearch n st e List.mem_cons_self hst).bind
      rintro n₁ q hnow₁ ⟨hst₁, rfl⟩
      have hnext := hset n₁ st e List.mem_cons_self hst₁
      have hupdate : Completes Inv patience cast x
          (Peer.update (·.setFinger e.1 (found e.2)) : PeerAttempt NetworkError Unit) n₁
          fun n' _ => At n' (st.setFinger e.1 (found e.2)) :=
        .update hnow₁ (hinv _ _ hnext) hnext
      apply hupdate.bind
      intro n₂ _ _ hst₂
      exact ih (fun n st e he => hsearch n st e (List.mem_cons_of_mem _ he))
        (fun n st e he => hset n st e (List.mem_cons_of_mem _ he)) n₂ _ hst₂

/-- A peer that has a successor resolves every finger beyond it. -/
theorem Completes.refresh (At : Network → PeerState → Prop) {st : PeerState}
    (hread : (Seat.peer (cast.site x).seat).read n = st)
    (hself : st.successor ≠ x) (hinv : ∀ n st, At n st → Inv n)
    (hsearch : ∀ n now, ∀ e ∈ Peer.staleFingers x st, At n now →
      Completes Inv patience cast x (Peer.findSuccessor st.successor e.2 x) n fun n' q =>
        At n' now ∧ q = found e.2)
    (hset : ∀ n now, ∀ e ∈ Peer.staleFingers x st, At n now →
      At (n.changePeer (cast.site x).seat (·.setFinger e.1 (found e.2)))
        (now.setFinger e.1 (found e.2))) (hst : At n st) :
    Completes Inv patience cast x (Peer.refresh x) n fun n' _ =>
      At n' (st.resolved found (Peer.staleFingers x st)) := by
  have hrest : Completes Inv patience cast x (Peer.resolveFingers x st.successor
      (Peer.staleFingers x st)) n _ :=
    Completes.resolveFingers (Peer.staleFingers x st) hinv hsearch hset n st hst
  apply Assures.locked (hinv n st hst)
  have hid : (Seat.peer (cast.site x).seat).change id n = n := Network.changePeer_id n _
  rw [hid, hread]
  show Completes Inv patience cast x (if st.successor = x then Pure.pure ()
    else Peer.resolveFingers x st.successor (Peer.staleFingers x st)) n _
  rw [if_neg hself]
  exact hrest

end Rules

namespace Network

open PeerState

variable {n : Network} {cast : Cast} {awake members : Finset Identifier}
  {view : Identifier → PeerState} {r : Registry} {x s : Identifier} {Inv : Network → Prop}
  {patience : Nat} {found : RingId → Identifier} {G : PeerState → Prop}

/-- Where every search from the successor finds what it should, whatever good state the peer `x`
itself is in, each finger beyond the successor is set to what was found for it. -/
theorem Scene.refresh {st : PeerState} (roomy : cast.Roomy) (hmembers : members ⊆ cast.peers)
    (hawake : members ⊆ awake) (hx : x ∈ cast.peers) (hpatience : 16 < patience)
    (hself : st.successor ≠ x)
    (hgood : ∀ now, ∀ e ∈ Peer.staleFingers x st, G now → G (now.setFinger e.1 (found e.2)))
    (hsearch : ∀ now, ∀ e ∈ Peer.staleFingers x st, G now → ∃ forwards ≤ 16,
      Route.Walk members (fun p => Quest.route (.successor x) (Function.update view x now p) e.2)
        st.successor forwards (found e.2) ∧ found e.2 ∈ members)
    (hinv : ∀ n' now, n'.Scene cast awake (Function.update view x now) r → G now → Inv n')
    (scene : n.Scene cast awake (Function.update view x st) r) (hst : G st) :
    Completes Inv patience cast x (Peer.refresh x) n fun n' _ =>
      n'.Scene cast awake
        (Function.update view x (st.resolved found (Peer.staleFingers x st))) r := by
  have hread := scene.hosts.read hx
  rw [Function.update_self] at hread
  have hrun : Completes Inv patience cast x (Peer.refresh x) n fun n' _ =>
      n'.Scene cast awake
        (Function.update view x (st.resolved found (Peer.staleFingers x st))) r ∧
      G (st.resolved found (Peer.staleFingers x st)) := by
    refine Completes.refresh (fun n' now =>
      n'.Scene cast awake (Function.update view x now) r ∧ G now) hread hself
      (fun n' now h => hinv n' now h.1 h.2) ?_ ?_ ⟨scene, hst⟩
    · rintro n' now e he ⟨scene', hnow⟩
      obtain ⟨forwards, hforwards, hwalk, hfound⟩ := hsearch now e he hnow
      apply (scene'.findSuccessor roomy hmembers hawake hx (hinv n' now scene' hnow) hfound
        hforwards hpatience hwalk).mono
      rintro n₁ q ⟨scene₁, rfl⟩
      exact ⟨⟨scene₁, hnow⟩, rfl⟩
    · rintro n' now e he ⟨scene', hnow⟩
      have hscene := scene'.changePeer hx (·.setFinger e.1 (found e.2))
      rw [Function.update_idem, Function.update_self] at hscene
      exact ⟨hscene, hgood now e he hnow⟩
  exact hrun.mono fun n' _ h => h.1

end Network

end ChordRing
