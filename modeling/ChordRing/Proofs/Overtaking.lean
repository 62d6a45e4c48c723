import ChordRing.Proofs.Candidates

/-!
# Overtaken candidates

A discovery node looks at its registry when a peer registers, but enters the peer only when it
announces itself, and does not answer the announcement. Between the two, another peer may be entered
under the same ring id. The peer that comes too late is not told, and both have joined
(`Lobby.both_may_join`, `Trio.twins_both_join`).

This is the only way in which a peer that has joined is not the member under its ring id, and two
peers with one ring id have joined only if each had registered when the other announced itself
(`Lobby.joined_unless_overtaken`).
-/

namespace ChordRing

/-! ## Whoever takes a ring id -/

namespace Discovery

variable {d : Discovery} {a : Identifier} {x : RingId}
  {before after incoming : List (Nat × Message)}

/-- Without an exit, a ring id that is held stays held. -/
theorem holder?_noted_ne_none {r : Registry} {b : Body} (h : r.Ascending)
    (hheld : r.holder? x ≠ none) (hstays : ∀ p, b ≠ .networkExitNotification p) :
    (r.noted b).holder? x ≠ none := by
  obtain ⟨p, hp⟩ := Option.ne_none_iff_exists'.1 hheld
  obtain ⟨hmem, hid⟩ := Registry.mem_of_holder? hp
  intro hnone
  exact Registry.holder?_eq_none.1 hnone p (h.mem_noted.2 (Or.inl ⟨hmem, hstays p⟩)) hid

/-- Without exits, the ring id of a peer that announced itself is held. -/
theorem holder?_of_announced (h : d.registry.Ascending)
    (hstays : ∀ e ∈ incoming, ∀ p, e.2.body ≠ .networkExitNotification p)
    (hannounced : ∃ e ∈ incoming, e.2.body = .networkJoinNotification a) :
    (d.processAll incoming).registry.holder? a.id ≠ none := by
  induction incoming using List.reverseRecOn with
  | nil =>
      obtain ⟨e, he, -⟩ := hannounced
      exact absurd he List.not_mem_nil
  | append_singleton incoming last ih =>
      have horder := ascending_processAll h incoming
      have hlast := hstays last (by simp)
      rw [processAll_append_singleton]
      by_cases hheld : (d.processAll incoming).registry.holder? a.id = none
      · obtain ⟨e, he, hbody⟩ := hannounced
        rcases List.mem_append.1 he with he | he
        · exact absurd hheld (ih (fun e he => hstays e (by simp [he])) ⟨e, he, hbody⟩)
        · rw [List.mem_singleton.1 he] at hbody
          have hmem := horder.mem_noted.2 (Or.inr ⟨hbody, hheld⟩)
          intro hnone
          exact Registry.holder?_eq_none.1 hnone a hmem rfl
      · exact holder?_noted_ne_none horder hheld hlast

/-- A ring id that was free and is held now was taken in between, by the announcement of its
holder. -/
theorem exists_taking (h : d.registry.Ascending)
    (hfree : (d.processAll before).registry.holder? x = none)
    (hheld : (d.processAll (before ++ after)).registry.holder? x = some a) :
    ∃ mid e rest, after = mid ++ e :: rest ∧ e.2.body = .networkJoinNotification a ∧
      (d.processAll (before ++ mid)).registry.holder? x = none := by
  induction after using List.reverseRecOn generalizing a with
  | nil =>
      rw [List.append_nil, hfree] at hheld
      cases hheld
  | append_singleton after last ih =>
      have horder := ascending_processAll h (before ++ after)
      have horder' := ascending_processAll h (before ++ (after ++ [last]))
      obtain ⟨hmem, rfl⟩ := Registry.mem_of_holder? hheld
      rw [← List.append_assoc, processAll_append_singleton] at hmem
      cases hnow : (d.processAll (before ++ after)).registry.holder? a.id with
      | none =>
          rcases horder.mem_noted.1 hmem with ⟨hmem, -⟩ | ⟨hbody, -⟩
          · exact absurd rfl (Registry.holder?_eq_none.1 hnow a hmem)
          · exact ⟨after, last, [], rfl, hbody, hnow⟩
      | some p =>
          rcases horder.mem_noted.1 hmem with ⟨hmem, -⟩ | ⟨-, hnone⟩
          · obtain ⟨hp, hid⟩ := Registry.mem_of_holder? hnow
            rw [horder.eq_of_id_eq hp hmem hid] at hnow
            obtain ⟨mid, e, rest, rfl, hbody, hmid⟩ := ih hnow
            exact ⟨mid, e, rest ++ [last], by simp, hbody, hmid⟩
          · rw [hnow] at hnone
            cases hnone

end Discovery

/-! ## Whoever has joined -/

open Network

namespace Lobby

variable {sender : Identifier → Header} {discovery : String} {header : Header}
  {state : Identifier → PeerState} {l : Lobby} {x y : Identifier} {s : PeerState}

/-- What came in since a registration that the node admitted holds every announcement under the
ring id. -/
theorem Kept.mem_later (h : l.Kept sender) {later : List (Nat × Message)}
    (hadmitted : Admitted l.header l.received x later) {e : Nat × Message} (he : e ∈ l.received)
    (hbody : e.2.body = .networkJoinNotification y) (hid : y.id = x.id) : e ∈ later := by
  obtain ⟨before, lot, sent, hreceived, hfree⟩ := hadmitted
  have hstays := h.stays
  rw [hreceived] at he hstays
  rcases List.mem_append.1 he with he | he
  · have hheld := Discovery.holder?_of_announced (d := .new l.header) Registry.ascending_empty
      (fun e he => hstays e (List.mem_append_left _ he)) ⟨e, he, hbody⟩
    exact absurd (hid ▸ hfree) hheld
  rcases List.mem_cons.1 he with rfl | he
  · cases hbody
  · exact he

/-- The member under the ring id of a peer that has joined is the peer itself, or was announced
between the registration of the peer and its announcement. -/
theorem Kept.holder_of_announced (h : l.Kept sender)
    (hannounced : Announced l.header l.received x) :
    ∃ y, l.desk.registry.holder? x.id = some y ∧
      (y = x ∨ [Body.registerPeerRequest x, .networkJoinNotification y,
        .networkJoinNotification x].Sublist l.bodies) := by
  obtain ⟨later, hadmitted, e, he, hbody⟩ := hannounced
  have ⟨before, lot, sent, hreceived, hfree⟩ := hadmitted
  have hnew : (Discovery.new l.header).registry.Ascending := Registry.ascending_empty
  have hmem : ∀ e ∈ later, e ∈ l.received := fun e he => by simp [hreceived, he]
  have hheld := Discovery.holder?_of_announced hnew h.stays ⟨e, hmem e he, hbody⟩
  obtain ⟨y, hy⟩ := Option.ne_none_iff_exists'.1 hheld
  refine ⟨y, hy, ?_⟩
  rw [hreceived] at hy
  obtain ⟨mid, taking, rest, hsplit, htaking, hstill⟩ := Discovery.exists_taking hnew hfree hy
  cases mid with
  | nil =>
      cases hsplit
      cases htaking
  | cons registration mid =>
      cases hsplit
      rcases List.mem_append.1 he with he | he
      · -- the ring id is not free any more once the peer is announced
        refine absurd hstill (Discovery.holder?_of_announced hnew ?_ ⟨e, by simp [he], hbody⟩)
        intro e he
        refine h.stays e ?_
        rw [hreceived]
        rcases List.mem_append.1 he with he | he
        · exact List.mem_append_left _ he
        · exact List.mem_append_right _ (List.mem_cons.2 ((List.mem_cons.1 he).imp_right
            (List.mem_append_left _)))
      rcases List.mem_cons.1 he with rfl | he
      · left
        rw [hbody] at htaking
        cases htaking
        rfl
      · have hlast : Body.networkJoinNotification x ∈ rest.map fun e => e.2.body :=
          List.mem_map.2 ⟨e, he, hbody⟩
        have hboth : [Body.networkJoinNotification y, .networkJoinNotification x].Sublist
            ((taking :: rest).map fun e => e.2.body) := by
          rw [List.map_cons, htaking]
          exact (List.singleton_sublist.2 hlast).cons_cons _
        exact Or.inr (hadmitted.sublist (hboth.trans ((List.sublist_append_right mid _).map _)))

/-- A peer announces itself after another peer has registered under the same ring id and been
admitted. -/
theorem Kept.registered_before (h : l.Kept sender) (hx : Announced l.header l.received x)
    (hy : Announced l.header l.received y) (hid : y.id = x.id) :
    [Body.registerPeerRequest x, .networkJoinNotification y].Sublist l.bodies := by
  obtain ⟨later, hadmitted, -⟩ := hx
  obtain ⟨since, ⟨before, lot, sent, hreceived, -⟩, e, he, hbody⟩ := hy
  have hmem : e ∈ l.received := by simp [hreceived, he]
  have hlater : e ∈ later := h.mem_later hadmitted hmem hbody hid
  exact hadmitted.sublist (List.singleton_sublist.2 (List.mem_map.2 ⟨e, hlater, hbody⟩))

/-- **A peer that has joined is the member under its ring id unless it was overtaken.** Whatever the
peers send and in whatever order it comes in, once a join has succeeded its ring id is held, by the
peer itself or by one that announced itself between the peer's registration and the peer's own
announcement. So two peers with one ring id have joined only if each had registered when the other
announced itself. -/
theorem joined_unless_overtaken (fresh : ∀ x, (state x).phase ≠ .joined)
    (run : Relation.ReflTransGen (Step sender discovery) (start header state) l) :
    (∀ x, (l.candidates x).task = .done (.ok ()) → (l.candidates x).state.phase = .joined ∧
      ∃ y, l.desk.registry.holder? x.id = some y ∧
        (y = x ∨ [Body.registerPeerRequest x, .networkJoinNotification y,
          .networkJoinNotification x].Sublist l.bodies)) ∧
    ∀ x y, x.id = y.id → (l.candidates x).state.phase = .joined →
      (l.candidates y).state.phase = .joined →
      [Body.registerPeerRequest x, .networkJoinNotification y].Sublist l.bodies ∧
        [Body.registerPeerRequest y, .networkJoinNotification x].Sublist l.bodies := by
  have kept : l.Kept sender := (kept_start fresh).run run
  constructor
  · intro x hdone
    have hjoined := (kept.stages x).joined_iff.1 hdone
    exact ⟨hjoined, kept.holder_of_announced ((kept.stages x).announced hjoined)⟩
  · intro x y hid hx hy
    have hx' := (kept.stages x).announced hx
    have hy' := (kept.stages y).announced hy
    exact ⟨kept.registered_before hx' hy' hid.symm, kept.registered_before hy' hx' hid⟩

/-! ## Two with one ring id -/

end Lobby

/-- The peer set out in the state `s`, and has only to announce itself. -/
def Candidate.admitted (x : Identifier) (s : PeerState) : Candidate :=
  ⟨s.enter .registering, Peer.enrolment x (.ok ())⟩

/-- The peer set out in the state `s`, and has joined. -/
def Candidate.joined (s : PeerState) : Candidate :=
  ⟨(s.enter .registering).enter .joined, .done (.ok ())⟩

namespace Lobby

theorem put_put (l : Lobby) (x : Identifier) (c c' : Candidate)
    (arrived arrived' : List (Nat × Message)) :
    (l.put x c arrived).put x c' arrived' = l.put x c' (arrived ++ arrived') := by
  simp only [put, Function.update_idem, List.append_assoc]

theorem candidates_put_self (l : Lobby) (x : Identifier) (c : Candidate)
    (arrived : List (Nat × Message)) : (l.put x c arrived).candidates x = c :=
  Function.update_self ..

theorem candidates_put_of_ne (h : y ≠ x) (l : Lobby) (c : Candidate)
    (arrived : List (Nat × Message)) : (l.put x c arrived).candidates y = l.candidates y :=
  Function.update_of_ne h ..

/-- A peer that registers while the node knows nobody has only to announce itself. -/
theorem registers_first (hc : l.candidates x = ⟨s, (Peer.join x).run⟩)
    (hempty : l.desk.registry.members = [])
    (hfits : (⟨sender x, .registerPeerRequest x⟩ : Message).Fits)
    (hreply : (⟨l.header, .registerPeerResponse true x⟩ : Message).Fits) :
    Relation.ReflTransGen (Step sender discovery) l
      (l.put x (.admitted x s) [(0, ⟨sender x, .registerPeerRequest x⟩)]) := by
  rw [Peer.join_run] at hc
  obtain ⟨read, hcarry, hreplied, -⟩ := Call.carry_register (sender x) discovery x
  let applying : Lobby :=
    l.put x ⟨s.enter .registering, .call (.register x) (Peer.admission x)⟩ []
  have hdesk : applying.desk = l.desk := by
    show (Discovery.new l.header).processAll (l.received ++ []) = _
    rw [List.append_nil, desk]
  have hoffer : (l.desk.process 0 ⟨sender x, .registerPeerRequest x⟩).2 =
      .ok (some ⟨l.header, .registerPeerResponse true x⟩) := by
    rw [← Discovery.register_first hempty 0]
    show Except.ok (some (⟨l.desk.header, _⟩ : Message)) = _
    rw [desk, Discovery.header_processAll]
    rfl
  have hconsulted : Consulted l.desk ⟨sender x, .registerPeerRequest x⟩ _ _ := .answered 0 hfits
  rw [hoffer, replyBytes, readReply_encode hreply, ← hdesk] at hconsulted
  have hask : Step sender discovery applying (applying.put x
      ⟨s.enter .registering, Peer.admission x (.ok ⟨true, x⟩)⟩
        [(0, ⟨sender x, .registerPeerRequest x⟩)]) :=
    .consults (candidates_put_self ..) trivial hcarry hconsulted (hreplied l.header true x)
  have hlast : Peer.admission x (.ok ⟨true, x⟩) = Peer.enrolment x (.ok ()) := by
    rw [Peer.admission, Peer.linkage, if_neg (not_not_intro rfl)]
    rfl
  rw [put_put, hlast] at hask
  exact .tail (.single (.proceeds hc)) hask

/-- A peer that has only to announce itself can join. -/
theorem announces (hc : l.candidates x = .admitted x s)
    (hfits : (⟨sender x, .networkJoinNotification x⟩ : Message).Fits) :
    Relation.ReflTransGen (Step sender discovery) l
      (l.put x (.joined s) [(0, ⟨sender x, .networkJoinNotification x⟩)]) := by
  obtain ⟨read, hcarry, hdone, -⟩ := Call.carry_announceMember (sender x) discovery x
  have hask : Step sender discovery l (l.put x ⟨s.enter .registering, Peer.entrance (.ok ())⟩
      [(0, ⟨sender x, .networkJoinNotification x⟩)]) :=
    .consults hc trivial hcarry (.answered 0 hfits) (hdone none)
  have henter : Step sender discovery _ _ := .proceeds (candidates_put_self l x
    ⟨s.enter .registering, Peer.entrance (.ok ())⟩
      [(0, ⟨sender x, .networkJoinNotification x⟩)])
  rw [put_put] at henter
  exact .tail (.single hask) henter

/-- Two peers with one ring id can both join before a node that knows nobody, where only the first
becomes a member: both register, and then both announce themselves. -/
theorem both_may_join (sender : Identifier → Header) (discovery : String) (header : Header)
    (state : Identifier → PeerState) (hne : y ≠ x) (hid : y.id = x.id)
    (hx : (sender x).Carries x) (hy : (sender y).Carries y)
    (hreplies : header.Carries x ∧ header.Carries y) :
    ∃ l, Relation.ReflTransGen (Step sender discovery) (start header state) l ∧
      ((l.candidates x).task = .done (.ok ()) ∧ (l.candidates x).state.phase = .joined) ∧
      ((l.candidates y).task = .done (.ok ()) ∧ (l.candidates y).state.phase = .joined) ∧
      l.desk.registry.members = [x] := by
  have hle {p : Identifier} :
      (Wire.identifier p).length ≤ 24 + (Utf8.encode p.hostname).length := by
    rw [Wire.length_identifier]
    omega
  have hle' {p : Identifier} :
      (Body.registerPeerResponse true p).fields.length ≤ 24 + (Utf8.encode p.hostname).length := by
    rw [Body.fields, List.length_append, Wire.length_boolean, Wire.length_identifier]
    omega
  let l₁ := (start header state).put x (.admitted x (state x))
    [(0, ⟨sender x, .registerPeerRequest x⟩)]
  let l₂ := l₁.put y (.admitted y (state y)) [(0, ⟨sender y, .registerPeerRequest y⟩)]
  let l₃ := l₂.put x (.joined (state x)) [(0, ⟨sender x, .networkJoinNotification x⟩)]
  let l₄ := l₃.put y (.joined (state y)) [(0, ⟨sender y, .networkJoinNotification y⟩)]
  have h₁ : Relation.ReflTransGen (Step sender discovery) (start header state) l₁ :=
    registers_first rfl rfl (hx.fits hle) (hreplies.1.fits hle')
  have h₂ : Relation.ReflTransGen (Step sender discovery) l₁ l₂ :=
    registers_first (candidates_put_of_ne hne ..) rfl (hy.fits hle) (hreplies.2.fits hle')
  have h₃ : Relation.ReflTransGen (Step sender discovery) l₂ l₃ :=
    announces ((candidates_put_of_ne hne.symm ..).trans (candidates_put_self ..)) (hx.fits hle)
  have h₄ : Relation.ReflTransGen (Step sender discovery) l₃ l₄ :=
    announces ((candidates_put_of_ne hne ..).trans (candidates_put_self ..)) (hy.fits hle)
  have hxc : l₄.candidates x = .joined (state x) :=
    (candidates_put_of_ne hne.symm ..).trans (candidates_put_self ..)
  have hyc : l₄.candidates y = .joined (state y) := candidates_put_self ..
  refine ⟨l₄, ((h₁.trans h₂).trans h₃).trans h₄, ?_, ?_, ?_⟩
  · rw [hxc]
    exact ⟨rfl, rfl⟩
  · rw [hyc]
    exact ⟨rfl, rfl⟩
  · -- the last announcement finds the ring id held
    have hheld : (⟨[x]⟩ : Registry).holder? y.id ≠ none := by
      rw [ne_eq, Registry.holder?_eq_none]
      exact fun h => h x (List.mem_singleton.2 rfl) hid.symm
    show ((⟨[x]⟩ : Registry).insert y).members = [x]
    rw [Registry.insert_of_held hheld]

end Lobby

namespace Trio

/-- Another peer with the ring id of the first. -/
def twin : Identifier := ⟨"10.0.0.4", first.id⟩

def sender (p : Identifier) : Header := ⟨p.hostname, p.hostname⟩

theorem twins_may_join : ∃ l : Lobby,
    Relation.ReflTransGen (Lobby.Step sender "10.0.0.9")
      (Lobby.start header fun p => .new p FingerTable.fullSize) l ∧
    (∀ p ∈ [first, twin], (l.candidates p).task = .done (.ok ()) ∧
      (l.candidates p).state.phase = .joined) ∧
    l.desk.registry.holder? twin.id = some first := by
  obtain ⟨l, hrun, hfirst, htwin, hmembers⟩ := Lobby.both_may_join sender "10.0.0.9" header
    (fun p => .new p FingerTable.fullSize) (by decide +kernel : twin ≠ first) rfl
    (by decide +kernel) (by decide +kernel) (by decide +kernel)
  refine ⟨l, hrun, ?_, ?_⟩
  · intro p hp
    rcases List.mem_pair.1 hp with rfl | rfl
    · exact hfirst
    · exact htwin
  · rw [Registry.holder?, hmembers]
    rfl

/-- The twin of the first peer is overtaken. -/
theorem joined_unless_overtaken_of_twin :
    (∀ p : Identifier, (PeerState.new p FingerTable.fullSize).phase ≠ .joined) ∧ ∃ l : Lobby,
      Relation.ReflTransGen (Lobby.Step sender "10.0.0.9")
        (Lobby.start header fun p => .new p FingerTable.fullSize) l ∧
      [Body.registerPeerRequest twin, .networkJoinNotification first,
        .networkJoinNotification twin].Sublist l.bodies ∧
      [Body.registerPeerRequest first, .networkJoinNotification twin].Sublist l.bodies := by
  have fresh : ∀ p : Identifier, (PeerState.new p FingerTable.fullSize).phase ≠ .joined :=
    fun p => nofun
  obtain ⟨l, hrun, hboth, hholder⟩ := twins_may_join
  obtain ⟨htwin, htwin'⟩ := hboth twin (by simp)
  obtain ⟨hjoined, hpair⟩ := Lobby.joined_unless_overtaken fresh hrun
  obtain ⟨-, y, hy, hovertaken⟩ := hjoined twin htwin
  obtain rfl : first = y := Option.some.inj (hholder.symm.trans hy)
  exact ⟨fresh, l, hrun, hovertaken.resolve_left (by decide +kernel),
    (hpair first twin rfl (hboth first (by simp)).2 htwin').1⟩

/-- The first peer and its twin have different names and one ring id. The join of the twin succeeds
as well, and both count as joined, but the member under the ring id is not the twin. -/
theorem twins_both_join :
    first ≠ twin ∧ first.id = twin.id ∧ ∃ l : Lobby,
      Relation.ReflTransGen (Lobby.Step sender "10.0.0.9")
        (Lobby.start header fun p => .new p FingerTable.fullSize) l ∧
      (l.candidates twin).task = .done (.ok ()) ∧
      (l.candidates first).state.phase = .joined ∧ (l.candidates twin).state.phase = .joined ∧
      l.desk.registry.holder? twin.id = some first := by
  obtain ⟨l, hrun, hboth, hholder⟩ := twins_may_join
  obtain ⟨htwin, htwin'⟩ := hboth twin (by simp)
  exact ⟨by decide +kernel, rfl, l, hrun, htwin, (hboth first (by simp)).2, htwin', hholder⟩

end Trio

end ChordRing
