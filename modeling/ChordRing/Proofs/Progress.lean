import ChordRing.Proofs.Admission
import ChordRing.Proofs.Anchor

/-!
# Every forward makes progress

A peer with a full table that starts out knowing nobody never hands a search to a peer that is not
strictly closer to the key, whatever messages, joins and refreshes it is busy with at the same time,
and whatever replies it gets (`Peer.forwards_make_progress`). All it has to count on is that an
identifier with its own ring id is its own.

`Peer.Begins` lists the strands that a peer may begin. Each of them keeps the pact
`PeerState.anchoring` (`Peer.Begins.safe`), with one lemma for each kind.
-/

namespace ChordRing

open RingId FingerTable PeerState

/-- The identifier that a caller is told of. -/
def Call.told? : (c : Call) → c.Reply → Option Identifier
  | .findSuccessor .., .ok p => some p
  | .predecessorOf _, .ok p => some p
  | _, _ => none

/-- The reply tells of nobody else who goes by the ring id of `x`. -/
def Call.Genuine (x : Identifier) (c : Call) (reply : c.Reply) : Prop :=
  ∀ y, c.told? reply = some y → ChordRing.Genuine x y

/-- A task without sections keeps every pact. -/
theorem Task.Quiet.safe {σ C α : Type} {R : C → Type} {pact : Pact σ}
    {allowed : (c : C) → R c → Prop} {t : Task σ C R α} (h : t.Quiet) {s : σ} :
    t.Safe pact allowed (fun _ => True) s := by
  induction h with
  | done a => exact trivial
  | call _ ih => exact fun reply _ => ih reply

namespace Peer

variable {x : Identifier} {s : PeerState} {ε : Type}

/-! ## What a peer does on its own account -/

/-- An attempt of `x` that keeps the pact and succeeds with what `P` holds of. -/
abbrev Abides {α : Type} (x : Identifier) (P : α → Prop) (t : PeerAttempt ε α) (s : PeerState) :
    Prop :=
  Attempts (anchoring x) (Call.Genuine x) P t s

theorem abides_update {f : PeerState → PeerState}
    (h : ∀ s : PeerState, s.Anchored x → (f s).Anchored x ∧ (anchoring x).evolves s (f s)) :
    Abides x (fun _ => True) (update f : PeerAttempt ε Unit) s := by
  intro s' hholds _
  obtain ⟨hkept, hevolves⟩ := h s' hholds
  exact ⟨hkept, hevolves, fun _ _ => trivial⟩

theorem abides_enter (phase : Phase) :
    Abides x (fun _ => True) (update (·.enter phase) : PeerAttempt ε Unit) s :=
  abides_update fun _ h => h.enter phase

/-- One call, of which nothing is known but what kind of result it has. -/
theorem abides_call {c : Call} {α : Type} {result : c.Reply → Except ε α} {t : PeerAttempt ε α}
    (hrun : t.run = .call c fun reply => .done (result reply)) :
    Abides x (fun _ => True) t s := by
  show t.run.Safe _ _ _ s
  rw [hrun]
  exact fun _ _ _ _ => trivial

theorem abides_findSuccessor (via : Identifier) (k : RingId) (requester : Identifier) :
    Abides x (Genuine x) (findSuccessor via k requester) s := by
  intro reply hreply p heq
  subst heq
  exact hreply p rfl

theorem abides_predecessorOf (p : Identifier) : Abides x (Genuine x) (predecessorOf p) s := by
  intro reply hreply q heq
  subst heq
  exact hreply q rfl

/-- Once the first finger is another peer, the fingers behind it may be set. -/
theorem abides_resolveFingers (via : Identifier) {fingers : List (Nat × RingId)}
    (hpos : ∀ e ∈ fingers, 0 < e.1) (hfirst : s.table.first ≠ x) :
    Abides x (fun _ => True) (resolveFingers x via fingers) s := by
  induction fingers generalizing s with
  | nil => exact .pure trivial
  | cons e rest ih =>
      obtain ⟨i, k⟩ := e
      intro reply hreply
      cases reply with
      | error e => exact fun _ _ => trivial
      | ok found =>
          -- the state may have changed since the query, but not back to a first finger `x`
          intro s' hholds hevolves
          have hfirst' : s'.table.first ≠ x := hevolves hfirst
          obtain ⟨hkept, hstep⟩ := hholds.setFinger hfirst' (hpos _ List.mem_cons_self)
            (hreply found rfl)
          exact ⟨hkept, hstep, ih (fun e he => hpos e (List.mem_cons_of_mem _ he)) (hstep hfirst')⟩

theorem abides_refresh : Abides x (fun _ => True) (refresh x) s := by
  show (refresh x).run.Safe _ _ _ s
  rw [refresh_run]
  intro s' hholds _
  refine ⟨hholds, (anchoring x).refl s', ?_⟩
  show Abides x (fun _ => True) (resolveFingers x s'.successor
    (if s'.successor = x then [] else staleFingers x s')) s'
  split
  · exact .pure trivial
  · rename_i hsuccessor
    exact abides_resolveFingers _ (fun e he => hholds.pos_of_stale hsuccessor he)
      (hholds.linked hsuccessor)

theorem abides_link (contact : Identifier) (hs : s.Anchored x) :
    Abides x (fun _ => True) (link x contact) s := by
  unfold link
  apply Attempts.bind hs (abides_enter _)
  intro _ s₁ h₁ _ _
  apply Attempts.bind h₁ (abides_findSuccessor contact x.id x)
  intro successor s₂ h₂ _ hsuccessor
  apply Attempts.bind h₂ (abides_update fun _ h => h.setSuccessor hsuccessor)
  intro _ s₃ h₃ _ _
  apply Attempts.bind h₃ (abides_predecessorOf successor)
  intro predecessor s₄ h₄ _ hpredecessor
  apply Attempts.bind h₄ (abides_update fun _ h => h.meetPredecessor hpredecessor)
  intro _ s₅ h₅ _ _
  apply Attempts.bind h₅ (abides_enter _)
  intro _ s₆ h₆ _ _
  -- the replies to the notifications and the announcement tell of nobody
  apply Attempts.bind h₆ (abides_call rfl)
  intro _ s₇ h₇ _ _
  apply Attempts.bind h₇ (abides_call rfl)
  intro _ s₈ h₈ _ _
  have hlast : ∀ s : PeerState, s.Anchored x → Abides x (fun _ => True) (do
      update (·.enter .refreshingFingerTable)
      refresh x : PeerAttempt NetworkError Unit) s := fun s h =>
    Attempts.bind h (abides_enter _) fun _ _ _ _ _ => abides_refresh
  split
  · apply Attempts.bind h₈ (abides_call rfl)
    exact fun _ s₉ h₉ _ _ => hlast s₉ h₉
  · exact hlast s₈ h₈

theorem abides_join (hs : s.Anchored x) : Abides x (fun _ => True) (join x) s := by
  have hlast : ∀ s : PeerState, s.Anchored x → Abides x (fun _ => True)
      ((announceMember x).adapt (fun e => ChordError.joinFailed (.announcement e)) >>=
        fun _ => (update (·.enter .joined) : PeerAttempt ChordError Unit)) s := by
    intro s h
    apply Attempts.bind h ((abides_call rfl).adapt _ h)
    exact fun _ _ _ _ _ => abides_enter _
  rw [join_eq]
  apply Attempts.bind hs (abides_enter _)
  intro _ s₁ h₁ _ _
  apply Attempts.bind h₁ ((abides_call rfl).adapt _ h₁)
  intro registration s₂ h₂ _ _
  split
  · split
    · apply Attempts.bind h₂ ((abides_link registration.contact h₂).adapt _ h₂)
      exact fun _ s₃ h₃ _ _ => hlast s₃ h₃
    · exact hlast s₂ h₂
  · apply Attempts.bind h₂ (abides_enter _)
    exact fun _ _ _ _ _ => .throw _

theorem abides_leave : Abides x (fun _ => True) (leave x) s := by
  intro reply _ s' hholds _
  obtain ⟨hkept, hstep⟩ := hholds.enter .left
  exact ⟨hkept, hstep, fun _ _ => trivial⟩

/-! ## What a peer does on account of a message -/

theorem safe_answer (peer : Peer) {m : Message}
    (hm : ∀ y, m.body.announced? = some y → Genuine peer.identifier y) :
    (peer.answer m).run.Safe (anchoring peer.identifier) (fun _ _ => True) (fun _ => True) s := by
  rcases peer.answer_cases m with ⟨next, hrun, hrepeats⟩ | ⟨hrepeats, -⟩
  · rw [hrun]
    intro s' hholds _
    obtain ⟨hkept, hstep⟩ := hholds.noted hm
    exact ⟨hkept, hstep, (hrepeats _).quiet.safe⟩
  · exact hrepeats.quiet.safe

/-! ## A busy peer -/

/-- The strands that a peer may begin at any time, as far as they tell it of nobody else who goes by
its ring id. -/
inductive Begins (peer : Peer) : Strand PeerState → Prop
  /-- It answers a message. Whatever comes of its exchanges, their replies are only relayed. -/
  | answers {m : Message} :
      (∀ y, m.body.announced? = some y → Genuine peer.identifier y) →
        Begins peer ⟨fun _ _ => True, (peer.answer m).run⟩
  /-- It tightens its table with a peer. -/
  | learns {y : Identifier} :
      Genuine peer.identifier y →
        Begins peer ⟨Call.Genuine peer.identifier, update (·.learn y)⟩
  /-- It joins the ring. -/
  | joins : Begins peer ⟨Call.Genuine peer.identifier, (join peer.identifier).run⟩
  /-- It refreshes its table. -/
  | refreshes : Begins peer ⟨Call.Genuine peer.identifier, (refresh peer.identifier).run⟩
  /-- It leaves the ring. -/
  | leaves : Begins peer ⟨Call.Genuine peer.identifier, (leave peer.identifier).run⟩

theorem Begins.safe {peer : Peer} {strand : Strand PeerState} (h : Begins peer strand)
    (hs : s.Anchored peer.identifier) : strand.Safe (anchoring peer.identifier) s := by
  cases h with
  | answers hm => exact peer.safe_answer hm
  | learns hy =>
      intro s' hholds _
      obtain ⟨hkept, hstep⟩ := hholds.learn hy
      exact ⟨hkept, hstep, trivial⟩
  | joins => exact (abides_join hs).mono fun _ _ => trivial
  | refreshes => exact abides_refresh.mono fun _ _ => trivial
  | leaves => exact abides_leave.mono fun _ _ => trivial

/-- The peer `x` before it does anything. -/
def idle (x : Identifier) (maxHops : Nat) (header : Header) : Pool PeerState :=
  ⟨(Peer.new x fullSize maxHops header).state, []⟩

/-- **Every forward is strict progress.** At every moment of a peer with a full table that set out
knowing nobody, a search for `k` that it hands on goes to the closest preceding finger, which lies
strictly between the peer and `k`. -/
theorem forwards_make_progress {x : Identifier} {maxHops : Nat} {header : Header}
    {pool : Pool PeerState}
    (run : Relation.ReflTransGen (Pool.Step (Begins (Peer.new x fullSize maxHops header)))
      (idle x maxHops header) pool) {k : RingId} {next : Identifier}
    (hroute : Route.findSuccessor pool.state.table k = .forward next ∨
      Route.lookup pool.state.table pool.state.predecessor k = .forward next) :
    pool.state.table.owner = x ∧ pool.state.table.closestPreceding k = some next ∧
      0 < distance x.id next.id ∧ distance x.id next.id < distance x.id k := by
  have hstart : (idle x maxHops header).Sound (anchoring x) :=
    ⟨anchored_new x, fun _ hstrand => absurd hstrand List.not_mem_nil⟩
  have hsound := hstart.steps (fun _ _ hbegins hs => hbegins.safe hs) run
  have hanchored : pool.state.table.Anchored x := hsound.holds.table
  have hforward : Route.findSuccessor pool.state.table k = .forward next := by
    rcases hroute with hroute | hroute
    · exact hroute
    · unfold Route.lookup at hroute
      split at hroute
      · cases hroute
      · exact hroute
  have hclosest := hanchored.closestPreceding_of_forward hforward
  have hprecedes := precedes_iff.1 (closestPreceding_eq_some hclosest).2.1
  rw [hanchored.owner] at hprecedes
  exact ⟨hanchored.owner, hclosest, hprecedes⟩

end Peer

namespace Trio

/-- The first peer, once it is told of a successor, hands on what lies beyond that. -/
theorem forwards_make_progress_of_first : ∃ pool,
    Relation.ReflTransGen (Pool.Step (Peer.Begins (Peer.new first fullSize 16 header)))
        (Peer.idle first 16 header) pool ∧
      Route.findSuccessor pool.state.table ⟨40000⟩ = .forward middle ∧
      pool.state.table.owner = first ∧ pool.state.table.closestPreceding ⟨40000⟩ = some middle ∧
      0 < distance first.id middle.id ∧
      distance first.id middle.id < distance first.id ⟨40000⟩ := by
  have htold : ∀ y, (Body.successorNotification middle).announced? = some y →
      Genuine first y := by
    intro y hy
    obtain rfl := Option.some.inj hy
    exact fun hid => absurd hid (by decide)
  have hanswer : ((Peer.new first fullSize 16 header).answer
      ⟨header, .successorNotification middle⟩).run = .locked (·.setSuccessor middle) fun _ =>
        .done (.ok (some ⟨header, .statusResponse .ok⟩)) := rfl
  -- the peer begins to answer the notification, and its one section takes note of it
  have hbegun : Pool.Step (Peer.Begins (Peer.new first fullSize 16 header))
      (Peer.idle first 16 header) ⟨(Peer.idle first 16 header).state, [] ++ [⟨fun _ _ => True,
        ((Peer.new first fullSize 16 header).answer
          ⟨header, .successorNotification middle⟩).run⟩]⟩ := .begun (.answers htold)
  rw [hanswer] at hbegun
  have hrun := (Relation.ReflTransGen.single hbegun).tail (.goesOn (.locked _ _))
  refine ⟨_, hrun, ?_⟩
  have hroute : Route.findSuccessor ((Peer.idle first 16 header).state.setSuccessor middle).table
      ⟨40000⟩ = .forward middle := by decide +kernel
  exact ⟨hroute, Peer.forwards_make_progress hrun (Or.inl hroute)⟩

end Trio

end ChordRing
