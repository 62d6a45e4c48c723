import Mathlib.Logic.Relation
import ChordRing.Proofs.Delivery
import ChordRing.Proofs.Linking
import ChordRing.Proofs.Membership

/-!
# Candidates at the same time

Any number of peers join through one discovery node, each in a task of its own, and what they send
to the node comes in one by one, in any order (`Lobby.Step`). A join goes through its stages
(`Stage`): the peer registers, is admitted if its ring id is free, links to the ring, announces
itself and counts as joined. Whatever comes in meanwhile, a peer that counts as joined was admitted
and has announced itself since (`Lobby.Kept.run`, `Stage.announced`).
-/

namespace ChordRing

/-! ## Candidates before a node -/

open Network

/-- A peer that joins: its state, and what is left of its join. -/
structure Candidate where
  state : PeerState
  task : PeerTask (Except ChordError Unit)

/-- Candidates before a discovery node that knew nobody at first: the header of its replies, the
candidates, and what the node has received, each message with the lot that was drawn for it. -/
structure Lobby where
  header : Header
  candidates : Identifier → Candidate
  received : List (Nat × Message)

namespace Lobby

/-- The node, once it has processed what it received. -/
def desk (l : Lobby) : Discovery := (Discovery.new l.header).processAll l.received

/-- What the messages to the node said. -/
def bodies (l : Lobby) : List Body := l.received.map fun e => e.2.body

/-- Every peer is about to join. -/
def start (header : Header) (state : Identifier → PeerState) : Lobby :=
  ⟨header, fun x => ⟨state x, (Peer.join x).run⟩, []⟩

/-- One candidate has moved on, and messages have arrived at the node. -/
def put (l : Lobby) (x : Identifier) (c : Candidate) (arrived : List (Nat × Message)) : Lobby :=
  { l with
    candidates := Function.update l.candidates x c
    received := l.received ++ arrived }

/-- What comes of a message to the node: what the node receives and what the sender gets. -/
inductive Consulted (desk : Discovery) (m : Message) : List (Nat × Message) → Outcome → Prop
  /-- The node processes the message, and the sender reads the reply. -/
  | answered (lot : Nat) : m.Fits →
      Consulted desk m [(lot, m)] (readReply (replyBytes (desk.process lot m).2))
  /-- The message is too long to be read. -/
  | unread : ¬ m.Fits → Consulted desk m [] (.ok none)
  /-- The message does not reach the node. -/
  | lost (e : NetworkError) : Consulted desk m [] (.error e)
  /-- The node processes the message, and the reply does not reach the sender. -/
  | unanswered (lot : Nat) (e : NetworkError) : m.Fits → Consulted desk m [(lot, m)] (.error e)

/-- What may happen next, where the peers send under these headers to the node of this name. -/
inductive Step (sender : Identifier → Header) (discovery : String) : Lobby → Lobby → Prop
  /-- A join goes on by one section. -/
  | proceeds {l : Lobby} {x : Identifier} {s : PeerState} {change : PeerState → PeerState}
      {next : PeerState → PeerTask (Except ChordError Unit)} :
      l.candidates x = ⟨s, .locked change next⟩ →
        Step sender discovery l (l.put x ⟨change s, next (change s)⟩ [])
  /-- A join turns to the node. -/
  | consults {l : Lobby} {x : Identifier} {s : PeerState} {c : Call}
      {next : c.Reply → PeerTask (Except ChordError Unit)} {m : Message}
      {read : Outcome → NodeTask PeerState c.Reply} {arrived : List (Nat × Message)}
      {outcome : Outcome} {reply : c.Reply} :
      l.candidates x = ⟨s, .call c next⟩ → c.ToRendezvous →
        c.carry (sender x) discovery = .call ⟨Rendezvous.addressOf discovery, m⟩ read →
        Consulted l.desk m arrived outcome → read outcome = .done reply →
        Step sender discovery l (l.put x ⟨s, next reply⟩ arrived)
  /-- A join turns to another peer, whatever comes of it. -/
  | asks {l : Lobby} {x : Identifier} {s : PeerState} {c : Call}
      {next : c.Reply → PeerTask (Except ChordError Unit)} (reply : c.Reply) :
      l.candidates x = ⟨s, .call c next⟩ → ¬ c.ToRendezvous →
        Step sender discovery l (l.put x ⟨s, next reply⟩ [])
  /-- A peer takes note of a message from another peer. -/
  | hears {l : Lobby} (x : Identifier) (b : Body) :
      Step sender discovery l
        (l.put x ⟨(l.candidates x).state.noted x b, (l.candidates x).task⟩ [])
  /-- The node receives any other message that does not announce an exit. -/
  | receives {l : Lobby} (lot : Nat) (m : Message) :
      (∀ p, m.body ≠ .networkExitNotification p) →
        Step sender discovery l { l with received := l.received ++ [(lot, m)] }

end Lobby

/-! ## How far a join has come -/

/-- The registration of `x` came in when its ring id was free, and `later` came in since. -/
def Admitted (header : Header) (received : List (Nat × Message)) (x : Identifier)
    (later : List (Nat × Message)) : Prop :=
  ∃ before lot h, received = before ++ (lot, ⟨h, .registerPeerRequest x⟩) :: later ∧
    ((Discovery.new header).processAll before).registry.holder? x.id = none

/-- `x` was admitted, and its announcement came in after that. -/
def Announced (header : Header) (received : List (Nat × Message)) (x : Identifier) : Prop :=
  ∃ later, Admitted header received x later ∧ ∃ e ∈ later, e.2.body = .networkJoinNotification x

/-- How far the join of `x` has come. -/
inductive Stage (sender header : Header) (received : List (Nat × Message)) (x : Identifier) :
    Candidate → Prop
  /-- It has not begun. -/
  | outset {s : PeerState} : s.phase ≠ .joined →
      Stage sender header received x
        ⟨s, .locked (·.enter .registering) fun _ => .call (.register x) (Peer.admission x)⟩
  /-- It is about to register. -/
  | applying {s : PeerState} : s.phase ≠ .joined →
      Stage sender header received x ⟨s, .call (.register x) (Peer.admission x)⟩
  /-- It is turned away. -/
  | refused {s : PeerState} (e : ChordError) : s.phase ≠ .joined →
      Stage sender header received x ⟨s, .locked (·.enter .unjoined) fun _ => .done (.error e)⟩
  /-- It has failed. -/
  | failed {s : PeerState} (e : ChordError) : s.phase ≠ .joined →
      Stage sender header received x ⟨s, .done (.error e)⟩
  /-- It links to the ring, and the rest is to announce the peer. -/
  | linking {s : PeerState} {t : PeerTask (Except ChordError Unit)}
      {later : List (Nat × Message)} : s.phase ≠ .joined → Peer.Linking t →
      (⟨sender, .registerPeerRequest x⟩ : Message).Fits → Admitted header received x later →
      Stage sender header received x ⟨s, Task.andThen (Peer.enrolment x) t⟩
  /-- The peer is announced. -/
  | entering {s : PeerState} : s.phase ≠ .joined → Announced header received x →
      Stage sender header received x ⟨s, .locked (·.enter .joined) fun _ => .done (.ok ())⟩
  /-- It has succeeded. -/
  | joined {s : PeerState} : s.phase = .joined → Announced header received x →
      Stage sender header received x ⟨s, .done (.ok ())⟩

section Stage

variable {sender header : Header} {received arrived later : List (Nat × Message)}
  {x y : Identifier} {c : Candidate}

theorem Admitted.append (h : Admitted header received x later) (arrived : List (Nat × Message)) :
    Admitted header (received ++ arrived) x (later ++ arrived) := by
  obtain ⟨before, lot, sent, rfl, hfree⟩ := h
  exact ⟨before, lot, sent, by simp, hfree⟩

theorem Announced.append (h : Announced header received x) (arrived : List (Nat × Message)) :
    Announced header (received ++ arrived) x := by
  obtain ⟨later, hadmitted, e, he, hbody⟩ := h
  exact ⟨later ++ arrived, hadmitted.append arrived, e, List.mem_append_left _ he, hbody⟩

/-- What was said since an admitted registration was said after it. -/
theorem Admitted.sublist {said : List Body} (h : Admitted header received x later)
    (hsaid : said.Sublist (later.map fun e => e.2.body)) :
    (Body.registerPeerRequest x :: said).Sublist (received.map fun e => e.2.body) := by
  obtain ⟨before, lot, sent, rfl, -⟩ := h
  rw [List.map_append, List.map_cons]
  exact (hsaid.cons_cons _).trans (List.sublist_append_right _ _)

/-- The announcement of an admitted peer comes in. -/
theorem Admitted.announced (h : Admitted header received x later) (lot : Nat) (sent : Header) :
    Announced header (received ++ [(lot, ⟨sent, .networkJoinNotification x⟩)]) x :=
  ⟨_, h.append _, _, List.mem_append_right _ (List.mem_singleton.2 rfl), rfl⟩

namespace Stage

/-- What arrives at the node later does not set a join back. -/
theorem append (h : Stage sender header received x c) (arrived : List (Nat × Message)) :
    Stage sender header (received ++ arrived) x c := by
  cases h with
  | outset hphase => exact .outset hphase
  | applying hphase => exact .applying hphase
  | refused e hphase => exact .refused e hphase
  | failed e hphase => exact .failed e hphase
  | linking hphase hlinking hfits hadmitted =>
      exact .linking hphase hlinking hfits (hadmitted.append arrived)
  | entering hphase hannounced => exact .entering hphase (hannounced.append arrived)
  | joined hphase hannounced => exact .joined hphase (hannounced.append arrived)

/-- A message from another peer leaves the phase as it is. -/
theorem hears (h : Stage sender header received x c) (b : Body) :
    Stage sender header received x ⟨c.state.noted x b, c.task⟩ := by
  have hsame : (c.state.noted x b).phase = c.state.phase := PeerState.phase_noted
  cases h with
  | outset hphase => exact .outset (hsame ▸ hphase)
  | applying hphase => exact .applying (hsame ▸ hphase)
  | refused e hphase => exact .refused e (hsame ▸ hphase)
  | failed e hphase => exact .failed e (hsame ▸ hphase)
  | linking hphase hlinking hfits hadmitted =>
      exact .linking (hsame ▸ hphase) hlinking hfits hadmitted
  | entering hphase hannounced => exact .entering (hsame ▸ hphase) hannounced
  | joined hphase hannounced => exact .joined (hsame.trans hphase) hannounced

/-- A join that has its result succeeded if and only if the peer counts as joined. -/
theorem joined_iff (h : Stage sender header received x c) :
    c.task = .done (.ok ()) ↔ c.state.phase = .joined := by
  cases h with
  | outset hphase => exact ⟨nofun, fun h => absurd h hphase⟩
  | applying hphase => exact ⟨nofun, fun h => absurd h hphase⟩
  | refused e hphase => exact ⟨nofun, fun h => absurd h hphase⟩
  | failed e hphase => exact ⟨nofun, fun h => absurd h hphase⟩
  | @linking s t _ hphase _ _ _ =>
      refine ⟨fun h => ?_, fun h => absurd h hphase⟩
      rcases t with (e | ⟨⟩) | _ | _ <;> cases h
  | entering hphase _ => exact ⟨nofun, fun h => absurd h hphase⟩
  | joined hphase _ => exact ⟨fun _ => hphase, fun _ => rfl⟩

theorem announced (h : Stage sender header received x c) (hjoined : c.state.phase = .joined) :
    Announced header received x := by
  cases h with
  | joined _ hannounced => exact hannounced
  | outset hphase => exact absurd hjoined hphase
  | applying hphase => exact absurd hjoined hphase
  | refused _ hphase => exact absurd hjoined hphase
  | failed _ hphase => exact absurd hjoined hphase
  | linking hphase => exact absurd hjoined hphase
  | entering hphase => exact absurd hjoined hphase

/-- One section of a join. -/
theorem proceeds {s : PeerState} {change : PeerState → PeerState}
    {next : PeerState → PeerTask (Except ChordError Unit)}
    (h : Stage sender header received x c) (hc : c = ⟨s, .locked change next⟩) :
    Stage sender header received x ⟨change s, next (change s)⟩ := by
  cases h with
  | outset hphase =>
      cases hc
      exact .applying nofun
  | applying hphase => cases hc
  | refused e hphase =>
      cases hc
      exact .failed e nofun
  | failed e hphase => cases hc
  | linking hphase hlinking hfits hadmitted =>
      cases hlinking with
      | done result => rcases result with e | ⟨⟩ <;> cases hc
      | locked hsection hnext =>
          cases hc
          exact .linking (hsection s hphase) (hnext _) hfits hadmitted
      | call hcall hnext => cases hc
  | entering hphase hannounced =>
      cases hc
      exact .joined rfl hannounced
  | joined hphase hannounced => cases hc

/-- One call of a join to another peer. -/
theorem asks {s : PeerState} {call : Call}
    {next : call.Reply → PeerTask (Except ChordError Unit)}
    (h : Stage sender header received x c) (hc : c = ⟨s, .call call next⟩)
    (hcall : ¬ call.ToRendezvous) (reply : call.Reply) :
    Stage sender header received x ⟨s, next reply⟩ := by
  cases h with
  | outset hphase => cases hc
  | applying hphase =>
      cases hc
      exact absurd trivial hcall
  | refused e hphase => cases hc
  | failed e hphase => cases hc
  | linking hphase hlinking hfits hadmitted =>
      cases hlinking with
      | done result =>
          rcases result with e | ⟨⟩
          · cases hc
          · cases hc
            exact absurd trivial hcall
      | locked hsection hnext => cases hc
      | call hother hnext =>
          cases hc
          exact .linking hphase (hnext reply) hfits hadmitted
  | entering hphase hannounced => cases hc
  | joined hphase hannounced => cases hc

/-- The registration comes to an end, with an answer of the node or without. -/
theorem registered {s : PeerState} {outcome : Outcome}
    {read : Outcome → NodeTask PeerState (Except DiscoveryError Registration)}
    {reply : Except DiscoveryError Registration} (hphase : s.phase ≠ .joined)
    (hconsulted : Lobby.Consulted ((Discovery.new header).processAll received)
      ⟨sender, .registerPeerRequest x⟩ arrived outcome)
    (hreplied : ∀ h accepted contact,
      read (.ok (some ⟨h, .registerPeerResponse accepted contact⟩)) =
        .done (.ok ⟨accepted, contact⟩))
    (hfailed : ∀ outcome,
      (∀ h accepted contact, outcome ≠ .ok (some ⟨h, .registerPeerResponse accepted contact⟩)) →
        ∃ e, read outcome = .done (.error e))
    (hread : read outcome = .done reply) :
    Stage sender header (received ++ arrived) x ⟨s, Peer.admission x reply⟩ := by
  by_cases hanswer : ∃ h accepted contact,
      outcome = .ok (some ⟨h, .registerPeerResponse accepted contact⟩)
  · obtain ⟨h, accepted, contact, rfl⟩ := hanswer
    rw [hreplied] at hread
    cases hread
    generalize heq : (Except.ok (some ⟨h, .registerPeerResponse accepted contact⟩) : Outcome) =
      outcome at hconsulted
    cases hconsulted with
    | unread _ => cases heq
    | lost _ => cases heq
    | unanswered _ _ _ => cases heq
    | answered lot hfits =>
        obtain ⟨accepted', contact', hregister, hheld, -⟩ :=
          ((Discovery.new header).processAll received).exists_register lot x
        have hreply := readReply_eq_ok heq.symm
        rw [hregister] at hreply
        cases hreply
        cases accepted with
        | false => exact .refused _ hphase
        | true =>
            refine .linking hphase (Peer.linking_linkage x contact) hfits
              ⟨received, lot, sender, rfl, ?_⟩
            by_contra hne
            cases hheld.2 hne
  · obtain ⟨e, he⟩ := hfailed outcome fun h accepted contact heq =>
      hanswer ⟨h, accepted, contact, heq⟩
    rw [he] at hread
    cases hread
    exact .failed _ hphase

/-- The announcement comes to an end. -/
theorem told {s : PeerState} {outcome : Outcome}
    {read : Outcome → NodeTask PeerState (Except DiscoveryError Unit)}
    {reply : Except DiscoveryError Unit} (hphase : s.phase ≠ .joined)
    (hfits : (⟨sender, .registerPeerRequest x⟩ : Message).Fits)
    (hadmitted : Admitted header received x later)
    (hconsulted : Lobby.Consulted ((Discovery.new header).processAll received)
      ⟨sender, .networkJoinNotification x⟩ arrived outcome)
    (hdone : ∀ reply, read (.ok reply) = .done (.ok ()))
    (hfailed : ∀ e, read (.error e) = .done (.error (.network e)))
    (hread : read outcome = .done reply) :
    Stage sender header (received ++ arrived) x
      ⟨s, Peer.entrance reply⟩ := by
  have hfits' : (⟨sender, .networkJoinNotification x⟩ : Message).Fits := by
    rw [Message.Fits, Message.length_encode] at hfits ⊢
    exact hfits
  rcases outcome with e | answer
  · rw [hfailed] at hread
    cases hread
    exact .failed _ hphase
  · rw [hdone] at hread
    cases hread
    generalize heq : (Except.ok answer : Outcome) = outcome at hconsulted
    cases hconsulted with
    | answered lot _ => exact .entering hphase (hadmitted.announced lot sender)
    | unread hlong => exact absurd hfits' hlong
    | lost _ => cases heq
    | unanswered _ _ _ => cases heq

/-- One call of a join to the node, which says nothing of an exit. -/
theorem consults {s : PeerState} {discovery : String} {call : Call}
    {next : call.Reply → PeerTask (Except ChordError Unit)} {m : Message}
    {read : Outcome → NodeTask PeerState call.Reply} {outcome : Outcome} {reply : call.Reply}
    (h : Stage sender header received x c) (hc : c = ⟨s, .call call next⟩)
    (hcall : call.ToRendezvous)
    (hcarry : call.carry sender discovery = .call ⟨Rendezvous.addressOf discovery, m⟩ read)
    (hconsulted : Lobby.Consulted ((Discovery.new header).processAll received) m arrived outcome)
    (hread : read outcome = .done reply) :
    (∀ p, m.body ≠ .networkExitNotification p) ∧
      Stage sender header (received ++ arrived) x ⟨s, next reply⟩ := by
  cases h with
  | outset hphase => cases hc
  | applying hphase =>
      cases hc
      obtain ⟨read', hregister, hreplied, hfailed⟩ := Call.carry_register sender discovery x
      cases hregister.symm.trans hcarry
      exact ⟨nofun, .registered hphase hconsulted hreplied hfailed hread⟩
  | refused e hphase => cases hc
  | failed e hphase => cases hc
  | linking hphase hlinking hfits hadmitted =>
      cases hlinking with
      | done result =>
          rcases result with e | ⟨⟩
          · cases hc
          · cases hc
            obtain ⟨read', hannounce, hdone, hfailed⟩ :=
              Call.carry_announceMember sender discovery x
            cases hannounce.symm.trans hcarry
            exact ⟨nofun, .told hphase hfits hadmitted hconsulted hdone hfailed hread⟩
      | locked hsection hnext => cases hc
      | call hother hnext =>
          cases hc
          exact absurd hcall hother
  | entering hphase hannounced => cases hc
  | joined hphase hannounced => cases hc

end Stage

end Stage

/-! ## Whole runs -/

namespace Lobby

variable {sender : Identifier → Header} {discovery : String} {header : Header}
  {state : Identifier → PeerState} {l l' : Lobby} {x y : Identifier}

/-- Nobody has announced an exit, and every join is at one of its stages. -/
structure Kept (sender : Identifier → Header) (l : Lobby) : Prop where
  stays : ∀ e ∈ l.received, ∀ p, e.2.body ≠ .networkExitNotification p
  stages : ∀ x, Stage (sender x) l.header l.received x (l.candidates x)

theorem Consulted.eq_of_mem {desk : Discovery} {m : Message} {arrived : List (Nat × Message)}
    {outcome : Outcome} (h : Consulted desk m arrived outcome) {e : Nat × Message}
    (he : e ∈ arrived) : e.2 = m := by
  cases h with
  | answered lot _ => rw [List.mem_singleton.1 he]
  | unread _ => exact absurd he List.not_mem_nil
  | lost _ => exact absurd he List.not_mem_nil
  | unanswered lot _ _ => rw [List.mem_singleton.1 he]

theorem kept_start (fresh : ∀ x, (state x).phase ≠ .joined) : (start header state).Kept sender where
  stays := fun e he => absurd he List.not_mem_nil
  stages := by
    intro x
    show Stage _ _ _ x ⟨state x, (Peer.join x).run⟩
    rw [Peer.join_run]
    exact .outset (fresh x)

theorem Kept.put {c : Candidate} {arrived : List (Nat × Message)} (h : l.Kept sender)
    (hstays : ∀ e ∈ arrived, ∀ p, e.2.body ≠ .networkExitNotification p)
    (hstage : Stage (sender x) l.header (l.received ++ arrived) x c) :
    (l.put x c arrived).Kept sender where
  stays := fun e he => (List.mem_append.1 he).elim (h.stays e) (hstays e)
  stages := by
    intro y
    show Stage (sender y) l.header (l.received ++ arrived) y (Function.update l.candidates x c y)
    by_cases hy : y = x
    · subst hy
      rw [Function.update_self]
      exact hstage
    · rw [Function.update_of_ne hy]
      exact (h.stages y).append arrived

theorem Kept.step (h : l.Kept sender) (hstep : Step sender discovery l l') : l'.Kept sender := by
  have hnone : ∀ e ∈ ([] : List (Nat × Message)), ∀ p, e.2.body ≠ .networkExitNotification p :=
    fun e he => absurd he List.not_mem_nil
  cases hstep with
  | @proceeds x _ _ _ hc => exact h.put hnone (((h.stages x).proceeds hc).append [])
  | @consults x _ _ _ _ _ _ _ _ hc hcall hcarry hconsulted hread =>
      obtain ⟨hstays, hstage⟩ := (h.stages x).consults hc hcall hcarry hconsulted hread
      refine h.put (fun e he => ?_) hstage
      rw [hconsulted.eq_of_mem he]
      exact hstays
  | @asks x _ _ _ reply hc hcall => exact h.put hnone (((h.stages x).asks hc hcall reply).append [])
  | hears x b => exact h.put hnone (((h.stages x).hears b).append [])
  | receives lot m hstays =>
      constructor
      · intro e he
        rcases List.mem_append.1 he with he | he
        · exact h.stays e he
        · rw [List.mem_singleton.1 he]
          exact hstays
      · exact fun x => (h.stages x).append _

/-- Whatever happens, nobody announces an exit, and every join is at one of its stages. -/
theorem Kept.run (h : l.Kept sender) (hrun : Relation.ReflTransGen (Step sender discovery) l l') :
    l'.Kept sender := by
  induction hrun with
  | refl => exact h
  | tail _ hstep ih => exact ih.step hstep

end Lobby

end ChordRing
