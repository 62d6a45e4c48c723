import ChordRing.Proofs.Announcement
import ChordRing.Proofs.Traffic

/-!
# One lap of an announcement

The announcement of a peer goes from each peer to its successor and carries neither a count nor a
list of those it has been to. Each peer compares its successor with the announced peer and with
itself, and passes the announcement on if it is neither. Where the successors form one cycle, that
ends the announcement of a peer on the cycle within one lap. The announcement of a peer that is on
nobody's way ends only where somebody is alone, and goes round for ever otherwise
(`Network.announcement_ends_within_lap`).
-/

namespace ChordRing

open Function

/-! ## Cycles -/

/-- From each of `peers` every other one is met by going from peer to next peer. -/
structure OneCycle (peers : Finset Identifier) (next : Identifier → Identifier) : Prop where
  closed : ∀ p ∈ peers, next p ∈ peers
  connected : ∀ p ∈ peers, ∀ q ∈ peers, ∃ steps, next^[steps] p = q

/-- Going on from `p`, the peer `x` is met after `steps` steps and one more, and not before. -/
def MeetsAfter (next : Identifier → Identifier) (x p : Identifier) (steps : Nat) : Prop :=
  next^[steps + 1] p = x ∧ ∀ i ≤ steps, next^[i] p ≠ x

section Way

variable {peers : Finset Identifier} {next : Identifier → Identifier} {p x : Identifier}
  {steps : Nat}

/-- Only a peer that is alone comes next to itself. -/
theorem OneCycle.eq_singleton (h : OneCycle peers next) (hp : p ∈ peers) (hself : next p = p) :
    peers = {p} := by
  apply Finset.eq_singleton_iff_unique_mem.2
  refine ⟨hp, ?_⟩
  intro q hq
  obtain ⟨steps, rfl⟩ := h.connected p hp q hq
  exact iterate_fixed hself steps

theorem OneCycle.exists_meetsAfter (h : OneCycle peers next) (hp : p ∈ peers) (hx : x ∈ peers)
    (hpx : p ≠ x) : ∃ steps, MeetsAfter next x p steps := by
  classical
  have hmeets := h.connected p hp x hx
  cases hfirst : Nat.find hmeets with
  | zero =>
      have heq := Nat.find_spec hmeets
      rw [hfirst] at heq
      exact absurd heq hpx
  | succ steps =>
      have heq := Nat.find_spec hmeets
      rw [hfirst] at heq
      refine ⟨steps, heq, ?_⟩
      intro i hi
      exact Nat.find_min hmeets (by omega)

theorem MeetsAfter.ne (h : MeetsAfter next x p steps) : p ≠ x := h.2 0 (Nat.zero_le steps)

theorem MeetsAfter.advance (h : MeetsAfter next x p (steps + 1)) : MeetsAfter next x (next p) steps :=
  ⟨h.1, fun i hi => h.2 (i + 1) (Nat.succ_le_succ hi)⟩

theorem MeetsAfter.next_ne (h : MeetsAfter next x p (steps + 1)) : next p ≠ x ∧ next p ≠ p := by
  refine ⟨h.2 1 (by omega), ?_⟩
  intro hself
  have hmet := h.1
  rw [iterate_fixed hself] at hmet
  exact h.ne hmet

/-- Nobody is met twice on the way. -/
theorem MeetsAfter.nodup : ∀ {steps : Nat} {p : Identifier}, MeetsAfter next x p steps →
    (List.iterate next p (steps + 1)).Nodup := by
  intro steps
  induction steps with
  | zero => exact fun _ => List.nodup_singleton _
  | succ steps ih =>
      intro p h
      refine List.nodup_cons.2 ⟨?_, ih h.advance⟩
      rw [List.mem_iterate]
      rintro ⟨i, hi, hback⟩
      have hback' : next^[i + 1] p = p := hback.symm
      have hshort : next^[steps + 2 - (i + 1)] p = x := by
        rw [← h.1]
        conv_lhs => rw [← hback']
        rw [← iterate_add_apply]
        congr 1
        omega
      exact h.2 _ (by omega) hshort

theorem OneCycle.iterate_mem (h : OneCycle peers next) : ∀ {n : Nat} {p : Identifier}, p ∈ peers →
    ∀ q ∈ List.iterate next p n, q ∈ peers := by
  intro n
  induction n with
  | zero => exact fun _ q hq => absurd hq List.not_mem_nil
  | succ n ih =>
      intro p hp q hq
      rcases List.mem_cons.1 hq with rfl | hq
      · exact hp
      · exact ih (h.closed p hp) q hq

end Way

/-! ## The announcement -/

namespace Network

variable {n : Network} {site : Identifier → Site} {peers : Finset Identifier}
  {view : Identifier → PeerState} {next : Identifier → Identifier} {x p : Identifier} {h : Header}
  {patience : Nat}

/-- The announcement of `x` on its way to `p`. -/
def announcement (h : Header) (x p : Identifier) : Envelope :=
  ⟨Exchange.addressOf p, ⟨h, .networkJoinNotification x⟩⟩

theorem announcement_fits (hcarries : h.Carries x) :
    (⟨h, .networkJoinNotification x⟩ : Message).Fits :=
  hcarries.fits (by simp [Body.fields])

/-- Peers that serve under their own host names, each with the successor that `next` gives. -/
structure Circulates (n : Network) (site : Identifier → Site) (peers : Finset Identifier)
    (next : Identifier → Identifier) : Prop where
  hosts : ∃ view, n.Hosts site peers view ∧ ∀ p ∈ peers, (view p).successor = next p
  awake : n.Awake site peers

namespace Circulates

/-- A peer that learns of another one keeps its successor. -/
theorem learn (h : n.Circulates site peers next) (hp : p ∈ peers) (x : Identifier) :
    (n.changePeer (site p).seat (·.learn x)).Circulates site peers next := by
  obtain ⟨view, hosts, hsuccessor⟩ := h.hosts
  refine ⟨⟨_, hosts.changePeer hp _, ?_⟩, h.awake.changePeer _ _⟩
  intro q hq
  by_cases hqp : q = p
  · rw [hqp, update_self]
    exact hsuccessor p hp
  · rw [update_of_ne hqp]
    exact hsuccessor q hq

/-- A peer that the announcement of another one reaches passes it on unless its successor is the
announced peer or itself. -/
theorem announce (hn : n.Circulates site peers next) (hp : p ∈ peers) (hcarries : h.Carries x)
    (hx : p ≠ x) (patience : Nat) :
    exchange (patience + 1) n (announcement h x p) =
        (if next p = x ∨ next p = p then
          some (n.changePeer (site p).seat (·.learn x), .ok none)
        else
          (exchange patience (n.changePeer (site p).seat (·.learn x))
            (announcement (site p).header x (next p))).map fun r => (r.1, .ok none)) ∧
      onward (patience + 1) n (announcement h x p) =
        if next p = x ∨ next p = p then []
        else
          announcement (site p).header x (next p) ::
            onward patience (n.changePeer (site p).seat (·.learn x))
              (announcement (site p).header x (next p)) := by
  obtain ⟨view, hosts, hsuccessor⟩ := hn.hosts
  obtain ⟨rendezvous, hservice⟩ := hosts.service hp
  have hbound := ne_bound_of_serving (hn.awake p hp)
  have hfits := announcement_fits hcarries
  have hnext : ((view p).learn x).successor = next p := hsuccessor p hp
  constructor
  · rw [announcement, exchange_of_peer (hosts.reached p hp) hbound hservice hfits,
      Peer.answer_join _ h (Ne.symm hx), perform_locked (hosts.peer p hp)]
    simp only [Site.peer, hnext]
    split
    · rfl
    · simp only [perform, announcement]
      cases exchange patience _ _ with
      | none => rfl
      | some r =>
          rcases r with ⟨n', error | reply⟩ <;> rfl
  · rw [announcement, onward_of_peer (hosts.reached p hp) hbound hservice hfits,
      Peer.answer_join _ h (Ne.symm hx), traffic_locked (hosts.peer p hp)]
    simp only [Site.peer, hnext]
    split
    · rfl
    · simp only [traffic, announcement]
      cases exchange patience _ _ with
      | none => rw [List.append_nil]
      | some r =>
          rcases r with ⟨n', error | reply⟩
          · simp only [traffic, List.append_nil]
          · simp only [traffic, List.append_nil]

/-- A peer ignores its own announcement. -/
theorem announce_self (hn : n.Circulates site peers next) (hp : p ∈ peers) (hcarries : h.Carries p)
    (patience : Nat) :
    exchange (patience + 1) n (announcement h p p) = some (n, .ok none) ∧
      onward (patience + 1) n (announcement h p p) = [] := by
  obtain ⟨view, hosts, -⟩ := hn.hosts
  obtain ⟨rendezvous, hservice⟩ := hosts.service hp
  have hbound := ne_bound_of_serving (hn.awake p hp)
  have hfits := announcement_fits hcarries
  have hanswer : (((site p).peer p (view p)).answer ⟨h, .networkJoinNotification p⟩).run =
      .done (.ok none) := Peer.answer_join_self ((site p).peer p (view p)) h
  constructor
  · rw [announcement, exchange_of_peer (hosts.reached p hp) hbound hservice hfits, hanswer]
    rfl
  · rw [announcement, onward_of_peer (hosts.reached p hp) hbound hservice hfits, hanswer]
    rfl

/-- An announcement that ends before `x` reaches each peer on the way there, in turn. -/
theorem announcement_ends (carries : ∀ q ∈ peers, (site q).header.Carries x)
    (cycle : OneCycle peers next) :
    ∀ (steps : Nat) (n : Network) (h : Header) (p : Identifier) (patience : Nat),
      n.Circulates site peers next → h.Carries x → p ∈ peers → MeetsAfter next x p steps →
      steps < patience →
      (∃ n', exchange patience n (announcement h x p) = some (n', .ok none)) ∧
        (∀ envelope ∈ onward patience n (announcement h x p),
          envelope.message.body = .networkJoinNotification x) ∧
        (onward patience n (announcement h x p)).map Envelope.address =
          (List.iterate next (next p) steps).map Exchange.addressOf := by
  -- induction on the steps to `x`
  intro steps
  induction steps with
  | zero =>
      intro n h p patience hn hcarries hp hmeets hpatience
      obtain ⟨patience, rfl⟩ := Nat.exists_eq_succ_of_ne_zero (Nat.ne_zero_of_lt hpatience)
      obtain ⟨hexchange, honward⟩ := hn.announce hp hcarries hmeets.ne patience
      have hx : next p = x := hmeets.1
      rw [if_pos (Or.inl hx)] at hexchange honward
      rw [honward]
      exact ⟨⟨_, hexchange⟩, fun _ he => absurd he List.not_mem_nil, rfl⟩
  | succ steps ih =>
      intro n h p patience hn hcarries hp hmeets hpatience
      obtain ⟨patience, rfl⟩ := Nat.exists_eq_succ_of_ne_zero (Nat.ne_zero_of_lt hpatience)
      obtain ⟨hexchange, honward⟩ := hn.announce hp hcarries hmeets.ne patience
      obtain ⟨hx, hself⟩ := hmeets.next_ne
      have hon : ¬ (next p = x ∨ next p = p) := by
        rintro (heq | heq)
        · exact hx heq
        · exact hself heq
      rw [if_neg hon] at hexchange honward
      obtain ⟨⟨n', hrun⟩, hbodies, haddresses⟩ := ih _ (site p).header (next p) patience
        (hn.learn hp x) (carries p hp) (cycle.closed p hp) hmeets.advance (by omega)
      rw [hrun] at hexchange
      rw [honward]
      refine ⟨⟨n', hexchange⟩, ?_, ?_⟩
      · intro envelope henvelope
        rcases List.mem_cons.1 henvelope with rfl | henvelope
        · rfl
        · exact hbodies envelope henvelope
      · rw [List.map_cons, haddresses]
        rfl

/-- An announcement that meets nobody who would stop it uses up any patience. -/
theorem announcement_goes_on (carries : ∀ q ∈ peers, (site q).header.Carries x)
    (cycle : OneCycle peers next) (hx : x ∉ peers) (halone : ∀ p, peers ≠ {p}) :
    ∀ (patience : Nat) (n : Network) (h : Header) (p : Identifier),
      n.Circulates site peers next → h.Carries x → p ∈ peers →
      exchange patience n (announcement h x p) = none := by
  intro patience
  induction patience with
  | zero => exact fun _ _ _ _ _ _ => rfl
  | succ patience ih =>
      intro n h p hn hcarries hp
      have hpx : p ≠ x := fun heq => hx (heq ▸ hp)
      obtain ⟨hexchange, -⟩ := hn.announce hp hcarries hpx patience
      have hon : ¬ (next p = x ∨ next p = p) := by
        rintro (heq | heq)
        · exact hx (heq ▸ cycle.closed p hp)
        · exact halone p (cycle.eq_singleton hp heq)
      rw [hexchange, if_neg hon, ih _ _ _ (hn.learn hp x) (carries p hp) (cycle.closed p hp),
        Option.map_none]

theorem card_le_patience (hn : n.Circulates site peers next) : peers.card + 2 ≤ n.patience := by
  obtain ⟨view, hosts, -⟩ := hn.hosts
  exact hosts.card_le_patience

/-- Where the announcement of a member starts at another one, it ends within a lap. -/
theorem announcement_ends_of_mem (hn : n.Circulates site peers next) (cycle : OneCycle peers next)
    (carries : ∀ q ∈ peers, (site q).header.Carries x) (hcarries : h.Carries x) (hp : p ∈ peers)
    (hx : x ∈ peers) (hpx : p ≠ x) :
    ∃ n' steps, exchange n.patience n (announcement h x p) = some (n', .ok none) ∧
      (List.iterate next p (steps + 1)).Nodup ∧
      (∀ envelope ∈ onward n.patience n (announcement h x p),
        envelope.message.body = .networkJoinNotification x) ∧
      (onward n.patience n (announcement h x p)).map Envelope.address =
        (List.iterate next (next p) steps).map Exchange.addressOf := by
  obtain ⟨steps, hmeets⟩ := cycle.exists_meetsAfter hp hx hpx
  have hcard : steps + 1 ≤ peers.card := by
    rw [← List.length_iterate next p (steps + 1), ← List.toFinset_card_of_nodup hmeets.nodup]
    apply Finset.card_le_card
    intro q hq
    exact cycle.iterate_mem hp q (List.mem_toFinset.1 hq)
  have hpatience := hn.card_le_patience
  obtain ⟨⟨n', hrun⟩, hbodies, haddresses⟩ :=
    announcement_ends carries cycle steps n h p n.patience hn hcarries hp hmeets (by omega)
  exact ⟨n', steps, hrun, hmeets.nodup, hbodies, haddresses⟩

end Circulates

/-- **An announcement ends within one lap just if somebody stops it.** Let the successors of peers
form one cycle, and let the announcement of `x` reach any of them. If `x` is on the cycle, or the
peer is alone, the announcement is passed on finitely often and no peer gets it twice. Otherwise it
is passed on for ever. -/
theorem announcement_ends_within_lap (hn : n.Circulates site peers next) (cycle : OneCycle peers next)
    (carries : ∀ q ∈ peers, (site q).header.Carries x) (hcarries : h.Carries x) (hp : p ∈ peers) :
    (x ∈ peers ∨ peers = {p} →
      ∃ (n' : Network) (visited : List Identifier),
        exchange n.patience n (announcement h x p) = some (n', .ok none) ∧
        visited.Nodup ∧ (∀ q ∈ visited, q ∈ peers) ∧
        (∀ envelope ∈ onward n.patience n (announcement h x p),
          envelope.message.body = .networkJoinNotification x) ∧
        (announcement h x p :: onward n.patience n (announcement h x p)).map Envelope.address =
          visited.map Exchange.addressOf) ∧
    (x ∉ peers → peers ≠ {p} → ∀ patience, exchange patience n (announcement h x p) = none) := by
  have hcard := hn.card_le_patience
  obtain ⟨patience, hpatience⟩ : ∃ patience, n.patience = patience + 1 :=
    ⟨n.patience - 1, by omega⟩
  constructor
  · intro hstops
    by_cases hpx : p = x
    · subst hpx
      obtain ⟨hexchange, honward⟩ := hn.announce_self hp hcarries patience
      rw [hpatience, honward]
      exact ⟨n, [p], hexchange, List.nodup_singleton p,
        fun q hq => (List.mem_singleton.1 hq).symm ▸ hp, fun _ he => absurd he List.not_mem_nil, rfl⟩
    · rcases hstops with hx | halone
      · obtain ⟨n', steps, hrun, hnodup, hbodies, haddresses⟩ :=
          hn.announcement_ends_of_mem cycle carries hcarries hp hx hpx
        refine ⟨n', List.iterate next p (steps + 1), hrun, hnodup, cycle.iterate_mem hp, hbodies, ?_⟩
        rw [List.map_cons, haddresses]
        rfl
      · have hself : next p = p := by
          have hmem := cycle.closed p hp
          rw [halone] at hmem
          exact Finset.mem_singleton.1 hmem
        obtain ⟨hexchange, honward⟩ := hn.announce hp hcarries hpx patience
        rw [if_pos (Or.inr hself)] at hexchange honward
        rw [hpatience, honward]
        exact ⟨_, [p], hexchange, List.nodup_singleton p,
          fun q hq => (List.mem_singleton.1 hq).symm ▸ hp, fun _ he => absurd he List.not_mem_nil,
          rfl⟩
  · intro hx hne patience
    have halone : ∀ q, peers ≠ {q} := by
      intro q hq
      rw [hq] at hp
      rw [Finset.mem_singleton.1 hp] at hne
      exact hne hq
    exact Circulates.announcement_goes_on carries cycle hx halone patience n h p hn hcarries hp

end Network

namespace Trio

/-! ## Three peers and a stranger -/

open Network

/-- A peer that is not on the cycle of the three. -/
def stranger : Identifier := ⟨"10.0.0.4", ⟨5⟩⟩

theorem circulates : (network view .empty).Circulates site members successor where
  hosts := ⟨view, hosts view .empty, fun _ _ => rfl⟩
  awake := awake view .empty

theorem oneCycle : OneCycle members successor where
  closed := by decide +kernel
  connected := by
    intro p hp q hq
    have hreach : ∀ p ∈ members, ∀ q ∈ members,
        successor^[0] p = q ∨ successor^[1] p = q ∨ successor^[2] p = q := by
      decide +kernel
    rcases hreach p hp q hq with h | h | h
    · exact ⟨0, h⟩
    · exact ⟨1, h⟩
    · exact ⟨2, h⟩

/-- The announcement of the third peer stops before it comes to the third peer. -/
theorem announcement_ends_within_lap_of_third :
    (network view .empty).Circulates site members successor ∧ OneCycle members successor ∧
      (∀ q ∈ members, (site q).header.Carries third) ∧ header.Carries third ∧ first ∈ members ∧
      ∃ n', exchange (network view .empty).patience (network view .empty)
        (announcement header third first) = some (n', .ok none) := by
  have carries : ∀ q ∈ members, (site q).header.Carries third :=
    fun q hq => roomy.carries q hq third (by decide +kernel)
  have hcarries : header.Carries third := by decide +kernel
  have hfirst : first ∈ members := by decide +kernel
  obtain ⟨n', _, hrun, -⟩ := (announcement_ends_within_lap circulates oneCycle carries hcarries
    hfirst).1 (Or.inl (by decide +kernel))
  exact ⟨circulates, oneCycle, carries, hcarries, hfirst, n', hrun⟩

/-- The announcement of the stranger is handed round for ever. -/
theorem announcement_of_stranger_never_ends :
    (network view .empty).Circulates site members successor ∧ OneCycle members successor ∧
      first ∈ members ∧ ∀ patience,
        exchange patience (network view .empty) (announcement header stranger first) = none := by
  have carries : ∀ q ∈ members, (site q).header.Carries stranger := by decide +kernel
  have hcarries : header.Carries stranger := by decide +kernel
  have halone : ∀ p, members ≠ {p} := by
    intro p hp
    have hfirst : first ∈ members := by decide +kernel
    have hsecond : second ∈ members := by decide +kernel
    rw [hp, Finset.mem_singleton] at hfirst hsecond
    exact absurd (hfirst.trans hsecond.symm) (by decide +kernel)
  exact ⟨circulates, oneCycle, by decide +kernel, fun patience =>
    Circulates.announcement_goes_on carries oneCycle (by decide +kernel) halone patience _ header
      first circulates hcarries (by decide +kernel)⟩

end Trio

end ChordRing
