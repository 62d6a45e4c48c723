import Mathlib.Tactic
import ChordRing.Network.Lifecycle

/-!
# Courses

What a task does to a network on its way. `Network.course` lists the networks that a task passes
through: before and after each of its atomic sections and each of its exchanges, and all those that
the exchanges pass through inside the nodes that serve them. These are the points at which other
requests may find the network.

`Assures` says of a task, and `Delivers` of one exchange, that it ends well and that an invariant
holds wherever it passes. Both have a rule for each way in which tasks are built.
-/

namespace ChordRing

variable {σ α β : Type}

namespace Network

/-- The networks that a task passes through, from the first to the last, where `inside` lists those
that one exchange passes through within the node that serves it. -/
def course (inside : Network → Envelope → List Network) (carry : Carrier) (seat : Seat σ) :
    NodeTask σ α → Network → List Network
  | .done _, n => [n]
  | .locked change next, n =>
      n :: course inside carry seat (next (seat.read (seat.change change n))) (seat.change change n)
  | .call envelope next, n =>
      n :: (inside n envelope ++
        match carry n envelope with
        | some (n', outcome) => course inside carry seat (next outcome) n'
        | none => [])

/-- The networks that one exchange passes through within the peer that serves it. A discovery node
serves in one section, and an exchange that reaches no peer passes through nothing. -/
def inside : (patience : Nat) → Network → Envelope → List Network
  | 0, _, _ => []
  | patience + 1, n, envelope =>
      match n.dial envelope.address with
      | .error _ => []
      | .ok i =>
          if n.presence? i = some .bound then []
          else
            match n.service? i, readRequest? envelope.message.encode with
            | some (.peer p _), some m =>
                course (inside patience) (exchange patience) (.peer i) (p.answer m).run n
            | _, _ => []

end Network

open Network

/-- Within `patience`, the task ends at a network and with a result that `Q` holds of, and `Inv`
holds of every network that it passes through. -/
structure Assures (Inv : Network → Prop) (patience : Nat) (seat : Seat σ) (t : NodeTask σ α)
    (n : Network) (Q : Network → α → Prop) : Prop where
  passes : ∀ s ∈ course (inside patience) (exchange patience) seat t n, Inv s
  ends : ∃ n' a, perform (exchange patience) seat t n = some (n', a) ∧ Q n' a

/-- Within `patience`, the exchange settles at a network and with an outcome that `Q` holds of, and
`Inv` holds of every network that it passes through. -/
structure Delivers (Inv : Network → Prop) (patience : Nat) (n : Network) (envelope : Envelope)
    (Q : Network → Outcome → Prop) : Prop where
  passes : ∀ s ∈ inside patience n envelope, Inv s
  ends : ∃ n' outcome, exchange patience n envelope = some (n', outcome) ∧ Q n' outcome

namespace Assures

variable {Inv : Network → Prop} {patience : Nat} {seat : Seat σ} {n : Network}

theorem done {Q : Network → α → Prop} {a : α} (hinv : Inv n) (h : Q n a) :
    Assures Inv patience seat (.done a) n Q where
  passes := by
    intro s hs
    rw [List.mem_singleton.1 hs]
    exact hinv
  ends := ⟨n, a, rfl, h⟩

theorem locked {Q : Network → α → Prop} {change : σ → σ} {next : σ → NodeTask σ α} (hinv : Inv n)
    (h : Assures Inv patience seat (next (seat.read (seat.change change n))) (seat.change change n)
      Q) :
    Assures Inv patience seat (.locked change next) n Q where
  passes := by
    intro s hs
    rcases List.mem_cons.1 hs with rfl | hs
    · exact hinv
    · exact h.passes s hs
  ends := h.ends

theorem call {Q : Network → α → Prop} {R : Network → Outcome → Prop} {envelope : Envelope}
    {next : Outcome → NodeTask σ α} (hinv : Inv n) (h : Delivers Inv patience n envelope R)
    (hnext : ∀ n' o, R n' o → Assures Inv patience seat (next o) n' Q) :
    Assures Inv patience seat (.call envelope next) n Q := by
  obtain ⟨n', o, hrun, hR⟩ := h.ends
  have hrest := hnext n' o hR
  constructor
  · intro s hs
    simp only [course, hrun, List.mem_cons, List.mem_append] at hs
    rcases hs with rfl | hs | hs
    · exact hinv
    · exact h.passes s hs
    · exact hrest.passes s hs
  · obtain ⟨last, a, hlast, hQ⟩ := hrest.ends
    exact ⟨last, a, by simp only [perform, hrun, hlast], hQ⟩

theorem mono {Q R : Network → α → Prop} {t : NodeTask σ α} (h : Assures Inv patience seat t n R)
    (himp : ∀ n' a, R n' a → Q n' a) : Assures Inv patience seat t n Q := by
  obtain ⟨n', a, hrun, hR⟩ := h.ends
  exact ⟨h.passes, n', a, hrun, himp n' a hR⟩

/-- What two tasks in a row pass through, one of them passes through. -/
theorem mem_course_andThen {inside : Network → Envelope → List Network} {carry : Carrier}
    {f : α → NodeTask σ β} {t : NodeTask σ α} {s : Network} :
    ∀ n, s ∈ course inside carry seat (Task.andThen f t) n →
      s ∈ course inside carry seat t n ∨
        ∃ r, perform carry seat t n = some r ∧ s ∈ course inside carry seat (f r.2) r.1 := by
  induction t with
  | done a => exact fun n hs => Or.inr ⟨(n, a), rfl, hs⟩
  | locked change next ih =>
      intro n hs
      rcases List.mem_cons.1 hs with rfl | hs
      · exact Or.inl List.mem_cons_self
      · rcases ih _ _ hs with hs | hs
        · exact Or.inl (List.mem_cons_of_mem n hs)
        · exact Or.inr hs
  | call envelope next ih =>
      intro n hs
      simp only [Task.andThen, course, List.mem_cons, List.mem_append] at hs
      simp only [perform, course, List.mem_cons, List.mem_append]
      rcases hs with rfl | hs | hs
      · exact Or.inl (Or.inl rfl)
      · exact Or.inl (Or.inr (Or.inl hs))
      · cases hcarry : carry n envelope with
        | none =>
            rw [hcarry] at hs
            exact absurd hs List.not_mem_nil
        | some r =>
            rw [hcarry] at hs
            rcases ih _ _ hs with hs | hs
            · exact Or.inl (Or.inr (Or.inr hs))
            · exact Or.inr hs

/-- A task passes through the network at which it ends. -/
theorem mem_course_last {inside : Network → Envelope → List Network} {carry : Carrier}
    {t : NodeTask σ α} {n' : Network} {a : α} :
    ∀ n, perform carry seat t n = some (n', a) → n' ∈ course inside carry seat t n := by
  induction t with
  | done result =>
      intro n h
      rw [(Prod.mk.inj (Option.some.inj h)).1]
      exact List.mem_cons_self
  | locked change next ih => exact fun n h => List.mem_cons_of_mem n (ih _ _ h)
  | call envelope next ih =>
      intro n h
      simp only [perform] at h
      simp only [course, List.mem_cons, List.mem_append]
      cases hcarry : carry n envelope with
      | none =>
          rw [hcarry] at h
          cases h
      | some r =>
          rw [hcarry] at h
          exact Or.inr (Or.inr (ih _ _ h))

/-- One task after another, where the second may count on the invariant. -/
theorem andThen {Q : Network → β → Prop} {R : Network → α → Prop} {f : α → NodeTask σ β}
    {t : NodeTask σ α} (h : Assures Inv patience seat t n R)
    (hnext : ∀ n' a, Inv n' → R n' a → Assures Inv patience seat (f a) n' Q) :
    Assures Inv patience seat (Task.andThen f t) n Q := by
  obtain ⟨n', a, hrun, hR⟩ := h.ends
  -- the first task passes through its own end, so the invariant holds where the second starts
  have hrest := hnext n' a (h.passes n' (mem_course_last n hrun)) hR
  constructor
  · intro s hs
    rcases mem_course_andThen n hs with hs | ⟨r, hr, hs⟩
    · exact h.passes s hs
    · rw [hrun] at hr
      obtain rfl := Option.some.inj hr
      exact hrest.passes s hs
  · obtain ⟨last, b, hlast, hQ⟩ := hrest.ends
    exact ⟨last, b, by rw [perform_andThen, hrun, Option.bind_some, hlast], hQ⟩

end Assures

end ChordRing
