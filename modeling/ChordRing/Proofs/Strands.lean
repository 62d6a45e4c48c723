import Mathlib.Tactic
import ChordRing.Task

/-!
# Strands that share a state

A node works on several tasks at once. Each is a `Strand`: what is left of the task, and which
replies its calls may get. The strands take turns, one section or one reply at a time, and new ones
may begin at any moment (`Pool.Step`).

What holds of the shared state throughout is shown strand by strand. A `Pact` is an invariant and a
relation that says how the state may evolve; a task is `Safe` when each of its sections keeps the
pact, given that everybody else does. If every strand that may begin is safe, the invariant holds at
every moment (`Pool.Sound.steps`). Safety has a rule for each way in which tasks are built.
-/

namespace ChordRing

/-- What all who share a state keep to: an invariant, and a relation between the state at one moment
and at any later one. -/
structure Pact (σ : Type) where
  holds : σ → Prop
  evolves : σ → σ → Prop
  refl : ∀ s, evolves s s
  trans : ∀ {s s' s''}, evolves s s' → evolves s' s'' → evolves s s''

namespace Task

variable {σ C α β : Type} {R : C → Type}

/-- Taken up at a state, the task keeps the pact if the others do and every reply is allowed, and
its result is one that `post` holds of. -/
def Safe (pact : Pact σ) (allowed : (c : C) → R c → Prop) (post : α → Prop) :
    Task σ C R α → σ → Prop
  | .done a, _ => post a
  | .locked change next, s => ∀ s', pact.holds s' → pact.evolves s s' →
      pact.holds (change s') ∧ pact.evolves s' (change s') ∧
        Safe pact allowed post (next (change s')) (change s')
  | .call c next, s => ∀ reply, allowed c reply → Safe pact allowed post (next reply) s

namespace Safe

variable {pact : Pact σ} {allowed : (c : C) → R c → Prop} {post : α → Prop} {t : Task σ C R α}
  {s s' : σ}

/-- What is safe now stays safe while the state evolves. -/
theorem later (h : t.Safe pact allowed post s) (hevolves : pact.evolves s s') :
    t.Safe pact allowed post s' := by
  induction t generalizing s s' with
  | done a => exact h
  | locked change next _ =>
      intro s'' hholds hlater
      exact h s'' hholds (pact.trans hevolves hlater)
  | call c next ih => exact fun reply hreply => ih reply (h reply hreply) hevolves

theorem mono {post' : α → Prop} (h : t.Safe pact allowed post s) (himp : ∀ a, post a → post' a) :
    t.Safe pact allowed post' s := by
  induction t generalizing s with
  | done a => exact himp a h
  | locked change next ih =>
      intro s' hholds hevolves
      obtain ⟨hkept, hstep, hnext⟩ := h s' hholds hevolves
      exact ⟨hkept, hstep, ih _ hnext⟩
  | call c next ih => exact fun reply hreply => ih reply (h reply hreply)

/-- One task after another. The second starts where the invariant holds, at a state that has
evolved from the first one's. -/
theorem andThen {post' : β → Prop} {f : α → Task σ C R β} (hs : pact.holds s)
    (h : t.Safe pact allowed post s)
    (hnext : ∀ a s', pact.holds s' → pact.evolves s s' → post a →
      (f a).Safe pact allowed post' s') :
    (Task.andThen f t).Safe pact allowed post' s := by
  induction t generalizing s with
  | done a => exact hnext a s hs (pact.refl s) h
  | locked change next ih =>
      intro s' hholds hevolves
      obtain ⟨hkept, hstep, hrest⟩ := h s' hholds hevolves
      refine ⟨hkept, hstep, ih _ hkept hrest ?_⟩
      intro a s'' hholds' hlater
      exact hnext a s'' hholds' (pact.trans (pact.trans hevolves hstep) hlater)
  | call c next ih => exact fun reply hreply => ih reply hs (h reply hreply) hnext

end Safe

end Task

/-! ## Attempts -/

/-- The attempt is safe, and what it succeeds with is something that `P` holds of. -/
def Attempts {σ C ε α : Type} {R : C → Type} (pact : Pact σ) (allowed : (c : C) → R c → Prop)
    (P : α → Prop) (t : ExceptT ε (Task σ C R) α) (s : σ) : Prop :=
  t.run.Safe pact allowed (fun r => ∀ a, r = .ok a → P a) s

namespace Attempts

variable {σ C ε ε' α β : Type} {R : C → Type} {pact : Pact σ} {allowed : (c : C) → R c → Prop}
  {P : α → Prop} {Q : β → Prop} {t : ExceptT ε (Task σ C R) α} {s : σ}

theorem pure {a : α} (h : P a) :
    Attempts pact allowed P (Pure.pure a : ExceptT ε (Task σ C R) α) s := by
  intro a' heq
  rwa [← Except.ok.inj heq]

theorem throw (e : ε) :
    Attempts pact allowed P (MonadExcept.throw e : ExceptT ε (Task σ C R) α) s := by
  intro a heq
  cases heq

/-- What follows an attempt is safe if it is safe behind every success. -/
theorem bind {f : α → ExceptT ε (Task σ C R) β} (hs : pact.holds s)
    (h : Attempts pact allowed P t s)
    (hnext : ∀ a s', pact.holds s' → pact.evolves s s' → P a →
      Attempts pact allowed Q (f a) s') :
    Attempts pact allowed Q (t >>= f) s := by
  show (Task.andThen (ExceptT.bindCont f) t.run).Safe pact allowed _ s
  apply Task.Safe.andThen hs h
  intro r s' hholds hevolves hP
  cases r with
  | error e =>
      intro b heq
      cases heq
  | ok a => exact hnext a s' hholds hevolves (hP a rfl)

/-- How a failure is worded makes no difference. -/
theorem adapt (f : ε → ε') (hs : pact.holds s) (h : Attempts pact allowed P t s) :
    Attempts pact allowed P (t.adapt f) s := by
  show (Task.andThen _ t.run).Safe pact allowed _ s
  apply Task.Safe.andThen hs h
  intro r s' _ _ hP
  cases r with
  | error e =>
      intro a heq
      cases heq
  | ok a =>
      intro a' heq
      cases heq
      exact hP a rfl

end Attempts

/-! ## Pools -/

/-- What is left of a task at work on a state, and the replies that its calls may get. -/
structure Strand (σ : Type) where
  {C : Type}
  {R : C → Type}
  {α : Type}
  allowed : (c : C) → R c → Prop
  task : Task σ C R α

/-- A state and the strands at work on it. -/
structure Pool (σ : Type) where
  state : σ
  strands : List (Strand σ)

variable {σ : Type}

/-- One section or one reply of a strand, which may change the state. -/
inductive Strand.Step : σ → Strand σ → σ → Strand σ → Prop
  | locked {C α : Type} {R : C → Type} {allowed : (c : C) → R c → Prop} {s : σ} (change : σ → σ)
      (next : σ → Task σ C R α) :
      Step s ⟨allowed, .locked change next⟩ (change s) ⟨allowed, next (change s)⟩
  | replied {C α : Type} {R : C → Type} {allowed : (c : C) → R c → Prop} {s : σ} {c : C}
      {reply : R c} (next : R c → Task σ C R α) :
      allowed c reply → Step s ⟨allowed, .call c next⟩ s ⟨allowed, next reply⟩

namespace Pool

/-- What may happen next: a strand of a kind that `begins` begins, or one of those at work goes
on. -/
inductive Step (begins : Strand σ → Prop) : Pool σ → Pool σ → Prop
  | begun {s : σ} {strands : List (Strand σ)} {strand : Strand σ} :
      begins strand → Step begins ⟨s, strands⟩ ⟨s, strand :: strands⟩
  | goesOn {s s' : σ} {before after : List (Strand σ)} {strand strand' : Strand σ} :
      Strand.Step s strand s' strand' →
        Step begins ⟨s, before ++ strand :: after⟩ ⟨s', before ++ strand' :: after⟩

end Pool

/-- The strand keeps the pact from here. -/
def Strand.Safe (pact : Pact σ) (strand : Strand σ) (s : σ) : Prop :=
  strand.task.Safe pact strand.allowed (fun _ => True) s

/-- A step of a safe strand keeps the pact, and the strand stays safe. -/
theorem Strand.Safe.step {pact : Pact σ} {strand strand' : Strand σ} {s s' : σ}
    (h : strand.Safe pact s) (hs : pact.holds s) (hstep : Strand.Step s strand s' strand') :
    pact.holds s' ∧ pact.evolves s s' ∧ strand'.Safe pact s' := by
  cases hstep with
  | locked change next => exact h s hs (pact.refl s)
  | replied next hreply => exact ⟨hs, pact.refl s, h _ hreply⟩

/-- The invariant holds, and all strands keep the pact from here. -/
structure Pool.Sound (pact : Pact σ) (pool : Pool σ) : Prop where
  holds : pact.holds pool.state
  safe : ∀ strand ∈ pool.strands, strand.Safe pact pool.state

namespace Pool.Sound

variable {pact : Pact σ} {begins : Strand σ → Prop} {pool pool' : Pool σ}

theorem step (hbegins : ∀ strand s, begins strand → pact.holds s → strand.Safe pact s)
    (h : pool.Sound pact) (hstep : Pool.Step begins pool pool') : pool'.Sound pact := by
  obtain ⟨hholds, hsafe⟩ := h
  cases hstep with
  | begun hnew =>
      refine ⟨hholds, ?_⟩
      intro strand hstrand
      rcases List.mem_cons.1 hstrand with rfl | hstrand
      · exact hbegins _ _ hnew hholds
      · exact hsafe strand hstrand
  | @goesOn s s' before after strand strand' hstrand =>
      obtain ⟨hkept, hevolves, hgoes⟩ := (hsafe strand (by simp)).step hholds hstrand
      refine ⟨hkept, ?_⟩
      intro other hother
      -- the others find the state evolved
      rcases List.mem_append.1 hother with hbefore | hother
      · exact (hsafe other (List.mem_append_left _ hbefore)).later hevolves
      rcases List.mem_cons.1 hother with rfl | hafter
      · exact hgoes
      · exact (hsafe other (by simp [hafter])).later hevolves

/-- Strands that are safe to begin with keep the invariant at every moment. -/
theorem steps (hbegins : ∀ strand s, begins strand → pact.holds s → strand.Safe pact s)
    (h : pool.Sound pact) (hsteps : Relation.ReflTransGen (Pool.Step begins) pool pool') :
    pool'.Sound pact := by
  induction hsteps with
  | refl => exact h
  | tail _ hstep ih => exact ih.step hbegins hstep

end Pool.Sound

end ChordRing
