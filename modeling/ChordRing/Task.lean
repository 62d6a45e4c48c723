/-!
# Tasks

A task is a computation of a node that shares its state with others. It proceeds in atomic
sections on the state, each under the node's lock, and in calls to other nodes, during which the
lock is free and the state may change. `Task.handle` replaces each call by a task that carries it
out, and `Task.rehearse` runs a task alone against answers that are given in advance.
-/

namespace ChordRing

/-- A computation on a state of type `σ` with calls of type `C`, where call `c` is answered by a
value of type `R c`. -/
inductive Task (σ : Type) (C : Type) (R : C → Type) (α : Type) where
  /-- The task has its result. -/
  | done (result : α)
  /-- One section under the lock: change the state and go on with what it is now. -/
  | locked (change : σ → σ) (next : σ → Task σ C R α)
  /-- One call, made without the lock. -/
  | call (c : C) (next : R c → Task σ C R α)

namespace Task

variable {σ C α β : Type} {R : C → Type}

/-- A task followed by one that depends on its result. -/
def andThen (f : α → Task σ C R β) : Task σ C R α → Task σ C R β
  | done result => f result
  | locked change next => locked change fun s => andThen f (next s)
  | call c next => call c fun reply => andThen f (next reply)

instance : Monad (Task σ C R) where
  pure := done
  bind t f := andThen f t

/-- Doing nothing more changes nothing. -/
theorem andThen_done (t : Task σ C R α) : andThen done t = t := by
  induction t with
  | done result => rfl
  | locked change next ih =>
      simp only [andThen]
      exact congrArg (locked change) (funext ih)
  | call c next ih =>
      simp only [andThen]
      exact congrArg (call c) (funext ih)

/-- Three tasks in a row may be grouped either way. -/
theorem andThen_andThen {γ : Type} (f : α → Task σ C R β) (g : β → Task σ C R γ)
    (t : Task σ C R α) : andThen g (andThen f t) = andThen (fun a => andThen g (f a)) t := by
  induction t with
  | done result => rfl
  | locked change next ih =>
      simp only [andThen]
      exact congrArg (locked change) (funext ih)
  | call c next ih =>
      simp only [andThen]
      exact congrArg (call c) (funext ih)

instance : LawfulMonad (Task σ C R) :=
  LawfulMonad.mk' _ andThen_done (fun _ _ => rfl) (fun t f g => andThen_andThen f g t)

/-- Changes the state. -/
def change (f : σ → σ) : Task σ C R Unit := locked f fun _ => done ()

/-- Changes the state and reads what it is now, in one section. -/
def changeAndRead (f : σ → σ) : Task σ C R σ := locked f done

/-- Reads the state. -/
def read : Task σ C R σ := locked id done

/-- Makes one call. -/
def ask (c : C) : Task σ C R (R c) := call c done

/-- A task with every call carried out by a task over other calls. -/
def handle {C' : Type} {R' : C' → Type} (carry : (c : C) → Task σ C' R' (R c)) :
    Task σ C R α → Task σ C' R' α
  | done result => done result
  | locked change next => locked change fun s => handle carry (next s)
  | call c next => andThen (fun reply => handle carry (next reply)) (carry c)

/-- What is left of a task that ran alone: its result, the state, and the calls it made, each with
the state at that moment. -/
structure Rehearsal (σ C α : Type) where
  result : α
  state : σ
  calls : List (C × σ)

/-- Runs a task alone. Its `n`-th call, counted from `made`, is answered by `answer n`. -/
def rehearse (answer : Nat → (c : C) → R c) : Task σ C R α → Nat → σ → Rehearsal σ C α
  | done result, _, s => ⟨result, s, []⟩
  | locked change next, made, s => rehearse answer (next (change s)) made (change s)
  | call c next, made, s =>
      let rest := rehearse answer (next (answer made c)) (made + 1) s
      { rest with calls := (c, s) :: rest.calls }

end Task

end ChordRing
