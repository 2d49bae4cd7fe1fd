/-!
Outcomes of a computation that works on a state, may fail, and has a bound on its steps.

Reading a program and running one are such computations.  A failure keeps the state that had been
reached, since both go on after it.  `exhausted` says that the bound was too small, and nothing
else; it is never mistaken for a failure or a result.
-/

namespace LoxLang

inductive Outcome (ε σ α : Type) where
  | ok (value : α) (state : σ)
  | error (error : ε) (state : σ)
  | exhausted

/-- A computation on states of type `σ` that may fail with an `ε`. -/
def Action (ε σ α : Type) := σ → Outcome ε σ α

namespace Action

variable {ε σ α β : Type}

@[always_inline, inline]
def pure (a : α) : Action ε σ α := fun s => .ok a s

@[always_inline, inline]
def bind (x : Action ε σ α) (f : α → Action ε σ β) : Action ε σ β := fun s =>
  match x s with
  | .ok a s => f a s
  | .error e s => .error e s
  | .exhausted => .exhausted

@[always_inline]
instance : Monad (Action ε σ) where
  pure := pure
  bind := bind

@[always_inline, inline]
def fail (e : ε) : Action ε σ α := fun s => .error e s

@[always_inline, inline]
def outOfSteps : Action ε σ α := fun _ => .exhausted

@[always_inline, inline]
def get : Action ε σ σ := fun s => .ok s s

@[always_inline, inline]
def modify (f : σ → σ) : Action ε σ Unit := fun s => .ok () (f s)

/-- The failure as a value; the computation itself does not fail. -/
@[always_inline, inline]
def attempt (x : Action ε σ α) : Action ε σ (Except ε α) := fun s =>
  match x s with
  | .ok a s => .ok (.ok a) s
  | .error e s => .ok (.error e) s
  | .exhausted => .exhausted

@[simp] theorem pure_apply (a : α) (s : σ) : (Pure.pure a : Action ε σ α) s = .ok a s := rfl

theorem bind_apply (x : Action ε σ α) (f : α → Action ε σ β) (s : σ) :
    (x >>= f) s =
      match x s with
      | .ok a t => f a t
      | .error e t => .error e t
      | .exhausted => .exhausted := rfl

end Action

end LoxLang
