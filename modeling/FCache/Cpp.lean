import Mathlib.Tactic.Common

/-!
# Computations with state, exceptions and undefined behaviour

The outcome of a C++ computation on a state of type `σ` is a value and a new state, an exception
in flight together with the state it leaves behind, or undefined behaviour, after which nothing
is promised. A handler catches exceptions and keeps the changes made before the throw; undefined
behaviour cannot be caught. Exceptions carry no payload: the handlers modelled over this monad
catch every `std::exception`.
-/

inductive Outcome (σ α : Type) where
  | ok (a : α) (s : σ)
  | throws (s : σ)
  | undefined
  deriving DecidableEq

namespace Outcome

variable {σ τ α β : Type}

def bind (r : Outcome σ α) (f : α → σ → Outcome σ β) : Outcome σ β :=
  match r with
  | .ok a s => f a s
  | .throws s => .throws s
  | .undefined => .undefined

@[simp] theorem ok_bind (a : α) (s : σ) (f : α → σ → Outcome σ β) :
    (Outcome.ok a s).bind f = f a s := rfl

@[simp] theorem throws_bind (s : σ) (f : α → σ → Outcome σ β) :
    (Outcome.throws s : Outcome σ α).bind f = .throws s := rfl

@[simp] theorem undefined_bind (f : α → σ → Outcome σ β) :
    (Outcome.undefined : Outcome σ α).bind f = .undefined := rfl

/-- Change of the state the outcome carries. -/
def mapState (g : σ → τ) : Outcome σ α → Outcome τ α
  | .ok a s => .ok a (g s)
  | .throws s => .throws (g s)
  | .undefined => .undefined

@[simp] theorem mapState_ok (g : σ → τ) (a : α) (s : σ) :
    (Outcome.ok a s).mapState g = .ok a (g s) := rfl

@[simp] theorem mapState_throws (g : σ → τ) (s : σ) :
    (Outcome.throws s : Outcome σ α).mapState g = .throws (g s) := rfl

@[simp] theorem mapState_undefined (g : σ → τ) :
    (Outcome.undefined : Outcome σ α).mapState g = .undefined := rfl

end Outcome

def Cpp (σ α : Type) : Type := σ → Outcome σ α

namespace Cpp

variable {σ τ α β : Type}

instance : Monad (Cpp σ) where
  pure a := fun s => .ok a s
  bind x f := fun s => (x s).bind f

@[simp] theorem pure_apply (a : α) (s : σ) : (pure a : Cpp σ α) s = .ok a s := rfl

@[simp] theorem bind_apply (x : Cpp σ α) (f : α → Cpp σ β) (s : σ) :
    (x >>= f) s = (x s).bind f := rfl

@[simp] theorem ok_bind (a : α) (f : α → Cpp σ β) (s : σ) :
    (Outcome.ok a s).bind f = f a s := rfl

@[simp] theorem throws_bind (f : α → Cpp σ β) (s : σ) :
    (Outcome.throws s : Outcome σ α).bind f = .throws s := rfl

@[simp] theorem undefined_bind (f : α → Cpp σ β) :
    (Outcome.undefined : Outcome σ α).bind f = .undefined := rfl

@[simp] theorem map_apply (x : Cpp σ α) (f : α → β) (s : σ) :
    (f <$> x) s = (x s).bind fun a s' => .ok (f a) s' := rfl

@[simp] theorem if_apply (c : Prop) [Decidable c] (x y : Cpp σ α) (s : σ) :
    (if c then x else y) s = if c then x s else y s := by
  split <;> rfl

def read : Cpp σ σ := fun s => .ok s s

def write (s : σ) : Cpp σ Unit := fun _ => .ok () s

def update (f : σ → σ) : Cpp σ Unit := fun s => .ok () (f s)

def throw : Cpp σ α := fun s => .throws s

def undefined : Cpp σ α := fun _ => .undefined

/-- A partial operation whose missing results are undefined behaviour. -/
def ofOption : Option α → Cpp σ α
  | some a => pure a
  | none => undefined

def tryCatch (x h : Cpp σ α) : Cpp σ α := fun s =>
  match x s with
  | .ok a s' => .ok a s'
  | .throws s' => h s'
  | .undefined => .undefined

/-- Run a computation on a part of the state. -/
def zoom (get : σ → τ) (set : τ → σ → σ) (x : Cpp τ α) : Cpp σ α := fun s =>
  (x (get s)).mapState fun t => set t s

@[simp] theorem read_apply (s : σ) : (read : Cpp σ σ) s = .ok s s := rfl

@[simp] theorem write_apply (s t : σ) : (write t : Cpp σ Unit) s = .ok () t := rfl

@[simp] theorem update_apply (f : σ → σ) (s : σ) : (update f) s = .ok () (f s) := rfl

@[simp] theorem throw_apply (s : σ) : (throw : Cpp σ α) s = .throws s := rfl

@[simp] theorem undefined_apply (s : σ) : (undefined : Cpp σ α) s = .undefined := rfl

@[simp] theorem ofOption_some (a : α) : (ofOption (some a) : Cpp σ α) = pure a := rfl

@[simp] theorem ofOption_none : (ofOption none : Cpp σ α) = undefined := rfl

@[simp] theorem zoom_apply (get : σ → τ) (set : τ → σ → σ) (x : Cpp τ α) (s : σ) :
    zoom get set x s = (x (get s)).mapState fun t => set t s := rfl

/-- The handler is entered exactly when the body throws. -/
theorem tryCatch_apply (x h : Cpp σ α) (s : σ) :
    tryCatch x h s = match x s with
      | .ok a s' => .ok a s'
      | .throws s' => h s'
      | .undefined => .undefined := rfl

end Cpp
