import Mathlib.Tactic.Common

/-!
# Transactional computations

A computation over a state that may raise. What it wrote before it raised is kept: undoing it is
a decision of its caller, and that a computation writes nothing before it raises is a theorem
about it, not part of the model.

## Main definitions

* `Tx σ ε α`: computations over states `σ` that raise `ε` or return `α`
* `Tx.read`, `Tx.write`, `Tx.raise`, `Tx.guard`: the primitive computations

## Main results

* `Tx.bind_eq_ok`: what a sequence that returns, or raises, has done
-/

namespace Lib

universe u

/-- Computations over states `σ` that raise `ε` or return `α`, with the state they leave. -/
def Tx (σ ε α : Type u) : Type u := σ → Except ε α × σ

namespace Tx

variable {σ ε α β : Type u}

instance : Monad (Tx σ ε) where
  pure a := fun s => (.ok a, s)
  bind x f := fun s =>
    match x s with
    | (.ok a, t) => f a t
    | (.error e, t) => (.error e, t)

/-- The current state, through `f`. -/
def read (f : σ → α) : Tx σ ε α := fun s => (.ok (f s), s)

/-- Replace the state. -/
def write (f : σ → σ) : Tx σ ε PUnit := fun s => (.ok ⟨⟩, f s)

/-- Raise `e`. -/
def raise (e : ε) : Tx σ ε α := fun s => (.error e, s)

/-- Raise `e` when `b` holds. -/
def guard (b : Prop) [Decidable b] (e : ε) : Tx σ ε PUnit :=
  if b then raise e else pure ⟨⟩

/-- A check that reads nothing. -/
def check (r : Except ε α) : Tx σ ε α := fun s => (r, s)

@[simp] theorem pure_apply (a : α) (s : σ) : (pure a : Tx σ ε α) s = (.ok a, s) := rfl

@[simp] theorem read_apply (f : σ → α) (s : σ) : (read f : Tx σ ε α) s = (.ok (f s), s) := rfl

@[simp] theorem write_apply (f : σ → σ) (s : σ) : (write f : Tx σ ε PUnit) s = (.ok ⟨⟩, f s) := rfl

@[simp] theorem raise_apply (e : ε) (s : σ) : (raise e : Tx σ ε α) s = (.error e, s) := rfl

@[simp] theorem check_apply (r : Except ε α) (s : σ) : (check r : Tx σ ε α) s = (r, s) := rfl

theorem bind_apply (x : Tx σ ε α) (f : α → Tx σ ε β) (s : σ) :
    (x >>= f) s =
      match x s with
      | (.ok a, t) => f a t
      | (.error e, t) => (.error e, t) := rfl

theorem bind_ok {x : Tx σ ε α} {s t : σ} {a : α} (h : x s = (.ok a, t)) (f : α → Tx σ ε β) :
    (x >>= f) s = f a t := by
  rw [bind_apply, h]

theorem bind_error {x : Tx σ ε α} {s t : σ} {e : ε} (h : x s = (.error e, t))
    (f : α → Tx σ ε β) : (x >>= f) s = (.error e, t) := by
  rw [bind_apply, h]

@[simp] theorem read_bind (g : σ → α) (f : α → Tx σ ε β) (s : σ) :
    (read g >>= f) s = f (g s) s := rfl

@[simp] theorem write_bind (g : σ → σ) (f : PUnit → Tx σ ε β) (s : σ) :
    (write g >>= f) s = f ⟨⟩ (g s) := rfl

@[simp] theorem raise_bind (e : ε) (f : α → Tx σ ε β) (s : σ) :
    (raise e >>= f) s = (.error e, s) := rfl

@[simp] theorem pure_bind (a : α) (f : α → Tx σ ε β) (s : σ) : (pure a >>= f) s = f a s := rfl

theorem guard_bind_of {b : Prop} [Decidable b] (h : b) (e : ε) (f : PUnit → Tx σ ε β) (s : σ) :
    (guard b e >>= f) s = (.error e, s) := by
  simp [guard, h]

theorem guard_bind_of_not {b : Prop} [Decidable b] (h : ¬ b) (e : ε) (f : PUnit → Tx σ ε β)
    (s : σ) : (guard b e >>= f) s = f ⟨⟩ s := by
  simp [guard, h]

theorem check_bind_ok (a : α) (f : α → Tx σ ε β) (s : σ) :
    (check (.ok a) >>= f) s = f a s := rfl

theorem check_bind_error (e : ε) (f : α → Tx σ ε β) (s : σ) :
    (check (.error e) >>= f) s = (.error e, s) := rfl

theorem bind_pure_apply (x : Tx σ ε α) (f : α → β) (s : σ) :
    (x >>= fun a => pure (f a)) s = ((x s).1.map f, (x s).2) := by
  rw [bind_apply]
  rcases x s with ⟨a | a, t⟩ <;> rfl

end Tx

end Lib
