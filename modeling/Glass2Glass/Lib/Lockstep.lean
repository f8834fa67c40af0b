import Mathlib.Tactic.Common

/-!
# Programs run in lockstep

A program that may fail and keeps its state when it does. `Lockstep R x` says that `x`, run from two
related states, gives the same answer on both sides and leaves them related. It composes along binds, so it is
enough to prove it of the primitives.
-/

namespace Stateful

variable {σ α β : Type}

/-- A program on a state, which it keeps even if it fails. -/
abbrev Program (σ α : Type) := OptionT (StateM σ) α

/-- The answer of a program, none if it fails, and the state it leaves. -/
def exec (x : Program σ α) (s : σ) : Option α × σ := x.run.run s

/-- A program from what it answers and leaves. -/
def Program.of (f : σ → Option α × σ) : Program σ α := OptionT.mk f

@[simp] theorem exec_of (f : σ → Option α × σ) (s : σ) : exec (Program.of f) s = f s := rfl

theorem exec_bind (x : Program σ α) (f : α → Program σ β) (s : σ) : exec (x >>= f) s =
      match exec x s with
      | (some a, s') => exec (f a) s'
      | (none, s') => (none, s') := by
  unfold exec
  rw [OptionT.run_bind, Option.elimM, StateT.run_bind]
  rcases x.run.run s with ⟨_ | a, s'⟩ <;> rfl

/-- Run from related states, a program gives the same answer and leaves related states. -/
def Lockstep (R : σ → σ → Prop) (x : Program σ α) : Prop :=
  ∀ s t, R s t → (exec x s).1 = (exec x t).1 ∧ R (exec x s).2 (exec x t).2

variable {R : σ → σ → Prop} {x : Program σ α} {f : α → Program σ β}

namespace Lockstep

theorem pure (a : α) : Lockstep R (Pure.pure a : Program σ α) := fun _ _ h => ⟨rfl, h⟩

theorem failure : Lockstep R (Alternative.failure : Program σ α) := fun _ _ h => ⟨rfl, h⟩

theorem bind (h : Lockstep R x) (h' : ∀ a, Lockstep R (f a)) : Lockstep R (x >>= f) := by
  intro s t hst
  obtain ⟨hanswer, hstate⟩ := h s t hst
  rw [exec_bind, exec_bind]
  rcases hs : exec x s with ⟨answer, s'⟩
  rcases ht : exec x t with ⟨answer', t'⟩
  rw [hs, ht] at hanswer hstate
  subst hanswer
  cases answer with
  | none => exact ⟨rfl, hstate⟩
  | some a => exact h' a s' t' hstate

end Lockstep

end Stateful
