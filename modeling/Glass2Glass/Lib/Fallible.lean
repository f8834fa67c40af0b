import Mathlib.Logic.Basic

/-!
# Computations that stop

A computation on a state that returns or stops, and leaves a state behind in both cases. What it does is
said by two postconditions, one for each case (`Meets`), and composed along its steps (`Meets.bind`).
-/

/-- A computation on states `σ` that stops with an `ε` or returns an `α`. -/
def Fallible (σ ε α : Type) : Type := σ → Except ε α × σ

namespace Fallible

variable {σ ε α β : Type}

instance instMonad : Monad (Fallible σ ε) where
  pure a s := (.ok a, s)
  bind x f s :=
    match x s with
    | (.ok a, s) => f a s
    | (.error e, s) => (.error e, s)

def stop (e : ε) : Fallible σ ε α := fun s => (.error e, s)

/-- Look at the state. -/
def query (f : σ → Except ε α) : Fallible σ ε α := fun s => (f s, s)

/-- Change the state. -/
def update (f : σ → σ) : Fallible σ ε Unit := fun s => (.ok (), f s)

variable {P : α → σ → Prop} {Q : β → σ → Prop} {E : ε → σ → Prop} {x : Fallible σ ε α}
  {f : α → Fallible σ ε β} {s : σ}

/-- From a state, a computation returns with the first or stops with the second. -/
def Meets (x : Fallible σ ε α) (s : σ) (P : α → σ → Prop) (E : ε → σ → Prop) : Prop :=
  match x s with
  | (.ok a, s) => P a s
  | (.error e, s) => E e s

namespace Meets

theorem of_ok {a : α} {s' : σ} (h : Meets x s P E) (hx : x s = (.ok a, s')) : P a s' := by
  unfold Meets at h
  rwa [hx] at h

theorem of_error {e : ε} {s' : σ} (h : Meets x s P E) (hx : x s = (.error e, s')) : E e s' := by
  unfold Meets at h
  rwa [hx] at h

theorem mono {P' : α → σ → Prop} {E' : ε → σ → Prop} (h : Meets x s P E)
    (hP : ∀ a s, P a s → P' a s) (hE : ∀ e s, E e s → E' e s) : Meets x s P' E' := by
  unfold Meets at *
  split
  · next heq =>
    rw [heq] at h
    exact hP _ _ h
  · next heq =>
    rw [heq] at h
    exact hE _ _ h

theorem pure {a : α} (h : P a s) : Meets (Pure.pure a) s P E := h

theorem stop {e : ε} (h : E e s) : Meets (Fallible.stop e) s P E := h

theorem update {g : σ → σ} {P : Unit → σ → Prop} (h : P () (g s)) : Meets (Fallible.update g) s P E := h

theorem query {g : σ → Except ε α} (hok : ∀ a, g s = .ok a → P a s) (herr : ∀ e, g s = .error e → E e s) :
    Meets (Fallible.query g) s P E := by
  unfold Meets Fallible.query
  rcases hg : g s with e | a
  · exact herr e hg
  · exact hok a hg

theorem query_ok {g : σ → Except ε α} {a : α} (hok : g s = .ok a) (h : P a s) : Meets (Fallible.query g) s P E := by
  unfold Meets Fallible.query
  rw [hok]
  exact h

theorem ite {c : Prop} [Decidable c] {y : Fallible σ ε α} (ht : c → Meets x s P E)
    (hf : ¬ c → Meets y s P E) : Meets (if c then x else y) s P E := by
  by_cases hc : c
  · rw [if_pos hc]
    exact ht hc
  · rw [if_neg hc]
    exact hf hc

theorem bind (hx : Meets x s P E) (hf : ∀ a s, P a s → Meets (f a) s Q E) : Meets (x >>= f) s Q E := by
  unfold Meets at hx ⊢
  show match (match x s with
    | (.ok a, s) => f a s
    | (.error e, s) => (.error e, s)) with
    | (.ok a, s) => Q a s
    | (.error e, s) => E e s
  split at hx
  · exact hf _ _ hx
  · exact hx

theorem seq (h : Meets x s (fun a s => Meets (f a) s Q E) E) : Meets (x >>= f) s Q E :=
  bind h fun _ _ h => h

end Meets

end Fallible
