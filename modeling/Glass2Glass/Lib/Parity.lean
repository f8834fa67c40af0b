import Mathlib.Data.List.Perm.Basic

/-!
# Sums of commuting involutions

An accumulator into which elements are folded, where the order does not matter and folding an element in twice
undoes it. Parity codes are of this kind. The sum of a family and the sum of all its members but one give that
one (`foldl_recover`).
-/

namespace Parity

variable {σ α : Type}

/-- Folding is commutative, and each element is its own inverse. -/
structure Lawful (fold : σ → α → σ) : Prop where
  comm : ∀ s a b, fold (fold s a) b = fold (fold s b) a
  self : ∀ s a, fold (fold s a) a = s

variable {fold : σ → α → σ}

theorem Lawful.foldl_fold (h : Lawful fold) (s : σ) (a : α) (l : List α) :
    l.foldl fold (fold s a) = fold (l.foldl fold s) a := by
  induction l generalizing s with
  | nil => rfl
  | cons b l ih => rw [List.foldl_cons, List.foldl_cons, h.comm, ih]

theorem Lawful.foldl_perm (h : Lawful fold) {l l' : List α} (hperm : l.Perm l') (s : σ) :
    l.foldl fold s = l'.foldl fold s := by
  have : RightCommutative fold := ⟨h.comm⟩
  exact hperm.foldl_eq s

theorem Lawful.foldl_self (h : Lawful fold) (s : σ) (l : List α) : l.foldl fold (l.foldl fold s) = s := by
  induction l generalizing s with
  | nil => rfl
  | cons a l ih =>
    calc (a :: l).foldl fold ((a :: l).foldl fold s)
        = l.foldl fold (fold (l.foldl fold (fold s a)) a) := rfl
      _ = l.foldl fold (l.foldl fold (fold (fold s a) a)) := by rw [← h.foldl_fold]
      _ = s := by rw [h.self, ih]

theorem Lawful.foldl_recover (h : Lawful fold) (s : σ) {lost : α} {others family : List α}
    (hperm : (lost :: others).Perm family) : others.foldl fold (family.foldl fold s) = fold s lost := by
  rw [← h.foldl_perm hperm, List.foldl_cons, h.foldl_self]

end Parity
