import Mathlib.Tactic.Linarith

/-!
# Saturating arithmetic

Sums that are cut off at the ends of a signed word (`saturate`). While the numbers stay small nothing is cut off, and what
was cut off once stays far from small numbers, so it is cut off again at the ends of a narrower word (`Tracks.saturate`).
-/

namespace Saturating

/-- The nearest number of a signed word. -/
def saturate (bits : ℕ) (v : ℤ) : ℤ := max (-2 ^ (bits - 1)) (min v (2 ^ (bits - 1) - 1))

/-- The numbers of a signed word. -/
def Fits (bits : ℕ) (v : ℤ) : Prop := -2 ^ (bits - 1) ≤ v ∧ v ≤ 2 ^ (bits - 1) - 1

instance (bits : ℕ) (v : ℤ) : Decidable (Fits bits v) := inferInstanceAs (Decidable (_ ∧ _))

theorem saturate_of_fits {bits : ℕ} {v : ℤ} (h : Fits bits v) : saturate bits v = v := by
  rw [saturate, min_eq_left h.2, max_eq_right h.1]

theorem saturate_min (bits : ℕ) (v w : ℤ) : saturate bits (min v w) = min (saturate bits v) (saturate bits w) := by
  unfold saturate
  omega

/-- A number that was computed with cuts is the true one, or both are `bound` away from zero on one side. -/
def Tracks (bound v e : ℤ) : Prop := v = e ∨ bound ≤ v ∧ bound ≤ e ∨ v ≤ -bound ∧ e ≤ -bound

variable {bound v e d margin : ℤ}

theorem Tracks.mono {bound' : ℤ} (h : Tracks bound v e) (hle : bound' ≤ bound) : Tracks bound' v e := by
  unfold Tracks at *
  omega

theorem tracks_saturate (bits : ℕ) (e : ℤ) : Tracks (2 ^ (bits - 1) - 1) (saturate bits e) e := by
  unfold Tracks saturate
  omega

theorem Tracks.add (h : Tracks bound v e) (bits : ℕ) (hbound : bound ≤ 2 ^ (bits - 1) - 1) (hd : -margin ≤ d ∧ d ≤ margin) :
    Tracks (bound - margin) (saturate bits (v + d)) (e + d) := by
  unfold Tracks saturate at *
  omega

theorem Tracks.saturate {bits : ℕ} (h : Tracks bound v e) (hbound : 2 ^ (bits - 1) ≤ bound) :
    saturate bits v = saturate bits e := by
  unfold Tracks at h
  unfold Saturating.saturate
  omega

theorem Tracks.foldl {l : List ℤ} (bits : ℕ) (h : Tracks bound v e) (hmargin : 0 ≤ margin)
    (hbound : bound ≤ 2 ^ (bits - 1) - 1) (hl : ∀ d ∈ l, -margin ≤ d ∧ d ≤ margin) :
    Tracks (bound - l.length * margin) (l.foldl (fun a d => Saturating.saturate bits (a + d)) v) (e + l.sum) := by
  induction l generalizing bound v e with
  | nil => simpa using h
  | cons d l ih =>
    obtain ⟨hd, hl⟩ := List.forall_mem_cons.1 hl
    have hstep := ih (h.add bits hbound hd) (by omega) hl
    rw [List.foldl_cons, List.sum_cons, List.length_cons, ← add_assoc]
    refine hstep.mono (le_of_eq ?_)
    rw [Nat.cast_succ, add_mul, one_mul]
    omega

theorem foldl_exact {l : List ℤ} (bits : ℕ) (hv : -bound ≤ v ∧ v ≤ bound) (hmargin : 0 ≤ margin)
    (hbound : bound + l.length * margin ≤ 2 ^ (bits - 1) - 1) (hl : ∀ d ∈ l, -margin ≤ d ∧ d ≤ margin) :
    l.foldl (fun a d => saturate bits (a + d)) v = v + l.sum := by
  induction l generalizing bound v with
  | nil => exact (add_zero v).symm
  | cons d l ih =>
    obtain ⟨hd, hl⟩ := List.forall_mem_cons.1 hl
    rw [List.length_cons, Nat.cast_succ, add_mul, one_mul] at hbound
    have hlength : 0 ≤ (l.length : ℤ) * margin := mul_nonneg (Nat.cast_nonneg _) hmargin
    have hsum : saturate bits (v + d) = v + d := saturate_of_fits (by unfold Fits; omega)
    rw [List.foldl_cons, List.sum_cons, hsum, @ih (bound + margin) (v + d) (by omega) (by omega) hl, add_assoc]

end Saturating
