import Mathlib.Data.List.Basic

/-!
# Merged queues

Entries of several queues in one list, with the number of the queue that each is from.
-/

namespace Merge

open List Function

variable {α β γ κ : Type}

/-- The entries of one queue, in their order. -/
def ofQueue (k : Nat) (merged : List (Nat × α)) : List α := (merged.filter fun entry => entry.1 = k).map (·.2)

/-- The entries of every queue are there, in their order. -/
def Merges (queues : Nat → List α) (merged : List (Nat × α)) : Prop := ∀ k, ofQueue k merged = queues k

variable {queues : Nat → List α} {merged : List (Nat × α)} {k : Nat}

theorem ofQueue_cons_self (k : Nat) (a : α) (merged : List (Nat × α)) :
    ofQueue k ((k, a) :: merged) = a :: ofQueue k merged := by
  unfold ofQueue
  simp

theorem ofQueue_cons_of_ne {j : Nat} (h : j ≠ k) (a : α) (merged : List (Nat × α)) :
    ofQueue k ((j, a) :: merged) = ofQueue k merged := by
  unfold ofQueue
  simp [h]

theorem Merges.mem {entry : Nat × α} (h : Merges queues merged) (hentry : entry ∈ merged) :
    entry.2 ∈ queues entry.1 := by
  rw [← h entry.1]
  exact mem_map_of_mem (List.mem_filter.2 ⟨hentry, decide_eq_true rfl⟩)

theorem Merges.tail {a : α} (h : Merges queues ((k, a) :: merged)) :
    ∃ rest, queues k = a :: rest ∧ Merges (Function.update queues k rest) merged := by
  refine ⟨ofQueue k merged, ?_, fun j => ?_⟩
  · rw [← h k, ofQueue_cons_self]
  · by_cases hj : j = k
    · rw [hj, update_self]
    · rw [update_of_ne hj, ← h j, ofQueue_cons_of_ne fun heq => hj heq.symm]

/-- Queues of images are merged as the queues are. -/
theorem Merges.lift {f : α → β} {images : List (Nat × β)} (h : Merges (fun k => (queues k).map f) images) :
    ∃ merged, images = merged.map (Prod.map id f) ∧ Merges queues merged := by
  induction images generalizing queues with
  | nil => exact ⟨[], rfl, fun k => (List.map_eq_nil_iff.1 (h k).symm).symm⟩
  | cons image images ih =>
    obtain ⟨k, b⟩ := image
    obtain ⟨rest, hqueue, htail⟩ := h.tail
    obtain ⟨a, later, hcons, rfl, rfl⟩ := List.map_eq_cons_iff.1 hqueue
    have hupdate : Function.update (fun k => (queues k).map f) k (later.map f) =
        fun j => (Function.update queues k later j).map f := by
      funext j
      by_cases hj : j = k
      · rw [hj, update_self, update_self]
      · rw [update_of_ne hj, update_of_ne hj]
    rw [hupdate] at htail
    obtain ⟨merged, rfl, hmerged⟩ := ih htail
    refine ⟨(k, a) :: merged, rfl, fun j => ?_⟩
    by_cases hj : k = j
    · rw [← hj, ofQueue_cons_self, hmerged k, update_self, hcons]
    · rw [ofQueue_cons_of_ne hj, hmerged j, update_of_ne fun heq => hj heq.symm]

end Merge
