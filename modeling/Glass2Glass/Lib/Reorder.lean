import Mathlib.Data.List.FinRange
import Mathlib.Data.List.Sort

/-!
# Putting values in order behind a delay

Values arrive in another order than they are to leave in. If none of them arrives more than `d` places after its place in
order (`Ranking.Within`), then behind a delay of `d` the least of the values that are held is always the next one in
order (`head_of_held`).
-/

namespace Reorder

variable {α : Type} [LinearOrder α] {xs : List α}

/-- The places of the values in order. -/
structure Ranking (xs : List α) where
  rank : Equiv.Perm (Fin xs.length)
  mono : ∀ i j, rank i < rank j → xs[i] ≤ xs[j]

/-- No value arrives more than `d` places after its place in order. -/
def Ranking.Within (r : Ranking xs) (d : Nat) : Prop := ∀ i : Fin xs.length, (i : Nat) ≤ r.rank i + d

instance (r : Ranking xs) (d : Nat) : Decidable (r.Within d) :=
  inferInstanceAs (Decidable (∀ i : Fin xs.length, (i : Nat) ≤ r.rank i + d))

/-- The values in order. -/
def Ranking.sorted (r : Ranking xs) : List α := List.ofFn fun n => xs[r.rank.symm n]

namespace Ranking

variable (r : Ranking xs) {d : Nat}

@[simp] theorem length_sorted : r.sorted.length = xs.length := List.length_ofFn

theorem getElem_sorted (n : Fin xs.length) : getElem r.sorted n (by rw [length_sorted]; exact n.isLt) = xs[r.rank.symm n] :=
  List.getElem_ofFn _

theorem perm_sorted : r.sorted.Perm xs := by
  have h := Equiv.Perm.ofFn_comp_perm r.rank.symm fun i => xs[i]
  have hxs : (List.ofFn fun i : Fin xs.length => xs[i]) = xs := List.ofFn_getElem
  rwa [hxs] at h

theorem pairwise_sorted : r.sorted.Pairwise (· ≤ ·) := by
  unfold sorted
  rw [List.pairwise_ofFn]
  intro i j hij
  refine r.mono _ _ ?_
  rwa [Equiv.apply_symm_apply, Equiv.apply_symm_apply]

/-- The first values in order have arrived `d` places later. -/
theorem take_subperm (h : r.Within d) (n : Nat) : (r.sorted.take n).Subperm (xs.take (n + d)) := by
  have hmem (m : Nat) (i : Fin xs.length) : i ∈ (List.finRange xs.length).take m ↔ (i : Nat) < m := by
    rw [List.mem_take_iff_getElem]
    constructor
    · rintro ⟨k, hk, rfl⟩
      rw [List.getElem_finRange]
      exact (Nat.lt_min.1 hk).1
    · intro hi
      refine ⟨i, ?_, by rw [List.getElem_finRange]; rfl⟩
      rw [List.length_finRange]
      exact Nat.lt_min.2 ⟨hi, i.isLt⟩
  have hindices : ((List.finRange xs.length).take n).map r.rank.symm ⊆ (List.finRange xs.length).take (n + d) := by
    intro i hi
    obtain ⟨m, hm, rfl⟩ := List.mem_map.1 hi
    have hle := h (r.rank.symm m)
    have hlt := (hmem n m).1 hm
    rw [Equiv.apply_symm_apply] at hle
    exact (hmem (n + d) _).2 (by omega)
  have hnodup : (((List.finRange xs.length).take n).map r.rank.symm).Nodup :=
    ((List.nodup_finRange _).sublist (List.take_sublist n _)).map r.rank.symm.injective
  have hxs : (List.finRange xs.length).map (fun i => xs[i]) = xs := by
    rw [← List.ofFn_eq_map]
    exact List.ofFn_getElem
  have hsorted : r.sorted = (List.finRange xs.length).map ((fun i => xs[i]) ∘ r.rank.symm) := List.ofFn_eq_map
  -- The same holds of the values as of their places.
  obtain ⟨places, hperm, hsublist⟩ := List.subperm_of_subset hnodup hindices
  refine ⟨places.map fun i => xs[i], ?_, ?_⟩
  · rw [hsorted, ← List.map_take, ← List.map_map]
    exact hperm.map _
  · conv_rhs => rw [← hxs, ← List.map_take]
    exact hsublist.map _

end Ranking

/-- The least value that is held is the next one in order, if it has arrived. -/
theorem head_of_held {sorted arrived held : List α} {n : Nat} (hsorted : sorted.Pairwise (· ≤ ·))
    (hheld : held.Pairwise (· ≤ ·)) (hsplit : (sorted.take n ++ held).Perm arrived) (hsub : arrived.Subperm sorted)
    (hn : n < sorted.length) (harrived : (sorted.take (n + 1)).Subperm arrived) :
    ∃ later, held = sorted[n] :: later := by
  have hnext : sorted[n] ∈ held := by
    have hsub' := harrived.trans hsplit.symm.subperm
    rw [List.take_succ_eq_append_getElem hn, List.subperm_append_left] at hsub'
    exact hsub'.subset (List.mem_singleton_self _)
  have hlater : ∀ x ∈ held, sorted[n] ≤ x := by
    have hsub' : (sorted.take n ++ held).Subperm (sorted.take n ++ sorted.drop n) := by
      rw [List.take_append_drop]
      exact hsplit.subperm.trans hsub
    have hsubset := ((List.subperm_append_left _).1 hsub').subset
    have hrest := hsorted.sublist (List.drop_sublist n sorted)
    rw [List.drop_eq_getElem_cons hn] at hsubset hrest
    intro x hx
    rcases List.mem_cons.1 (hsubset hx) with heq | hmem
    · exact heq.ge
    · exact (List.pairwise_cons.1 hrest).1 x hmem
  obtain ⟨least, later, rfl⟩ := List.exists_cons_of_ne_nil (List.ne_nil_of_mem hnext)
  refine ⟨later, ?_⟩
  have hle : least ≤ sorted[n] := by
    rcases List.mem_cons.1 hnext with heq | hmem
    · exact heq.ge
    · exact (List.pairwise_cons.1 hheld).1 _ hmem
  rw [le_antisymm hle (hlater least List.mem_cons_self)]

end Reorder
