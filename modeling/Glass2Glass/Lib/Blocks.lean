import Mathlib.Data.List.Range

/-!
# Blocks

A list cut into blocks of one size (`chunksExact`). Blocks put together are cut again where they were
(`chunksExact_flatten`).
-/

namespace Blocks

open List

variable {α : Type} {size : ℕ} {b : List α} {blocks : List (List α)}

/-- The whole blocks of a list. What is left at its end is not read. -/
def chunksExact (size : ℕ) (xs : List α) : List (List α) :=
  (List.range (xs.length / size)).map fun i => (xs.drop (i * size)).take size

theorem chunksExact_cons (hpos : 0 < size) (h : b.length = size) (rest : List α) :
    chunksExact size (b ++ rest) = b :: chunksExact size rest := by
  unfold chunksExact
  rw [length_append, h, Nat.add_div_left _ hpos, range_succ_eq_map, map_cons, map_map]
  congr 1
  · rw [Nat.zero_mul, drop_zero, take_left' h]
  · refine map_congr_left fun i _ => ?_
    rw [Function.comp_apply, Nat.succ_mul, Nat.add_comm, ← drop_drop, drop_left' h]

theorem chunksExact_nil (size : ℕ) : chunksExact size ([] : List α) = [] := by
  rw [chunksExact, length_nil, Nat.zero_div]
  rfl

theorem chunksExact_flatten (hpos : 0 < size) (h : ∀ b ∈ blocks, b.length = size) :
    chunksExact size blocks.flatten = blocks := by
  induction blocks with
  | nil => exact chunksExact_nil size
  | cons b blocks ih =>
    obtain ⟨hb, hblocks⟩ := List.forall_mem_cons.1 h
    rw [flatten_cons, chunksExact_cons hpos hb, ih hblocks]

theorem length_flatten (h : ∀ b ∈ blocks, b.length = size) : blocks.flatten.length = blocks.length * size := by
  rw [List.length_flatten, List.map_eq_replicate_iff.2 h, sum_replicate_nat]

theorem take_drop_flatten (h : ∀ b ∈ blocks, b.length = size) {k : ℕ} (hk : blocks[k]? = some b) :
    (blocks.flatten.drop (k * size)).take size = b := by
  induction blocks generalizing k with
  | nil => exact absurd hk.symm (Option.some_ne_none _)
  | cons b' blocks ih =>
    obtain ⟨hb', hblocks⟩ := List.forall_mem_cons.1 h
    rw [flatten_cons]
    cases k with
    | zero =>
      obtain rfl := Option.some.inj hk
      rw [Nat.zero_mul, drop_zero, take_left' hb']
    | succ k =>
      rw [Nat.succ_mul, Nat.add_comm, ← drop_drop, drop_left' hb']
      exact ih hblocks hk

theorem exists_blocks {xs : List α} (h : size ∣ xs.length) :
    ∃ blocks : List (List α), xs = blocks.flatten ∧ ∀ b ∈ blocks, b.length = size := by
  obtain ⟨n, hn⟩ := h
  induction n generalizing xs with
  | zero =>
    exact ⟨[], List.length_eq_zero_iff.1 hn, fun b hb => absurd hb not_mem_nil⟩
  | succ n ih =>
    rw [Nat.mul_succ] at hn
    obtain ⟨blocks, hdrop, hblocks⟩ := @ih (xs.drop size) (by rw [length_drop, hn, Nat.add_sub_cancel])
    refine ⟨xs.take size :: blocks, ?_, List.forall_mem_cons.2 ⟨?_, hblocks⟩⟩
    · rw [flatten_cons, ← hdrop, take_append_drop]
    · rw [length_take, hn]
      exact Nat.min_eq_left (Nat.le_add_left _ _)

theorem length_of_mem_chunksExact {xs : List α} (h : size ∣ xs.length) (hb : b ∈ chunksExact size xs) : b.length = size := by
  obtain ⟨i, hi, rfl⟩ := List.mem_map.1 hb
  have hroom : (i + 1) * size ≤ xs.length := by
    rw [← Nat.div_mul_cancel h]
    exact Nat.mul_le_mul_right size (List.mem_range.1 hi)
  rw [Nat.succ_mul] at hroom
  rw [length_take, length_drop]
  omega

end Blocks
