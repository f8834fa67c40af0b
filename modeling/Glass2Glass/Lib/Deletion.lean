import Mathlib.Data.List.Range

/-!
# Deletion

Marked entries of a list are left out (`keep`), and put back later as one filler (`fill`). What comes back is the list
with its marked entries blanked (`fill_keep`), if the same marks are used and the list was as long.
-/

namespace Deletion

open List Option

variable {α : Type} {mark : ℕ → Bool} {filler : α} {i n : ℕ}

/-- Leave the marked entries out. The first stands at `i`. -/
def keep (mark : ℕ → Bool) : ℕ → List α → List α
  | _, [] => []
  | i, b :: bs => if mark i then keep mark (i + 1) bs else b :: keep mark (i + 1) bs

/-- Put `n` entries together from what was kept, with a filler at the marks. There may be too few. -/
def fill (mark : ℕ → Bool) (filler : α) : ℕ → ℕ → List α → Option (List α)
  | _, 0, _ => some []
  | i, n + 1, kept =>
    if mark i then (fill mark filler (i + 1) n kept).map (filler :: ·)
    else
      match kept with
      | [] => none
      | b :: kept => (fill mark filler (i + 1) n kept).map (b :: ·)

def blank (mark : ℕ → Bool) (filler : α) : ℕ → List α → List α
  | _, [] => []
  | i, b :: bs => (if mark i then filler else b) :: blank mark filler (i + 1) bs

theorem fill_marked (h : mark i = true) (kept : List α) :
    fill mark filler i (n + 1) kept = (fill mark filler (i + 1) n kept).map (filler :: ·) := if_pos h

theorem fill_kept (h : ¬ mark i = true) (b : α) (kept : List α) :
    fill mark filler i (n + 1) (b :: kept) = (fill mark filler (i + 1) n kept).map (b :: ·) := if_neg h

theorem fill_keep (mark : ℕ → Bool) (filler : α) (i : ℕ) (bs : List α) :
    fill mark filler i bs.length (keep mark i bs) = some (blank mark filler i bs) := by
  induction bs generalizing i with
  | nil => rfl
  | cons b bs ih =>
    unfold keep blank
    rw [length_cons]
    split_ifs with hmark
    · rw [fill_marked hmark, ih, map_some]
    · rw [fill_kept hmark, ih, map_some]

theorem length_blank (mark : ℕ → Bool) (filler : α) (i : ℕ) (bs : List α) :
    (blank mark filler i bs).length = bs.length := by
  induction bs generalizing i with
  | nil => rfl
  | cons b bs ih => rw [blank, length_cons, length_cons, ih]

theorem blank_getElem? (mark : ℕ → Bool) (filler : α) (i k : ℕ) (bs : List α) :
    (blank mark filler i bs)[k]? = bs[k]?.map fun b => if mark (i + k) then filler else b := by
  induction bs generalizing i k with
  | nil => rfl
  | cons b bs ih =>
    cases k with
    | zero => rfl
    | succ k =>
      rw [blank, List.getElem?_cons_succ, List.getElem?_cons_succ, ih, Nat.add_right_comm, Nat.add_assoc]

theorem blank_eq_self {bs : List α} (h : ∀ k b, bs[k]? = some b → mark (i + k) = true → b = filler) :
    blank mark filler i bs = bs := by
  refine ext_getElem? fun k => ?_
  rw [blank_getElem?]
  cases hb : bs[k]? with
  | none => rfl
  | some b =>
    rw [map_some]
    split_ifs with hmark
    · rw [h k b hb hmark]
    · rfl

theorem keep_eq_self {bs : List α} (h : ∀ k < bs.length, mark (i + k) = false) : keep mark i bs = bs := by
  induction bs generalizing i with
  | nil => rfl
  | cons b bs ih =>
    have hhead := h 0 (Nat.succ_pos _)
    rw [Nat.add_zero] at hhead
    rw [keep, hhead, if_neg Bool.false_ne_true, ih fun k hk => ?_]
    rw [Nat.add_right_comm]
    exact h (k + 1) (Nat.succ_lt_succ hk)

theorem mem_of_mem_keep {b : α} {bs : List α} (h : b ∈ keep mark i bs) : b ∈ bs := by
  induction bs generalizing i with
  | nil => exact h
  | cons b' bs ih =>
    unfold keep at h
    split_ifs at h with hmark
    · exact mem_cons_of_mem _ (ih h)
    · rcases List.mem_cons.1 h with rfl | h
      · exact mem_cons_self
      · exact mem_cons_of_mem _ (ih h)

theorem length_keep (mark : ℕ → Bool) (i : ℕ) (bs : List α) :
    (keep mark i bs).length + (List.range' i bs.length).countP mark = bs.length := by
  induction bs generalizing i with
  | nil => rfl
  | cons b bs ih =>
    have hrest := ih (i + 1)
    rw [length_cons, List.range'_succ, countP_cons, keep]
    split_ifs with hmark
    · omega
    · rw [length_cons]
      omega

theorem length_of_fill {kept filled : List α} (h : fill mark filler i n kept = some filled) : filled.length = n := by
  induction n generalizing i kept filled with
  | zero =>
    obtain rfl := Option.some.inj h
    rfl
  | succ n ih =>
    unfold fill at h
    split_ifs at h with hmark
    · obtain ⟨rest, hrest, rfl⟩ := Option.map_eq_some_iff.1 h
      rw [length_cons, ih hrest]
    · cases kept with
      | nil => exact absurd h.symm (some_ne_none _)
      | cons b kept =>
        obtain ⟨rest, hrest, rfl⟩ := Option.map_eq_some_iff.1 h
        rw [length_cons, ih hrest]

theorem mem_of_fill {b : α} {kept filled : List α} (h : fill mark filler i n kept = some filled) (hb : b ∈ filled) :
    b = filler ∨ b ∈ kept := by
  induction n generalizing i kept filled with
  | zero =>
    obtain rfl := Option.some.inj h
    exact absurd hb not_mem_nil
  | succ n ih =>
    unfold fill at h
    split_ifs at h with hmark
    · obtain ⟨rest, hrest, rfl⟩ := Option.map_eq_some_iff.1 h
      exact (List.mem_cons.1 hb).imp_right (fun hb => ih hrest hb) |>.elim Or.inl id
    · cases kept with
      | nil => exact absurd h.symm (some_ne_none _)
      | cons b' kept =>
        obtain ⟨rest, hrest, rfl⟩ := Option.map_eq_some_iff.1 h
        rcases List.mem_cons.1 hb with rfl | hb
        · exact Or.inr mem_cons_self
        · exact (ih hrest hb).imp_right (mem_cons_of_mem _)

theorem countP_range (h : ∀ k, mark k = true → k < i) (hn : i ≤ n) :
    (List.range n).countP mark = (List.range i).countP mark := by
  obtain ⟨m, rfl⟩ := Nat.exists_eq_add_of_le hn
  rw [range_add, countP_append, Nat.add_eq_left, countP_eq_zero]
  intro k hk hmark
  obtain ⟨j, -, rfl⟩ := List.mem_map.1 hk
  exact absurd (h _ hmark) (by omega)

end Deletion
