import Mathlib.Data.List.Basic

/-!
# Ledgers

A ledger keeps one entry for each thing that happened, in order, and changes what it says about the first
entry that matches (`updateFirst`). The entries with some property form a list that a queue is kept equal
to: when the first of them that matches loses the property, it is removed from the queue
(`filter_updateFirst`); when it gains another that only earlier entries have, it goes to the end
(`filter_updateFirst_append`).
-/

namespace Ledger

open List

variable {α β : Type} {p q : α → Bool} {f : α → α} {l : List α}

/-- Change the first entry that matches. -/
def updateFirst (p : α → Bool) (f : α → α) : List α → List α
  | [] => []
  | a :: l => if p a then f a :: l else a :: updateFirst p f l

theorem map_updateFirst {g : α → β} (h : ∀ a, g (f a) = g a) : (updateFirst p f l).map g = l.map g := by
  induction l with
  | nil => rfl
  | cons a l ih =>
    unfold updateFirst
    split_ifs
    · rw [map_cons, map_cons, h]
    · rw [map_cons, map_cons, ih]

theorem forall_updateFirst {P : α → Prop} (hl : ∀ a ∈ l, P a) (hf : ∀ a, p a = true → P a → P (f a)) :
    ∀ a ∈ updateFirst p f l, P a := by
  induction l with
  | nil => exact hl
  | cons a l ih =>
    rw [forall_mem_cons] at hl
    unfold updateFirst
    split_ifs with hp
    · exact List.forall_mem_cons.2 ⟨hf a hp hl.1, hl.2⟩
    · exact List.forall_mem_cons.2 ⟨hl.1, ih hl.2⟩

theorem pairwise_updateFirst {R : α → α → Prop} (hl : l.Pairwise R)
    (hlater : ∀ a b, R a b → p a = false → p b = true → R a (f b))
    (hearlier : ∀ a b, R a b → p a = true → R (f a) b) : (updateFirst p f l).Pairwise R := by
  induction l with
  | nil => exact hl
  | cons a l ih =>
    rw [pairwise_cons] at hl
    unfold updateFirst
    split_ifs with hp
    · exact List.pairwise_cons.2 ⟨fun b hb => hearlier a b (hl.1 b hb) hp, hl.2⟩
    · refine List.pairwise_cons.2 ⟨?_, ih hl.2⟩
      exact forall_updateFirst hl.1 fun b hb hab => hlater a b hab (by simpa using hp) hb

theorem filter_updateFirst (hf : ∀ a, q (f a) = false) :
    (updateFirst (fun a => q a && p a) f l).filter q = (l.filter q).eraseP p := by
  induction l with
  | nil => rfl
  | cons a l ih =>
    unfold updateFirst
    rcases hq : q a with _ | _
    · rw [if_neg (by simp), filter_cons_of_neg (by simp [hq]), filter_cons_of_neg (by simp [hq]), ih]
    · rcases hp : p a with _ | _
      · rw [if_neg (by simp), filter_cons_of_pos hq, filter_cons_of_pos hq, eraseP_cons_of_neg (by simp [hp]), ih]
      · rw [if_pos (by simp), filter_cons_of_neg (by simp [hf]), filter_cons_of_pos hq, eraseP_cons_of_pos hp]

theorem filter_updateFirst_self (hf : ∀ a, q (f a) = false) : (updateFirst q f l).filter q = (l.filter q).tail := by
  have h := filter_updateFirst (p := fun _ => true) (l := l) hf
  simp only [Bool.and_true] at h
  rw [h]
  cases l.filter q <;> rfl

theorem filter_updateFirst_of_not (hf : ∀ a, q (f a) = false) (hp : ∀ a, p a = true → q a = false) :
    (updateFirst p f l).filter q = l.filter q := by
  induction l with
  | nil => rfl
  | cons a l ih =>
    unfold updateFirst
    split_ifs with hpa
    · rw [filter_cons_of_neg (by simp [hf]), filter_cons_of_neg (by simp [hp a hpa])]
    · rw [filter_cons, filter_cons, ih]

/-- An entry without a property that no later entry has gains it, and goes to the end of the list. -/
theorem filter_updateFirst_append {a : α} (ha : l.find? p = some a) (hf : ∀ a, q (f a) = true)
    (hp : ∀ a, p a = true → q a = false) (hl : l.Pairwise fun a b => q b = true → p a = false) :
    (updateFirst p f l).filter q = l.filter q ++ [f a] := by
  induction l with
  | nil => cases ha
  | cons b l ih =>
    rw [pairwise_cons] at hl
    unfold updateFirst
    rcases hpb : p b with _ | _
    · rw [List.find?_cons_of_neg (by simp [hpb])] at ha
      rw [if_neg Bool.false_ne_true]
      rcases hqb : q b with _ | _
      · rw [filter_cons_of_neg (by simp [hqb]), filter_cons_of_neg (by simp [hqb]), ih ha hl.2]
      · rw [filter_cons_of_pos hqb, filter_cons_of_pos hqb, ih ha hl.2, cons_append]
    · rw [List.find?_cons_of_pos hpb] at ha
      obtain rfl := Option.some.inj ha
      -- Nothing after the entry has the property.
      have hnone : l.filter q = [] := by
        rw [filter_eq_nil_iff]
        intro c hc hqc
        rw [hl.1 c hc hqc] at hpb
        cases hpb
      rw [if_pos rfl, filter_cons_of_pos (hf b), filter_cons_of_neg (by simp [hp b hpb]), hnone, nil_append]

theorem countP_updateFirst {a : α} (ha : l.find? p = some a) (hf : ∀ a, q (f a) = true)
    (hp : ∀ a, p a = true → q a = false) : (updateFirst p f l).countP q = l.countP q + 1 := by
  induction l with
  | nil => cases ha
  | cons b l ih =>
    unfold updateFirst
    rcases hpb : p b with _ | _
    · rw [List.find?_cons_of_neg (by simp [hpb])] at ha
      rw [if_neg Bool.false_ne_true, countP_cons, countP_cons, ih ha]
      omega
    · rw [if_pos rfl, countP_cons, countP_cons, if_pos (hf b), if_neg (by simp [hp b hpb])]

end Ledger
