import Glass2Glass.Lib.Merge
import Mathlib.Data.List.Sort

/-!
# The stable merge of sorted queues

All entries of some queues in the order of their keys; entries with one key in the order of the queues, and those
of one queue in their order. Taking the entry with the least key among the first entries of the queues, on ties the
one of the first queue, takes the first entry of the merge.
-/

namespace StableMerge

open List

variable {α κ : Type} [LinearOrder κ]

/-- The entries of queues that are numbered from `k` on, queue after queue. -/
def tagged : Nat → List (List α) → List (Nat × α)
  | _, [] => []
  | k, q :: queues => q.map (k, ·) ++ tagged (k + 1) queues

/-- All entries by their keys, those with one key in the order of the queues. -/
def stableMerge (key : α → κ) (queues : List (List α)) : List (Nat × α) :=
  (tagged 0 queues).insertionSort fun a b => key a.2 ≤ key b.2

theorem tagged_split {queues : List (List α)} {i : Nat} {q : List α} (h : queues[i]? = some q) (k : Nat) :
    tagged k queues = tagged k (queues.take i) ++ (q.map (k + i, ·) ++ tagged (k + i + 1) (queues.drop (i + 1))) := by
  induction queues generalizing i k with
  | nil => exact absurd h nofun
  | cons first queues ih =>
    cases i with
    | zero =>
      obtain rfl : first = q := Option.some.inj h
      rfl
    | succ i =>
      rw [tagged, ih h (k + 1), take_succ_cons, tagged, append_assoc, drop_succ_cons, Nat.add_right_comm k 1 i]
      rfl

theorem mem_tagged {queues : List (List α)} {k : Nat} {entry : Nat × α} (h : entry ∈ tagged k queues) :
    k ≤ entry.1 ∧ ∃ q, queues[entry.1 - k]? = some q ∧ entry.2 ∈ q := by
  induction queues generalizing k with
  | nil => exact absurd h nofun
  | cons q queues ih =>
    rcases List.mem_append.1 h with h | h
    · obtain ⟨a, ha, rfl⟩ := List.mem_map.1 h
      exact ⟨Nat.le_refl k, q, by rw [Nat.sub_self]; rfl, ha⟩
    · obtain ⟨hle, q', hq', hmem⟩ := ih h
      refine ⟨Nat.le_of_succ_le hle, q', ?_, hmem⟩
      have hsucc : entry.1 - k = entry.1 - (k + 1) + 1 := by omega
      rw [hsucc]
      exact hq'

section Sorting

variable {β : Type} {r : β → β → Prop} [DecidableRel r]

/-- An entry that comes before all others and has none of them before it in the order is sorted to the front. -/
theorem insertionSort_front {a : β} {front rear : List β} (hfront : ∀ b ∈ front, ¬r b a)
    (hrear : ∀ b ∈ rear, r a b) : (front ++ a :: rear).insertionSort r = a :: (front ++ rear).insertionSort r := by
  induction front with
  | nil =>
    exact insertionSort_cons_of_forall_rel r hrear
  | cons b front ih =>
    rw [cons_append, insertionSort_cons, ih fun c hc => hfront c (mem_cons_of_mem b hc),
      orderedInsert_cons, if_neg (hfront b mem_cons_self)]
    rfl

end Sorting

variable {key : α → κ} {queues : List (List α)} {i : Nat} {a : α} {rest : List α}

/-- The first entry of a queue is the first of the merge, when no earlier queue has one with as small a key and no
queue has one with a smaller key. -/
theorem stableMerge_pop (h : queues[i]? = some (a :: rest))
    (hearlier : ∀ (j : Nat) (q : List α), j < i → queues[j]? = some q → ∀ b ∈ q, key a < key b)
    (hleast : ∀ (j : Nat) (q : List α), queues[j]? = some q → ∀ b ∈ q, key a ≤ key b) :
    stableMerge key queues = (i, a) :: stableMerge key (queues.set i rest) := by
  have hlt : i < queues.length := (List.getElem?_eq_some_iff.1 h).1
  have hset : tagged 0 (queues.set i rest) =
      tagged 0 (queues.take i) ++ (rest.map (i, ·) ++ tagged (i + 1) (queues.drop (i + 1))) := by
    rw [tagged_split (List.getElem?_set_self hlt) 0, take_set_of_le (Nat.le_refl i),
      drop_set_of_lt (Nat.lt_succ_self i), Nat.zero_add]
  have hsplit := tagged_split h 0
  rw [Nat.zero_add, map_cons, cons_append] at hsplit
  unfold stableMerge
  rw [hsplit, hset]
  refine insertionSort_front (fun b hb => not_le.2 ?_) fun b hb => ?_
  · obtain ⟨-, q, hq, hmem⟩ := mem_tagged hb
    rw [Nat.sub_zero] at hq
    have hj : b.1 < i := by
      have hlength := (List.getElem?_eq_some_iff.1 hq).1
      rw [length_take] at hlength
      omega
    rw [List.getElem?_take_of_lt hj] at hq
    exact hearlier b.1 q hj hq b.2 hmem
  · rcases List.mem_append.1 hb with hb | hb
    · obtain ⟨c, hc, rfl⟩ := List.mem_map.1 hb
      exact hleast i _ h c (mem_cons_of_mem a hc)
    · obtain ⟨hle, q, hq, hmem⟩ := mem_tagged hb
      rw [List.getElem?_drop, Nat.add_sub_cancel' hle] at hq
      exact hleast b.1 q hq b.2 hmem

theorem stableMerge_nil (h : ∀ q ∈ queues, q = []) : stableMerge key queues = [] := by
  have htagged : ∀ k, tagged k queues = [] := by
    intro k
    induction queues generalizing k with
    | nil => rfl
    | cons q queues ih =>
      rw [tagged, h q mem_cons_self, ih fun q' hq' => h q' (mem_cons_of_mem q hq')]
      rfl
  unfold stableMerge
  rw [htagged]
  rfl

end StableMerge
