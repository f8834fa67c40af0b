import Mathlib.Data.List.Forall2

/-!
# Depth-first search with checks on the way

A search that fills slots in order, tries the candidates of a slot in order, checks every prefix it
builds and turns back at the first check that fails. Whatever the checks, the search returns the first
choice, in the lexicographic order of the candidate lists, all of whose prefixes pass
(`search_eq_find`). When the checks on the way add up to a test of the whole choice, it returns the
first choice that passes the test.
-/

namespace Search

open List

variable {α : Type} {domains : List (List α)}

/-- All choices of one candidate per slot, the first slot varying slowest. -/
def choices : List (List α) → List (List α)
  | [] => [[]]
  | candidates :: domains => candidates.flatMap fun a => (choices domains).map (a :: ·)

/-- Fill the remaining slots after the prefix `acc`, checking every longer prefix. -/
def search (check : List α → Bool) : List (List α) → List α → Option (List α)
  | [], acc => some acc
  | candidates :: domains, acc => candidates.findSome? fun a =>
    if check (acc ++ [a]) then search check domains (acc ++ [a]) else none

/-- Whether every prefix of `acc ++ choice` that is longer than `acc` passes. -/
def prefixesPass (check : List α → Bool) : List α → List α → Bool
  | _, [] => true
  | acc, a :: choice => check (acc ++ [a]) && prefixesPass check (acc ++ [a]) choice

variable {choice : List α}

theorem mem_choices : choice ∈ choices domains ↔ List.Forall₂ (fun a candidates => a ∈ candidates) choice domains := by
  induction domains generalizing choice with
  | nil => simp [choices]
  | cons candidates domains ih =>
    simp only [choices, mem_flatMap, List.mem_map]
    constructor
    · rintro ⟨a, ha, rest, hrest, rfl⟩
      exact .cons ha (ih.1 hrest)
    · rintro (_ | ⟨ha, hrest⟩)
      exact ⟨_, ha, _, ih.2 hrest, rfl⟩

theorem length_of_mem_choices (h : choice ∈ choices domains) : choice.length = domains.length :=
  (mem_choices.1 h).length_eq

theorem getElem_mem_of_mem_choices
    (h : choice ∈ choices domains) {i : Nat} {a : α} {candidates : List α} (ha : choice[i]? = some a)
    (hd : domains[i]? = some candidates) : a ∈ candidates := by
  obtain ⟨hi, rfl⟩ := List.getElem?_eq_some_iff.1 ha
  obtain ⟨hi', rfl⟩ := List.getElem?_eq_some_iff.1 hd
  exact (List.forall₂_iff_get.1 (mem_choices.1 h)).2 i hi hi'

theorem mem_choices_of_getElem (hlen : choice.length = domains.length)
    (h : ∀ (i : Nat) (a : α) (candidates : List α), choice[i]? = some a →
      domains[i]? = some candidates → a ∈ candidates) : choice ∈ choices domains := by
  refine mem_choices.2 (List.forall₂_iff_get.2 ⟨hlen, fun i hi hi' => ?_⟩)
  exact h i _ _ (List.getElem?_eq_getElem hi) (List.getElem?_eq_getElem hi')

/-- The search returns the first choice all of whose prefixes pass. -/
theorem search_eq_find (check : List α → Bool) (domains : List (List α)) (acc : List α) : search check domains acc =
      ((choices domains).find? (prefixesPass check acc)).map (acc ++ ·) := by
  induction domains generalizing acc with
  | nil => simp [search, choices, prefixesPass]
  | cons candidates domains ih =>
    rw [search, choices, List.find?_flatMap, map_findSome?]
    congr 1
    funext a
    rw [Function.comp_apply, List.find?_map, Option.map_map]
    by_cases ha : check (acc ++ [a]) = true
    · have hpass : (prefixesPass check acc ∘ fun x => a :: x) = prefixesPass check (acc ++ [a]) := by
        funext choice
        simp [prefixesPass, ha]
      rw [if_pos ha, ih, hpass]
      congr 1
      funext choice
      simp
    · have hfail : (choices domains).find? (prefixesPass check acc ∘ fun x => a :: x) = none := by
        rw [List.find?_eq_none]
        intro choice _
        simp [prefixesPass, ha]
      rw [if_neg ha, hfail, Option.map_none]

theorem prefixesPass_iff {check : List α → Bool} {acc : List α} : prefixesPass check acc choice = true ↔
      ∀ n < choice.length, check (acc ++ choice.take (n + 1)) = true := by
  induction choice generalizing acc with
  | nil => simp [prefixesPass]
  | cons a choice ih =>
    rw [prefixesPass, Bool.and_eq_true, ih]
    constructor
    · rintro ⟨ha, hrest⟩ n hn
      cases n with
      | zero => simpa using ha
      | succ n => simpa using hrest n (by simpa using hn)
    · intro h
      refine ⟨by simpa using h 0 (by simp), fun n hn => ?_⟩
      simpa using h (n + 1) (by simpa using hn)

variable {l : List α} {test : α → Bool}

theorem find_congr {test' : α → Bool} (h : ∀ a ∈ l, test a = test' a) : l.find? test = l.find? test' := by
  induction l with
  | nil => rfl
  | cons a l ih =>
    rw [List.find?_cons, List.find?_cons, h a mem_cons_self, ih fun b hb => h b (mem_cons_of_mem a hb)]

theorem all_congr {test' : α → Bool} (h : ∀ a ∈ l, test a = test' a) : l.all test = l.all test' := by
  rw [Bool.eq_iff_iff, all_eq_true, all_eq_true]
  exact forall₂_congr fun a ha => by rw [h a ha]

/-- When the checks on the prefixes of a full choice add up to a test, the search returns the first
choice that passes the test. -/
theorem search_eq_find_of_iff {check test : List α → Bool} (h : ∀ choice, choice.length = domains.length →
      ((∀ n < choice.length, check (choice.take (n + 1)) = true) ↔ test choice = true)) :
    search check domains [] = (choices domains).find? test := by
  rw [search_eq_find]
  have hpass : ∀ choice ∈ choices domains, prefixesPass check [] choice = test choice := by
    intro choice hmem
    rw [Bool.eq_iff_iff, prefixesPass_iff]
    simpa using h choice (length_of_mem_choices hmem)
  have hmap : ((fun x : List α => [] ++ x) : List α → List α) = id := by
    funext x
    simp
  rw [hmap, Option.map_id, id]
  exact find_congr hpass

/-- The choice that takes the candidates at the given positions. -/
def pick : List (List α) → List Nat → Option (List α)
  | [], [] => some []
  | candidates :: domains, i :: positions => do
    let a ← candidates[i]?
    let choice ← pick domains positions
    return a :: choice
  | _, _ => none

theorem pick_cons_eq_some {candidates : List α} {positions : List Nat} :
    pick (candidates :: domains) positions = some choice ↔
      ∃ i rest a choice', positions = i :: rest ∧ choice = a :: choice' ∧ candidates[i]? = some a ∧
        pick domains rest = some choice' := by
  cases positions with
  | nil => simp [pick]
  | cons i rest =>
    simp only [pick, Option.bind_eq_bind, Option.bind_eq_some_iff, Option.pure_def, Option.some.injEq, List.cons.injEq]
    constructor
    · rintro ⟨a, ha, choice', hchoice', rfl⟩
      exact ⟨i, rest, a, choice', ⟨rfl, rfl⟩, rfl, ha, hchoice'⟩
    · rintro ⟨_, _, a, choice', ⟨rfl, rfl⟩, rfl, ha, hchoice'⟩
      exact ⟨a, ha, choice', hchoice', rfl⟩

theorem mem_choices_of_pick {positions : List Nat}
    (h : pick domains positions = some choice) : choice ∈ choices domains := by
  induction domains generalizing positions choice with
  | nil =>
    cases positions with
    | nil =>
      obtain rfl := Option.some.inj h
      exact List.mem_singleton.2 rfl
    | cons i rest => cases h
  | cons candidates domains ih =>
    obtain ⟨i, rest, a, choice', rfl, rfl, ha, hrest⟩ := pick_cons_eq_some.1 h
    exact List.mem_flatMap.2 ⟨a, mem_of_getElem? ha, List.mem_map.2 ⟨choice', ih hrest, rfl⟩⟩

/-- No choice that passes a test has positions lexicographically before those of the first that does. -/
theorem exists_pick_of_find {test : List α → Bool} (h : (choices domains).find? test = some choice) :
    ∃ positions, pick domains positions = some choice ∧
      ∀ positions' choice', pick domains positions' = some choice' → test choice' = true →
        ¬List.Lex (· < ·) positions' positions := by
  induction domains generalizing test choice with
  | nil =>
    have hmem := List.mem_of_find?_eq_some h
    obtain rfl := List.mem_singleton.1 hmem
    exact ⟨[], rfl, fun _ _ _ _ => not_lex_nil⟩
  | cons candidates domains ih =>
    rw [choices, List.find?_flatMap] at h
    obtain ⟨before, a, behind, rfl, ha, hbefore⟩ := List.findSome?_eq_some_iff.1 h
    rw [List.find?_map, Option.map_eq_some_iff] at ha
    obtain ⟨rest, hrest, rfl⟩ := ha
    obtain ⟨positions, hpick, hleast⟩ := ih hrest
    refine ⟨before.length :: positions, pick_cons_eq_some.2 ⟨_, _, a, rest, rfl, rfl, by simp, hpick⟩, ?_⟩
    intro positions' choice' hpick' htest hlex
    obtain ⟨i, rest', b, choice', rfl, rfl, hb, hrest'⟩ := pick_cons_eq_some.1 hpick'
    cases hlex with
    | rel hlt =>
      -- No choice that starts with an earlier candidate passes.
      rw [List.getElem?_append_left hlt] at hb
      have hnone := hbefore b (mem_of_getElem? hb)
      rw [List.find?_eq_none] at hnone
      exact hnone _ (List.mem_map.2 ⟨choice', mem_choices_of_pick hrest', rfl⟩) htest
    | cons hlex =>
      -- The same candidate: the rest decides.
      obtain rfl : a = b := by simpa using hb
      exact hleast rest' choice' hrest' htest hlex

end Search
