import Mathlib.Data.List.Lex
import Mathlib.Data.Set.Basic

/-!
# Least-cost paths through layers

A path picks one candidate from each of several layers; a step from one layer to the next is forbidden
or has a cost, and the two ends have costs of their own. Dynamic programming keeps, for every candidate
of the current layer, the least entry among the prefixes that end in it, where entries compare by cost
and then by the order of their index paths. Costs are added up to a cap. `leastPath_spec` says that the
programme finds an allowed path exactly when there is one, and that the path is the least one as long
as no allowed path costs more than the cap.
-/

namespace Layered

open List Option

variable {α : Type}

/-- A cost together with the path of candidate indices that has it. -/
abbrev Entry := Nat × List Nat

/-- Cheaper, or as cheap with a path that comes no later. -/
def noLater (x y : Entry) : Prop := x.1 < y.1 ∨ x.1 = y.1 ∧ x.2 ≤ y.2

theorem noLater_refl (x : Entry) : noLater x x := Or.inr ⟨rfl, le_refl _⟩

theorem noLater_trans {x y z : Entry} (hxy : noLater x y) (hyz : noLater y z) : noLater x z := by
  rcases hxy with hxy | ⟨hxy, hxy'⟩ <;> rcases hyz with hyz | ⟨hyz, hyz'⟩
  · exact Or.inl (hxy.trans hyz)
  · exact Or.inl (hyz ▸ hxy)
  · exact Or.inl (hxy ▸ hyz)
  · exact Or.inr ⟨hxy.trans hyz, hxy'.trans hyz'⟩

theorem append_le_append {p q s : List Nat} (hlen : p.length = q.length) (h : p ≤ q) : p ++ s ≤ q ++ s := by
  induction p generalizing q with
  | nil =>
    obtain rfl := List.length_eq_zero_iff.1 hlen.symm
    exact le_refl _
  | cons i p ih =>
    cases q with
    | nil => simp at hlen
    | cons j q =>
      rcases h.lt_or_eq with hlt | heq
      · rcases hlt with _ | hij | hpq
        · exact le_of_lt (List.Lex.rel hij)
        · exact cons_le_cons i (ih (by simpa using hlen) (le_of_lt hpq))
      · rw [(List.cons.inj heq).1, (List.cons.inj heq).2]

/-! ## Keeping the better entry -/

/-- Whether an entry beats the incumbent: cheaper, or as cheap with an earlier path. -/
def beats (current : Option Entry) (x : Entry) : Bool :=
  match current with
  | none => true
  | some y => decide (x.1 < y.1 ∨ x.1 = y.1 ∧ x.2 < y.2)

def keepBetter (current : Option Entry) (x : Entry) : Option Entry :=
  if beats current x then some x else current

def least (l : List Entry) : Option Entry := l.foldl keepBetter none

theorem noLater_of_not_beats {x y : Entry} (h : ¬ beats (some y) x = true) : noLater y x := by
  simp only [beats, decide_eq_true_eq, not_or, not_and] at h
  rcases Nat.lt_or_ge y.1 x.1 with hlt | hge
  · exact Or.inl hlt
  · have heq : x.1 = y.1 := by omega
    exact Or.inr ⟨heq.symm, not_lt.1 (h.2 heq)⟩

theorem noLater_of_beats {x y : Entry} (h : beats (some y) x = true) : noLater x y := by
  simp only [beats, decide_eq_true_eq] at h
  rcases h with hlt | ⟨heq, hlt⟩
  · exact Or.inl hlt
  · exact Or.inr ⟨heq, le_of_lt hlt⟩

/-- Going through a list ends with an entry of it, or the incumbent, that comes no later than all. -/
theorem foldl_keepBetter (l : List Entry) (current : Option Entry) :
    (l.foldl keepBetter current = none → current = none ∧ l = []) ∧ ∀ x, l.foldl keepBetter current = some x →
      (current = some x ∨ x ∈ l) ∧ (∀ y, current = some y → noLater x y) ∧ ∀ y ∈ l, noLater x y := by
  induction l generalizing current with
  | nil =>
    refine ⟨fun h => ⟨h, rfl⟩, fun x h => ⟨Or.inl h, fun y hy => ?_, by simp⟩⟩
    obtain rfl : x = y := Option.some.inj (h.symm.trans hy)
    exact noLater_refl x
  | cons z l ih =>
    obtain ⟨hnone, hsome⟩ := ih (keepBetter current z)
    refine ⟨fun h => ?_, fun x h => ?_⟩
    · have hcur := (hnone h).1
      unfold keepBetter at hcur
      split_ifs at hcur with hb
      rw [hcur] at hb
      exact absurd rfl hb
    · obtain ⟨hmem, hcur, hl⟩ := hsome x h
      unfold keepBetter at hmem hcur
      by_cases hb : beats current z = true
      · simp only [hb, if_true, Option.some.injEq, forall_eq'] at hmem hcur
        refine ⟨Or.inr ?_, fun y hy => ?_, fun y hy => ?_⟩
        · rcases hmem with rfl | hmem
          · exact mem_cons_self
          · exact mem_cons_of_mem z hmem
        · exact noLater_trans hcur (noLater_of_beats (hy ▸ hb))
        · rcases List.mem_cons.1 hy with rfl | hy
          · exact hcur
          · exact hl y hy
      · simp only [hb, Bool.false_eq_true, if_false] at hmem hcur
        refine ⟨hmem.imp_right (mem_cons_of_mem z), hcur, fun y hy => ?_⟩
        rcases List.mem_cons.1 hy with rfl | hy
        · rcases hc : current with _ | w
          · rw [hc] at hb
            exact absurd rfl hb
          · exact noLater_trans (hcur w hc) (noLater_of_not_beats (hc ▸ hb))
        · exact hl y hy

/-! ## Extending prefixes -/

/-- A prefix extended by a tail, its cost cut off at the cap; nothing if either is missing. -/
def extend (cap : Nat) (entry tail : Option Entry) : Option Entry :=
  match entry, tail with
  | some x, some s => some (min (x.1 + s.1) cap, x.2 ++ s.2)
  | _, _ => none

/-- The least of the extended prefixes. -/
def relax (cap : Nat) (l : List (Option Entry × Option Entry)) : Option Entry :=
  least (l.filterMap fun p => extend cap p.1 p.2)

/-- The kept entry stands for a set of entries: nothing for the empty set, else one of the set up to
the cap, and a least one when the set stays below the cap. -/
structure Represents (cap : Nat) (kept : Option Entry) (all : Set Entry) : Prop where
  /-- Nothing is kept only of the empty set. -/
  none : kept = none → ∀ x, x ∉ all
  some : ∀ d path, kept = some (d, path) → ∃ c, (c, path) ∈ all ∧ (c ≤ cap → d = c) ∧
    ((∀ x ∈ all, x.1 ≤ cap) → ∀ x ∈ all, noLater (c, path) x)

/-- The least of the extended prefixes stands for all extended prefixes. -/
theorem represents_relax {cap n : Nat} {l : List (Option Entry × Option Entry)}
    {all : Nat → Set Entry}
    (hall : ∀ (a : Nat) p, l[a]? = some p → Represents cap p.1 (all a))
    (hlen : ∀ a, ∀ x ∈ all a, x.2.length = n) :
    Represents cap (relax cap l) {x | ∃ (a : Nat) (p : Option Entry × Option Entry) (s t : Entry),
      l[a]? = some p ∧ p.2 = some s ∧ t ∈ all a ∧ x = (t.1 + s.1, t.2 ++ s.2)} := by
  obtain ⟨hnone, hsome⟩ := foldl_keepBetter (l.filterMap fun p => extend cap p.1 p.2) none
  -- A prefix that is extended is one of the entries compared.
  have hcompared : ∀ (a : Nat) (p : Option Entry × Option Entry) (s : Entry), l[a]? = some p →
      p.2 = some s → ∀ t ∈ all a, ∃ d path, p.1 = some (d, path) ∧
        (min (d + s.1) cap, path ++ s.2) ∈ l.filterMap fun p => extend cap p.1 p.2 := by
    intro a p s hp hs t ht
    rcases hkept : p.1 with _ | ⟨d, path⟩
    · exact absurd ht ((hall a p hp).none hkept t)
    · refine ⟨d, path, rfl, List.mem_filterMap.2 ⟨p, mem_of_getElem? hp, ?_⟩⟩
      rw [hkept, hs]
      rfl
  constructor
  · rintro hkept x ⟨a, p, s, t, hp, hs, ht, -⟩
    obtain ⟨d, path, -, hmem⟩ := hcompared a p s hp hs t ht
    rw [(hnone hkept).2] at hmem
    exact absurd hmem not_mem_nil
  · intro d path hkept
    obtain ⟨hmem, -, hleast⟩ := hsome (d, path) hkept
    obtain ⟨p, hpl, hext⟩ := List.mem_filterMap.1 (hmem.resolve_left (by simp))
    obtain ⟨a, hp⟩ := mem_iff_getElem?.1 hpl
    rcases hkept₁ : p.1 with _ | ⟨d₁, path₁⟩
    · simp [extend, hkept₁] at hext
    rcases hs : p.2 with _ | s
    · simp [extend, hs] at hext
    obtain ⟨c₁, hmem₁, hcap₁, hleast₁⟩ := (hall a p hp).some d₁ path₁ hkept₁
    simp only [extend, hkept₁, hs, Option.some.injEq, Prod.mk.injEq] at hext
    obtain ⟨hd, rfl⟩ := hext
    refine ⟨c₁ + s.1, ⟨a, p, s, (c₁, path₁), hp, hs, hmem₁, rfl⟩, fun hc => ?_, fun hbound => ?_⟩
    · have := hcap₁ (by omega)
      omega
    · rintro x ⟨a', p', s', t, hp', hs', ht, rfl⟩
      obtain ⟨d₂, path₂, hkept₂, hmem₂⟩ := hcompared a' p' s' hp' hs' t ht
      obtain ⟨c₂, hmem₂', hcap₂, hleast₂⟩ := (hall a' p' hp').some d₂ path₂ hkept₂
      -- Below the cap the kept costs are the true ones.
      have hbound₂ : ∀ x ∈ all a', x.1 ≤ cap := fun x hx =>
        (Nat.le_add_right _ _).trans (hbound _ ⟨a', p', s', x, hp', hs', hx, rfl⟩)
      have hc₁ := hbound _ ⟨a, p, s, (c₁, path₁), hp, hs, hmem₁, rfl⟩
      have hc₂ := hbound _ ⟨a', p', s', (c₂, path₂), hp', hs', hmem₂', rfl⟩
      have hd₁ := hcap₁ (by omega)
      have hd₂ := hcap₂ (by omega)
      have hfirst := hleast _ hmem₂
      rw [← hd, hd₁, hd₂, Nat.min_eq_left hc₁, Nat.min_eq_left hc₂] at hfirst
      refine noLater_trans hfirst ?_
      rcases hleast₂ hbound₂ t ht with hlt | ⟨heq, hle⟩
      · exact Or.inl (Nat.add_lt_add_right hlt _)
      · exact Or.inr ⟨congrArg (· + s'.1) heq, append_le_append ((hlen a' _ hmem₂').trans (hlen a' t ht).symm) hle⟩

/-! ## The programme -/

/-- A layer: what a step into it costs, if allowed, and its candidates. -/
abbrev Layer (α : Type) := (α → α → Option Nat) × List α

/-- The best prefix that ends in candidate `b`, with value `output`, of the next layer. -/
def relaxTo (cap : Nat) (step : α → α → Option Nat) (inputs : List α) (best : List (Option Entry))
    (output : α) (b : Nat) : Option Entry :=
  relax cap ((inputs.zip best).map fun p => (p.2, (step p.1 output).map fun c => (c, [b])))

/-- Carry the best prefixes through the remaining layers and finish. -/
def carry (cap : Nat) (finish : α → Nat) : List (Layer α) → List α → List (Option Entry) → Option Entry
  | [], inputs, best => relax cap ((inputs.zip best).map fun p => (p.2, some (finish p.1, [])))
  | layer :: layers, inputs, best =>
    carry cap finish layers layer.2 (layer.2.zipIdx.map fun p => relaxTo cap layer.1 inputs best p.1 p.2)

/-- The least path from the first layer to the end. -/
def leastPath (cap : Nat) (start finish : α → Nat) (domain : List α) (layers : List (Layer α)) : Option Entry :=
  carry cap finish layers domain (domain.zipIdx.map fun p => some (start p.1, [p.2]))

/-- The tails of paths from a candidate through the remaining layers, with their costs. -/
def tails (finish : α → Nat) : List (Layer α) → α → Set Entry
  | [], a => {(finish a, [])}
  | layer :: layers, a => {x | ∃ (b : Nat) (output : α) (c : Nat) (s : Entry),
      layer.2[b]? = some output ∧ layer.1 a output = some c ∧ s ∈ tails finish layers output ∧ x = (c + s.1, b :: s.2)}

theorem getElem?_zipIdx_map {β : Type} (f : α × Nat → β) (l : List α) (b : Nat) :
    (l.zipIdx.map f)[b]? = (l[b]?).map fun a => f (a, b) := by
  simp [Function.comp_def]

theorem Represents.congr {cap : Nat} {kept : Option Entry} {all all' : Set Entry}
    (h : Represents cap kept all) (heq : ∀ x, x ∈ all ↔ x ∈ all') : Represents cap kept all' :=
  Set.ext heq ▸ h

variable {cap n : Nat} {inputs : List α} {best : List (Option Entry)} {all : Nat → Set Entry}

/-- Relaxing the kept prefixes of a layer, each by the tail its candidate has. -/
theorem represents_relax_zip (hlength : best.length = inputs.length)
    (hall : ∀ (a : Nat) kept, best[a]? = some kept → Represents cap kept (all a))
    (hlen : ∀ a, ∀ x ∈ all a, x.2.length = n) (tail : α → Option Entry) :
    Represents cap (relax cap ((inputs.zip best).map fun p => (p.2, tail p.1)))
      {x | ∃ (a : Nat) (input : α) (t s : Entry), inputs[a]? = some input ∧ t ∈ all a ∧
        tail input = some s ∧ x = (t.1 + s.1, t.2 ++ s.2)} := by
  have hread : ∀ (a : Nat) p, ((inputs.zip best).map fun p => (p.2, tail p.1))[a]? = some p ↔
      ∃ input kept, inputs[a]? = some input ∧ best[a]? = some kept ∧ p = (kept, tail input) := by
    intro a p
    rw [List.getElem?_map, map_eq_some_iff]
    constructor
    · rintro ⟨⟨input, kept⟩, hzip, rfl⟩
      exact ⟨input, kept, (List.getElem?_zip_eq_some.1 hzip).1, (List.getElem?_zip_eq_some.1 hzip).2,
        rfl⟩
    · rintro ⟨input, kept, hinput, hkept, rfl⟩
      exact ⟨(input, kept), List.getElem?_zip_eq_some.2 ⟨hinput, hkept⟩, rfl⟩
  refine (represents_relax (fun a p hp => ?_) hlen).congr fun x => ?_
  · obtain ⟨input, kept, -, hkept, rfl⟩ := (hread a p).1 hp
    exact hall a kept hkept
  · constructor
    · rintro ⟨a, p, s, t, hp, hs, ht, rfl⟩
      obtain ⟨input, kept, hinput, -, rfl⟩ := (hread a p).1 hp
      exact ⟨a, input, t, s, hinput, ht, hs, rfl⟩
    · rintro ⟨a, input, t, s, hinput, ht, hs, rfl⟩
      obtain ⟨hlt, -⟩ := List.getElem?_eq_some_iff.1 hinput
      have hkept : best[a]? = some best[a] := List.getElem?_eq_getElem (hlength ▸ hlt)
      exact ⟨a, _, s, t, (hread a _).2 ⟨input, _, hinput, hkept, rfl⟩, hs, ht, rfl⟩

/-- Carrying prefixes through the layers stands for all their extensions to the end. -/
theorem represents_carry (cap n : Nat) (finish : α → Nat) (layers : List (Layer α))
    (inputs : List α) (best : List (Option Entry)) (all : Nat → Set Entry)
    (hlength : best.length = inputs.length)
    (hall : ∀ (a : Nat) kept, best[a]? = some kept → Represents cap kept (all a))
    (hlen : ∀ a, ∀ x ∈ all a, x.2.length = n) :
    Represents cap (carry cap finish layers inputs best)
      {x | ∃ (a : Nat) (input : α) (t s : Entry), inputs[a]? = some input ∧ t ∈ all a ∧
        s ∈ tails finish layers input ∧ x = (t.1 + s.1, t.2 ++ s.2)} := by
  induction layers generalizing n inputs best all with
  | nil =>
    refine (represents_relax_zip hlength hall hlen fun input => some (finish input, [])).congr
      fun x => ?_
    constructor
    · rintro ⟨a, input, t, s, hinput, ht, hs, rfl⟩
      exact ⟨a, input, t, s, hinput, ht, (Option.some.inj hs).symm, rfl⟩
    · rintro ⟨a, input, t, s, hinput, ht, rfl, rfl⟩
      exact ⟨a, input, t, _, hinput, ht, rfl, rfl⟩
  | cons layer layers ih =>
    -- The prefixes that end in candidate `b` of the layer.
    have hnext := ih (n + 1) layer.2 (layer.2.zipIdx.map fun p => relaxTo cap layer.1 inputs best p.1 p.2)
      (fun b => {x | ∃ output, layer.2[b]? = some output ∧ ∃ (a : Nat) (input : α) (t s : Entry),
        inputs[a]? = some input ∧ t ∈ all a ∧
          ((layer.1 input output).map fun c => (c, [b])) = some s ∧ x = (t.1 + s.1, t.2 ++ s.2)})
      (by simp) ?_ ?_
    · refine hnext.congr fun x => ?_
      constructor
      · rintro ⟨b, output, t', s, hb, ⟨_, hb', a, input, t, s', ha, ht, hs', rfl⟩, hs, rfl⟩
        obtain rfl : output = _ := Option.some.inj (hb.symm.trans hb')
        obtain ⟨c, hc, rfl⟩ := Option.map_eq_some_iff.1 hs'
        exact ⟨a, input, t, (c + s.1, b :: s.2), ha, ht, ⟨b, output, c, s, hb, hc, hs, rfl⟩, by simp [Nat.add_assoc]⟩
      · rintro ⟨a, input, t, s', ha, ht, ⟨b, output, c, s, hb, hc, hs, rfl⟩, rfl⟩
        refine ⟨b, output, (t.1 + c, t.2 ++ [b]), s, hb, ⟨output, hb, a, input, t, (c, [b]), ha, ht, ?_,
          rfl⟩, hs, by simp [Nat.add_assoc]⟩
        rw [hc]
        rfl
    · intro b kept hkept
      rw [getElem?_zipIdx_map] at hkept
      obtain ⟨output, hb, rfl⟩ := Option.map_eq_some_iff.1 hkept
      refine (represents_relax_zip hlength hall hlen fun input =>
        (layer.1 input output).map fun c => (c, [b])).congr fun x => ?_
      constructor
      · exact fun hx => ⟨output, hb, hx⟩
      · rintro ⟨output', hb', hx⟩
        obtain rfl : output = output' := Option.some.inj (hb.symm.trans hb')
        exact hx
    · rintro b x ⟨output, -, a, input, t, s, -, ht, hs, rfl⟩
      obtain ⟨c, -, rfl⟩ := Option.map_eq_some_iff.1 hs
      simp [hlen a t ht]

/-! ## Paths and their values -/

/-- The candidates a path of indices picks, one per layer. -/
def picked : List (List α) → List Nat → Option (List α)
  | [], [] => some []
  | candidates :: domains, j :: path => do
    let a ← candidates[j]?
    let rest ← picked domains path
    return a :: rest
  | _, _ => none

/-- The cost of going on from a candidate through the given values, if every step is allowed. -/
def tailCost (finish : α → Nat) : List (α → α → Option Nat) → α → List α → Option Nat
  | [], a, [] => some (finish a)
  | step :: steps, a, b :: values => do
    let c ← step a b
    let rest ← tailCost finish steps b values
    return c + rest
  | _, _, _ => none

/-- The cost of a sequence of values, one per layer, if every step is allowed. -/
def totalCost (start finish : α → Nat) (steps : List (α → α → Option Nat)) : List α → Option Nat
  | [] => none
  | a :: values => (tailCost finish steps a values).map (start a + ·)

/-- The tails of paths are the index paths of allowed sequences of values. -/
theorem mem_tails {finish : α → Nat} {layers : List (Layer α)} {a : α} {x : Entry} :
    x ∈ tails finish layers a ↔ ∃ values, picked (layers.map Prod.snd) x.2 = some values ∧
      tailCost finish (layers.map Prod.fst) a values = some x.1 := by
  induction layers generalizing a x with
  | nil =>
    constructor
    · rintro rfl
      exact ⟨[], rfl, rfl⟩
    · rintro ⟨values, hpicked, hcost⟩
      obtain ⟨c, path⟩ := x
      cases path with
      | nil =>
        obtain rfl := Option.some.inj hpicked
        obtain rfl := Option.some.inj hcost
        rfl
      | cons j path => simp [picked] at hpicked
  | cons layer layers ih =>
    constructor
    · rintro ⟨b, output, c, s, hb, hc, hs, rfl⟩
      obtain ⟨values, hpicked, hcost⟩ := ih.1 hs
      exact ⟨output :: values, by simp [picked, hb, hpicked], by simp [tailCost, hc, hcost]⟩
    · rintro ⟨values, hpicked, hcost⟩
      obtain ⟨total, path⟩ := x
      cases path with
      | nil => simp [picked] at hpicked
      | cons b path =>
        simp only [map_cons, picked, bind_eq_bind, bind_eq_some_iff, Option.pure_def, Option.some.injEq] at hpicked
        obtain ⟨output, hb, rest, hrest, rfl⟩ := hpicked
        simp only [map_cons, tailCost, bind_eq_bind, bind_eq_some_iff, Option.pure_def, Option.some.injEq] at hcost
        obtain ⟨c, hc, r, hr, rfl⟩ := hcost
        exact ⟨b, output, c, (r, path), hb, hc, ih.2 ⟨rest, hrest, hr⟩, rfl⟩

/-- The programme finds an allowed path exactly when there is one. What it finds has the least cost
and, among those, the first path, as long as no allowed path costs more than the cap. -/
theorem leastPath_spec (cap : Nat) (start finish : α → Nat) (domain : List α) (layers : List (Layer α)) :
    Represents cap (leastPath cap start finish domain layers)
      {x | ∃ values, picked (domain :: layers.map Prod.snd) x.2 = some values ∧
        totalCost start finish (layers.map Prod.fst) values = some x.1} := by
  have hcarry := represents_carry cap 1 finish layers domain (domain.zipIdx.map fun p => some (start p.1, [p.2]))
    (fun j => {x | ∃ a, domain[j]? = some a ∧ x = (start a, [j])}) (by simp) ?_ ?_
  · refine hcarry.congr fun x => ?_
    constructor
    · rintro ⟨j, a, t, s, hj, ⟨a', hj', rfl⟩, hs, rfl⟩
      obtain rfl : a = a' := Option.some.inj (hj.symm.trans hj')
      obtain ⟨values, hpicked, hcost⟩ := mem_tails.1 hs
      exact ⟨a :: values, by simp [picked, hj, hpicked], by simp [totalCost, hcost]⟩
    · rintro ⟨values, hpicked, hcost⟩
      obtain ⟨total, path⟩ := x
      cases path with
      | nil => simp [picked] at hpicked
      | cons j path =>
        simp only [picked, bind_eq_bind, bind_eq_some_iff, Option.pure_def, Option.some.injEq] at hpicked
        obtain ⟨a, hj, rest, hrest, rfl⟩ := hpicked
        obtain ⟨r, hr, rfl⟩ := Option.map_eq_some_iff.1 hcost
        exact ⟨j, a, _, (r, path), hj, ⟨a, hj, rfl⟩, mem_tails.2 ⟨rest, hrest, hr⟩, rfl⟩
  · intro j kept hkept
    rw [getElem?_zipIdx_map] at hkept
    obtain ⟨a, hj, rfl⟩ := Option.map_eq_some_iff.1 hkept
    refine ⟨fun h => absurd h (by simp), fun d path h => ?_⟩
    obtain ⟨rfl, rfl⟩ := h
    refine ⟨start a, ⟨a, hj, rfl⟩, fun _ => rfl, fun _ => ?_⟩
    rintro x ⟨a', hj', rfl⟩
    obtain rfl : a = a' := Option.some.inj (hj.symm.trans hj')
    exact noLater_refl _
  · rintro j x ⟨a, -, rfl⟩
    rfl

end Layered
