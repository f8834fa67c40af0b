import Glass2Glass.Lib.Layered
import Glass2Glass.Lib.Search
import Glass2Glass.Solver.Solve

/-!
# The least-cost chain

`minCostChain` is the least-cost path through the candidates of a chain's links: it finds a choice that
every element between two links accepts whenever there is one, and the choice it finds has the least
total of declared costs and comes first among those, as long as no total reaches the cap of the 64-bit
sums (`chainConsistent_eq_false_of_none`, `of_minCostChain_eq_some`).
-/

namespace Glass2Glass

open Layered List
open ChainNode (constraint)

/-- The largest 64-bit word, where cost sums saturate. -/
def costCap : Nat := 2 ^ 64 - 1

/-- What an element between two links charges for a pair, if it accepts it. -/
def ChainNode.weight (n : ChainNode) (input output : Caps) : Option Nat :=
  if transformPairConsistent n.constraint input output then some (n.cost (some input) (some output))
  else none

/-- Whether each pair of neighbouring links satisfies the element between them. -/
def chainConsistent : List CapsConstraint → List Caps → Bool
  | c :: cs, a :: b :: values => transformPairConsistent c a b && chainConsistent cs (b :: values)
  | _, _ => true

/-- The costs of elements from one on, given the caps on its input link and on the links behind. -/
def costFrom : List ChainNode → Option Caps → List Caps → Nat
  | [], _, _ => 0
  | n :: nodes, input, values => n.cost input values.head? + costFrom nodes values.head? values.tail

/-- The total cost of a chain that carries the given caps on its links. -/
def declaredCost (nodes : List ChainNode) (values : List Caps) : Nat := costFrom nodes none values

theorem chainConsistent_iff (cs : List CapsConstraint) (values : List Caps) :
    chainConsistent cs values = true ↔ ∀ (i : Nat) (c : CapsConstraint) (a b : Caps),
      cs[i]? = some c → values[i]? = some a → values[i + 1]? = some b → transformPairConsistent c a b = true := by
  induction cs generalizing values with
  | nil => simp [chainConsistent]
  | cons c cs ih =>
    cases values with
    | nil => simp [chainConsistent]
    | cons a values =>
      cases values with
      | nil => simp [chainConsistent]
      | cons b values =>
        rw [chainConsistent, Bool.and_eq_true, ih]
        constructor
        · rintro ⟨hfirst, hrest⟩ i c' a' b' hc ha hb
          cases i with
          | zero =>
            simp only [List.getElem?_cons_zero, Option.some.injEq, Nat.zero_add, List.getElem?_cons_succ] at hc ha hb
            exact hc ▸ ha ▸ hb ▸ hfirst
          | succ i => exact hrest i c' a' b' (by simpa using hc) (by simpa using ha) (by simpa using hb)
        · intro h
          exact ⟨h 0 c a b rfl rfl rfl, fun i c' a' b' hc ha hb =>
            h (i + 1) c' a' b' (by simpa using hc) (by simpa using ha) (by simpa using hb)⟩

/-! ## The programme is the library's -/

theorem isBetter_eq (current : Option (Nat × List Nat)) (cost : Nat) (path : List Nat) :
    isBetter current cost path = beats current (cost, path) := by
  cases current <;> rfl

theorem bestPrefix_eq (middle : ChainNode) (inputs : List Caps)
    (best : List (Option (Nat × List Nat))) (output : Caps) (b : Nat) : bestPrefix middle inputs best output b =
      relaxTo costCap middle.weight inputs best output b := by
  rw [bestPrefix, relaxTo, relax, least, foldl_filterMap, foldl_map]
  congr 1
  funext current p
  obtain ⟨input, entry⟩ := p
  cases entry with
  | none => rfl
  | some entry =>
    obtain ⟨soFar, path⟩ := entry
    by_cases h : transformPairConsistent middle.constraint input output = true
    · simp only [ChainNode.weight, h, if_true, Option.map_some, Layered.extend, keepBetter, isBetter_eq,
        Bool.not_true, Bool.false_eq_true, if_false]
      rfl
    · simp [ChainNode.weight, h, Layered.extend]

theorem cheapest_eq (last : ChainNode) (inputs : List Caps) (best : List (Option (Nat × List Nat))) :
    cheapest last inputs best = relax costCap ((inputs.zip best).map fun p =>
      (p.2, some (last.cost (some p.1) none, []))) := by
  rw [cheapest, relax, least, foldl_filterMap, foldl_map]
  congr 1
  funext winner p
  obtain ⟨input, entry⟩ := p
  cases entry with
  | none => rfl
  | some entry =>
    obtain ⟨soFar, path⟩ := entry
    simp only [Layered.extend, keepBetter, isBetter_eq, append_nil]
    rfl

theorem cheapest_bestPrefixes (last : ChainNode) (links : List (ChainNode × List Caps))
    (inputs : List Caps) (best : List (Option (Nat × List Nat))) :
    cheapest last (bestPrefixes links inputs best).1 (bestPrefixes links inputs best).2 =
      carry costCap (fun caps => last.cost (some caps) none)
        (links.map fun link => (link.1.weight, link.2)) inputs best := by
  induction links generalizing inputs best with
  | nil => exact cheapest_eq last inputs best
  | cons link links ih =>
    obtain ⟨middle, outputs⟩ := link
    rw [bestPrefixes, ih, map_cons, carry]
    congr 1
    exact map_congr_left fun p _ => bestPrefix_eq middle inputs best p.1 p.2

/-- The programme over a chain given by its first element, the elements between its links, and its
last element. -/
theorem minCostChain_eq (first : ChainNode) (middles : List ChainNode) (last : ChainNode)
    (domain : List Caps) (others : List (List Caps)) (hlen : middles.length = others.length) :
    minCostChain (first :: (middles ++ [last])) (domain :: others) =
      if (first :: (middles ++ [last])).any fun n => n.preferences.isSome then
        (leastPath costCap (fun caps => first.cost none (some caps)) (fun caps => last.cost (some caps) none) domain
          ((middles.zip others).map fun link => (link.1.weight, link.2))).map Prod.snd
      else none := by
  have hzip : (middles ++ [last]).zip others = middles.zip others := by
    rw [← append_nil others, zip_append hlen]
    simp
  have hlast : (first :: (middles ++ [last])).getLast? = some last := by
    show ((first :: middles) ++ [last]).getLast? = some last
    exact List.getLast?_concat
  have hlength : ¬ (middles ++ [last]).length ≠ (domain :: others).length := by simp [hlen]
  rw [minCostChain, if_neg hlength]
  by_cases hany : ((first :: (middles ++ [last])).any fun n => n.preferences.isSome) = true
  · simp only [hany, Bool.not_true, Bool.false_eq_true, if_false, if_true, hlast, hzip, Option.bind_some]
    rw [leastPath, ← cheapest_bestPrefixes]
  · simp [hany]

/-! ## What it returns -/

/-- The cost of going on through a chain: allowed when every pair is consistent, and then the sum of
the elements' costs. -/
theorem tailCost_eq_some_iff (middles : List ChainNode) (last : ChainNode) (a : Caps) (values : List Caps) (c : Nat) :
    tailCost (fun caps => last.cost (some caps) none) (middles.map ChainNode.weight) a values = some c ↔
      values.length = middles.length ∧ chainConsistent (middles.map constraint) (a :: values) = true ∧
        c = costFrom (middles ++ [last]) (some a) values := by
  induction middles generalizing a values c with
  | nil =>
    cases values with
    | nil => simp [tailCost, chainConsistent, costFrom, eq_comm]
    | cons b values => simp [tailCost]
  | cons m middles ih =>
    cases values with
    | nil => simp [tailCost]
    | cons b values =>
      simp only [map_cons, tailCost, Option.bind_eq_bind, Option.bind_eq_some_iff,
        Option.pure_def, Option.some.injEq, ih, ChainNode.weight, Option.ite_none_right_eq_some,
        chainConsistent, Bool.and_eq_true, length_cons, cons_append, costFrom,
        List.head?_cons, tail_cons]
      constructor
      · rintro ⟨w, ⟨hw, rfl⟩, r, ⟨hlen, hcons, rfl⟩, rfl⟩
        exact ⟨by omega, ⟨hw, hcons⟩, rfl⟩
      · rintro ⟨hlen, ⟨hw, hcons⟩, rfl⟩
        exact ⟨_, ⟨hw, rfl⟩, _, ⟨by omega, hcons, rfl⟩, rfl⟩

theorem totalCost_eq_some_iff (first : ChainNode) (middles : List ChainNode) (last : ChainNode)
    (values : List Caps) (c : Nat) :
    totalCost (fun caps => first.cost none (some caps)) (fun caps => last.cost (some caps) none)
        (middles.map ChainNode.weight) values = some c ↔ values.length = middles.length + 1 ∧
        chainConsistent (middles.map constraint) values = true ∧
        c = declaredCost (first :: (middles ++ [last])) values := by
  cases values with
  | nil => simp [totalCost]
  | cons a values =>
    simp only [totalCost, Option.map_eq_some_iff, tailCost_eq_some_iff, declaredCost, costFrom,
      length_cons, List.head?_cons, tail_cons]
    constructor
    · rintro ⟨r, ⟨hlen, hcons, rfl⟩, rfl⟩
      exact ⟨by omega, hcons, rfl⟩
    · rintro ⟨hlen, hcons, rfl⟩
      exact ⟨_, ⟨by omega, hcons, rfl⟩, rfl⟩

variable {domains : List (List Caps)}

theorem mem_choices_of_picked {path : List Nat} {values : List Caps}
    (h : picked domains path = some values) : values ∈ Search.choices domains := by
  induction domains generalizing path values with
  | nil =>
    cases path with
    | nil =>
      obtain rfl := Option.some.inj h
      exact List.mem_singleton.2 rfl
    | cons j path => simp [picked] at h
  | cons candidates domains ih =>
    cases path with
    | nil => simp [picked] at h
    | cons j path =>
      simp only [picked, Option.bind_eq_bind, Option.bind_eq_some_iff, Option.pure_def, Option.some.injEq] at h
      obtain ⟨a, hj, rest, hrest, rfl⟩ := h
      exact List.mem_flatMap.2 ⟨a, mem_of_getElem? hj, List.mem_map.2 ⟨rest, ih hrest, rfl⟩⟩

/-- The path of a choice: the index of each value among its candidates. -/
def pathOf (domains : List (List Caps)) (values : List Caps) : List Nat :=
  (domains.zip values).map fun p => p.1.idxOf p.2

theorem picked_pathOf {values : List Caps}
    (h : values ∈ Search.choices domains) : picked domains (pathOf domains values) = some values := by
  induction domains generalizing values with
  | nil =>
    obtain rfl := List.mem_singleton.1 h
    rfl
  | cons candidates domains ih =>
    obtain ⟨a, ha, h⟩ := List.mem_flatMap.1 h
    obtain ⟨rest, hrest, rfl⟩ := List.mem_map.1 h
    have hidx : candidates[candidates.idxOf a]? = some a := by
      rw [List.getElem?_eq_getElem (idxOf_lt_length_of_mem ha), getElem_idxOf]
    have hrest' := ih hrest
    simp only [pathOf] at hrest'
    simp [pathOf, picked, hidx, hrest']

theorem pathOf_of_picked (hnd : ∀ d ∈ domains, d.Nodup) {path : List Nat}
    {values : List Caps} (h : picked domains path = some values) : pathOf domains values = path := by
  induction domains generalizing path values with
  | nil =>
    cases path with
    | nil => rfl
    | cons j path => simp [picked] at h
  | cons candidates domains ih =>
    cases path with
    | nil => simp [picked] at h
    | cons j path =>
      simp only [picked, Option.bind_eq_bind, Option.bind_eq_some_iff, Option.pure_def, Option.some.injEq] at h
      obtain ⟨a, hj, rest, hrest, rfl⟩ := h
      obtain ⟨hlt, rfl⟩ := List.getElem?_eq_some_iff.1 hj
      have htail := ih (fun d hd => hnd d (mem_cons_of_mem _ hd)) hrest
      simp only [pathOf] at htail
      simp [pathOf, (hnd candidates mem_cons_self).idxOf_getElem, htail]

section Spec

variable {first : ChainNode} {middles : List ChainNode} {last : ChainNode} {domains : List (List Caps)}

section

variable (hlen : domains.length = middles.length + 1)

include hlen

/-- With costs declared, the programme keeps one entry for all consistent choices of candidates. -/
theorem minCostChain_spec
    (hdeclared : ((first :: (middles ++ [last])).any fun n => n.preferences.isSome) = true) :
    ∃ kept, minCostChain (first :: (middles ++ [last])) domains = kept.map Prod.snd ∧
      Represents costCap kept {x | ∃ values, picked domains x.2 = some values ∧
        chainConsistent (middles.map constraint) values = true ∧
        x.1 = declaredCost (first :: (middles ++ [last])) values} := by
  cases domains with
  | nil => simp at hlen
  | cons domain others =>
    have hothers : middles.length = others.length := by simpa using hlen.symm
    have hspec := leastPath_spec costCap (fun caps => first.cost none (some caps))
      (fun caps => last.cost (some caps) none) domain
      ((middles.zip others).map fun link => (link.1.weight, link.2))
    have hfst : ((middles.zip others).map fun link => (link.1.weight, link.2)).map Prod.fst =
        middles.map ChainNode.weight := by
      rw [map_map, show (Prod.fst ∘ fun link : ChainNode × List Caps => (link.1.weight, link.2)) =
        ChainNode.weight ∘ Prod.fst from rfl, ← map_map, map_fst_zip hothers.le]
    have hsnd : ((middles.zip others).map fun link => (link.1.weight, link.2)).map Prod.snd =
        others := by
      rw [map_map, show (Prod.snd ∘ fun link : ChainNode × List Caps => (link.1.weight, link.2)) =
        Prod.snd from rfl, map_snd_zip hothers.ge]
    rw [hfst, hsnd] at hspec
    refine ⟨_, ?_, hspec.congr fun x => ?_⟩
    · rw [minCostChain_eq first middles last domain others hothers, if_pos hdeclared]
    · refine exists_congr fun values => and_congr_right fun hpicked => ?_
      have hvalues : values.length = middles.length + 1 :=
        (Search.length_of_mem_choices (mem_choices_of_picked hpicked)).trans hlen
      exact (totalCost_eq_some_iff first middles last values x.1).trans ⟨fun h => h.2, fun h => ⟨hvalues, h⟩⟩

theorem declared_of_minCostChain_eq_some {path : List Nat}
    (h : minCostChain (first :: (middles ++ [last])) domains = some path) :
    ((first :: (middles ++ [last])).any fun n => n.preferences.isSome) = true := by
  by_contra hnone
  cases domains with
  | nil => simp at hlen
  | cons domain others =>
    rw [minCostChain_eq first middles last domain others (by simpa using hlen.symm),
      if_neg hnone] at h
    cases h

/-- What the programme picks is consistent. Its cost is the least one and it comes first among the
choices of that cost, provided no consistent choice reaches the cap. -/
theorem of_minCostChain_eq_some {path : List Nat}
    (h : minCostChain (first :: (middles ++ [last])) domains = some path) :
    ∃ values, picked domains path = some values ∧ values ∈ Search.choices domains ∧
      chainConsistent (middles.map constraint) values = true ∧ ((∀ other ∈ Search.choices domains,
          chainConsistent (middles.map constraint) other = true →
          declaredCost (first :: (middles ++ [last])) other ≤ costCap) → ∀ other ∈ Search.choices domains,
          chainConsistent (middles.map constraint) other = true →
          noLater (declaredCost (first :: (middles ++ [last])) values, path)
            (declaredCost (first :: (middles ++ [last])) other, pathOf domains other)) := by
  have hdeclared := declared_of_minCostChain_eq_some hlen h
  obtain ⟨kept, heq, hrep⟩ := minCostChain_spec hlen hdeclared
  obtain ⟨⟨d, _⟩, hkept, rfl⟩ := Option.map_eq_some_iff.1 (heq.symm.trans h)
  obtain ⟨c, ⟨values, hpicked, hcons, rfl⟩, -, hleast⟩ := hrep.some d _ hkept
  refine ⟨values, hpicked, mem_choices_of_picked hpicked, hcons, fun hcap other hother hok => ?_⟩
  refine hleast ?_ _ ⟨other, picked_pathOf hother, hok, rfl⟩
  rintro x ⟨values', hpicked', hcons', hx⟩
  rw [hx]
  exact hcap values' (mem_choices_of_picked hpicked') hcons'

end

end Spec

end Glass2Glass
