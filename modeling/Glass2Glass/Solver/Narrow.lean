import Glass2Glass.Solver.Constraint

/-!
# Narrowing candidate sets

The set-level steps both solvers are made of (`runtime/solver.rs`): intersecting a link's set with a
contribution, filtering declared pairs, the forward image of a derivation and its backward coupling,
and listing batches. A link that nothing has narrowed yet has no set. `denote` gives the caps a link
may still carry, everything when it has no set; the lemmas describe each step on denotations.
-/

namespace Glass2Glass

open PartialMeet List

/-- A link's set narrowed by a contribution; a link with no set takes the contribution. -/
def narrowBy (cur : Option CapsSet) (contrib : CapsSet) : CapsSet :=
  match cur with
  | some cur => cur.intersect contrib
  | none => contrib

/-- The surviving sides of the pairs that still overlap both links. -/
def filterPairs (input output : Option CapsSet) (pairs : List (CapsSet × CapsSet)) : CapsSet × CapsSet :=
  pairs.foldl (fun new pair =>
    let inMatch := narrowBy input pair.1
    let outMatch := narrowBy output pair.2
    if !inMatch.isEmpty && !outMatch.isEmpty then (new.1.union inMatch, new.2.union outMatch)
    else new) (⟨[]⟩, ⟨[]⟩)

/-- The union of a derivation over the input alternatives. -/
def forwardDerivedUnion (f : Caps → CapsSet) (inSet : CapsSet) : CapsSet :=
  inSet.alternatives.foldl (fun acc a => acc.union (f a)) ⟨[]⟩

/-- Drop the input alternatives that no longer reach the output. Only an ambiguous input is touched;
no set when nothing changed, an error when nothing survives. -/
def backwardFilterDerived (f : Caps → CapsSet) (inSet outSet : CapsSet) : Except Unit (Option CapsSet) :=
  if inSet.alternatives.length ≤ 1 then .ok none
  else
    let kept := inSet.alternatives.filter fun a => !((f a).intersect outSet).isEmpty
    if kept.isEmpty then .error ()
    else if kept.length = inSet.alternatives.length then .ok none
    else .ok (some ⟨kept⟩)

/-- An input alternative coupled to each output it can still reach. -/
def coupledAlternatives (derive : Caps → CapsSet) (mask : PassthroughFields) (a : Caps)
    (outSet : CapsSet) : List Caps :=
  ((derive a).intersect outSet).alternatives.filterMap fun outAlt =>
    couplePassthroughDerived a outAlt mask

/-- Narrow each input alternative's passthrough fields by the outputs it can still reach, dropping
one that reaches none. No set when nothing changed, an error when nothing survives. -/
def backwardFieldNarrow (derive : Caps → CapsSet) (mask : PassthroughFields)
    (inSet outSet : CapsSet) : Except Unit (Option CapsSet) :=
  let kept := (inSet.alternatives.flatMap fun a =>
    coupledAlternatives derive mask a outSet).foldl pushNew []
  let changed := inSet.alternatives.any fun a =>
    let coupled := coupledAlternatives derive mask a outSet
    coupled.isEmpty || coupled.any (· != a)
  if kept.isEmpty then .error ()
  else if !changed then .ok none
  else .ok (some ⟨kept⟩)

/-- Backward narrowing of a derivation known only as a function: field by field when probing finds a
passthrough field, else by dropping alternatives. -/
def derivedBackward (f : Caps → CapsSet) (inSet outSet : CapsSet) : Except Unit (Option CapsSet) :=
  let mask := match inSet.alternatives.head? with
    | some sample => discoverPassthrough f sample
    | none => PassthroughFields.NONE
  if mask = PassthroughFields.NONE then backwardFilterDerived f inSet outSet
  else backwardFieldNarrow f mask inSet outSet

/-- How many combinations of alternatives a set of batches may hold. -/
def MAX_BATCH_ALTERNATIVES : Nat := 256

/-- All choices of one alternative per stream, the first stream varying slowest; `none` when there
would be too many. -/
def batchAlternatives (streams : List (List Caps)) : Option (List Caps) :=
  let combine (batches : List (List Caps)) (alternatives : List Caps) : Option (List (List Caps)) :=
    if batches.length * alternatives.length > MAX_BATCH_ALTERNATIVES then none
    else some (batches.flatMap fun batch => alternatives.map fun caps => batch ++ [caps])
  (streams.foldlM combine [[]]).map fun batches => batches.map Caps.batch

def preferredBatch (streams : List (List Caps)) : List Caps :=
  match streams.mapM List.head? with
  | some streams => [.batch streams]
  | none => []

/-- The alternatives of one stream over the batches of the given width. -/
def batchStreamAlternatives (set : CapsSet) (streams stream : Nat) : CapsSet :=
  ⟨set.alternatives.foldl (fun out alternative =>
    match alternative with
    | .batch batch =>
      if batch.length = streams then
        match batch[stream]? with
        | some caps => pushNew out caps
        | none => out
      else out
    | _ => out) []⟩

/-! ## Denotations -/

/-- The caps a link may still carry. -/
def denote : Option CapsSet → Set Caps
  | none => Set.univ
  | some s => {p | s.contains p}

variable {p : Caps} {s : CapsSet}

theorem mem_denote_some : p ∈ denote (some s) ↔ s.contains p := Iff.rfl

namespace CapsSet

theorem isEmpty_eq_false_of_contains {s : CapsSet} {p : Caps} (h : s.contains p) : s.isEmpty = false := by
  obtain ⟨a, ha, -⟩ := h
  exact List.isEmpty_eq_false_iff.2 (ne_nil_of_mem ha)

theorem not_contains_empty (p : Caps) : ¬ (⟨[]⟩ : CapsSet).contains p := by
  rintro ⟨a, ha, -⟩
  simp at ha

theorem mem_union {s t : CapsSet} {c : Caps} : c ∈ (s.union t).alternatives ↔ c ∈ s.alternatives ∨ c ∈ t.alternatives :=
  mem_foldl_pushNew

theorem contains_union {s t : CapsSet} {p : Caps} : (s.union t).contains p ↔ s.contains p ∨ t.contains p := by
  simp only [contains, mem_union]
  constructor
  · rintro ⟨c, hc | hc, hp⟩
    · exact Or.inl ⟨c, hc, hp⟩
    · exact Or.inr ⟨c, hc, hp⟩
  · rintro (⟨c, hc, hp⟩ | ⟨c, hc, hp⟩)
    · exact ⟨c, Or.inl hc, hp⟩
    · exact ⟨c, Or.inr hc, hp⟩

theorem contains_of_accepts {s : CapsSet} {p : Caps} (hp : p.isConcrete) (h : s.accepts p) : s.contains p := by
  obtain ⟨a, ha, hap⟩ := List.any_eq_true.1 h
  obtain ⟨c, hc⟩ := Option.isSome_iff_exists.1 hap
  exact ⟨a, ha, Caps.contains_of_isConcrete hp (Caps.meet_eq_some_iff.1 hc)⟩

end CapsSet

theorem contains_narrowBy {cur : Option CapsSet} {contrib : CapsSet} :
    (narrowBy cur contrib).contains p ↔ p ∈ denote cur ∧ contrib.contains p := by
  cases cur with
  | none => simp [narrowBy, denote]
  | some s => exact CapsSet.contains_intersect_iff

/-- What a surviving pair's sides contain is what the pairs that still overlap contain. -/
theorem contains_filterPairs (input output : Option CapsSet) (pairs : List (CapsSet × CapsSet)) :
    (∀ p, (filterPairs input output pairs).1.contains p → p ∈ denote input) ∧
    (∀ q, (filterPairs input output pairs).2.contains q → q ∈ denote output) ∧
    (∀ pair ∈ pairs, ∀ p q, p ∈ denote input → pair.1.contains p → q ∈ denote output → pair.2.contains q →
      (filterPairs input output pairs).1.contains p ∧ (filterPairs input output pairs).2.contains q) := by
  suffices h : ∀ new : CapsSet × CapsSet,
      (∀ p, new.1.contains p → p ∈ denote input) → (∀ q, new.2.contains q → q ∈ denote output) →
      let res := pairs.foldl (fun new pair =>
        let inMatch := narrowBy input pair.1
        let outMatch := narrowBy output pair.2
        if !inMatch.isEmpty && !outMatch.isEmpty then (new.1.union inMatch, new.2.union outMatch)
        else new) new
      (∀ p, res.1.contains p → p ∈ denote input) ∧ (∀ q, res.2.contains q → q ∈ denote output) ∧
      (∀ p, new.1.contains p → res.1.contains p) ∧ (∀ q, new.2.contains q → res.2.contains q) ∧
      (∀ pair ∈ pairs, ∀ p q, p ∈ denote input → pair.1.contains p → q ∈ denote output →
        pair.2.contains q → res.1.contains p ∧ res.2.contains q) by
    have hnil := h (⟨[]⟩, ⟨[]⟩) (fun p hp => absurd hp (CapsSet.not_contains_empty p))
      (fun q hq => absurd hq (CapsSet.not_contains_empty q))
    exact ⟨hnil.1, hnil.2.1, hnil.2.2.2.2⟩
  induction pairs with
  | nil =>
    intro new hin hout
    exact ⟨hin, hout, fun _ h => h, fun _ h => h, fun pair hp => absurd hp not_mem_nil⟩
  | cons pair pairs ih =>
    intro new hin hout
    rw [foldl_cons]
    by_cases hmatch : (!(narrowBy input pair.1).isEmpty && !(narrowBy output pair.2).isEmpty) = true
    · simp only [hmatch, if_true]
      obtain ⟨h1, h2, h3, h4, h5⟩ := ih (new.1.union (narrowBy input pair.1), new.2.union (narrowBy output pair.2))
        (fun p hp => (CapsSet.contains_union.1 hp).elim (hin p) fun h => (contains_narrowBy.1 h).1)
        (fun q hq => (CapsSet.contains_union.1 hq).elim (hout q) fun h => (contains_narrowBy.1 h).1)
      refine ⟨h1, h2, fun p hp => h3 p (CapsSet.contains_union.2 (Or.inl hp)),
        fun q hq => h4 q (CapsSet.contains_union.2 (Or.inl hq)), ?_⟩
      intro pair' hpair' p q hp hp' hq hq'
      rcases List.mem_cons.1 hpair' with rfl | hpair'
      · exact ⟨h3 p (CapsSet.contains_union.2 (Or.inr (contains_narrowBy.2 ⟨hp, hp'⟩))),
          h4 q (CapsSet.contains_union.2 (Or.inr (contains_narrowBy.2 ⟨hq, hq'⟩)))⟩
      · exact h5 pair' hpair' p q hp hp' hq hq'
    · have hskip : (if (!(narrowBy input pair.1).isEmpty && !(narrowBy output pair.2).isEmpty) = true
          then (new.1.union (narrowBy input pair.1), new.2.union (narrowBy output pair.2))
          else new) = new := if_neg hmatch
      simp only [hskip]
      obtain ⟨h1, h2, h3, h4, h5⟩ := ih new hin hout
      refine ⟨h1, h2, h3, h4, ?_⟩
      intro pair' hpair' p q hp hp' hq hq'
      rcases List.mem_cons.1 hpair' with rfl | hpair'
      · -- A pair that both sides meet is not skipped.
        have hne1 := CapsSet.isEmpty_eq_false_of_contains (contains_narrowBy.2 ⟨hp, hp'⟩)
        have hne2 := CapsSet.isEmpty_eq_false_of_contains (contains_narrowBy.2 ⟨hq, hq'⟩)
        simp [hne1, hne2] at hmatch
      · exact h5 pair' hpair' p q hp hp' hq hq'

variable {f : Caps → CapsSet} {inSet : CapsSet}

theorem contains_forwardDerivedUnion {q : Caps} :
    (forwardDerivedUnion f inSet).contains q ↔ ∃ a ∈ inSet.alternatives, (f a).contains q := by
  unfold forwardDerivedUnion
  suffices h : ∀ (l : List Caps) (acc : CapsSet), (l.foldl (fun acc a => acc.union (f a)) acc).contains q ↔
        acc.contains q ∨ ∃ a ∈ l, (f a).contains q by
    rw [h]
    simp [CapsSet.not_contains_empty]
  intro l
  induction l with
  | nil => simp
  | cons a l ih =>
    intro acc
    rw [foldl_cons, ih, CapsSet.contains_union]
    simp [or_assoc]

/-! ## Backward narrowing -/

variable {outSet : CapsSet} {r : Option CapsSet}

/-- Field narrowing of a declared transform keeps a concrete input that derives a reachable
output. -/
theorem contains_backwardFieldNarrow (t : CapsTransform) {q : Caps}
    (hp : inSet.contains p) (hconc : p.isConcrete) (hpq : (t.derive p).contains q) (hq : outSet.contains q) :
    ∃ r, backwardFieldNarrow t.derive t.passthrough inSet outSet = .ok r ∧ (r.getD inSet).contains p := by
  obtain ⟨a, ha, hap⟩ := hp
  have hreach : ((t.derive a).intersect outSet).contains q :=
    CapsSet.contains_intersect_iff.2 ⟨t.contains_derive hap hpq, hq⟩
  obtain ⟨o, ho, hoq⟩ := hreach
  obtain ⟨c, hc, hcp⟩ := t.contains_couple hap hconc hpq hoq
  have hkept : c ∈ inSet.alternatives.flatMap fun a =>
      coupledAlternatives t.derive t.passthrough a outSet :=
    List.mem_flatMap.2 ⟨a, ha, List.mem_filterMap.2 ⟨o, ho, hc⟩⟩
  have hne : (inSet.alternatives.flatMap fun a =>
      coupledAlternatives t.derive t.passthrough a outSet).eraseDups.isEmpty = false :=
    List.isEmpty_eq_false_iff.2 (ne_nil_of_mem (List.mem_eraseDups.2 hkept))
  unfold backwardFieldNarrow
  simp only [foldl_pushNew_nil, hne, Bool.false_eq_true, if_false]
  split_ifs
  · exact ⟨none, rfl, a, ha, hap⟩
  · exact ⟨_, rfl, c, List.mem_eraseDups.2 hkept, hcp⟩

end Glass2Glass
