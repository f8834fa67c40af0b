import Glass2Glass.Solver.Search

/-!
# The backtracking fixation in place

The code searches in one array of assignments, which it writes as it goes and clears as it turns back.
What it leaves there is what the search of assignments passed by value returns, and nothing of a branch
that failed (`fixateInPlace_eq`). So it is complete, takes the first consistent choice, and leaves no
assignment when there is none (`fixateInPlace_spec`).
-/

namespace Glass2Glass

open Search Function

/-- Try the candidates of an edge: assign one, check it, go on with `next`, and clear the edge when none is left. -/
def tryCandidates (check : (Nat → Option Caps) → Bool)
    (next : (Nat → Option Caps) → Bool × (Nat → Option Caps)) (edge : Nat) :
    List Caps → (Nat → Option Caps) → Bool × (Nat → Option Caps)
  | [], assign => (false, Function.update assign edge none)
  | cand :: candidates, assign =>
    let assign := Function.update assign edge (some cand)
    if check assign then
      let (found, assign) := next assign
      if found then (true, assign) else tryCandidates check next edge candidates assign
    else tryCandidates check next edge candidates assign

/-- `fixateBacktrack` on assignments that it changes in place. -/
def fixateInPlace (g : Graph) (constraints : List NodeConstraint) :
    List (List Caps) → (Nat → Option Caps) → Nat → Bool × (Nat → Option Caps)
  | [], assign, _ => (true, assign)
  | candidates :: domains, assign, edge =>
    tryCandidates (fun assign => nodeConsistent g constraints assign (g.edge edge).src.node &&
        nodeConsistent g constraints assign (g.edge edge).dst.node)
      (fun assign => fixateInPlace g constraints domains assign (edge + 1)) edge candidates assign

variable {check : (Nat → Option Caps) → Bool} {next : (Nat → Option Caps) → Bool × (Nat → Option Caps)}
  {edge : Nat} {assign : Nat → Option Caps}

/-- What a search in place leaves: what it found, or the assignments it started from. -/
def leaves (found : Option (Nat → Option Caps)) (assign : Nat → Option Caps) : Bool × (Nat → Option Caps) :=
  match found with
  | some result => (true, result)
  | none => (false, assign)

/-- The candidates of a clear edge are tried as if each of them started from the same assignments, whatever an
earlier one has left at the edge. -/
theorem tryCandidates_eq (search : (Nat → Option Caps) → Option (Nat → Option Caps)) (hclear : assign edge = none)
    (hnext : ∀ cand, next (Function.update assign edge (some cand)) =
      leaves (search (Function.update assign edge (some cand))) (Function.update assign edge (some cand)))
    (candidates : List Caps) {before : Nat → Option Caps} (hbefore : Function.update before edge none = assign) :
    tryCandidates check next edge candidates before = leaves (candidates.findSome? fun cand =>
        if check (Function.update assign edge (some cand)) then search (Function.update assign edge (some cand))
        else none) assign := by
  have hsame : ∀ cand, Function.update before edge (some cand) = Function.update assign edge (some cand) := by
    intro cand
    rw [← hbefore, update_idem]
  have hback : ∀ cand, Function.update (Function.update assign edge (some cand)) edge none = assign := by
    intro cand
    rw [update_idem, ← hclear, update_eq_self]
  induction candidates generalizing before with
  | nil =>
    rw [tryCandidates, hbefore]
    rfl
  | cons cand candidates ih =>
    have hrest := ih (hback cand) fun _ => update_idem _ _ _
    rw [tryCandidates, hsame, List.findSome?_cons]
    by_cases hcheck : check (Function.update assign edge (some cand)) = true
    · rw [if_pos hcheck, if_pos hcheck, hnext]
      rcases search (Function.update assign edge (some cand)) with _ | result
      · -- The branch failed, and its edges are clear again.
        exact hrest
      · rfl
    · rw [if_neg hcheck, if_neg hcheck]
      exact hrest

theorem fixateInPlace_eq (g : Graph) (constraints : List NodeConstraint) (domains : List (List Caps))
    (assign : Nat → Option Caps) (edge : Nat) (hclear : ∀ e, edge ≤ e → assign e = none) :
    fixateInPlace g constraints domains assign edge =
      leaves (fixateBacktrack g constraints domains assign edge) assign := by
  induction domains generalizing assign edge with
  | nil => rfl
  | cons candidates domains ih =>
    have hnext : ∀ cand, fixateInPlace g constraints domains (Function.update assign edge (some cand)) (edge + 1) =
        leaves (fixateBacktrack g constraints domains (Function.update assign edge (some cand)) (edge + 1))
          (Function.update assign edge (some cand)) := by
      intro cand
      apply ih
      intro e he
      rw [update_of_ne (by omega)]
      exact hclear e (by omega)
    have hself : Function.update assign edge none = assign := by
      rw [← hclear edge le_rfl, update_eq_self]
    exact tryCandidates_eq (fun assign => fixateBacktrack g constraints domains assign (edge + 1))
      (hclear edge le_rfl) hnext candidates hself

/-- A choice of caps of which every node's relation holds. -/
def isConsistentChoice (g : ValidatedGraph) (constraints : List NodeConstraint) (choice : List Caps) : Prop :=
  ∀ node < g.nodeCount, nodeConsistent g.toGraph constraints (fun e => choice[e]?) node = true

theorem isConsistentChoice_iff {g : ValidatedGraph} {constraints : List NodeConstraint} {choice : List Caps}
    (hlen : choice.length = g.edgeCount) :
    isConsistentChoice g constraints choice ↔ choiceConsistent g.toGraph constraints choice = true := by
  rw [choiceConsistent, List.all_eq_true]
  have heach : ∀ node < g.nodeCount, nodeConsistent g.toGraph constraints (fun e => choice[e]?) node = true ↔
      edgesConsistent g.toGraph constraints (chosen choice) node = true := by
    intro node hn
    have htake : nodeConsistent g.toGraph constraints (fun e => (choice.take choice.length)[e]?) node = true ↔
        ((∀ e ∈ g.inEdges node ++ g.outEdges node, e < choice.length) →
          edgesConsistent g.toGraph constraints (chosen choice) node = true) :=
      nodeConsistent_take hn hlen choice.length
    rw [List.take_length] at htake
    rw [htake]
    refine ⟨fun h => h fun e he => ?_, fun h _ => h⟩
    rw [hlen]
    rcases List.mem_append.1 he with he | he
    · exact (Graph.mem_inEdges.1 he).1
    · exact (Graph.mem_outEdges.1 he).1
  constructor
  · intro h node hnode
    have hn := List.mem_range.1 hnode
    exact (heach node hn).1 (h node hn)
  · intro h node hn
    exact (heach node hn).2 (h node (List.mem_range.2 hn))

/-- The search started on clear edges finds a choice exactly when one of them is consistent; it is the
lexicographically first one by its positions in the candidate lists, and nothing is assigned when there is none. -/
theorem fixateInPlace_spec (g : ValidatedGraph) (constraints : List NodeConstraint) (domains : List (List Caps))
    (hlen : domains.length = g.edgeCount) : ((fixateInPlace g.toGraph constraints domains (fun _ => none) 0).1 = true ↔
      ∃ choice ∈ choices domains, isConsistentChoice g constraints choice) ∧
    ((fixateInPlace g.toGraph constraints domains (fun _ => none) 0).1 = true → ∃ choice positions,
      (fixateInPlace g.toGraph constraints domains (fun _ => none) 0).2 = (fun e => choice[e]?) ∧
      pick domains positions = some choice ∧ isConsistentChoice g constraints choice ∧
      ∀ positions' choice', pick domains positions' = some choice' → isConsistentChoice g constraints choice' →
        ¬List.Lex (· < ·) positions' positions) ∧
    ((fixateInPlace g.toGraph constraints domains (fun _ => none) 0).1 = false →
      (fixateInPlace g.toGraph constraints domains (fun _ => none) 0).2 = fun _ => none) := by
  have hsearch : fixateBacktrack g.toGraph constraints domains (fun _ => none) 0 =
      ((choices domains).find? (choiceConsistent g.toGraph constraints)).map fun choice e => choice[e]? := by
    rw [← search_eq_find_of_iff fun choice hc => checkLast_iff (hc.trans hlen)]
    exact fixateBacktrack_eq g.toGraph constraints domains []
  have hconsistent : ∀ choice ∈ choices domains, isConsistentChoice g constraints choice ↔
      choiceConsistent g.toGraph constraints choice = true := fun choice hmem =>
    isConsistentChoice_iff ((length_of_mem_choices hmem).trans hlen)
  rw [fixateInPlace_eq _ _ _ _ _ fun _ _ => rfl, hsearch]
  rcases hfind : (choices domains).find? (choiceConsistent g.toGraph constraints) with _ | choice
  · rw [List.find?_eq_none] at hfind
    have hnone : ¬∃ choice ∈ choices domains, isConsistentChoice g constraints choice := by
      rintro ⟨choice, hmem, hc⟩
      exact hfind choice hmem ((hconsistent choice hmem).1 hc)
    exact ⟨⟨fun h => absurd h Bool.false_ne_true, fun h => absurd h hnone⟩,
      fun h => absurd h Bool.false_ne_true, fun _ => rfl⟩
  · have hmem := List.mem_of_find?_eq_some hfind
    have hchoice := (hconsistent choice hmem).2 (List.find?_some hfind)
    obtain ⟨positions, hpick, hleast⟩ := exists_pick_of_find hfind
    refine ⟨⟨fun _ => ⟨choice, hmem, hchoice⟩, fun _ => rfl⟩, fun _ => ?_, fun h => absurd h.symm Bool.false_ne_true⟩
    refine ⟨choice, positions, rfl, hpick, hchoice, fun positions' choice' hpick' hc' => ?_⟩
    exact hleast positions' choice' hpick' ((hconsistent choice' (mem_choices_of_pick hpick')).1 hc')

/-- A tee with one output takes the candidate its two edges share. -/
theorem fixateInPlace_spec_teeChain : ∃ choice positions,
      (fixateInPlace ValidatedGraph.teeChain.toGraph [] [[.klv], [.onvifMetadata, .klv]] (fun _ => none) 0).2 =
        (fun e => choice[e]?) ∧ pick [[Caps.klv], [.onvifMetadata, .klv]] positions = some choice ∧
      isConsistentChoice .teeChain [] choice ∧
      ∀ positions' choice', pick [[Caps.klv], [.onvifMetadata, .klv]] positions' = some choice' →
        isConsistentChoice .teeChain [] choice' → ¬List.Lex (· < ·) positions' positions :=
  (fixateInPlace_spec .teeChain [] [[.klv], [.onvifMetadata, .klv]] rfl).2.1 (by decide)

end Glass2Glass
