import Glass2Glass.Lib.Search
import Glass2Glass.Solver.Frame
import Glass2Glass.Solver.Solve
import Mathlib.Data.Finset.Max

/-!
# What the search returns

The backtracking fixation checks a node as soon as the last of its edges is assigned. Over a full
choice these checks add up to every node's relation, so the search returns the first choice of
candidates, in candidate order, that all nodes find consistent (`solveGraph_eq_ok_iff`).
-/

namespace Glass2Glass

open Loop Search List

/-- The caps a list chooses for an edge. -/
def chosen (choice : List Caps) (e : Nat) : Caps := choice.getD e .klv

variable (g : Graph) (constraints : List NodeConstraint)

/-- Whether every node's relation between its edges holds of a full choice of caps. -/
def choiceConsistent (choice : List Caps) : Bool :=
  (List.range g.nodeCount).all (edgesConsistent g constraints (chosen choice))

/-- The candidate lists a solve hands to its search. -/
def searchDomains (g : ValidatedGraph) (constraints : List NodeConstraint) :
    Except NegotiationFailure (List (List Caps)) :=
  if g.nodeCount < 2 ∨ constraints.length ≠ g.nodeCount then .error .degenerate
  else do
    let edges ← sweeps g constraints
    domainsOf g constraints edges

/-- The check of the search after its last assignment: both ends of the edge assigned last. -/
def checkLast (acc : List Caps) : Bool :=
  nodeConsistent g constraints (fun e => acc[e]?) (g.edge (acc.length - 1)).src.node &&
    nodeConsistent g constraints (fun e => acc[e]?) (g.edge (acc.length - 1)).dst.node

theorem fixateBacktrack_eq (domains : List (List Caps)) (acc : List Caps) :
    fixateBacktrack g constraints domains (fun e => acc[e]?) acc.length =
      (search (checkLast g constraints) domains acc).map fun choice e => choice[e]? := by
  induction domains generalizing acc with
  | nil => rfl
  | cons candidates domains ih =>
    rw [fixateBacktrack, search, map_findSome?]
    congr 1
    funext cand
    have hassign : Function.update (fun e => acc[e]?) acc.length (some cand) =
        fun e => (acc ++ [cand])[e]? := by
      funext e
      rcases Nat.lt_trichotomy e acc.length with he | rfl | he
      · rw [Function.update_of_ne (by omega), List.getElem?_append_left he]
      · simp
      · rw [Function.update_of_ne (by omega), List.getElem?_eq_none (by omega), List.getElem?_eq_none (by simp; omega)]
    have hlen : (acc ++ [cand]).length = acc.length + 1 := by simp
    simp only [Function.comp_apply, hassign, checkLast, hlen, Nat.add_sub_cancel]
    split_ifs with hcheck
    · rw [← hlen, ih]
    · rfl

section Consistency

variable {g : ValidatedGraph} {constraints : List NodeConstraint} {node : Nat}

theorem edgesConsistent_congr (hn : node < g.nodeCount) {get get' : Nat → Caps}
    (h : ∀ e ∈ g.inEdges node ++ g.outEdges node, get e = get' e) : edgesConsistent g.toGraph constraints get node =
      edgesConsistent g.toGraph constraints get' node := by
  have hin : (g.kind node).inPads = 1 → get (g.inEdge node) = get' (g.inEdge node) := fun hk =>
    h _ (mem_append_left _ (g.inEdge_mem hn hk))
  have hout : (g.kind node).outPads = 1 → get (g.outEdge node) = get' (g.outEdge node) := fun hk =>
    h _ (mem_append_right _ (g.outEdge_mem hn hk))
  have houts : ∀ o ∈ g.outEdges node, get o = get' o := fun o ho =>
    h _ (mem_append_right _ ho)
  unfold edgesConsistent
  split
  case h_1 hk _ =>
    have hpads : (padsInOrder g.toGraph node).map (fun pad => get pad.2) =
        (padsInOrder g.toGraph node).map fun pad => get' pad.2 :=
      map_congr_left fun pad hpad => h _ (mem_append_left _ (mem_padsInOrder.1 hpad).1)
    rw [hpads, hout (by rw [hk]; rfl)]
  case h_2 hk _ =>
    rw [hin (by rw [hk]; rfl)]
    exact all_congr fun o ho => by rw [houts o ho]
  case h_3 hk _ =>
    rw [hin (by rw [hk]; rfl)]
    split
    · congr 1
      exact all_congr fun o ho => by rw [houts o ho]
    · rfl
  case h_4 hk _ _ =>
    rw [hin (by rw [hk]; rfl)]
    exact all_congr fun o ho => by rw [houts o ho]
  case h_5 hk _ => rw [hin (by rw [hk]; rfl), hout (by rw [hk]; rfl)]
  case h_6 => rfl

theorem nodeConsistent_take (hn : node < g.nodeCount) {choice : List Caps}
    (hlen : choice.length = g.edgeCount) (m : Nat) :
    nodeConsistent g.toGraph constraints (fun e => (choice.take m)[e]?) node = true ↔
      ((∀ e ∈ g.inEdges node ++ g.outEdges node, e < m) →
        edgesConsistent g.toGraph constraints (chosen choice) node = true) := by
  have hlt : ∀ e ∈ g.inEdges node ++ g.outEdges node, e < choice.length := by
    intro e he
    rw [hlen]
    rcases List.mem_append.1 he with he | he
    · exact (Graph.mem_inEdges.1 he).1
    · exact (Graph.mem_outEdges.1 he).1
  have hnone : ((g.inEdges node ++ g.outEdges node).any fun e => ((choice.take m)[e]?).isNone) = true ↔
      ¬ ∀ e ∈ g.inEdges node ++ g.outEdges node, e < m := by
    simp only [any_eq_true, not_forall, exists_prop, Option.isNone_iff_eq_none, List.getElem?_eq_none_iff, length_take]
    refine exists_congr fun e => and_congr_right fun he => ?_
    have := hlt e he
    omega
  unfold nodeConsistent
  by_cases hall : ∀ e ∈ g.inEdges node ++ g.outEdges node, e < m
  · have hnot : ((g.inEdges node ++ g.outEdges node).any fun e =>
        ((choice.take m)[e]?).isNone) ≠ true := fun h => hnone.1 h hall
    rw [if_neg hnot]
    have hget : ∀ e ∈ g.inEdges node ++ g.outEdges node,
        ((choice.take m)[e]?).getD .klv = chosen choice e := by
      intro e he
      rw [List.getElem?_take_of_lt (hall e he), chosen, getD_eq_getElem?_getD]
    rw [edgesConsistent_congr hn hget]
    exact ⟨fun h _ => h, fun h => h hall⟩
  · rw [if_pos (hnone.2 hall)]
    exact ⟨fun _ h => absurd h hall, fun _ => rfl⟩

/-- The checks of the search over a full choice add up to every node's relation. -/
theorem checkLast_iff {choice : List Caps} (hlen : choice.length = g.edgeCount) :
    (∀ n < choice.length, checkLast g.toGraph constraints (choice.take (n + 1)) = true) ↔
      choiceConsistent g.toGraph constraints choice = true := by
  have hcheck : ∀ n < choice.length, checkLast g.toGraph constraints (choice.take (n + 1)) = true ↔
      nodeConsistent g.toGraph constraints (fun e => (choice.take (n + 1))[e]?) (g.edge n).src.node = true ∧
        nodeConsistent g.toGraph constraints (fun e => (choice.take (n + 1))[e]?)
          (g.edge n).dst.node = true := by
    intro n hn
    have hlast : (choice.take (n + 1)).length - 1 = n := by
      rw [length_take]
      omega
    rw [checkLast, hlast, Bool.and_eq_true]
  rw [choiceConsistent, all_eq_true]
  constructor
  · -- A node is checked against all its edges when the last of them is assigned.
    intro h node hnode
    have hn : node < g.nodeCount := List.mem_range.1 hnode
    obtain ⟨e₀, he₀⟩ := g.exists_incident hn
    obtain ⟨e, he, hmax⟩ := Finset.exists_max_image (g.inEdges node ++ g.outEdges node).toFinset id
      ⟨e₀, List.mem_toFinset.2 he₀⟩
    have hbound : ∀ e' ∈ g.inEdges node ++ g.outEdges node, e' < e + 1 := fun e' he' =>
      Nat.lt_succ_of_le (hmax e' (List.mem_toFinset.2 he'))
    rcases List.mem_append.1 (List.mem_toFinset.1 he) with he | he
    · obtain ⟨hlt, hdst⟩ := Graph.mem_inEdges.1 he
      have hboth := (hcheck e (hlen ▸ hlt)).1 (h e (hlen ▸ hlt))
      rw [hdst] at hboth
      exact (nodeConsistent_take hn hlen (e + 1)).1 hboth.2 hbound
    · obtain ⟨hlt, hsrc⟩ := Graph.mem_outEdges.1 he
      have hboth := (hcheck e (hlen ▸ hlt)).1 (h e (hlen ▸ hlt))
      rw [hsrc] at hboth
      exact (nodeConsistent_take hn hlen (e + 1)).1 hboth.1 hbound
  · intro h n hn
    have hedge : n < g.edgeCount := hlen ▸ hn
    have hsrc := g.src_lt_nodeCount hedge
    have hdst := g.dst_lt_nodeCount hedge
    exact (hcheck n hn).2 ⟨(nodeConsistent_take hsrc hlen (n + 1)).2 fun _ =>
        h _ (List.mem_range.2 hsrc),
      (nodeConsistent_take hdst hlen (n + 1)).2 fun _ => h _ (List.mem_range.2 hdst)⟩

end Consistency

variable {g : ValidatedGraph} {constraints : List NodeConstraint}

theorem exists_sweepOnce {edges edges' : EdgeSets} {n : Nat}
    (h : sweepLoop g constraints (n + 1) edges = .ok edges') : ∃ prev, sweepOnce g constraints prev = .ok edges' := by
  induction n generalizing edges with
  | zero =>
    obtain ⟨next, hnext, h⟩ := bind_eq_ok.1 h
    split_ifs at h
    · obtain rfl := Except.ok.inj h
      exact ⟨edges, hnext⟩
    · obtain rfl := Except.ok.inj h
      exact ⟨edges, hnext⟩
  | succ n ih =>
    obtain ⟨next, hnext, h⟩ := bind_eq_ok.1 h
    split_ifs at h
    · obtain rfl := Except.ok.inj h
      exact ⟨edges, hnext⟩
    · exact ih h

theorem exists_applyNode_of_sweeps {edges : EdgeSets} {node : Nat} (h : sweeps g constraints = .ok edges) (hn : node < g.nodeCount) :
    ∃ before after, applyNode g.toGraph constraints node before = .ok after := by
  obtain ⟨prev, hprev⟩ := exists_sweepOnce h
  obtain ⟨mid, hmid, -⟩ := bind_eq_ok.1 hprev
  have hpass := exists_pass_of_foldlM (g.mem_topo.2 hn) hmid
  exact hpass

theorem length_of_domainsOf {edges : EdgeSets} {domains : List (List Caps)} (h : domainsOf g constraints edges = .ok domains) :
    domains.length = g.edgeCount := by
  simpa using (mapM_eq_ok h).length_eq.symm

end Glass2Glass
