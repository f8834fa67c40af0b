import Glass2Glass.Solver.Chain
import Glass2Glass.Solver.Search

/-!
# Preferred chains

A graph that is one chain, with declared costs, is assigned by the least-cost programme. The programme
checks every element between two edges by its declared constraint, a one-output tee included, while the
rest of negotiation ignores a tee's constraint and has it broadcast its input. Where the two agree, the
assignment is consistent at every node, has the least total cost of all consistent assignments, and
comes first among those in chain order.
-/

namespace Glass2Glass

open Layered Loop Search List

variable {constraints : List NodeConstraint}

/-! ## Walking a chain -/

/-- The nodes and edges passed by following the first output edge from a node to the end. -/
inductive Walk (g : Graph) : Nat → List Nat → List Nat → Prop where
  /-- The walk ends at a node without outputs. -/
  | done {v : Nat} (h : g.outEdges v = []) : Walk g v [v] []
  /-- The walk goes on along the first output edge. -/
  | step {v e : Nat} {nodes order : List Nat} (he : (g.outEdges v).head? = some e)
    (h : Walk g (g.edge e).dst.node nodes order) : Walk g v (v :: nodes) (e :: order)

section Walks

variable {g : ValidatedGraph}

theorem idxOf_topo_lt {v : Nat} (hv : v < g.nodeCount) : g.topo.idxOf v < g.nodeCount := by
  have hlen : g.topo.length = g.nodeCount := g.topo_perm.length_eq.trans length_range
  exact hlen ▸ idxOf_lt_length_of_mem (g.mem_topo.2 hv)

theorem walk_chainWalk (fuel v : Nat) (hv : v < g.nodeCount) (hfuel : g.nodeCount ≤ fuel + g.topo.idxOf v) :
    Walk g.toGraph v (chainWalk g.toGraph fuel v).1 (chainWalk g.toGraph fuel v).2 := by
  induction fuel generalizing v with
  | zero =>
    have := idxOf_topo_lt hv
    omega
  | succ fuel ih =>
    rcases hhead : (g.outEdges v).head? with _ | e
    · simp only [chainWalk, hhead]
      exact .done (List.head?_eq_none_iff.1 hhead)
    · have he : e ∈ g.outEdges v := mem_of_mem_head? hhead
      obtain ⟨hlt, hsrc⟩ := Graph.mem_outEdges.1 he
      have hrank := g.topo_lt _ (Graph.edge_mem hlt)
      rw [hsrc] at hrank
      simp only [chainWalk, hhead]
      exact .step hhead (ih _ (g.dst_lt_nodeCount hlt) (by omega))

variable {nodes order : List Nat}

theorem Walk.ranks {v : Nat} (h : Walk g.toGraph v nodes order) :
    nodes.Pairwise (fun a b => g.topo.idxOf a < g.topo.idxOf b) ∧ ∀ u ∈ nodes, g.topo.idxOf v ≤ g.topo.idxOf u := by
  induction h with
  | done _ => simp
  | @step v e nodes order he h ih =>
    obtain ⟨hlt, hsrc⟩ := Graph.mem_outEdges.1 (mem_of_mem_head? he)
    have hrank := g.topo_lt _ (Graph.edge_mem hlt)
    rw [hsrc] at hrank
    refine ⟨List.pairwise_cons.2 ⟨fun u hu => hrank.trans_le (ih.2 u hu), ih.1⟩, ?_⟩
    intro u hu
    rcases List.mem_cons.1 hu with rfl | hu
    · exact le_rfl
    · exact (hrank.trans_le (ih.2 u hu)).le

theorem Walk.lt {v : Nat} (h : Walk g.toGraph v nodes order)
    (hv : v < g.nodeCount) : ∀ u ∈ nodes, u < g.nodeCount := by
  induction h with
  | done _ => simpa using hv
  | @step v e nodes order he h ih =>
    obtain ⟨hlt, -⟩ := Graph.mem_outEdges.1 (mem_of_mem_head? he)
    intro u hu
    rcases List.mem_cons.1 hu with rfl | hu
    · exact hv
    · exact ih (g.dst_lt_nodeCount hlt) u hu

theorem Walk.edges {g : Graph} {v : Nat} (h : Walk g v nodes order) :
    nodes.length = order.length + 1 ∧ nodes[0]? = some v ∧
      ∀ (i e : Nat), order[i]? = some e → ∃ u, nodes[i]? = some u ∧ (g.outEdges u).head? = some e ∧
        nodes[i + 1]? = some (g.edge e).dst.node := by
  induction h with
  | done _ => exact ⟨rfl, rfl, by simp⟩
  | @step v e nodes order he h ih =>
    obtain ⟨hlen, hfirst, hedges⟩ := ih
    refine ⟨by simp [hlen], rfl, fun i e' hi => ?_⟩
    cases i with
    | zero =>
      obtain rfl : e = e' := by simpa using hi
      exact ⟨v, rfl, he, by simpa using hfirst⟩
    | succ i =>
      obtain ⟨u, hu, hhead, hnext⟩ := hedges i e' (by simpa using hi)
      exact ⟨u, by simpa using hu, hhead, by simpa using hnext⟩

theorem Walk.mem_order {g : Graph} {v : Nat} (h : Walk g v nodes order)
    {u e : Nat} (hu : u ∈ nodes) (he : (g.outEdges u).head? = some e) : e ∈ order := by
  induction h with
  | done hnone =>
    obtain rfl := List.mem_singleton.1 hu
    simp [hnone] at he
  | @step v e' nodes order he' h ih =>
    rcases List.mem_cons.1 hu with rfl | hu
    · rw [Option.some.inj (he.symm.trans he')]
      exact mem_cons_self
    · exact mem_cons_of_mem _ (ih hu)

end Walks

/-- What `chainOrder` finds: the nodes of the graph in a row, with the edges between them. -/
structure IsChain (g : ValidatedGraph) (nodes order : List Nat) : Prop where
  /-- Every node of the graph is in the row once. -/
  nodes_perm : nodes.Perm (List.range g.nodeCount)
  /-- There is one edge less than nodes. -/
  length_eq : nodes.length = order.length + 1
  /-- Every edge is in the row. -/
  mem_order : ∀ e < g.edgeCount, e ∈ order
  /-- No edge is there twice. -/
  nodup_order : order.Nodup
  /-- An edge leads from a node to the next one. -/
  edge : ∀ (i e : Nat), order[i]? = some e → e < g.edgeCount ∧
    nodes[i]? = some (g.edge e).src.node ∧ nodes[i + 1]? = some (g.edge e).dst.node

/-- A graph recognised as a chain is one. -/
theorem isChain_of_chainOrder {g : ValidatedGraph}
    {nodes order : List Nat} (h : chainOrder g.toGraph constraints = some (nodes, order)) : IsChain g nodes order := by
  unfold chainOrder at h
  simp only at h
  split_ifs at h with hsize helement hfan
  split at h
  · rename_i head hhead
    have hheadlt : head < g.nodeCount := by
      have : head ∈ (List.range g.nodeCount).filter fun i => (g.inEdges i).isEmpty := by
        rw [hhead]
        exact List.mem_singleton.2 rfl
      exact List.mem_range.1 (List.mem_filter.1 this).1
    have hwalk := walk_chainWalk g.nodeCount head hheadlt (by omega)
    generalize hn : (chainWalk g.toGraph g.nodeCount head).1 = ns at h hwalk
    generalize ho : (chainWalk g.toGraph g.nodeCount head).2 = os at h hwalk
    split_ifs at h with hlen
    simp only [Option.some.injEq, Prod.mk.injEq] at h
    obtain ⟨rfl, rfl⟩ := h
    have hnd : ns.Nodup := hwalk.ranks.1.imp fun hab heq => by
      rw [heq] at hab
      omega
    have hperm : ns.Perm (List.range g.nodeCount) := by
      refine List.Subperm.perm_of_length_le (subperm_of_subset hnd fun u hu => ?_) (by simp [hlen])
      exact List.mem_range.2 (hwalk.lt hheadlt u hu)
    obtain ⟨hlength, -, hedges⟩ := hwalk.edges
    have hedge : ∀ (i e : Nat), os[i]? = some e → e < g.edgeCount ∧
        ns[i]? = some (g.edge e).src.node ∧ ns[i + 1]? = some (g.edge e).dst.node := by
      intro i e hi
      obtain ⟨u, hu, hfirst, hnext⟩ := hedges i e hi
      obtain ⟨hlt, hsrc⟩ := Graph.mem_outEdges.1 (mem_of_mem_head? hfirst)
      exact ⟨hlt, by rw [hu, hsrc], hnext⟩
    refine ⟨hperm, hlength, fun e he => ?_, ?_, hedge⟩
    · -- The one output edge of a node is its first.
      have hsrc := g.src_lt_nodeCount he
      refine hwalk.mem_order (hperm.mem_iff.2 (List.mem_range.2 hsrc)) ?_
      have hmem : e ∈ g.outEdges (g.edge e).src.node := Graph.mem_outEdges.2 ⟨he, rfl⟩
      have hone : (g.outEdges (g.edge e).src.node).length ≤ 1 := by
        by_contra hmany
        refine hfan (List.any_eq_true.2 ⟨_, List.mem_range.2 hsrc, ?_⟩)
        simp only [Bool.or_eq_true, decide_eq_true_eq]
        omega
      obtain ⟨e', he'⟩ : ∃ e', g.outEdges (g.edge e).src.node = [e'] :=
        List.length_eq_one_iff.1 (by have := length_pos_of_mem hmem; omega)
      rw [he', mem_singleton] at hmem
      rw [he', hmem]
      rfl
    · -- Two places with one edge would be two places with its start.
      rw [List.nodup_iff_getElem?_ne_getElem?]
      intro i j hij hj heq
      have hget : os[j]? = some os[j] := List.getElem?_eq_getElem hj
      have hi := (hedge i _ (heq.trans hget)).2.1
      have hj' := (hedge j _ hget).2.1
      have hlt : j < ns.length := by omega
      exact List.nodup_iff_getElem?_ne_getElem?.1 hnd i j hij hlt (hi.trans hj'.symm)
  · cases h

theorem eq_toList_of_mem_iff {l : List Nat} {o : Option Nat} (hnd : l.Nodup)
    (h : ∀ x, x ∈ l ↔ o = some x) : l = o.toList := by
  cases o with
  | none => exact List.eq_nil_iff_forall_not_mem.2 fun x hx => by simpa using (h x).1 hx
  | some e =>
    have hperm : l.Perm [e] := (perm_ext_iff_of_nodup hnd (nodup_singleton e)).2
      fun x => by rw [h, mem_singleton, Option.some.injEq, eq_comm]
    exact List.perm_singleton.1 hperm

namespace IsChain

variable {g : ValidatedGraph} {nodes order : List Nat}

section

variable (h : IsChain g nodes order)

include h

theorem nodup_nodes : nodes.Nodup :=
  h.nodes_perm.nodup_iff.2 nodup_range

theorem eq_of_getElem? {i j v : Nat} (hi : nodes[i]? = some v)
    (hj : nodes[j]? = some v) : i = j := by
  obtain ⟨hi', rfl⟩ := List.getElem?_eq_some_iff.1 hi
  obtain ⟨hj', heq⟩ := List.getElem?_eq_some_iff.1 hj
  exact (List.Nodup.getElem_inj_iff h.nodup_nodes).1 heq.symm

theorem outEdges_eq {k v : Nat} (hk : nodes[k]? = some v) :
    g.outEdges v = (order[k]?).toList := by
  refine eq_toList_of_mem_iff (Graph.nodup_outEdges v) fun e => ⟨fun he => ?_, fun he => ?_⟩
  · obtain ⟨hlt, rfl⟩ := Graph.mem_outEdges.1 he
    obtain ⟨j, hj⟩ := mem_iff_getElem?.1 (h.mem_order e hlt)
    rw [h.eq_of_getElem? hk (h.edge j e hj).2.1, hj]
  · obtain ⟨hlt, hsrc, -⟩ := h.edge k e he
    exact Graph.mem_outEdges.2 ⟨hlt, Option.some.inj (hsrc.symm.trans hk)⟩

theorem inEdges_eq {k v : Nat} (hk : nodes[k + 1]? = some v) :
    g.inEdges v = (order[k]?).toList := by
  refine eq_toList_of_mem_iff (Graph.nodup_inEdges v) fun e => ⟨fun he => ?_, fun he => ?_⟩
  · obtain ⟨hlt, rfl⟩ := Graph.mem_inEdges.1 he
    obtain ⟨j, hj⟩ := mem_iff_getElem?.1 (h.mem_order e hlt)
    have := h.eq_of_getElem? hk (h.edge j e hj).2.2
    rw [show k = j by omega, hj]
  · obtain ⟨hlt, -, hdst⟩ := h.edge k e he
    exact Graph.mem_inEdges.2 ⟨hlt, Option.some.inj (hdst.symm.trans hk)⟩

theorem inEdges_first {v : Nat} (hv : nodes[0]? = some v) : g.inEdges v = [] := by
  refine List.eq_nil_iff_forall_not_mem.2 fun e he => ?_
  obtain ⟨hlt, rfl⟩ := Graph.mem_inEdges.1 he
  obtain ⟨j, hj⟩ := mem_iff_getElem?.1 (h.mem_order e hlt)
  have := h.eq_of_getElem? hv (h.edge j e hj).2.2
  omega

end

end IsChain

/-! ## Consistency along a chain -/

/-- A tee whose constraint is a pass-through; nothing is asked of other nodes. -/
def teePassesThrough (g : Graph) (constraints : List NodeConstraint) (node : Nat) : Prop :=
  match g.kind node with
  | .tee _ => elementAt constraints node = .identityAny ∨ ∃ s, elementAt constraints node = .identity s
  | _ => True

section Consistent

variable {g : ValidatedGraph} {constraints : List NodeConstraint} {get : Nat → Caps} {v : Nat}

theorem edgesConsistent_of_end (hv : v < g.nodeCount) (hend : g.inEdges v = [] ∨ g.outEdges v = []) :
    edgesConsistent g.toGraph constraints get v = true := by
  have hpads : (g.kind v).inPads = 0 ∨ (g.kind v).outPads = 0 := by
    rw [← g.length_inEdges hv, ← g.length_outEdges hv]
    exact hend.imp (fun h => by rw [h]; rfl) fun h => by rw [h]; rfl
  unfold edgesConsistent
  rcases NodeKind.eq_of_pads_eq_zero (g.isDegenerate_kind hv) hpads with hk | hk | ⟨n, hk⟩ | ⟨n, hk⟩ <;>
    rw [hk]

theorem edgesConsistent_of_interior {edges : EdgeSets} {c : CapsConstraint} {e e' : Nat}
    (hsweeps : sweeps g constraints = .ok edges) (hv : v < g.nodeCount)
    (hc : constraintAt constraints v = .element c) (htee : teePassesThrough g.toGraph constraints v)
    (hin : g.inEdges v = [e]) (hout : g.outEdges v = [e']) :
    edgesConsistent g.toGraph constraints get v = transformPairConsistent c (get e) (get e') := by
  have hinPads := g.length_inEdges hv
  have houtPads := g.length_outEdges hv
  obtain ⟨before, after, happly⟩ := exists_applyNode_of_sweeps hsweeps hv
  have hinE : g.inEdge v = e := by simp [Graph.inEdge, hin]
  have houtE : g.outEdge v = e' := by simp [Graph.outEdge, hout]
  have helement : elementAt constraints v = c := by simp [elementAt, hc]
  unfold teePassesThrough at htee
  unfold edgesConsistent
  rw [hin] at hinPads
  rw [hout] at houtPads
  rcases hk : g.kind v with _ | _ | _ | n | n | n | n <;> rw [hk] at hinPads houtPads
  · simp [NodeKind.inPads] at hinPads
  · simp only [hc, hinE, houtE]
  · simp [NodeKind.outPads] at houtPads
  · -- A tee is consistent when it broadcasts, which is what its pass-through constraint says.
    simp only [hc, hinE, hout, all_cons, all_nil, Bool.and_true]
    simp only [hk, helement] at htee
    rcases htee with rfl | ⟨s, rfl⟩
    · exact Bool.eq_iff_iff.2 ⟨fun h => beq_iff_eq.2 (beq_iff_eq.1 h).symm,
        fun h => beq_iff_eq.2 (beq_iff_eq.1 h).symm⟩
    · exact Bool.eq_iff_iff.2 ⟨fun h => beq_iff_eq.2 (beq_iff_eq.1 h).symm,
        fun h => beq_iff_eq.2 (beq_iff_eq.1 h).symm⟩
  · -- The sweeps refuse a muxer with an element's constraint.
    simp only [applyNode, hk, hc] at happly
    cases happly
  · simp [NodeKind.outPads] at houtPads
  · simp [NodeKind.inPads] at hinPads

end Consistent

/-! ## The assignment along a chain -/

/-- The elements of a chain with the costs they declare. -/
def chainElements (constraints : List NodeConstraint) (preferences : List (Option CapsPreferences))
    (nodes : List Nat) : List ChainNode :=
  nodes.map fun node => ChainNode.new (elementAt constraints node) (preferenceAt preferences node)

/-- The caps a choice puts on the edges of a chain, in chain order. -/
def alongChain (order : List Nat) (choice : List Caps) : List Caps := order.map (chosen choice)

/-- The candidates of the edges of a chain, in chain order. -/
def alongDomains (order : List Nat) (domains : List (List Caps)) : List (List Caps) :=
  order.map fun e => domains.getD e []

/-- Assign to each edge of a chain the candidate picked for it. -/
def assignPicked (order : List Nat) (domains : List (List Caps)) (pick : List Nat)
    (assign : Nat → Option Caps) : Nat → Option Caps :=
  (order.zip (domains.zip pick)).foldl (fun assign (edge, candidates, j) =>
    Function.update assign edge (candidates[j]?)) assign

variable {domains : List (List Caps)}

theorem assignPicked_of_notMem {order : List Nat} {pick : List Nat}
    {assign : Nat → Option Caps} {e : Nat} (he : e ∉ order) : assignPicked order domains pick assign e = assign e := by
  induction order generalizing domains pick assign with
  | nil => rfl
  | cons edge order ih =>
    rw [mem_cons, not_or] at he
    cases domains with
    | nil => rfl
    | cons candidates domains =>
      cases pick with
      | nil => rfl
      | cons j pick => exact (ih he.2).trans (Function.update_of_ne he.1 _ _)

theorem map_assignPicked {order : List Nat} {pick : List Nat}
    {values : List Caps} (assign : Nat → Option Caps) (hnd : order.Nodup)
    (hlen : order.length = domains.length) (h : picked domains pick = some values) :
    order.map (assignPicked order domains pick assign) = values.map some := by
  induction order generalizing domains pick values assign with
  | nil =>
    obtain rfl := List.length_eq_zero_iff.1 hlen.symm
    cases pick with
    | nil =>
      obtain rfl := Option.some.inj h
      rfl
    | cons j pick => simp [picked] at h
  | cons edge order ih =>
    obtain ⟨hedge, hnd⟩ := List.nodup_cons.1 hnd
    cases domains with
    | nil => simp at hlen
    | cons candidates domains =>
      cases pick with
      | nil => simp [picked] at h
      | cons j pick =>
        simp only [picked, Option.bind_eq_bind, Option.bind_eq_some_iff, Option.pure_def, Option.some.injEq] at h
        obtain ⟨a, hj, rest, hrest, rfl⟩ := h
        have hfirst : assignPicked (edge :: order) (candidates :: domains) (j :: pick) assign edge =
            some a :=
          (assignPicked_of_notMem hedge).trans ((Function.update_self edge _ _).trans hj)
        rw [map_cons, hfirst, map_cons]
        congr 1
        exact ih _ hnd (by simpa using hlen) hrest

theorem of_preferredChainAssignment {g : Graph}
    {preferences : List (Option CapsPreferences)} {assign : Nat → Option Caps}
    (h : preferredChainAssignment g constraints preferences domains = some assign) :
    ∃ nodes order pick, chainOrder g constraints = some (nodes, order) ∧
      minCostChain (chainElements constraints preferences nodes) (alongDomains order domains) = some pick ∧
      assign = assignPicked order (alongDomains order domains) pick fun _ => none := by
  unfold preferredChainAssignment at h
  split_ifs at h
  · cases h
  · obtain ⟨⟨nodes, order⟩, horder, h⟩ := Option.bind_eq_some_iff.1 h
    obtain ⟨pick, hpick, h⟩ := Option.bind_eq_some_iff.1 h
    exact ⟨nodes, order, pick, horder, hpick, (Option.some.inj h).symm⟩

theorem nodup_fixatedCandidates (set : CapsSet) (preferred : Option Caps) :
    (fixatedCandidates set preferred).Nodup := by
  refine List.foldlRecOn _ _ nodup_nil fun out hout alt _ => ?_
  exact List.foldlRecOn _ _ hout fun out hout c _ => PartialMeet.nodup_pushNew hout c

theorem nodup_of_domainsOf {g : ValidatedGraph}
    {edges : EdgeSets} (h : domainsOf g constraints edges = .ok domains) :
    ∀ d ∈ domains, d.Nodup := by
  intro d hd
  obtain ⟨i, hi, rfl⟩ := getElem_of_mem hd
  have hall := mapM_eq_ok h
  have hedge := (List.forall₂_iff_get.1 hall).2 i (hall.length_eq ▸ hi) hi
  simp only [get_eq_getElem, edgeDomain] at hedge
  split at hedge
  · split_ifs at hedge
    rw [← Except.ok.inj hedge]
    exact nodup_fixatedCandidates _ _
  · cases hedge

namespace IsChain

variable {g : ValidatedGraph} {nodes order : List Nat} {domains : List (List Caps)}

theorem mem_choices_iff (h : IsChain g nodes order) (hdomains : domains.length = g.edgeCount)
    {choice : List Caps} (hchoice : choice.length = g.edgeCount) :
    choice ∈ choices domains ↔ alongChain order choice ∈ choices (alongDomains order domains) := by
  have hget : ∀ e < g.edgeCount, choice[e]? = some (chosen choice e) ∧
      domains[e]? = some (domains.getD e []) := by
    intro e he
    simp [chosen, hchoice ▸ he, hdomains ▸ he]
  constructor
  · intro hmem
    refine mem_choices_of_getElem (by simp [alongChain, alongDomains]) fun i a d ha hd => ?_
    simp only [alongChain, alongDomains, List.getElem?_map, Option.map_eq_some_iff] at ha hd
    obtain ⟨e, he, rfl⟩ := ha
    obtain ⟨e', he', rfl⟩ := hd
    obtain rfl := Option.some.inj (he.symm.trans he')
    have hlt := (h.edge i e he).1
    exact getElem_mem_of_mem_choices hmem (hget e hlt).1 (hget e hlt).2
  · intro hmem
    refine mem_choices_of_getElem (by omega) fun e a d ha hd => ?_
    obtain ⟨hlt, -⟩ := List.getElem?_eq_some_iff.1 ha
    obtain ⟨i, hi⟩ := mem_iff_getElem?.1 (h.mem_order e (hchoice ▸ hlt))
    have hget := hget e (hchoice ▸ hlt)
    obtain rfl := Option.some.inj (hget.1.symm.trans ha)
    obtain rfl := Option.some.inj (hget.2.symm.trans hd)
    refine getElem_mem_of_mem_choices hmem (i := i) ?_ ?_
    · rw [alongChain, List.getElem?_map, hi, Option.map_some]
    · rw [alongDomains, List.getElem?_map, hi, Option.map_some]

theorem alongChain_map_range (h : IsChain g nodes order) (get : Nat → Caps) :
    alongChain order ((List.range g.edgeCount).map get) = order.map get := by
  refine map_congr_left fun e he => ?_
  obtain ⟨i, hi⟩ := mem_iff_getElem?.1 he
  have hlt := (h.edge i e hi).1
  simp [chosen, hlt]

theorem exists_alongChain (h : IsChain g nodes order) {values : List Caps} (hlen : values.length = order.length) :
    ∃ choice : List Caps, choice.length = g.edgeCount ∧ alongChain order choice = values := by
  refine ⟨(List.range g.edgeCount).map fun e => values.getD (order.idxOf e) .klv, by simp, ?_⟩
  rw [h.alongChain_map_range]
  refine ext_getElem (by simp [hlen]) fun i hi hi' => ?_
  simp [h.nodup_order.idxOf_getElem, hi']

/-- The relations of all nodes are the pairwise check of the elements between two edges. -/
theorem choiceConsistent_iff {edges : EdgeSets} {first last : Nat}
    {middles : List Nat} (h : IsChain g (first :: (middles ++ [last])) order)
    (hsweeps : sweeps g constraints = .ok edges)
    (helement : ∀ v, constraintAt constraints v = .element (elementAt constraints v))
    (htees : ∀ v < g.nodeCount, teePassesThrough g.toGraph constraints v) (choice : List Caps) :
    choiceConsistent g.toGraph constraints choice = true ↔
      chainConsistent (middles.map (elementAt constraints)) (alongChain order choice) = true := by
  have hlen : order.length = middles.length + 1 := by simpa using h.length_eq.symm
  have hmiddle : ∀ i < middles.length, (first :: (middles ++ [last]))[i + 1]? = middles[i]? := by
    intro i hi
    rw [List.getElem?_cons_succ, List.getElem?_append_left hi]
  -- The node at place `i + 1` lies between the edges at places `i` and `i + 1`.
  have hnode : ∀ (i v : Nat), middles[i]? = some v → ∃ e e', order[i]? = some e ∧
      order[i + 1]? = some e' ∧ v < g.nodeCount ∧
      edgesConsistent g.toGraph constraints (chosen choice) v =
        transformPairConsistent (elementAt constraints v) (chosen choice e) (chosen choice e') := by
    intro i v hv
    obtain ⟨hi, -⟩ := List.getElem?_eq_some_iff.1 hv
    have hplace := (hmiddle i hi).trans hv
    have he : order[i]? = some order[i] := List.getElem?_eq_getElem _
    have he' : order[i + 1]? = some order[i + 1] := List.getElem?_eq_getElem _
    have hlt : v < g.nodeCount :=
      List.mem_range.1 (h.nodes_perm.mem_iff.1 (mem_of_getElem? hplace))
    have hin := h.inEdges_eq hplace
    have hout := h.outEdges_eq hplace
    rw [he] at hin
    rw [he'] at hout
    exact ⟨_, _, he, he', hlt, edgesConsistent_of_interior hsweeps hlt (helement v) (htees v hlt) hin hout⟩
  rw [choiceConsistent, all_eq_true, chainConsistent_iff]
  constructor
  · intro hall i c a b hc ha hb
    simp only [alongChain, List.getElem?_map, Option.map_eq_some_iff] at hc ha hb
    obtain ⟨v, hv, rfl⟩ := hc
    obtain ⟨e, he, rfl⟩ := ha
    obtain ⟨e', he', rfl⟩ := hb
    obtain ⟨f, f', hf, hf', hlt, heq⟩ := hnode i v hv
    obtain rfl := Option.some.inj (hf.symm.trans he)
    obtain rfl := Option.some.inj (hf'.symm.trans he')
    exact heq ▸ hall v (List.mem_range.2 hlt)
  · intro hall v hv
    have hlt := List.mem_range.1 hv
    obtain ⟨k, hk⟩ := mem_iff_getElem?.1 (h.nodes_perm.mem_iff.2 hv)
    obtain ⟨hklt, -⟩ := List.getElem?_eq_some_iff.1 hk
    rcases k with _ | i
    · exact edgesConsistent_of_end hlt (Or.inl (h.inEdges_first hk))
    · rcases Nat.lt_or_ge i middles.length with hi | hi
      · have hmid := (hmiddle i hi).symm.trans hk
        obtain ⟨e, e', he, he', -, heq⟩ := hnode i v hmid
        rw [heq]
        exact hall i _ _ _ (by rw [List.getElem?_map, hmid, Option.map_some])
          (by rw [alongChain, List.getElem?_map, he, Option.map_some])
          (by rw [alongChain, List.getElem?_map, he', Option.map_some])
      · refine edgesConsistent_of_end hlt (Or.inr ?_)
        rw [h.outEdges_eq hk, List.getElem?_eq_none (by omega)]
        rfl

end IsChain

/-! ## The least-cost choice -/

/-- What a choice pays along a chain, and which candidates it takes there. -/
def chainEntry (constraints : List NodeConstraint) (preferences : List (Option CapsPreferences))
    (domains : List (List Caps)) (nodes order : List Nat) (choice : List Caps) : Entry :=
  (declaredCost (chainElements constraints preferences nodes) (alongChain order choice),
    pathOf (alongDomains order domains) (alongChain order choice))

theorem of_chainOrder {g : Graph} {nodes order : List Nat} (h : chainOrder g constraints = some (nodes, order)) :
    (∃ first middles last, nodes = first :: (middles ++ [last])) ∧
      ∀ v, constraintAt constraints v = .element (elementAt constraints v) := by
  unfold chainOrder at h
  simp only at h
  split_ifs at h with hsize helement hfan
  split at h
  · split_ifs at h with hlen
    obtain ⟨rfl, -⟩ := h
    constructor
    · generalize (chainWalk g g.nodeCount _).1 = nodes at hlen ⊢
      rcases nodes with _ | ⟨first, rest⟩
      · simp at hlen
        omega
      · rcases eq_nil_or_concat rest with rfl | ⟨middles, last, rfl⟩
        · simp at hlen
          omega
        · exact ⟨first, middles, last, by simp⟩
    · intro v
      have hv : (constraintAt constraints v).isElement = true := by
        rw [constraintAt, getD_eq_getElem?_getD]
        rcases hget : constraints[v]? with _ | c
        · rfl
        · exact List.all_eq_true.1 (by simpa using helement) c (mem_of_getElem? hget)
      unfold elementAt
      cases hc : constraintAt constraints v <;> simp_all [NodeConstraint.isElement]
  · cases h

/-- A solve that takes the chain's assignment returns, along the chain, what the programme picks. -/
theorem alongChain_of_solve {g : ValidatedGraph}
    {preferences : List (Option CapsPreferences)} {choice : List Caps} {domains : List (List Caps)}
    {nodes order : List Nat} (hsolve : solveGraphPreferred g constraints preferences = .ok choice)
    (hdomains : searchDomains g constraints = .ok domains)
    (hchain : chainOrder g.toGraph constraints = some (nodes, order))
    (hchosen : (preferredChainAssignment g.toGraph constraints preferences domains).isSome = true) :
    ∃ edges pick, sweeps g constraints = .ok edges ∧ domainsOf g constraints edges = .ok domains ∧
      minCostChain (chainElements constraints preferences nodes) (alongDomains order domains) =
        some pick ∧ choice.length = g.edgeCount ∧ ∀ values, picked (alongDomains order domains) pick = some values →
        alongChain order choice = values := by
  unfold solveGraphPreferred at hsolve
  unfold searchDomains at hdomains
  split_ifs at hsolve hdomains with hdeg
  obtain ⟨edges, hsweeps, hdomains⟩ := bind_eq_ok.1 hdomains
  obtain ⟨edges', hsweeps', hsolve⟩ := bind_eq_ok.1 hsolve
  obtain rfl := Except.ok.inj (hsweeps.symm.trans hsweeps')
  obtain ⟨domains', hdomains', hsolve⟩ := bind_eq_ok.1 hsolve
  obtain rfl := Except.ok.inj (hdomains.symm.trans hdomains')
  obtain ⟨assign, hassign⟩ := Option.isSome_iff_exists.1 hchosen
  have hchoose : chooseAssignment g.toGraph constraints preferences domains = .ok assign := by
    rw [chooseAssignment, hassign]
  obtain ⟨assign', hassign', hchoice⟩ := bind_eq_ok.1 hsolve
  obtain rfl := Except.ok.inj (hchoose.symm.trans hassign')
  obtain rfl := Except.ok.inj hchoice
  obtain ⟨nodes', order', pick, hchain', hpick, rfl⟩ := of_preferredChainAssignment hassign
  obtain ⟨rfl, rfl⟩ := Prod.mk.inj (Option.some.inj (hchain.symm.trans hchain'))
  have hrow := isChain_of_chainOrder hchain
  refine ⟨edges, pick, hsweeps, hdomains, hpick, by simp, fun values hpicked => ?_⟩
  have hmap := map_assignPicked (fun _ => none) hrow.nodup_order (by simp [alongDomains]) hpicked
  calc alongChain order ((List.range g.edgeCount).map fun e =>
        (assignPicked order (alongDomains order domains) pick (fun _ => none) e).getD .klv)
      = (order.map (assignPicked order (alongDomains order domains) pick fun _ => none)).map
          (Option.getD · .klv) := by rw [hrow.alongChain_map_range, map_map]; rfl
    _ = values := by rw [hmap, map_map]; exact map_id' values

/-- A chain's least-cost choice, where tees pass through and no total saturates, satisfies every
node's relation, costs no more than any other choice that does, and comes first among those that cost
the same. -/
theorem preferredChain_least (g : ValidatedGraph) (constraints : List NodeConstraint)
    (preferences : List (Option CapsPreferences)) (choice : List Caps) (domains : List (List Caps))
    (nodes order : List Nat) (hsolve : solveGraphPreferred g constraints preferences = .ok choice)
    (hdomains : searchDomains g constraints = .ok domains)
    (hchain : chainOrder g.toGraph constraints = some (nodes, order))
    (hchosen : (preferredChainAssignment g.toGraph constraints preferences domains).isSome = true)
    (htees : ∀ v < g.nodeCount, teePassesThrough g.toGraph constraints v)
    (hfit : ∀ other ∈ choices domains, choiceConsistent g.toGraph constraints other = true →
      (chainEntry constraints preferences domains nodes order other).1 ≤ costCap) :
    choice ∈ choices domains ∧ choiceConsistent g.toGraph constraints choice = true ∧
      ∀ other ∈ choices domains, choiceConsistent g.toGraph constraints other = true →
        noLater (chainEntry constraints preferences domains nodes order choice)
          (chainEntry constraints preferences domains nodes order other) := by
  obtain ⟨edges, pick, hsweeps, hedges, hpick, hlength, halong⟩ :=
    alongChain_of_solve hsolve hdomains hchain hchosen
  have hrow := isChain_of_chainOrder hchain
  obtain ⟨⟨first, middles, last, rfl⟩, helement⟩ := of_chainOrder hchain
  have hcount := length_of_domainsOf hedges
  have hlen : (alongDomains order domains).length =
      (chainElements constraints preferences middles).length + 1 := by
    simpa [alongDomains, chainElements] using hrow.length_eq.symm
  have hmiddles : (chainElements constraints preferences middles).map ChainNode.constraint =
      middles.map (elementAt constraints) := map_map
  have hsplit : chainElements constraints preferences (first :: (middles ++ [last])) =
      .new (elementAt constraints first) (preferenceAt preferences first) ::
        (chainElements constraints preferences middles ++
          [.new (elementAt constraints last) (preferenceAt preferences last)]) := by
    simp [chainElements]
  rw [hsplit] at hpick
  obtain ⟨values, hpicked, hvalues, hcons, hleast⟩ := of_minCostChain_eq_some hlen hpick
  rw [← hsplit, hmiddles] at hleast
  rw [hmiddles] at hcons
  have hiff := hrow.choiceConsistent_iff hsweeps helement htees
  obtain rfl := halong values hpicked
  have hnodup : ∀ d ∈ alongDomains order domains, d.Nodup := by
    intro d hd
    obtain ⟨e, he, rfl⟩ := List.mem_map.1 hd
    obtain ⟨i, hi⟩ := mem_iff_getElem?.1 he
    have hlt := (hrow.edge i e hi).1
    rw [← hcount] at hlt
    refine nodup_of_domainsOf hedges _ ?_
    simp [hlt]
  refine ⟨(hrow.mem_choices_iff hcount hlength).2 hvalues, (hiff _).2 hcons,
    fun other hother hok => ?_⟩
  rw [chainEntry, pathOf_of_picked hnodup hpicked]
  have hother' := (hrow.mem_choices_iff hcount ((length_of_mem_choices hother).trans hcount)).1 hother
  refine hleast (fun values' hvalues' hcons' => ?_) _ hother' ((hiff other).1 hok)
  -- Every choice along the chain is a choice for the graph, so its total is below the cap.
  obtain ⟨choice', hlen', rfl⟩ := hrow.exists_alongChain ((length_of_mem_choices hvalues').trans (length_map _))
  exact hfit choice' ((hrow.mem_choices_iff hcount hlen').2 hvalues') ((hiff choice').2 hcons')

/-- A source, a tee with one output, and a sink. -/
def costedTee : ValidatedGraph := .teeChain

/-- Both ends offer two encodings, the source at different costs. -/
def costedTeeConstraints (slot : CapsConstraint) : List NodeConstraint :=
  let both : CapsSet := ⟨[.byteStream .mpegTs, .byteStream .matroska]⟩
  [.element (.produces both), .element slot, .element (.accepts both)]

/-- The source would rather send its second encoding. -/
def costedTeePreferences : List (Option CapsPreferences) := [some ⟨[5, 0]⟩]

/-- With a pass-through tee both edges carry the encoding that is cheaper in total. -/
theorem preferredChain_least_tee : choiceConsistent costedTee.toGraph (costedTeeConstraints .identityAny)
        [.byteStream .matroska, .byteStream .matroska] = true ∧ noLater (1, [1, 1]) (5, [0, 0]) := by
  have hleast := preferredChain_least costedTee (costedTeeConstraints .identityAny)
    costedTeePreferences [.byteStream .matroska, .byteStream .matroska]
    [[.byteStream .mpegTs, .byteStream .matroska], [.byteStream .mpegTs, .byteStream .matroska]]
    [0, 1, 2] [0, 1] (by decide) (by decide +kernel) (by decide +kernel) (by decide +kernel)
    (fun v hv => match v with
      | 0 => trivial
      | 1 => Or.inl rfl
      | 2 => trivial)
    (by decide)
  exact ⟨hleast.2.1, hleast.2.2 [.byteStream .mpegTs, .byteStream .mpegTs] (by decide) (by decide)⟩

/-- A tee whose slot accepts anything is taken for an element that may change its input: the programme
lets each end have its cheapest encoding, and the tee does not carry its input. -/
theorem costedTee_input_not_carried :
    solveGraphPreferred costedTee (costedTeeConstraints .acceptsAny) costedTeePreferences =
        .ok [.byteStream .matroska, .byteStream .mpegTs] ∧
      (preferredChainAssignment costedTee.toGraph (costedTeeConstraints .acceptsAny)
        costedTeePreferences [[.byteStream .mpegTs, .byteStream .matroska],
          [.byteStream .mpegTs, .byteStream .matroska]]).isSome = true ∧
      searchDomains costedTee (costedTeeConstraints .acceptsAny) = .ok [[.byteStream .mpegTs, .byteStream .matroska],
          [.byteStream .mpegTs, .byteStream .matroska]] ∧
      choiceConsistent costedTee.toGraph (costedTeeConstraints .acceptsAny)
        [.byteStream .matroska, .byteStream .mpegTs] = false := by
  decide

end Glass2Glass
