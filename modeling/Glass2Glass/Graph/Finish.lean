import Glass2Glass.Graph.Build
import Glass2Glass.Lib.Kahn

/-!
# Validating graphs

`Graph::finish`: collect the edges of every node, check every node's pads, and sort the nodes
topologically with Kahn's algorithm (`Kahn`). `Valid` says what a pipeline graph has to satisfy, and
`finish_spec` that validation decides it, for every graph the building calls can make: the order
returned is a topological order, the adjacency lists are exact, a graph refused for a cycle names the
nodes that a cycle leads to, and splicing a transform onto an edge keeps a graph valid. A successful
validation yields the `ValidatedGraph` that negotiation works on (`exists_validatedGraph`).
-/

namespace Glass2Glass

open List
open Edge (dst src)

namespace Graph

open Relation

/-- The edge ids into and out of every node, as one pass over the edges collects them. -/
def adjacency (g : Graph) : (Nat → List Nat) × (Nat → List Nat) :=
  g.edges.zipIdx.foldl (fun (inEdges, outEdges) (e, eid) =>
      (Function.update inEdges e.dst.node (inEdges e.dst.node ++ [eid]),
        Function.update outEdges e.src.node (outEdges e.src.node ++ [eid])))
    (fun _ => [], fun _ => [])

/-- Each pad below `count` must be referenced by exactly one edge. -/
def checkPads (count : Nat) (indices : List Nat) (node : Nat) (direction : PadDir) : Except GraphError Unit :=
  let seen := indices.foldl (fun seen idx => Function.update seen idx (seen idx + 1)) fun _ => 0
  (List.range count).forM fun index =>
    if seen index = 0 then .error (.unlinkedPad node index direction)
    else if seen index > 1 then .error (.padCountMismatch node index direction)
    else .ok ()

def checkNode (g : Graph) (inEdges outEdges : Nat → List Nat) (node : Nat) : Except GraphError Unit :=
  if (inEdges node).isEmpty && (outEdges node).isEmpty then .error (.orphanNode node)
  else if (g.kind node).isDegenerate then .error (.degenerateFanNode node)
  else do
    checkPads (g.kind node).inPads ((inEdges node).map fun e => (g.edge e).dst.index) node .input
    checkPads (g.kind node).outPads ((outEdges node).map fun e => (g.edge e).src.index) node .output

def successors (g : Graph) (outEdges : Nat → List Nat) (node : Nat) : List Nat :=
  (outEdges node).map fun e => (g.edge e).dst.node

def topoSort (g : Graph) (inEdges outEdges : Nat → List Nat) : Except GraphError (List Nat) :=
  let n := g.nodeCount
  let s := Kahn.loop (g.successors outEdges) n (Kahn.start (List.range n) fun node => (inEdges node).length)
  if s.topo.length < n then .error (.cycle ((List.range n).filter fun node => !s.processed node))
  else .ok s.topo

/-- What validation returns: the graph, its order and its adjacency lists. -/
structure Finished where
  graph : Graph
  /-- The nodes in topological order. -/
  topo : List Nat
  inEdges : Nat → List Nat
  outEdges : Nat → List Nat

def finish (g : Graph) : Except GraphError Finished := do
  let (inEdges, outEdges) := g.adjacency
  (List.range g.nodeCount).forM (g.checkNode inEdges outEdges)
  let topo ← g.topoSort inEdges outEdges
  return ⟨g, topo, inEdges, outEdges⟩

/-! ## What a graph has to satisfy -/

/-- One node feeds another over some edge. -/
def Feeds (g : Graph) (u v : Nat) : Prop := ∃ e ∈ g.edges, e.src.node = u ∧ e.dst.node = v

/-- A node that a cycle of edges leads to. -/
def BehindCycle (g : Graph) (node : Nat) : Prop :=
  ∃ m, TransGen g.Feeds m m ∧ ReflTransGen g.Feeds m node

/-- A graph that can run. -/
structure Valid (g : Graph) : Prop where
  linked : ∀ node < g.nodeCount, ∃ e ∈ g.edges, e.src.node = node ∨ e.dst.node = node
  /-- No fan node is without a fan. -/
  fan : ∀ k ∈ g.kinds, k.isDegenerate = false
  /-- Every input pad is the end of exactly one edge. -/
  inPads : ∀ node < g.nodeCount, ∀ i < (g.kind node).inPads, (g.edges.map Edge.dst).count ⟨node, i⟩ = 1
  /-- Every output pad is the start of exactly one edge. -/
  outPads : ∀ node < g.nodeCount, ∀ i < (g.kind node).outPads, (g.edges.map Edge.src).count ⟨node, i⟩ = 1
  /-- No node feeds itself, directly or through others. -/
  acyclic : ∀ node, ¬ TransGen g.Feeds node node

variable {g : Graph}

/-! ## Adjacency -/

theorem map_edge_range (g : Graph) : (List.range g.edgeCount).map g.edge = g.edges := by
  refine ext_getElem (by simp [edgeCount]) fun i h h' => ?_
  simp [edge, h']

theorem countP_range (g : Graph) (p : Edge → Bool) :
    (List.range g.edgeCount).countP (fun e => p (g.edge e)) = g.edges.countP p := by
  conv_rhs => rw [← g.map_edge_range, countP_map]
  rfl

theorem adjacency_eq (g : Graph) : g.adjacency = (g.inEdges, g.outEdges) := by
  -- After the first `n` edges, the lists hold the ids below `n`.
  have hpass : ∀ n ≤ g.edgeCount, (g.edges.zipIdx.take n).foldl (fun (inEdges, outEdges) (e, eid) =>
        (Function.update inEdges e.dst.node (inEdges e.dst.node ++ [eid]),
          Function.update outEdges e.src.node (outEdges e.src.node ++ [eid])))
      ((fun _ => [], fun _ => []) : (Nat → List Nat) × (Nat → List Nat)) =
      (fun node => (List.range n).filter fun e => (g.edge e).dst.node == node,
        fun node => (List.range n).filter fun e => (g.edge e).src.node == node) := by
    intro n hn
    induction n with
    | zero => rfl
    | succ n ih =>
      have hlt : n < g.edges.length := hn
      have hget : g.edges.zipIdx[n]? = some (g.edge n, n) := by simp [edge, hlt]
      rw [take_add_one, hget, Option.toList_some, foldl_append, ih (Nat.le_of_succ_le hn)]
      refine Prod.ext (funext fun node => ?_) (funext fun node => ?_)
      all_goals
        simp only [foldl_cons, foldl_nil, range_succ, filter_append]
        rw [Function.update_apply]
        split_ifs with hnode
        · simp [hnode]
        · simp [Ne.symm hnode]
  have hall := hpass g.edgeCount le_rfl
  rw [take_of_length_le (by simp [edgeCount])] at hall
  exact hall

/-! ## Pads -/

theorem foldl_seen (indices : List Nat) (seen : Nat → Nat) (i : Nat) :
    indices.foldl (fun seen idx => Function.update seen idx (seen idx + 1)) seen i = seen i + indices.count i := by
  induction indices generalizing seen with
  | nil => rfl
  | cons idx indices ih =>
    rw [foldl_cons, ih]
    by_cases hi : i = idx
    · rw [hi, Function.update_self, count_cons_self]
      omega
    · rw [Function.update_of_ne hi, count_cons_of_ne (Ne.symm hi)]

variable {node : Nat}

theorem checkPads_eq_ok {count : Nat} {indices : List Nat} {direction : PadDir} :
    checkPads count indices node direction = .ok () ↔ ∀ i < count, indices.count i = 1 := by
  unfold checkPads
  rw [Loop.forM_eq_ok]
  simp only [mem_range, foldl_seen, Nat.zero_add]
  refine forall₂_congr fun i _ => ?_
  split_ifs with hzero hmany
  · simp [hzero]
  · simp only [false_iff]
    omega
  · simp only [true_iff]
    omega

variable {nodes : List Nat}

theorem checkPads_ne_cycle {count : Nat} {indices : List Nat} {direction : PadDir} :
    checkPads count indices node direction ≠ .error (.cycle nodes) := by
  intro h
  obtain ⟨i, -, hi⟩ := Loop.exists_of_forM_eq_error h
  split_ifs at hi <;> cases hi

theorem padId_eq_iff {pad : PadId} {i : Nat} : pad = ⟨node, i⟩ ↔ pad.node = node ∧ pad.index = i := by
  obtain ⟨n, j⟩ := pad
  rw [PadId.mk.injEq]

theorem count_inEdges (g : Graph) (node i : Nat) : ((g.inEdges node).map fun e => (g.edge e).dst.index).count i =
      (g.edges.map dst).count ⟨node, i⟩ := by
  rw [count_eq_countP, countP_map, inEdges, countP_filter, count_eq_countP, countP_map, ← g.countP_range]
  refine countP_congr fun e _ => ?_
  simp [padId_eq_iff, and_comm]

theorem count_outEdges (g : Graph) (node i : Nat) : ((g.outEdges node).map fun e => (g.edge e).src.index).count i =
      (g.edges.map src).count ⟨node, i⟩ := by
  rw [count_eq_countP, countP_map, outEdges, countP_filter, count_eq_countP, countP_map, ← g.countP_range]
  refine countP_congr fun e _ => ?_
  simp [padId_eq_iff, and_comm]

/-! ## Nodes -/

theorem isEmpty_edges_iff (g : Graph) (node : Nat) : ((g.inEdges node).isEmpty && (g.outEdges node).isEmpty) = false ↔
      ∃ e ∈ g.edges, e.src.node = node ∨ e.dst.node = node := by
  rw [Bool.and_eq_false_iff, isEmpty_eq_false_iff_exists_mem, isEmpty_eq_false_iff_exists_mem]
  constructor
  · rintro (⟨e, he⟩ | ⟨e, he⟩)
    · obtain ⟨hlt, hdst⟩ := mem_inEdges.1 he
      exact ⟨g.edge e, edge_mem hlt, .inr hdst⟩
    · obtain ⟨hlt, hsrc⟩ := mem_outEdges.1 he
      exact ⟨g.edge e, edge_mem hlt, .inl hsrc⟩
  · rintro ⟨e, he, hend⟩
    rw [← g.map_edge_range, List.mem_map] at he
    obtain ⟨eid, heid, rfl⟩ := he
    rw [mem_range] at heid
    rcases hend with hsrc | hdst
    · exact .inr ⟨eid, mem_outEdges.2 ⟨heid, hsrc⟩⟩
    · exact .inl ⟨eid, mem_inEdges.2 ⟨heid, hdst⟩⟩

theorem checkNode_eq_ok : g.checkNode g.inEdges g.outEdges node = .ok () ↔
      (∃ e ∈ g.edges, e.src.node = node ∨ e.dst.node = node) ∧ (g.kind node).isDegenerate = false ∧
      (∀ i < (g.kind node).inPads, (g.edges.map dst).count ⟨node, i⟩ = 1) ∧
      ∀ i < (g.kind node).outPads, (g.edges.map src).count ⟨node, i⟩ = 1 := by
  rw [← g.isEmpty_edges_iff]
  simp_rw [← g.count_inEdges, ← g.count_outEdges]
  unfold checkNode
  split_ifs with hempty hfan
  · simp [hempty]
  · simp [hfan]
  · rw [Loop.bind_eq_ok]
    simp only [hempty, hfan, checkPads_eq_ok, true_and]
    exact ⟨fun ⟨_, hin, hout⟩ => ⟨checkPads_eq_ok.1 hin, hout⟩,
      fun ⟨hin, hout⟩ => ⟨(), checkPads_eq_ok.2 hin, hout⟩⟩

theorem checkNode_ne_cycle {inEdges outEdges : Nat → List Nat} :
    g.checkNode inEdges outEdges node ≠ .error (.cycle nodes) := by
  intro h
  unfold checkNode at h
  split_ifs at h
  · cases h
  · cases h
  rcases hin : checkPads (g.kind node).inPads
    ((inEdges node).map fun e => (g.edge e).dst.index) node .input with err | u
  · rw [hin] at h
    cases h
    exact checkPads_ne_cycle hin
  · rw [hin] at h
    exact checkPads_ne_cycle h

/-! ## The order -/

theorem flatMap_outEdges_perm (hg : g.WellFormed) :
    ((List.range g.nodeCount).flatMap g.outEdges).Perm (List.range g.edgeCount) := by
  refine (perm_ext_iff_of_nodup ?_ nodup_range).2 fun e => ?_
  · refine List.nodup_flatMap.2 ⟨fun node _ => nodup_outEdges node, ?_⟩
    refine List.nodup_range.imp ?_
    intro u v huv e heu hev
    exact huv ((mem_outEdges.1 heu).2.symm.trans (mem_outEdges.1 hev).2)
  · simp only [mem_flatMap, mem_range, mem_outEdges]
    constructor
    · rintro ⟨node, -, he, -⟩
      exact he
    · intro he
      exact ⟨_, (hg _ (edge_mem he)).1.1, he, rfl⟩

theorem length_inEdges (hg : g.WellFormed) (node : Nat) : (g.inEdges node).length =
      ((List.range g.nodeCount).flatMap (g.successors g.outEdges)).count node := by
  unfold successors
  rw [← map_flatMap, ((flatMap_outEdges_perm hg).map _).count_eq, count_eq_countP,
    countP_map, inEdges, countP_eq_length_filter]
  rfl

variable {u v : Nat}

theorem isEdge_iff (hg : g.WellFormed) :
    Kahn.IsEdge (g.successors g.outEdges) (List.range g.nodeCount) u v ↔ g.Feeds u v := by
  unfold Kahn.IsEdge successors Feeds
  simp only [mem_range, List.mem_map, mem_outEdges]
  constructor
  · rintro ⟨-, e, ⟨he, hsrc⟩, hdst⟩
    exact ⟨g.edge e, edge_mem he, hsrc, hdst⟩
  · rintro ⟨e, he, rfl, rfl⟩
    refine ⟨(hg e he).1.1, ?_⟩
    rw [← g.map_edge_range, List.mem_map] at he
    obtain ⟨eid, heid, rfl⟩ := he
    exact ⟨eid, ⟨List.mem_range.1 heid, rfl⟩, rfl⟩

def sorted (g : Graph) : Kahn.State Nat :=
  Kahn.loop (g.successors g.outEdges) g.nodeCount
    (Kahn.start (List.range g.nodeCount) fun node => (g.inEdges node).length)

section

variable (hg : g.WellFormed)

include hg

theorem sorted_spec :
    Kahn.Inv (g.successors g.outEdges) (List.range g.nodeCount) g.sorted [] ∧ g.sorted.queue = [] := by
  refine Kahn.loop_spec (Kahn.inv_start nodup_range fun v _ => length_inEdges hg v) ?_ (by simp)
  intro u _ v hv
  obtain ⟨e, he, rfl⟩ := List.mem_map.1 hv
  exact List.mem_range.2 (hg _ (edge_mem (mem_outEdges.1 he).1)).2.1

theorem mem_sorted_iff (hn : node < g.nodeCount) : node ∈ g.sorted.topo ↔ ¬ g.BehindCycle node := by
  obtain ⟨hinv, hq⟩ := sorted_spec hg
  rw [Kahn.mem_topo_iff hinv nodup_range hq (List.mem_range.2 hn)]
  unfold Kahn.OnCycleOut BehindCycle
  have hedge : Kahn.IsEdge (g.successors g.outEdges) (List.range g.nodeCount) = g.Feeds := by
    funext u v
    exact propext (isEdge_iff hg)
  rw [hedge]

theorem idxOf_sorted_lt (hv : v ∈ g.sorted.topo) (huv : g.Feeds u v) :
    g.sorted.topo.idxOf u < g.sorted.topo.idxOf v :=
  (Kahn.idxOf_topo_lt_idxOf (sorted_spec hg).1 hv ((isEdge_iff hg).2 huv)).2

theorem nodup_sorted : g.sorted.topo.Nodup ∧ ∀ node ∈ g.sorted.topo, node < g.nodeCount := by
  obtain ⟨hinv, hq⟩ := sorted_spec hg
  refine ⟨(List.nodup_append.1 hinv.nodup).1, fun node hnode => ?_⟩
  exact List.mem_range.1 (hinv.mem node (mem_append_left _ hnode))

theorem lt_of_transGen (h : TransGen g.Feeds u v) : v < g.nodeCount := by
  rcases h with ⟨⟨e, he, -, rfl⟩⟩ | ⟨-, ⟨e, he, -, rfl⟩⟩ <;> exact (hg e he).2.1

theorem nodeCount_le_length_sorted :
    g.nodeCount ≤ g.sorted.topo.length ↔ ∀ node, ¬ TransGen g.Feeds node node := by
  obtain ⟨hnd, hlt⟩ := nodup_sorted hg
  have hsub : ∀ node ∈ g.sorted.topo, node ∈ List.range g.nodeCount := fun node hnode =>
    List.mem_range.2 (hlt node hnode)
  constructor
  · intro hlen node hcycle
    have hperm := (subperm_of_subset hnd hsub).perm_of_length_le (by simpa using hlen)
    have hn := lt_of_transGen hg hcycle
    have hmem : node ∈ g.sorted.topo := hperm.mem_iff.2 (List.mem_range.2 hn)
    exact (mem_sorted_iff hg hn).1 hmem ⟨node, hcycle, .refl⟩
  · intro hacyclic
    have hall : ∀ node ∈ List.range g.nodeCount, node ∈ g.sorted.topo := fun node hnode =>
      (mem_sorted_iff hg (List.mem_range.1 hnode)).2 fun ⟨m, hm, _⟩ => hacyclic m hm
    simpa using (subperm_of_subset nodup_range hall).length_le

theorem sorted_perm (hlen : g.nodeCount ≤ g.sorted.topo.length) :
    g.sorted.topo.Perm (List.range g.nodeCount) := by
  obtain ⟨hnd, hlt⟩ := nodup_sorted hg
  exact (subperm_of_subset hnd fun node hnode => List.mem_range.2 (hlt node hnode)).perm_of_length_le
    (by simpa using hlen)

end

/-! ## Validation -/

theorem finish_eq (g : Graph) :
    g.finish = ((List.range g.nodeCount).forM (g.checkNode g.inEdges g.outEdges)).bind fun _ =>
      if g.sorted.topo.length < g.nodeCount then
        .error (.cycle ((List.range g.nodeCount).filter fun node => !g.sorted.processed node))
      else .ok ⟨g, g.sorted.topo, g.inEdges, g.outEdges⟩ := by
  unfold finish topoSort sorted
  rw [adjacency_eq]
  dsimp only
  rcases (List.range g.nodeCount).forM (g.checkNode g.inEdges g.outEdges) with err | u
  · rfl
  · simp only [bind, Except.bind]
    split_ifs <;> rfl

theorem forM_checkNode_eq_ok : (List.range g.nodeCount).forM (g.checkNode g.inEdges g.outEdges) = .ok () ↔
      (∀ node < g.nodeCount, ∃ e ∈ g.edges, e.src.node = node ∨ e.dst.node = node) ∧
      (∀ k ∈ g.kinds, k.isDegenerate = false) ∧ (∀ node < g.nodeCount, ∀ i < (g.kind node).inPads,
        (g.edges.map dst).count ⟨node, i⟩ = 1) ∧ ∀ node < g.nodeCount, ∀ i < (g.kind node).outPads,
        (g.edges.map src).count ⟨node, i⟩ = 1 := by
  have hkinds : (∀ k ∈ g.kinds, k.isDegenerate = false) ↔
      ∀ node < g.nodeCount, (g.kind node).isDegenerate = false := by
    rw [forall_mem_iff_getElem]
    refine forall₂_congr fun node hn => ?_
    have hn' : node < g.kinds.length := hn
    simp [kind, hn']
  rw [Loop.forM_eq_ok, hkinds]
  simp only [mem_range, checkNode_eq_ok]
  grind

theorem finish_eq_ok (hg : g.WellFormed) {r : Finished} :
    g.finish = .ok r ↔ g.Valid ∧ r = ⟨g, g.sorted.topo, g.inEdges, g.outEdges⟩ := by
  rw [finish_eq]
  have hchecks := g.forM_checkNode_eq_ok
  have hsort := nodeCount_le_length_sorted hg
  rcases hcheck : (List.range g.nodeCount).forM (g.checkNode g.inEdges g.outEdges) with err | u
  · simp only [Except.bind, reduceCtorEq, false_iff]
    rintro ⟨hvalid, -⟩
    have hok := hchecks.2 ⟨hvalid.linked, hvalid.fan, hvalid.inPads, hvalid.outPads⟩
    rw [hok] at hcheck
    cases hcheck
  · obtain ⟨hlinked, hfan, hin, hout⟩ := hchecks.1 hcheck
    simp only [Except.bind]
    split_ifs with hlen
    · simp only [false_iff]
      rintro ⟨hvalid, -⟩
      have := hsort.2 hvalid.acyclic
      omega
    · have hacyclic := hsort.1 (by omega)
      rw [Except.ok.injEq, eq_comm]
      exact ⟨fun h => ⟨⟨hlinked, hfan, hin, hout, hacyclic⟩, h⟩, fun h => h.2⟩

theorem mem_of_finish_eq_cycle (hg : g.WellFormed) (h : g.finish = .error (.cycle nodes)) :
    nodes.Nodup ∧ ∀ node, node ∈ nodes ↔ g.BehindCycle node := by
  rw [finish_eq] at h
  rcases hcheck : (List.range g.nodeCount).forM (g.checkNode g.inEdges g.outEdges) with err | u
  · rw [hcheck] at h
    cases h
    obtain ⟨node, -, hnode⟩ := Loop.exists_of_forM_eq_error hcheck
    exact absurd hnode checkNode_ne_cycle
  · rw [hcheck] at h
    simp only [Except.bind] at h
    split_ifs at h
    obtain rfl := GraphError.cycle.inj (Except.error.inj h)
    refine ⟨List.nodup_range.filter _, fun node => ?_⟩
    have hproc := (sorted_spec hg).1.processed node
    rw [List.mem_filter, mem_range, Bool.not_eq_true', ← Bool.not_eq_true, hproc]
    constructor
    · rintro ⟨hn, hleft⟩
      exact not_not.1 fun hno => hleft ((mem_sorted_iff hg hn).2 hno)
    · rintro ⟨m, hm, hpath⟩
      have hn : node < g.nodeCount := by
        rcases hpath.cases_tail with rfl | ⟨w, hmw, hw⟩
        · exact lt_of_transGen hg hm
        · exact lt_of_transGen hg (.tail' hmw hw)
      exact ⟨hn, fun hmem => (mem_sorted_iff hg hn).1 hmem ⟨m, hm, hpath⟩⟩

/-! ## Splicing -/

variable {k : Nat}

theorem count_dst_insertOnEdge (hk : k < g.edgeCount) (pad : PadId) :
    ((g.insertOnEdge k).2.edges.map dst).count pad =
      (g.edges.map dst).count pad + if pad = ⟨g.nodeCount, 0⟩ then 1 else 0 := by
  have hk' : k < (g.edges.map dst).length := by
    rw [length_map]
    exact hk
  have hold : (g.edges.map dst)[k] = (g.edge k).dst := by
    have hlt : k < g.edges.length := hk
    simp [edge, hlt]
  have hpos : (g.edge k).dst = pad → 0 < (g.edges.map dst).count pad := by
    rintro rfl
    exact List.count_pos_iff.2 (mem_map_of_mem (edge_mem hk))
  unfold insertOnEdge push
  rw [map_append, map_set, count_append, count_set hk', hold, map_singleton, count_singleton]
  split_ifs with hdst <;> have hpos := hpos <;> grind

theorem count_src_insertOnEdge (hk : k < g.edgeCount) (pad : PadId) :
    ((g.insertOnEdge k).2.edges.map src).count pad =
      (g.edges.map src).count pad + if pad = ⟨g.nodeCount, 0⟩ then 1 else 0 := by
  have hk' : k < (g.edges.map src).length := by
    rw [length_map]
    exact hk
  have hold : (g.edges.map src)[k] = (g.edge k).src := by
    have hlt : k < g.edges.length := hk
    simp [edge, hlt]
  unfold insertOnEdge push
  rw [map_append, map_set, ← hold, set_getElem_self, count_append, map_singleton, count_singleton]
  simp only [beq_iff_eq, eq_comm (a := pad)]

theorem count_new_eq_zero (hg : g.WellFormed) (i : Nat) : (g.edges.map dst).count ⟨g.nodeCount, i⟩ = 0 ∧
      (g.edges.map src).count ⟨g.nodeCount, i⟩ = 0 := by
  refine ⟨List.count_eq_zero.2 fun h => ?_, List.count_eq_zero.2 fun h => ?_⟩
  · obtain ⟨e, he, hdst⟩ := List.mem_map.1 h
    have := (hg e he).2.1
    rw [hdst] at this
    exact absurd this (lt_irrefl _)
  · obtain ⟨e, he, hsrc⟩ := List.mem_map.1 h
    have := (hg e he).1.1
    rw [hsrc] at this
    exact absurd this (lt_irrefl _)

theorem kind_insertOnEdge (hn : node < (g.insertOnEdge k).2.nodeCount) :
    node < g.nodeCount ∧ (g.insertOnEdge k).2.kind node = g.kind node ∨
      node = g.nodeCount ∧ (g.insertOnEdge k).2.kind node = .transform := by
  unfold insertOnEdge push at hn ⊢
  simp only [nodeCount, length_append, length_singleton] at hn
  rcases Nat.lt_succ_iff_lt_or_eq.1 hn with hlt | rfl
  · exact .inl ⟨hlt, kind_append hlt⟩
  · exact .inr ⟨rfl, by simp [kind]⟩

theorem linked_of_pads (hfan : ∀ node < g.nodeCount, (g.kind node).isDegenerate = false)
    (hin : ∀ node < g.nodeCount, ∀ i < (g.kind node).inPads, (g.edges.map dst).count ⟨node, i⟩ = 1)
    (hout : ∀ node < g.nodeCount, ∀ i < (g.kind node).outPads,
      (g.edges.map src).count ⟨node, i⟩ = 1) (hn : node < g.nodeCount) :
    ∃ e ∈ g.edges, e.src.node = node ∨ e.dst.node = node := by
  have hpads := NodeKind.pads_pos (hfan node hn)
  rcases Nat.eq_zero_or_pos (g.kind node).inPads with hzero | hpos
  · have hcount := hout node hn 0 (by omega)
    obtain ⟨e, he, hsrc⟩ := List.mem_map.1 (List.count_pos_iff.1 (by omega :
      0 < (g.edges.map src).count ⟨node, 0⟩))
    exact ⟨e, he, .inl (by rw [hsrc])⟩
  · have hcount := hin node hn 0 hpos
    obtain ⟨e, he, hdst⟩ := List.mem_map.1 (List.count_pos_iff.1 (by omega :
      0 < (g.edges.map dst).count ⟨node, 0⟩))
    exact ⟨e, he, .inr (by rw [hdst])⟩

theorem acyclic_of_rank (rank : Nat → Nat) (h : ∀ u v, g.Feeds u v → rank u < rank v) (node : Nat) :
    ¬ TransGen g.Feeds node node := by
  have hpath : ∀ u v, TransGen g.Feeds u v → rank u < rank v := by
    intro u v huv
    induction huv with
    | single huv => exact h _ _ huv
    | tail _ hvw ih => exact ih.trans (h _ _ hvw)
  exact fun hcycle => lt_irrefl _ (hpath node node hcycle)

theorem feeds_insertOnEdge (h : (g.insertOnEdge k).2.Feeds u v) :
    g.Feeds u v ∨ u = (g.edge k).src.node ∧ v = g.nodeCount ∨ u = g.nodeCount ∧ v = (g.edge k).dst.node := by
  obtain ⟨e, he, rfl, rfl⟩ := h
  rcases List.mem_append.1 he with he | he
  · rcases mem_or_eq_of_mem_set he with he | rfl
    · exact .inl ⟨e, he, rfl, rfl⟩
    · exact .inr (.inl ⟨rfl, rfl⟩)
  · rw [mem_singleton] at he
    rw [he]
    exact .inr (.inr ⟨rfl, rfl⟩)

theorem acyclic_insertOnEdge (hg : g.WellFormed) (hk : k < g.edgeCount)
    (h : ∀ node, ¬ TransGen g.Feeds node node) (node : Nat) : ¬ TransGen (g.insertOnEdge k).2.Feeds node node := by
  have hperm := sorted_perm hg ((nodeCount_le_length_sorted hg).2 h)
  have hold : ∀ u v, g.Feeds u v → u ≠ g.nodeCount ∧ v ≠ g.nodeCount ∧
      g.sorted.topo.idxOf u < g.sorted.topo.idxOf v := by
    rintro u v ⟨e, he, rfl, rfl⟩
    obtain ⟨hsrc, hdst⟩ := hg e he
    have hmem : e.dst.node ∈ g.sorted.topo := hperm.mem_iff.2 (List.mem_range.2 hdst.1)
    exact ⟨hsrc.1.ne, hdst.1.ne, idxOf_sorted_lt hg hmem ⟨e, he, rfl, rfl⟩⟩
  obtain ⟨hsrc, hdst, hlt⟩ := hold _ _ ⟨g.edge k, edge_mem hk, rfl, rfl⟩
  -- Twice the position in the old order; the transform comes right after the edge's start.
  refine acyclic_of_rank (fun v => if v = g.nodeCount then 2 * g.sorted.topo.idxOf (g.edge k).src.node + 1
    else 2 * g.sorted.topo.idxOf v) ?_ node
  intro u v huv
  rcases feeds_insertOnEdge huv with huv | ⟨rfl, rfl⟩ | ⟨rfl, rfl⟩
  · obtain ⟨hu, hv, huv⟩ := hold u v huv
    rw [if_neg hu, if_neg hv]
    omega
  · rw [if_neg hsrc, if_pos rfl]
    omega
  · rw [if_pos rfl, if_neg hdst]
    omega

/-- Splicing a transform onto an edge keeps a graph valid. -/
theorem Valid.insertOnEdge (h : g.Valid) (hg : g.WellFormed) (hk : k < g.edgeCount) : (g.insertOnEdge k).2.Valid := by
  have hin : ∀ node < (g.insertOnEdge k).2.nodeCount, ∀ i < ((g.insertOnEdge k).2.kind node).inPads,
      ((g.insertOnEdge k).2.edges.map dst).count ⟨node, i⟩ = 1 := by
    intro node hn i hi
    rw [count_dst_insertOnEdge hk]
    rcases kind_insertOnEdge hn with ⟨hlt, hkind⟩ | ⟨rfl, hkind⟩
    · rw [hkind] at hi
      rw [h.inPads node hlt i hi, if_neg (by simp [hlt.ne])]
    · rw [hkind] at hi
      obtain rfl : i = 0 := Nat.lt_one_iff.1 hi
      rw [(count_new_eq_zero hg 0).1, if_pos rfl]
  have hout : ∀ node < (g.insertOnEdge k).2.nodeCount, ∀ i < ((g.insertOnEdge k).2.kind node).outPads,
        ((g.insertOnEdge k).2.edges.map src).count ⟨node, i⟩ = 1 := by
    intro node hn i hi
    rw [count_src_insertOnEdge hk]
    rcases kind_insertOnEdge hn with ⟨hlt, hkind⟩ | ⟨rfl, hkind⟩
    · rw [hkind] at hi
      rw [h.outPads node hlt i hi, if_neg (by simp [hlt.ne])]
    · rw [hkind] at hi
      obtain rfl : i = 0 := Nat.lt_one_iff.1 hi
      rw [(count_new_eq_zero hg 0).2, if_pos rfl]
  have hfan : ∀ kind ∈ (g.insertOnEdge k).2.kinds, kind.isDegenerate = false := by
    intro kind hkind
    rcases List.mem_append.1 hkind with hkind | hkind
    · exact h.fan kind hkind
    · rw [mem_singleton] at hkind
      rw [hkind]
      rfl
  have hfan' : ∀ node < (g.insertOnEdge k).2.nodeCount,
      ((g.insertOnEdge k).2.kind node).isDegenerate = false := by
    intro node hn
    have hn' : node < (g.insertOnEdge k).2.kinds.length := hn
    exact hfan _ (by simp [kind, hn'])
  exact ⟨fun node hn => linked_of_pads hfan' hin hout hn, hfan, hin, hout, acyclic_insertOnEdge hg hk h.acyclic⟩

/-- Validation of a graph made by any building calls. It succeeds exactly on valid graphs, its order
and adjacency lists are right, a refusal for a cycle names the nodes behind cycles, and a valid graph
stays valid under splicing. -/
theorem finish_spec (hg : Built g) : ((∃ r, g.finish = .ok r) ↔ g.Valid) ∧ (∀ r, g.finish = .ok r →
      r.topo.Perm (List.range g.nodeCount) ∧ (∀ e ∈ g.edges, r.topo.idxOf e.src.node < r.topo.idxOf e.dst.node) ∧
      (∀ node, (r.inEdges node).Nodup ∧ ∀ e, e ∈ r.inEdges node ↔ e < g.edgeCount ∧ (g.edge e).dst.node = node) ∧
      ∀ node, (r.outEdges node).Nodup ∧ ∀ e, e ∈ r.outEdges node ↔ e < g.edgeCount ∧ (g.edge e).src.node = node) ∧
    (∀ nodes, g.finish = .error (.cycle nodes) → nodes.Nodup ∧ ∀ node, node ∈ nodes ↔ g.BehindCycle node) ∧
    ((∃ r, g.finish = .ok r) → ∀ e < g.edgeCount, ∃ r, (g.insertOnEdge e).2.finish = .ok r) := by
  have hwf := hg.wellFormed
  have hvalid : (∃ r, g.finish = .ok r) ↔ g.Valid := by
    simp only [finish_eq_ok hwf, exists_and_left, exists_eq, and_true]
  refine ⟨hvalid, fun r hr => ?_, fun nodes h => mem_of_finish_eq_cycle hwf h, fun h e he => ?_⟩
  · obtain ⟨hv, rfl⟩ := (finish_eq_ok hwf).1 hr
    have hperm := sorted_perm hwf ((nodeCount_le_length_sorted hwf).2 hv.acyclic)
    refine ⟨hperm, fun e he => ?_, fun node => ⟨nodup_inEdges node, fun e => mem_inEdges⟩,
      fun node => ⟨nodup_outEdges node, fun e => mem_outEdges⟩⟩
    have hdst : e.dst.node ∈ g.sorted.topo := hperm.mem_iff.2 (List.mem_range.2 (hwf e he).2.1)
    exact idxOf_sorted_lt hwf hdst ⟨e, he, rfl, rfl⟩
  · have hv := (hvalid.1 h).insertOnEdge hwf he
    exact ⟨_, (finish_eq_ok (hg.insertOnEdge he).wellFormed).2 ⟨hv, rfl⟩⟩

/-- Two transforms that feed each other. -/
def feedbackLoop : Graph := ⟨[.transform, .transform], [⟨⟨0, 0⟩, ⟨1, 0⟩⟩, ⟨⟨1, 0⟩, ⟨0, 0⟩⟩]⟩

/-- The loop is built without an error and refused with both its nodes. -/
theorem finish_feedbackLoop : Built feedbackLoop ∧ feedbackLoop.finish = .error (.cycle [0, 1]) ∧
      feedbackLoop.BehindCycle 1 := by
  have hfirst : linkFull ⟨[.transform, .transform], []⟩ ⟨0, 0⟩ ⟨1, 0⟩ =
      .ok ⟨[.transform, .transform], [⟨⟨0, 0⟩, ⟨1, 0⟩⟩]⟩ := rfl
  have hsecond : linkFull ⟨[.transform, .transform], [⟨⟨0, 0⟩, ⟨1, 0⟩⟩]⟩ ⟨1, 0⟩ ⟨0, 0⟩ =
      .ok feedbackLoop := rfl
  have hbuilt : Built feedbackLoop :=
    (Built.new.addTransform.addTransform.link hfirst).link hsecond
  have hfinish : feedbackLoop.finish = .error (.cycle [0, 1]) := rfl
  exact ⟨hbuilt, hfinish, (((finish_spec hbuilt).2.2.1 _ hfinish).2 1).1 (by simp)⟩

end Graph

end Glass2Glass
