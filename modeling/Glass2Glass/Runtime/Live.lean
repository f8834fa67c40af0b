import Glass2Glass.Graph
import Glass2Glass.Runtime.Topology
import Mathlib.Data.List.GetD

/-!
# The topology that a run starts with

`live_topology` (`g2g-core/src/runtime/graph_runner.rs`): the tables of a `MutationService` for a validated
graph, with an entry for every node and for every edge that has an endpoint. They are sound
(`sound_liveTopology`): what validation promises of the graph is what the operations rely on.
-/

namespace Glass2Glass.Runtime

open List

/-- What the runner knows of a graph beside its shape, by node and by edge. -/
structure Startup where
  name : Nat → InstanceName
  demux : Nat → Bool
  /-- How a tee takes a branch it cannot negotiate. -/
  fanoutPolicy : Nat → BranchMode
  /-- The inputs that a muxer declares. -/
  inputCount : Nat → Nat
  /-- The handback channel of the node's arm. -/
  done : Nat → Option Handback
  endpoint : Nat → Option Nat
  feasible : Nat → Option CapsSet
  policy : Nat → LinkPolicy
  capacity : Nat → Option Nat
  branchMode : Nat → BranchMode
  linkCapacity : Nat

namespace Startup

variable (start : Startup) (g : ValidatedGraph)

/-- A plain tee and a muxer take new edges while they run. -/
def growth (node : Nat) : Growth :=
  match g.kind node with
  | .tee _ => if start.demux node then .fixed else .branches (start.fanoutPolicy node)
  | .muxer _ => .inputs ((g.inEdges node).map fun e => (g.edge e).dst.index) (start.inputCount node)
  | _ => .fixed

/-- A node before its edges are known. -/
def liveNode (node : Nat) : LiveNode :=
  { name := start.name node, namedAtStartup := true, outEdges := [], inEdges := []
    totalOutEdges := (g.outEdges node).length, totalInEdges := (g.inEdges node).length
    done := start.done node, removable := g.kind node == .transform, growth := start.growth g node }

def liveEdge (e endpoint : Nat) : LiveEdge :=
  { endpoint, consumer := (g.edge e).dst.node, feasible := start.feasible e, policy := start.policy e
    capacity := (start.capacity e).getD start.linkCapacity, mode := start.branchMode (g.edge e).dst.node }

def addEdge (tables : List LiveNode × List LiveEdge) (e : Nat) : List LiveNode × List LiveEdge :=
  match start.endpoint e with
  | none => tables
  | some endpoint =>
    let k := tables.2.length
    let nodes := tables.1.modify (g.edge e).src.node fun n => { n with outEdges := n.outEdges ++ [k] }
    let nodes := nodes.modify (g.edge e).dst.node fun n => { n with inEdges := n.inEdges ++ [k] }
    (nodes, tables.2 ++ [start.liveEdge g e endpoint])

/-- The tables of the graph. -/
def liveTopology : List LiveNode × List LiveEdge :=
  (List.range g.edgeCount).foldl (start.addEdge g) ((List.range g.nodeCount).map (start.liveNode g), [])

def service (endpoints : Nat → ProducerEndpoint) (fresh : Nat) : MutationService :=
  { nodes := Slots.new (start.liveTopology g).1, edges := Slots.new (start.liveTopology g).2
    nameFloors := fun _ => none, linkCapacity := start.linkCapacity, endpoints, fresh }

variable {start g}

/-! ## The tables in closed form -/

def mutableEdges (start : Startup) (edges : List Nat) : List Nat := edges.filter fun e => (start.endpoint e).isSome

def positions (edges : List Nat) (p : Nat → Bool) : List Nat :=
  (List.range edges.length).filter fun k => p (edges.getD k 0)

theorem mem_positions {edges : List Nat} {p : Nat → Bool} {k : Nat} :
    k ∈ positions edges p ↔ ∃ e, edges[k]? = some e ∧ p e = true := by
  unfold positions
  rw [List.mem_filter, mem_range]
  constructor
  · rintro ⟨hk, hp⟩
    refine ⟨edges[k], List.getElem?_eq_getElem hk, ?_⟩
    rwa [getD_eq_getElem _ _ hk] at hp
  · rintro ⟨e, he, hp⟩
    obtain ⟨hk, rfl⟩ := List.getElem?_eq_some_iff.1 he
    exact ⟨hk, by rwa [getD_eq_getElem _ _ hk]⟩

theorem positions_append {edges : List Nat} {p : Nat → Bool} {e : Nat} :
    positions (edges ++ [e]) p = positions edges p ++ if p e then [edges.length] else [] := by
  unfold positions
  rw [length_append, length_singleton, range_succ, filter_append]
  congr 1
  · refine filter_congr fun k hk => ?_
    rw [getD_append _ _ _ _ (List.mem_range.1 hk)]
  · simp only [filter_cons, filter_nil, getD_append_right _ _ _ _ (Nat.le_refl _), Nat.sub_self, getD_cons_zero]

/-- A node with its edges among the given ones. -/
def nodeWith (start : Startup) (g : ValidatedGraph) (edges : List Nat) (node : Nat) : LiveNode :=
  { start.liveNode g node with
    outEdges := positions edges fun e => (g.edge e).src.node == node
    inEdges := positions edges fun e => (g.edge e).dst.node == node }

theorem modify_map_range {α : Type} {f : Nat → α} {change : α → α} {n p : Nat} :
    ((List.range n).map f).modify p change = (List.range n).map fun i => if i = p then change (f i) else f i := by
  refine ext_getElem (by simp) fun i h h' => ?_
  rw [getElem_modify, getElem_map, getElem_map, getElem_range]
  by_cases hp : p = i
  · rw [if_pos hp, if_pos hp.symm]
  · rw [if_neg hp, if_neg (Ne.symm hp)]

theorem foldl_addEdge (edges : List Nat) :
    edges.foldl (start.addEdge g) ((List.range g.nodeCount).map (start.liveNode g), []) =
      ((List.range g.nodeCount).map (start.nodeWith g (start.mutableEdges edges)),
        (start.mutableEdges edges).map fun e => start.liveEdge g e ((start.endpoint e).getD 0)) := by
  induction edges using List.reverseRecOn with
  | nil => rfl
  | append_singleton edges e ih =>
    rw [foldl_append, ih, foldl_cons, foldl_nil]
    unfold addEdge mutableEdges
    rw [filter_append]
    rcases hendpoint : start.endpoint e with _ | endpoint
    · simp [hendpoint]
    · dsimp only
      have hlast : [e].filter (fun e => (start.endpoint e).isSome) = [e] := by
        rw [filter_singleton, hendpoint]
        rfl
      rw [modify_map_range, modify_map_range, hlast, map_append, length_map]
      refine Prod.ext (map_congr_left fun i _ => ?_) ?_
      · unfold nodeWith
        rw [positions_append, positions_append]
        by_cases hdst : i = (g.edge e).dst.node <;> by_cases hsrc : i = (g.edge e).src.node
        all_goals simp only [hdst, hsrc, if_true, if_false, beq_iff_eq]
        all_goals grind
      · simp [hendpoint]

section Service

variable {endpoints : Nat → ProducerEndpoint} {fresh : Nat}

/-- The edges that the tables hold, in their order. -/
def tableEdges (start : Startup) (g : ValidatedGraph) : List Nat := start.mutableEdges (List.range g.edgeCount)

theorem nodes_service {i : Nat} {n : LiveNode} : (start.service g endpoints fresh).topology.nodes i = some n ↔
    i < g.nodeCount ∧ start.nodeWith g (start.tableEdges g) i = n := by
  have hget : (start.service g endpoints fresh).topology.nodes i =
      ((List.range g.nodeCount).map (start.nodeWith g (start.tableEdges g)))[i]? := by
    unfold service liveTopology
    rw [foldl_addEdge]
    exact congrFun (Slots.get?_new _) i
  rw [hget, List.getElem?_map, Option.map_eq_some_iff]
  simp only [List.getElem?_eq_some_iff, getElem_range, length_range]
  constructor
  · rintro ⟨_, ⟨hi, rfl⟩, rfl⟩
    exact ⟨hi, rfl⟩
  · rintro ⟨hi, rfl⟩
    exact ⟨i, ⟨hi, rfl⟩, rfl⟩

theorem target_service {k c : Nat} : (start.service g endpoints fresh).topology.wiring.target k = some c ↔
    ∃ e, (start.tableEdges g)[k]? = some e ∧ (g.edge e).dst.node = c := by
  have hget : (start.service g endpoints fresh).topology.edges k =
      ((start.tableEdges g).map fun e => start.liveEdge g e ((start.endpoint e).getD 0))[k]? := by
    unfold service liveTopology
    rw [foldl_addEdge]
    exact congrFun (Slots.get?_new _) k
  show Option.map _ _ = _ ↔ _
  rw [hget, List.getElem?_map, Option.map_map, Option.map_eq_some_iff]
  exact Iff.rfl

theorem lt_of_mem_tableEdges {k e : Nat} (h : (start.tableEdges g)[k]? = some e) : e < g.edgeCount :=
  List.mem_range.1 (mem_of_mem_filter (mem_of_getElem? h))

theorem live_service {i : Nat} : (start.service g endpoints fresh).topology.wiring.live i ↔ i < g.nodeCount := by
  constructor
  · intro h
    obtain ⟨n, hn⟩ := Topology.exists_node h
    exact (nodes_service.1 hn).1
  · exact fun hi => Topology.live_of_node (nodes_service.2 ⟨hi, rfl⟩)

theorem mem_ins_service {k i : Nat} : k ∈ (start.service g endpoints fresh).topology.wiring.ins i ↔
    i < g.nodeCount ∧ ∃ e, (start.tableEdges g)[k]? = some e ∧ (g.edge e).dst.node = i := by
  by_cases hi : i < g.nodeCount
  · rw [Topology.ins_of_node (nodes_service.2 ⟨hi, rfl⟩)]
    simp [nodeWith, mem_positions, hi]
  · have hnone : (start.service g endpoints fresh).topology.nodes i = none :=
      Option.eq_none_iff_forall_not_mem.2 fun n hn => hi (nodes_service.1 hn).1
    simp [Topology.wiring, hnone, hi]

theorem mem_outs_service {k i : Nat} : k ∈ (start.service g endpoints fresh).topology.wiring.outs i ↔
    i < g.nodeCount ∧ ∃ e, (start.tableEdges g)[k]? = some e ∧ (g.edge e).src.node = i := by
  by_cases hi : i < g.nodeCount
  · rw [Topology.outs_of_node (nodes_service.2 ⟨hi, rfl⟩)]
    simp [nodeWith, mem_positions, hi]
  · have hnone : (start.service g endpoints fresh).topology.nodes i = none :=
      Option.eq_none_iff_forall_not_mem.2 fun n hn => hi (nodes_service.1 hn).1
    simp [Topology.wiring, hnone, hi]

theorem length_positions_le {edges : List Nat} {p : Nat → Bool} (hnodup : edges.Nodup) (counted : List Nat)
    (h : ∀ e ∈ edges, p e = true → e ∈ counted) : (positions edges p).length ≤ counted.length := by
  have hget : ∀ k ∈ positions edges p, ∃ hk : k < edges.length, edges.getD k 0 = edges[k] ∧ p edges[k] = true := by
    intro k hk
    obtain ⟨e, he, hp⟩ := mem_positions.1 hk
    obtain ⟨hlt, rfl⟩ := List.getElem?_eq_some_iff.1 he
    exact ⟨hlt, getD_eq_getElem _ _ hlt, hp⟩
  have hmap : ((positions edges p).map fun k => edges.getD k 0).Nodup := by
    refine List.Nodup.map_on (fun k hk k' hk' heq => ?_) (List.nodup_range.filter _)
    obtain ⟨hlt, hk, -⟩ := hget k hk
    obtain ⟨hlt', hk', -⟩ := hget k' hk'
    rw [hk, hk'] at heq
    exact hnodup.getElem_inj_iff.1 heq
  have hsub : (positions edges p).map (fun k => edges.getD k 0) ⊆ counted := by
    intro e he
    obtain ⟨k, hk, rfl⟩ := List.mem_map.1 he
    obtain ⟨hlt, hk, hp⟩ := hget k hk
    rw [hk]
    exact h _ (getElem_mem hlt) hp
  simpa using List.Nodup.length_le_of_subset hmap hsub

theorem wellFormed_service : (start.service g endpoints fresh).topology.wiring.WellFormed where
  live_ins i hi := List.eq_nil_iff_forall_not_mem.2 fun k hk => hi (live_service.2 (mem_ins_service.1 hk).1)
  live_outs i hi := List.eq_nil_iff_forall_not_mem.2 fun k hk => hi (live_service.2 (mem_outs_service.1 hk).1)
  mem_ins k i := by
    rw [mem_ins_service, target_service]
    refine and_iff_right_of_imp ?_
    rintro ⟨e, he, rfl⟩
    exact ValidatedGraph.dst_lt_nodeCount (lt_of_mem_tableEdges he)
  source k c hk := by
    obtain ⟨e, he, -⟩ := target_service.1 hk
    exact ⟨_, mem_outs_service.2 ⟨ValidatedGraph.src_lt_nodeCount (lt_of_mem_tableEdges he), e, he, rfl⟩⟩
  edge k i hk := by
    obtain ⟨-, e, he, -⟩ := mem_outs_service.1 hk
    exact ⟨_, target_service.2 ⟨e, he, rfl⟩⟩
  unique k i j hi hj := by
    obtain ⟨-, e, he, rfl⟩ := mem_outs_service.1 hi
    obtain ⟨-, e', he', rfl⟩ := mem_outs_service.1 hj
    rw [Option.some.inj (he.symm.trans he')]
  nodup_ins i := by
    by_cases hi : i < g.nodeCount
    · rw [Topology.ins_of_node (nodes_service.2 ⟨hi, rfl⟩)]
      exact List.nodup_range.filter _
    · have hnone : (start.service g endpoints fresh).topology.nodes i = none :=
        Option.eq_none_iff_forall_not_mem.2 fun n hn => hi (nodes_service.1 hn).1
      simp [Topology.wiring, hnone]
  nodup_outs i := by
    by_cases hi : i < g.nodeCount
    · rw [Topology.outs_of_node (nodes_service.2 ⟨hi, rfl⟩)]
      exact List.nodup_range.filter _
    · have hnone : (start.service g endpoints fresh).topology.nodes i = none :=
        Option.eq_none_iff_forall_not_mem.2 fun n hn => hi (nodes_service.1 hn).1
      simp [Topology.wiring, hnone]

theorem sound_liveTopology : (start.service g endpoints fresh).topology.Sound where
  wellFormed := wellFormed_service
  acyclic := by
    refine ⟨fun i => g.topo.idxOf i, fun i k c hop => ?_⟩
    obtain ⟨-, e, he, rfl⟩ := mem_outs_service.1 hop.1
    obtain ⟨e', he', rfl⟩ := target_service.1 hop.2
    obtain rfl := Option.some.inj (he.symm.trans he')
    exact g.topo_lt _ (Graph.edge_mem (lt_of_mem_tableEdges he))
  fits i n hn := by
    obtain ⟨hi, rfl⟩ := nodes_service.1 hn
    have hnodup : (start.tableEdges g).Nodup := List.nodup_range.filter _
    have hlt : ∀ e ∈ start.tableEdges g, e < g.edgeCount := fun e he => List.mem_range.1 (mem_of_mem_filter he)
    have hin : (start.nodeWith g (start.tableEdges g) i).inEdges.length ≤ (g.inEdges i).length :=
      length_positions_le hnodup _ fun e he hp => Graph.mem_inEdges.2 ⟨hlt e he, beq_iff_eq.1 hp⟩
    have hout : (start.nodeWith g (start.tableEdges g) i).outEdges.length ≤ (g.outEdges i).length :=
      length_positions_le hnodup _ fun e he hp => Graph.mem_outEdges.2 ⟨hlt e he, beq_iff_eq.1 hp⟩
    refine ⟨hin, hout, fun hr => ?_⟩
    have hkind : g.kind i = .transform := beq_iff_eq.1 hr
    refine ⟨(ValidatedGraph.length_outEdges hi).trans (by rw [hkind]; rfl), ?_⟩
    show start.growth g i = .fixed
    unfold growth
    rw [hkind]

end Service

end Startup

end Glass2Glass.Runtime
