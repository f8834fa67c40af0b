import Mathlib.Data.List.Perm.Basic
import Mathlib.Data.List.Nodup
import Mathlib.Data.List.Range

/-!
# Validated graphs

The shape of a pipeline as `graph.rs` validates it: nodes with a fixed number of pads, edges between
pads, every pad linked exactly once, and a topological order of the nodes. Nodes and edges are named
by their positions. What `finish` checks is carried as fields of `ValidatedGraph`, so an invalid graph
cannot be written down. An edge's queue policy and capacity are no part of negotiation and are left
out.
-/

namespace Glass2Glass

open List

/-- What a node is, with the number of pads of a fan node. -/
inductive NodeKind where
  | source
  | transform
  | sink
  | tee (n : Nat)
  | muxer (n : Nat)
  | faninSink (n : Nat)
  | fanoutSrc (n : Nat)
  deriving DecidableEq

namespace NodeKind

/-- Number of input pads. -/
def inPads : NodeKind → Nat
  | source | fanoutSrc _ => 0
  | transform | sink | tee _ => 1
  | muxer n | faninSink n => n

/-- Number of output pads. -/
def outPads : NodeKind → Nat
  | sink | faninSink _ => 0
  | source | transform | muxer _ => 1
  | tee n | fanoutSrc n => n

/-- A fan node without a pad on its fan side, refused by validation. -/
def isDegenerate : NodeKind → Bool
  | tee 0 | muxer 0 | faninSink 0 | fanoutSrc 0 => true
  | _ => false

theorem pads_pos {k : NodeKind} (hk : k.isDegenerate = false) : 0 < k.inPads + k.outPads := by
  rcases k with _ | _ | _ | (_ | n) | (_ | n) | (_ | n) | (_ | n) <;>
    simp only [isDegenerate, Bool.true_eq_false] at hk <;> simp only [inPads, outPads] <;> omega

theorem eq_of_pads_eq_zero {k : NodeKind} (hk : k.isDegenerate = false) (hend : k.inPads = 0 ∨ k.outPads = 0) :
    k = source ∨ k = sink ∨ (∃ n, k = faninSink n) ∨ ∃ n, k = fanoutSrc n := by
  rcases k with _ | _ | _ | (_ | n) | (_ | n) | n | n <;>
    simp_all [isDegenerate, inPads, outPads]

end NodeKind

structure PadId where
  node : Nat
  /-- The pad's index on its side of the node. -/
  index : Nat
  deriving DecidableEq, Inhabited

/-- A link from an output pad to an input pad. -/
structure Edge where
  src : PadId
  dst : PadId
  deriving DecidableEq, Inhabited

/-- Nodes and edges, not yet validated. -/
structure Graph where
  kinds : List NodeKind
  edges : List Edge

namespace Graph

variable (g : Graph)

def nodeCount : Nat := g.kinds.length

def edgeCount : Nat := g.edges.length

variable (node : Nat)

def kind : NodeKind := g.kinds.getD node .source

/-- The edge with the given id. -/
def edge (e : Nat) : Edge := g.edges.getD e default

def inEdges : List Nat :=
  (List.range g.edgeCount).filter fun e => (g.edge e).dst.node == node

def outEdges : List Nat :=
  (List.range g.edgeCount).filter fun e => (g.edge e).src.node == node

/-- The first edge into a node; nodes it is asked of have one. -/
def inEdge : Nat := (g.inEdges node).headD 0

/-- The first edge out of a node; nodes it is asked of have one. -/
def outEdge : Nat := (g.outEdges node).headD 0

variable {g}

theorem mem_inEdges {node e : Nat} : e ∈ g.inEdges node ↔ e < g.edgeCount ∧ (g.edge e).dst.node = node := by
  simp [inEdges]

theorem mem_outEdges {node e : Nat} : e ∈ g.outEdges node ↔ e < g.edgeCount ∧ (g.edge e).src.node = node := by
  simp [outEdges]

theorem nodup_inEdges : (g.inEdges node).Nodup := List.nodup_range.filter _

theorem nodup_outEdges : (g.outEdges node).Nodup := List.nodup_range.filter _

theorem edge_mem {e : Nat} (he : e < g.edgeCount) : g.edge e ∈ g.edges := by
  have he' : e < g.edges.length := he
  simp [edge, he']

end Graph

structure ValidatedGraph extends Graph where
  /-- The nodes in topological order. -/
  topo : List Nat
  /-- Edges start at nodes of the graph. -/
  src_lt : ∀ e ∈ edges, e.src.node < kinds.length
  /-- Edges end at nodes of the graph. -/
  dst_lt : ∀ e ∈ edges, e.dst.node < kinds.length
  fan_pos : ∀ k ∈ kinds, k.isDegenerate = false
  /-- Every input pad is linked exactly once. -/
  in_pads : ∀ node < kinds.length, ((toGraph.inEdges node).map fun e => (toGraph.edge e).dst.index).Perm
      (List.range (toGraph.kind node).inPads)
  /-- Every output pad is linked exactly once. -/
  out_pads : ∀ node < kinds.length, ((toGraph.outEdges node).map fun e => (toGraph.edge e).src.index).Perm
      (List.range (toGraph.kind node).outPads)
  /-- The topological order lists every node once. -/
  topo_perm : topo.Perm (List.range kinds.length)
  /-- Edges go forward in the topological order. -/
  topo_lt : ∀ e ∈ edges, topo.idxOf e.src.node < topo.idxOf e.dst.node

namespace ValidatedGraph

variable {g : ValidatedGraph}

theorem eq_singleton_of_perm {l : List Nat} {f : Nat → Nat} (h : (l.map f).Perm (List.range 1)) :
    l = [l.headD 0] ∧ f (l.headD 0) = 0 := by
  have hlen : l.length = 1 := by simpa using h.length_eq
  obtain ⟨e, rfl⟩ := List.length_eq_one_iff.1 hlen
  have hmem : f e ∈ List.range 1 := h.subset (by simp)
  exact ⟨rfl, by simpa using hmem⟩

variable {node : Nat}

section

variable (hn : node < g.nodeCount)

include hn

theorem inEdges_eq (hk : (g.kind node).inPads = 1) : g.inEdges node = [g.inEdge node] :=
  (eq_singleton_of_perm (hk ▸ g.in_pads node hn)).1

theorem outEdges_eq (hk : (g.kind node).outPads = 1) : g.outEdges node = [g.outEdge node] :=
  (eq_singleton_of_perm (hk ▸ g.out_pads node hn)).1

theorem inEdge_mem (hk : (g.kind node).inPads = 1) : g.inEdge node ∈ g.inEdges node := by
  rw [g.inEdges_eq hn hk]
  exact List.mem_singleton.2 rfl

theorem outEdge_mem (hk : (g.kind node).outPads = 1) : g.outEdge node ∈ g.outEdges node := by
  rw [g.outEdges_eq hn hk]
  exact List.mem_singleton.2 rfl

theorem length_inEdges : (g.inEdges node).length = (g.kind node).inPads := by
  simpa using (g.in_pads node hn).length_eq

theorem length_outEdges : (g.outEdges node).length = (g.kind node).outPads := by
  simpa using (g.out_pads node hn).length_eq

theorem isDegenerate_kind : (g.kind node).isDegenerate = false := by
  refine g.fan_pos (g.kind node) ?_
  have hn' : node < g.kinds.length := hn
  simp [Graph.kind, hn']

theorem exists_incident : ∃ e, e ∈ g.inEdges node ++ g.outEdges node := by
  have hpos : 0 < (g.inEdges node ++ g.outEdges node).length := by
    rw [length_append, length_inEdges hn, length_outEdges hn]
    exact NodeKind.pads_pos (isDegenerate_kind hn)
  exact exists_mem_of_length_pos hpos

end

theorem topo_nodup : g.topo.Nodup := g.topo_perm.nodup_iff.2 nodup_range

theorem mem_topo : node ∈ g.topo ↔ node < g.nodeCount := by
  rw [g.topo_perm.mem_iff, mem_range]
  rfl

variable {e : Nat}

theorem src_lt_nodeCount (he : e < g.edgeCount) : (g.edge e).src.node < g.nodeCount :=
  g.src_lt _ (Graph.edge_mem he)

theorem dst_lt_nodeCount (he : e < g.edgeCount) : (g.edge e).dst.node < g.nodeCount :=
  g.dst_lt _ (Graph.edge_mem he)

variable {post pre : List Nat} {v : Nat}

theorem mem_front_of_idxOf_lt {u : Nat} (h : (pre ++ v :: post).idxOf u < (pre ++ v :: post).idxOf v) : u ∈ pre := by
  by_contra hu
  have hle : (pre ++ v :: post).idxOf v ≤ pre.length := by
    by_cases hv : v ∈ pre
    · rw [idxOf_append_of_mem hv]
      exact idxOf_le_length
    · rw [idxOf_append_of_notMem hv]
      simp
  rw [idxOf_append_of_notMem hu] at h
  omega

theorem src_mem_front (ht : g.topo = pre ++ v :: post) (he : e ∈ g.inEdges v) : (g.edge e).src.node ∈ pre := by
  obtain ⟨hlt, hdst⟩ := Graph.mem_inEdges.1 he
  have h := g.topo_lt _ (Graph.edge_mem hlt)
  rw [ht, hdst] at h
  exact mem_front_of_idxOf_lt h

theorem dst_mem_suffix (ht : g.topo = pre ++ v :: post) (he : e ∈ g.outEdges v) : (g.edge e).dst.node ∈ post := by
  obtain ⟨hlt, hsrc⟩ := Graph.mem_outEdges.1 he
  have h := g.topo_lt _ (Graph.edge_mem hlt)
  have hmem : (g.edge e).dst.node ∈ pre ++ v :: post := ht ▸ mem_topo.2 (dst_lt_nodeCount hlt)
  rw [hsrc] at h
  rcases List.mem_append.1 hmem with hpre | hpost
  · -- A consumer in front of the node would come before it in the order.
    have hv : v ∉ pre := by
      have hnd := ht ▸ g.topo_nodup
      exact fun hv => (List.nodup_append.1 hnd).2.2 v hv v mem_cons_self rfl
    rw [ht, idxOf_append_of_mem hpre, idxOf_append_of_notMem hv] at h
    have := idxOf_lt_length_of_mem hpre
    omega
  · rcases List.mem_cons.1 hpost with heq | hpost
    · rw [heq] at h
      omega
    · exact hpost

/-- A source and a sink with a node between them that has one pad on either side. -/
def through (k : NodeKind) (hin : k.inPads = 1) (hout : k.outPads = 1)
    (hfan : k.isDegenerate = false) : ValidatedGraph where
  kinds := [.source, k, .sink]
  edges := [⟨⟨0, 0⟩, ⟨1, 0⟩⟩, ⟨⟨1, 0⟩, ⟨2, 0⟩⟩]
  topo := [0, 1, 2]
  src_lt := by simp
  dst_lt := by simp
  fan_pos := by
    simp only [forall_mem_cons, not_mem_nil, false_imp_iff, implies_true, and_true]
    exact ⟨rfl, hfan, rfl⟩
  in_pads := by
    intro node hn
    match node with
    | 0 => exact .refl _
    | 1 => exact (congrArg List.range hin.symm) ▸ .refl _
    | 2 => exact .refl _
  out_pads := by
    intro node hn
    match node with
    | 0 => exact .refl _
    | 1 => exact (congrArg List.range hout.symm) ▸ .refl _
    | 2 => exact .refl _
  topo_perm := .refl _
  topo_lt := by simp [idxOf_cons]

/-- A tee with one output between a source and a sink. -/
def teeChain : ValidatedGraph := through (.tee 1) rfl rfl rfl

end ValidatedGraph

end Glass2Glass
