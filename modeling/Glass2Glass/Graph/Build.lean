import Glass2Glass.Graph
import Glass2Glass.Lib.Loop

/-!
# Building graphs

The calls that build a graph before it is validated: adding nodes, linking pads, splicing a transform
onto an edge, and appending another graph, as such or as the interior of a bin. A node's id is its
position, as long as positions fit the 32 bits of an id; its element, name and other payload take no
part in validation and are left out. `Built.wellFormed` says what every graph built by these calls has
in common: its edges join pads that exist. So no index in `finish` is out of range.
-/

namespace Glass2Glass

/-- The input or the output side of a node. -/
inductive PadDir where
  | input
  | output

/-- What a call on a graph is refused for. -/
inductive GraphError where
  | unknownNode (node : Nat)
  | padOutOfRange (node index : Nat) (direction : PadDir)
  | unlinkedPad (node index : Nat) (direction : PadDir)
  | padCountMismatch (node index : Nat) (direction : PadDir)
  | orphanNode (node : Nat)
  | cycle (nodes : List Nat)
  | duplicateGhostPad (node index : Nat) (direction : PadDir)
  | degenerateFanNode (node : Nat)

namespace NodeKind

/-- Number of pads on a side. -/
def pads (k : NodeKind) : PadDir → Nat
  | .input => k.inPads
  | .output => k.outPads

end NodeKind

namespace Graph

def new : Graph := ⟨[], []⟩

variable (g : Graph)

def push (kind : NodeKind) : Nat × Graph :=
  (g.nodeCount, { g with kinds := g.kinds ++ [kind] })

def addSource : Nat × Graph := g.push .source

def addTransform : Nat × Graph := g.push .transform

def addSink : Nat × Graph := g.push .sink

/-- A broadcasting tee; its policy towards branches that refuse is no part of the shape. -/
def addTee (outputs : Nat) : Nat × Graph := g.push (.tee outputs)

def addMuxer (inputs : Nat) : Nat × Graph := g.push (.muxer inputs)

def addFaninSink (inputs : Nat) : Nat × Graph := g.push (.faninSink inputs)

def addFanoutSrc (outputs : Nat) : Nat × Graph := g.push (.fanoutSrc outputs)

def addDemux (outputs : Nat) : Nat × Graph := g.push (.tee outputs)

def kindOf (node : Nat) : Except GraphError NodeKind :=
  match g.kinds[node]? with
  | some kind => .ok kind
  | none => .error (.unknownNode node)

/-- Whether a pad exists on a side of its node. -/
def checkPad (pad : PadId) (direction : PadDir) : Except GraphError Unit := do
  let kind ← g.kindOf pad.node
  if pad.index ≥ kind.pads direction then
    throw (.padOutOfRange pad.node pad.index direction)

def linkFull (src dst : PadId) : Except GraphError Graph := do
  g.checkPad src .output
  g.checkPad dst .input
  return { g with edges := g.edges ++ [⟨src, dst⟩] }

/-- Splice a new transform onto an edge. The edge then ends at the transform, and a new edge leads
from there to where it ended. -/
def insertOnEdge (edgeIdx : Nat) : Nat × Graph :=
  let (new, g') := g.push .transform
  let oldDst := (g.edge edgeIdx).dst
  (new, { g' with
      edges := g'.edges.set edgeIdx { g.edge edgeIdx with dst := ⟨new, 0⟩ } ++ [⟨⟨new, 0⟩, oldDst⟩] })

end Graph

def PadId.shift (offset : Nat) (pad : PadId) : PadId := { pad with node := pad.node + offset }

namespace Graph

/-- Append the nodes and edges of another graph, its node ids shifted by the offset returned. -/
def merge (g inner : Graph) : Nat × Graph :=
  let offset := g.nodeCount
  (offset,
    { kinds := g.kinds ++ inner.kinds
      edges := g.edges ++ inner.edges.map fun e => ⟨e.src.shift offset, e.dst.shift offset⟩ })

end Graph

/-- A subgraph with some of its pads exposed. -/
structure Bin where
  graph : Graph
  /-- The exposed input pads. -/
  ghostIn : List PadId
  /-- The exposed output pads. -/
  ghostOut : List PadId

/-- The exposed pads of a bin within the graph it was added to. -/
structure BinInstance where
  /-- The input pads. -/
  ghostIn : List PadId
  /-- The output pads. -/
  ghostOut : List PadId

def Graph.addBin (g : Graph) (bin : Bin) : BinInstance × Graph :=
  let (offset, g') := g.merge bin.graph
  (⟨bin.ghostIn.map (PadId.shift offset), bin.ghostOut.map (PadId.shift offset)⟩, g')

namespace Graph

/-- The graphs that the building calls make from the empty graph. A call to `insertOnEdge` with no
such edge panics. -/
inductive Built : Graph → Prop where
  | new : Built new
  | addSource {g : Graph} (hg : Built g) : Built g.addSource.2
  | addTransform {g : Graph} (hg : Built g) : Built g.addTransform.2
  | addSink {g : Graph} (hg : Built g) : Built g.addSink.2
  | addTee {g : Graph} (hg : Built g) (outputs : Nat) : Built (g.addTee outputs).2
  | addMuxer {g : Graph} (hg : Built g) (inputs : Nat) : Built (g.addMuxer inputs).2
  | addFaninSink {g : Graph} (hg : Built g) (inputs : Nat) : Built (g.addFaninSink inputs).2
  | addFanoutSrc {g : Graph} (hg : Built g) (outputs : Nat) : Built (g.addFanoutSrc outputs).2
  | addDemux {g : Graph} (hg : Built g) (outputs : Nat) : Built (g.addDemux outputs).2
  | link {g g' : Graph} (hg : Built g) {src dst : PadId} (h : g.linkFull src dst = .ok g') : Built g'
  | insertOnEdge {g : Graph} (hg : Built g) {edgeIdx : Nat} (he : edgeIdx < g.edgeCount) :
    Built (g.insertOnEdge edgeIdx).2
  | merge {g inner : Graph} (hg : Built g) (hinner : Built inner) : Built (g.merge inner).2
  | addBin {g : Graph} (hg : Built g) {bin : Bin} (hbin : Built bin.graph) : Built (g.addBin bin).2

/-! ## Edges join pads that exist -/

/-- A pad exists on a side of its node. -/
def HasPad (g : Graph) (pad : PadId) (direction : PadDir) : Prop :=
  pad.node < g.nodeCount ∧ pad.index < (g.kind pad.node).pads direction

/-- Every edge leads from an output pad to an input pad. -/
def WellFormed (g : Graph) : Prop := ∀ e ∈ g.edges, g.HasPad e.src .output ∧ g.HasPad e.dst .input

variable {g inner : Graph} {pad : PadId} {direction : PadDir}

theorem hasPad_of_checkPad (h : g.checkPad pad direction = .ok ()) : g.HasPad pad direction := by
  unfold checkPad kindOf at h
  rcases hk : g.kinds[pad.node]? with _ | kind
  · rw [hk] at h
    cases h
  · rw [hk] at h
    obtain ⟨hlt, hkind⟩ := List.getElem?_eq_some_iff.1 hk
    have hkind' : g.kind pad.node = kind := by simp [Graph.kind, hk]
    refine ⟨hlt, ?_⟩
    rw [hkind']
    by_contra hge
    simp [bind, Except.bind, Nat.le_of_not_lt hge, throw, throwThe, MonadExceptOf.throw] at h

variable {edges : List Edge}

theorem kind_append {kinds : List NodeKind} {node : Nat}
    (hn : node < g.nodeCount) : (⟨g.kinds ++ kinds, edges⟩ : Graph).kind node = g.kind node := by
  have hlt : node < g.kinds.length := hn
  simp [kind, hlt, List.getElem?_append_left]

theorem HasPad.append {kinds : List NodeKind} (h : g.HasPad pad direction) :
    (⟨g.kinds ++ kinds, edges⟩ : Graph).HasPad pad direction := by
  refine ⟨?_, ?_⟩
  · have hlt : pad.node < g.kinds.length := h.1
    simp only [nodeCount, List.length_append]
    omega
  · rw [kind_append h.1]
    exact h.2

theorem HasPad.shift (h : inner.HasPad pad direction) :
    (⟨g.kinds ++ inner.kinds, edges⟩ : Graph).HasPad (pad.shift g.nodeCount) direction := by
  have hlt : pad.node < inner.kinds.length := h.1
  refine ⟨?_, ?_⟩
  · simp only [nodeCount, List.length_append, PadId.shift]
    omega
  · have hkind : (⟨g.kinds ++ inner.kinds, edges⟩ : Graph).kind (pad.shift g.nodeCount).node =
        inner.kind pad.node := by
      simp [kind, PadId.shift, nodeCount, List.getElem?_append_right]
    rw [hkind]
    exact h.2

theorem WellFormed.push (h : g.WellFormed) (kind : NodeKind) : (g.push kind).2.WellFormed :=
  fun e he => ⟨(h e he).1.append, (h e he).2.append⟩

theorem hasPad_transform (direction : PadDir) :
    (⟨g.kinds ++ [.transform], edges⟩ : Graph).HasPad ⟨g.nodeCount, 0⟩ direction := by
  refine ⟨by simp [nodeCount], ?_⟩
  have hkind : (⟨g.kinds ++ [.transform], edges⟩ : Graph).kind g.nodeCount = .transform := by
    simp [kind, nodeCount]
  rw [hkind]
  cases direction <;> exact Nat.one_pos

theorem WellFormed.insertOnEdge (h : g.WellFormed) {edgeIdx : Nat} (he : edgeIdx < g.edgeCount) :
    (g.insertOnEdge edgeIdx).2.WellFormed := by
  have hold := h _ (edge_mem he)
  unfold Graph.insertOnEdge Graph.push
  intro e hmem
  rcases List.mem_append.1 hmem with hmem | hmem
  · rcases List.mem_or_eq_of_mem_set hmem with hmem | rfl
    · exact ⟨(h e hmem).1.append, (h e hmem).2.append⟩
    · exact ⟨hold.1.append, hasPad_transform .input⟩
  · rw [List.mem_singleton] at hmem
    rw [hmem]
    exact ⟨hasPad_transform .output, hold.2.append⟩

theorem WellFormed.merge (h : g.WellFormed) (hinner : inner.WellFormed) : (g.merge inner).2.WellFormed := by
  unfold Graph.merge
  intro e hmem
  rcases List.mem_append.1 hmem with hmem | hmem
  · exact ⟨(h e hmem).1.append, (h e hmem).2.append⟩
  · obtain ⟨e', he', rfl⟩ := List.mem_map.1 hmem
    exact ⟨(hinner e' he').1.shift, (hinner e' he').2.shift⟩

theorem WellFormed.link {g' : Graph} {src dst : PadId} (h : g.WellFormed)
    (hlink : g.linkFull src dst = .ok g') : g'.WellFormed := by
  obtain ⟨_, hsrc, hlink⟩ := Loop.bind_eq_ok.1 hlink
  obtain ⟨_, hdst, hlink⟩ := Loop.bind_eq_ok.1 hlink
  obtain rfl := Except.ok.inj hlink
  intro e hmem
  rcases List.mem_append.1 hmem with hmem | hmem
  · exact h e hmem
  · rw [List.mem_singleton] at hmem
    rw [hmem]
    exact ⟨hasPad_of_checkPad hsrc, hasPad_of_checkPad hdst⟩

theorem Built.wellFormed (h : Built g) : g.WellFormed := by
  induction h with
  | new => exact fun e he => absurd he List.not_mem_nil
  | addSource _ ih | addTransform _ ih | addSink _ ih | addTee _ _ ih | addMuxer _ _ ih
  | addFaninSink _ _ ih | addFanoutSrc _ _ ih | addDemux _ _ ih => exact ih.push _
  | link _ hlink ih => exact ih.link hlink
  | insertOnEdge _ he ih => exact ih.insertOnEdge he
  | merge _ _ ih ihinner => exact ih.merge ihinner
  | addBin _ _ ih ihbin => exact ih.merge ihbin

end Graph

end Glass2Glass
