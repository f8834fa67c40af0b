import Glass2Glass.Solver.Narrow
import Mathlib.Data.List.Sort

/-!
# Applying a node

One step of the DAG solver's arc consistency (`apply_node` of `runtime/solver.rs`): a node narrows
the sets on its own edges by its constraint. The state maps every edge to its set, if it has one yet.
Failures carry the nodes at the two ends of the link that came out empty.
-/

namespace Glass2Glass

open PartialMeet

/-- The candidate set of every edge, by edge id. -/
abbrev EdgeSets := Nat → Option CapsSet

variable (g : Graph)

def edgeEndpoints (e : Nat) : Nat × Nat := ((g.edge e).src.node, (g.edge e).dst.node)

/-- `EmptyLink` naming the two nodes only. -/
def NegotiationFailure.emptyLinkAt (ends : Nat × Nat) : NegotiationFailure :=
  .emptyLink ends.1 ends.2 none

/-- `EmptyLink` with the sets each end still allowed. -/
def NegotiationFailure.emptyLinkConflict (upstream downstream : Nat) (upSet downSet : CapsSet) : NegotiationFailure :=
  .emptyLink upstream downstream (some ⟨upSet, downSet⟩)

def narrowEdge (edges : EdgeSets) (e : Nat) (contrib : CapsSet) (node : Nat) : Except NegotiationFailure EdgeSets :=
  let next := narrowBy (edges e) contrib
  if next.isEmpty then
    let (up, down) := edgeEndpoints g e
    let other := (edges e).getD ⟨[]⟩
    if (g.edge e).src.node = node then .error (.emptyLinkConflict up down contrib other)
    else .error (.emptyLinkConflict up down other contrib)
  else .ok (Function.update edges e (some next))

/-- Couple two edges to carry equal caps. -/
def coupleEdges (edges : EdgeSets) (a b : Nat) : Except NegotiationFailure EdgeSets :=
  match edges a, edges b with
  | some sa, some sb =>
    let coupled := sa.intersect sb
    if coupled.isEmpty then
      .error (.emptyLinkConflict (edgeEndpoints g a).1 (edgeEndpoints g b).2 sa sb)
    else .ok (Function.update (Function.update edges a (some coupled)) b (some coupled))
  | some sa, none => .ok (Function.update edges b (some sa))
  | none, some sb => .ok (Function.update edges a (some sb))
  | none, none => .ok edges

/-- Forward half of a derivation: narrow its output by the image of its input. -/
def narrowForward (derive : Caps → CapsSet) (inE outE : Nat) (edges : EdgeSets)
    (node : Nat) : Except NegotiationFailure EdgeSets :=
  match edges inE with
  | some inSet =>
    let derived := forwardDerivedUnion derive inSet
    if derived.isEmpty then
      .error (.noOutputForInput (edgeEndpoints g outE).1 (edgeEndpoints g outE).2 inSet)
    else narrowEdge g edges outE derived node
  | none => .ok edges

/-- Backward half of a derivation: narrow its input by `backward` once both edges have a set. -/
def narrowBackward (backward : CapsSet → CapsSet → Except Unit (Option CapsSet))
    (inE outE : Nat) (edges : EdgeSets) : Except NegotiationFailure EdgeSets :=
  match edges inE, edges outE with
  | some inSet, some outSet =>
    match backward inSet outSet with
    | .ok (some narrowed) => .ok (Function.update edges inE (some narrowed))
    | .ok none => .ok edges
    | .error () => .error (.emptyLinkAt (edgeEndpoints g inE))
  | _, _ => .ok edges

/-- Narrow a derivation's edges, forward and then backward. -/
def applyDerived (derive : Caps → CapsSet)
    (backward : CapsSet → CapsSet → Except Unit (Option CapsSet)) (inE outE : Nat)
    (edges : EdgeSets) (node : Nat) : Except NegotiationFailure EdgeSets := do
  let edges ← narrowForward g derive inE outE edges node
  narrowBackward g backward inE outE edges

/-- Narrow a transform's input and output edges. -/
def applyTransformNode (c : CapsConstraint) (inE outE : Nat) (edges : EdgeSets)
    (node : Nat) : Except NegotiationFailure EdgeSets :=
  match c with
  | .identity s => do
    let edges ← narrowEdge g edges inE s node
    let edges ← narrowEdge g edges outE s node
    coupleEdges g edges inE outE
  | .identityAny => coupleEdges g edges inE outE
  | .mapping pairs =>
    let (newIn, newOut) := filterPairs (edges inE) (edges outE) pairs
    if newIn.isEmpty || newOut.isEmpty then
      .error (.emptyLinkConflict (edgeEndpoints g inE).1 (edgeEndpoints g outE).2
        ((edges inE).getD ⟨[]⟩) ((edges outE).getD ⟨[]⟩))
    else .ok (Function.update (Function.update edges inE (some newIn)) outE (some newOut))
  | .derivedOutput f => applyDerived g f (derivedBackward f) inE outE edges node
  | .derivedFields t =>
    applyDerived g t.derive (backwardFieldNarrow t.derive t.passthrough) inE outE edges node
  | _ => .error (.endpointShapeMismatch node)

/-- The intersection of a set with those of several edges, leaving out edges that have none. -/
def meetEdges (edges : EdgeSets) (init : Option CapsSet) (outE : List Nat) : Option CapsSet :=
  outE.foldl (fun acc o => match edges o with
    | some s => some (narrowBy acc s)
    | none => acc) init

/-- A broadcast tee: its input and all its outputs carry one shared set. -/
def applyTeeNode (inE : Nat) (outE : List Nat) (edges : EdgeSets) : Except NegotiationFailure EdgeSets :=
  match meetEdges edges (edges inE) outE with
  | some coupled =>
    if coupled.isEmpty then .error (.emptyLinkAt (edgeEndpoints g inE))
    else .ok (outE.foldl (fun edges o => Function.update edges o (some coupled))
      (Function.update edges inE (some coupled)))
  | none => .ok edges

/-- Narrow an input edge by an accept set; any other input constraint leaves it alone. -/
def narrowInput (node inE : Nat) (input : CapsConstraint) (edges : EdgeSets) : Except NegotiationFailure EdgeSets :=
  match input with
  | .accepts s => narrowEdge g edges inE s node
  | _ => .ok edges

/-- Narrow a demux's output edge by its port's own set, or as a transform of the input. -/
def applyPort (node inE : Nat) (ports : List CapsConstraint) (edges : EdgeSets)
    (o : Nat) : Except NegotiationFailure EdgeSets :=
  match ports[(g.edge o).src.index]? with
  | some (.produces s) => narrowEdge g edges o s node
  | some followsInput => applyTransformNode g followsInput inE o edges node
  | none => .ok edges

def applyDemuxNode (node inE : Nat) (outE : List Nat) (input : CapsConstraint)
    (ports : List CapsConstraint) (edges : EdgeSets) : Except NegotiationFailure EdgeSets := do
  let edges ← narrowInput g node inE input edges
  outE.foldlM (applyPort g node inE ports) edges

variable (node : Nat) (inputs : List CapsConstraint)

/-- Narrow a fan-in node's input edge by its pad's accept set. -/
def narrowPad (edges : EdgeSets) (e : Nat) : Except NegotiationFailure EdgeSets :=
  match inputs[(g.edge e).dst.index]? with
  | some (.accepts set) => narrowEdge g edges e set node
  | some .acceptsAny => .ok edges
  | _ => .error (.endpointShapeMismatch node)

/-- Narrow each input edge of a fan-in node by its pad's accept set. -/
def narrowMuxerInputs (edges : EdgeSets) : Except NegotiationFailure EdgeSets :=
  (g.inEdges node).foldlM (narrowPad g node inputs) edges

/-- The edge into a fan-in node's pad. -/
def padEdge (node pad : Nat) : Option Nat :=
  (g.inEdges node).find? fun e => (g.edge e).dst.index == pad

/-- Narrow a muxer's output by its own set, or couple it to the pad it follows. -/
def narrowMuxerOutput (node : Nat) (output : CapsConstraint) (follows : Option Nat)
    (edges : EdgeSets) : Except NegotiationFailure EdgeSets :=
  match follows, output with
  | some pad, _ =>
    match padEdge g node pad with
    | some inEdge => coupleEdges g edges inEdge (g.outEdge node)
    | none => .error (.endpointShapeMismatch node)
  | none, .produces set => narrowEdge g edges (g.outEdge node) set node
  | none, _ => .error (.endpointShapeMismatch node)

def applyMuxerNode (output : CapsConstraint)
    (follows : Option Nat) (edges : EdgeSets) : Except NegotiationFailure EdgeSets := do
  let edges ← narrowMuxerInputs g node inputs edges
  narrowMuxerOutput g node output follows edges

def padsInOrder (node : Nat) : List (Nat × Nat) :=
  ((g.inEdges node).map fun e => ((g.edge e).dst.index, e)).insertionSort
    fun a b => a.1 < b.1 ∨ a.1 = b.1 ∧ a.2 ≤ b.2

/-- Narrow a batching mux's output by the batches of its inputs' alternatives, once every input has
a set. -/
def narrowBatchOutput (node : Nat) (edges : EdgeSets) : Except NegotiationFailure EdgeSets :=
  match (padsInOrder g node).mapM fun pad => (edges pad.2).map CapsSet.alternatives with
  | some inputSets =>
    narrowEdge g edges (g.outEdge node) ⟨(batchAlternatives inputSets).getD (preferredBatch inputSets)⟩ node
  | none => .ok edges

/-- Narrow each input of a batching mux by its stream of the output, once the output has a set. -/
def narrowBatchInputs (node : Nat) (edges : EdgeSets) : Except NegotiationFailure EdgeSets :=
  let pads := padsInOrder g node
  match edges (g.outEdge node) with
  | some output =>
    pads.zipIdx.foldlM (fun edges pad =>
      narrowEdge g edges pad.1.2 (batchStreamAlternatives output pads.length pad.2) node) edges
  | none => .ok edges

/-- A batching mux: its input pads, its output, and its inputs again. -/
def applyBatchMuxerNode (edges : EdgeSets) : Except NegotiationFailure EdgeSets := do
  let edges ← narrowMuxerInputs g node inputs edges
  let edges ← narrowBatchOutput g node edges
  narrowBatchInputs g node edges

/-- The batches of the given width, each stream narrowed by its port's set; too many is an error. -/
def narrowBatches (node ports : Nat) (portSets : List CapsSet) (batches : List Caps) :
    Except NegotiationFailure (List Caps) :=
  batches.foldlM (fun narrowed alternative =>
    match alternative with
    | .batch streams =>
      if streams.length ≠ ports then .ok narrowed
      else
        let perStream := (streams.zip portSets).map fun (stream, port) =>
          port.alternatives.filterMap fun caps => (stream.intersect caps).toOption
        match batchAlternatives perStream with
        | none => .error (.tooManyBatchAlternatives node)
        | some combined =>
          let narrowed := combined.foldl pushNew narrowed
          if narrowed.length > MAX_BATCH_ALTERNATIVES then .error (.tooManyBatchAlternatives node)
          else .ok narrowed
    | _ => .ok narrowed) []

/-- The sets on the output edges of a fan-out node by port, `none` when a port has none yet. -/
def portSets (outE : List Nat) (ports : Nat) (edges : EdgeSets) : Option (List CapsSet) :=
  let slots := outE.foldl (fun slots o =>
    let port := (g.edge o).src.index
    if port < ports then Function.update slots port (edges o) else slots)
    (fun _ => (none : Option CapsSet))
  (List.range ports).mapM slots

/-- Narrow an unbatching demux's input by the batches of its outputs, once every port has a set. -/
def narrowBatchSource (node inE : Nat) (outE : List Nat) (batches : CapsSet)
    (edges : EdgeSets) : Except NegotiationFailure EdgeSets :=
  match portSets g outE outE.length edges with
  | none => .ok edges
  | some portSets => do
    let narrowed ← narrowBatches node outE.length portSets batches.alternatives
    narrowEdge g edges inE ⟨narrowed⟩ node

/-- Narrow an unbatching demux's outputs by their streams of the input, then the input. -/
def narrowBatchPorts (node inE : Nat) (outE : List Nat) (edges : EdgeSets) : Except NegotiationFailure EdgeSets :=
  match edges inE with
  | none => .ok edges
  | some batches => do
    let edges ← outE.foldlM (fun edges o => narrowEdge g edges o
      (batchStreamAlternatives batches outE.length (g.edge o).src.index) node) edges
    narrowBatchSource g node inE outE batches edges

/-- An unbatching demux: its input by its accept set, then its ports and its input again. -/
def applyBatchDemuxNode (node inE : Nat) (outE : List Nat) (input : CapsConstraint)
    (edges : EdgeSets) : Except NegotiationFailure EdgeSets := do
  let edges ← narrowInput g node inE input edges
  narrowBatchPorts g node inE outE edges

/-- Narrow a fan-out source's output edge by its port's set. -/
def narrowPort (node : Nat) (ports : List CapsConstraint) (edges : EdgeSets) (o : Nat) :
    Except NegotiationFailure EdgeSets :=
  match ports[(g.edge o).src.index]? with
  | some (.produces set) => narrowEdge g edges o set node
  | _ => .error (.endpointShapeMismatch node)

def constraintAt (constraints : List NodeConstraint) (node : Nat) : NodeConstraint :=
  constraints.getD node (.element .identityAny)

/-- One step of arc consistency: a node narrows the sets on its edges. -/
def applyNode (constraints : List NodeConstraint) (node : Nat) (edges : EdgeSets) :
    Except NegotiationFailure EdgeSets :=
  match g.kind node, constraintAt constraints node with
  | .source, .element (.produces s) => narrowEdge g edges (g.outEdge node) s node
  | .sink, .element (.accepts s) => narrowEdge g edges (g.inEdge node) s node
  | .sink, .element .acceptsAny => .ok edges
  | .transform, .element c => applyTransformNode g c (g.inEdge node) (g.outEdge node) edges node
  | .tee _, .demux input ports =>
    applyDemuxNode g node (g.inEdge node) (g.outEdges node) input ports edges
  | .tee _, .batchDemux input =>
    applyBatchDemuxNode g node (g.inEdge node) (g.outEdges node) input edges
  | .tee _, _ => applyTeeNode g (g.inEdge node) (g.outEdges node) edges
  | .muxer _, .muxer inputs output follows => applyMuxerNode g node inputs output follows edges
  | .muxer _, .batchMuxer inputs => applyBatchMuxerNode g node inputs edges
  | .faninSink _, .muxer inputs _ _ => narrowMuxerInputs g node inputs edges
  | .fanoutSrc _, .demux _ ports =>
    (g.outEdges node).foldlM (narrowPort g node ports) edges
  | _, _ => .error (.endpointShapeMismatch node)

end Glass2Glass
