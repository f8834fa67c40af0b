import Glass2Glass.Caps.Transform
import Glass2Glass.Graph

/-!
# Negotiation constraints

What an element says about the caps on its links (`format_element.rs`), what a node of a graph says
about its edges (`runtime/solver.rs`), and how negotiation fails. The last section is the meaning of
a constraint on one choice of caps per edge: the sets its edges must be drawn from, and the relation
between them.
-/

namespace Glass2Glass

/-- What one element allows on its links. -/
inductive CapsConstraint where
  /-- Sink: the input link is drawn from a set. -/
  | accepts (set : CapsSet)
  /-- Source: the output link is drawn from a set. -/
  | produces (set : CapsSet)
  /-- Pass-through: input and output are equal and drawn from a set. -/
  | identity (set : CapsSet)
  /-- The legal pairs of input and output. -/
  | mapping (pairs : List (CapsSet × CapsSet))
  /-- The output is drawn from a function of the input. -/
  | derivedOutput (f : Caps → CapsSet)
  | derivedFields (t : CapsTransform)
  /-- Sink that takes anything. -/
  | acceptsAny
  /-- Pass-through of anything. -/
  | identityAny

/-- A cost for each advertised alternative, lower preferred. -/
structure CapsPreferences where
  /-- The costs, in alternative order. -/
  costs : List UInt32

namespace CapsPreferences

/-- Whether nothing is declared. -/
def isEmpty (p : CapsPreferences) : Bool := p.costs.isEmpty

/-- The cost of an alternative; an undeclared one costs its index, as a 32-bit word. -/
def cost (p : CapsPreferences) (index : Nat) : UInt32 :=
  (p.costs[index]?).getD (UInt32.ofNat index)

end CapsPreferences

/-- What one node allows on its edges. -/
inductive NodeConstraint where
  /-- A source, transform or sink. A tee's slot is ignored. -/
  | element (c : CapsConstraint)
  /-- Fan-in: a constraint per input pad, and the output's own set or the input pad it follows. -/
  | muxer (inputs : List CapsConstraint) (output : CapsConstraint) (follows : Option Nat)
  /-- Fan-out with a constraint per port. -/
  | demux (input : CapsConstraint) (ports : List CapsConstraint)
  /-- Fan-in whose output is the batch of its inputs. -/
  | batchMuxer (inputs : List CapsConstraint)
  /-- Fan-out whose input is the batch of its outputs. -/
  | batchDemux (input : CapsConstraint)

/-- The sets the two ends of a link still allowed. -/
structure CapsConflict where
  /-- What the upstream end offered. -/
  upstream : CapsSet
  /-- What the downstream end demanded. -/
  downstream : CapsSet
  deriving DecidableEq

inductive NegotiationFailure where
  | emptyLink (upstream downstream : Nat) (conflict : Option CapsConflict)
  | degenerate
  | endpointShapeMismatch (index : Nat)
  | unfixable (upstream downstream : Nat)
  | cyclic
  | noConsistentFixation
  | noOutputForInput (upstream downstream : Nat) (input : CapsSet)
  | tooManyBatchAlternatives (index : Nat)
  deriving DecidableEq

/-! ## The meaning of a constraint -/

namespace CapsConstraint

/-- The relation between a transform's input and its output. -/
def relates : CapsConstraint → Caps → Caps → Prop
  | identity _, input, output => input = output
  | identityAny, input, output => input = output
  | mapping pairs, input, output => ∃ pair ∈ pairs, pair.1.accepts input ∧ pair.2.accepts output
  | derivedOutput f, input, output => (f input).accepts output
  | derivedFields t, input, output => (t.derive input).accepts output
  | _, _, _ => True

/-- A pass-through with a set draws its caps from the set. -/
def drawsFrom : CapsConstraint → Caps → Prop
  | identity set, input => set.contains input
  | _, _ => True

/-- What an input constraint demands of its link. -/
def acceptsInput : CapsConstraint → Caps → Prop
  | accepts set, input => set.contains input
  | _, _ => True

/-- What an output constraint demands of its link. -/
def producesOutput : CapsConstraint → Caps → Prop
  | produces set, output => set.contains output
  | _, _ => True

end CapsConstraint

/-- `caps` is the batch of the caps on `edges`, the one of pad `i` as stream `i`. -/
def isBatchOf (caps : Caps) (edges : List Nat) (pad : Nat → Nat) (sol : Nat → Caps) : Prop :=
  ∃ streams, caps = .batch streams ∧ streams.length = edges.length ∧ ∀ e ∈ edges, streams[pad e]? = some (sol e)

/-- Every linked input pad of a fan-in node takes the caps on its edge. -/
def padsAccept (g : Graph) (node : Nat) (inputs : List CapsConstraint) (sol : Nat → Caps) : Prop :=
  ∀ e ∈ g.inEdges node, ∀ c, inputs[(g.edge e).dst.index]? = some c → c.acceptsInput (sol e)

variable (g : Graph) (nc : NodeConstraint) (sol : Nat → Caps) (node : Nat)

/-- The relation of one node on a choice of caps per edge, with each set its edges must be drawn
from. Combinations of kind and constraint that negotiation refuses demand nothing. -/
def nodeRelates : Prop :=
  match g.kind node, nc with
  | .source, .element c => c.producesOutput (sol (g.outEdge node))
  | .sink, .element c => c.acceptsInput (sol (g.inEdge node))
  | .transform, .element c => c.relates (sol (g.inEdge node)) (sol (g.outEdge node))
  | .tee _, .demux input ports =>
    input.acceptsInput (sol (g.inEdge node)) ∧ ∀ o ∈ g.outEdges node, ∀ port, ports[(g.edge o).src.index]? = some port →
        port.producesOutput (sol o) ∧ port.relates (sol (g.inEdge node)) (sol o)
  | .tee _, .batchDemux input =>
    input.acceptsInput (sol (g.inEdge node)) ∧
      isBatchOf (sol (g.inEdge node)) (g.outEdges node) (fun o => (g.edge o).src.index) sol
  | .tee _, _ => ∀ o ∈ g.outEdges node, sol o = sol (g.inEdge node)
  | .muxer _, .muxer inputs output follows =>
    padsAccept g node inputs sol ∧ (follows = none → output.producesOutput (sol (g.outEdge node)))
  | .muxer _, .batchMuxer inputs =>
    padsAccept g node inputs sol ∧ isBatchOf (sol (g.outEdge node)) (g.inEdges node) (fun e => (g.edge e).dst.index) sol
  | .faninSink _, .muxer inputs _ _ => padsAccept g node inputs sol
  | .faninSink _, .batchMuxer inputs => padsAccept g node inputs sol
  | .fanoutSrc _, .demux _ ports =>
    ∀ o ∈ g.outEdges node, ∀ port, ports[(g.edge o).src.index]? = some port → port.producesOutput (sol o)
  | _, _ => True

/-- A pass-through transform draws the caps on its edges from its set. -/
def nodeDraws : Prop :=
  match g.kind node, nc with
  | .transform, .element c => c.drawsFrom (sol (g.inEdge node))
  | _, _ => True

/-- A muxer that follows an input pad carries that pad's caps on its output. -/
def nodeFollows : Prop :=
  match g.kind node, nc with
  | .muxer _, .muxer _ _ (some pad) =>
    ∀ e ∈ g.inEdges node, (g.edge e).dst.index = pad → sol (g.outEdge node) = sol e
  | _, _ => True

end Glass2Glass
