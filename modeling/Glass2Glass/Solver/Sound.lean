import Glass2Glass.Solver.Search

/-!
# What a solution satisfies

The search checks relations between edges only; that every edge's caps lie in the sets its two nodes
declare has to survive the sweeps. The backward sweep is what carries it: it visits a node after all
its consumers, and the nodes it visits later touch that node's edges only as their outputs, which a
step only narrows. The one step that widens an edge of its own node is a demux whose port derives its
caps from the input: coupling the input back to the port drops a declared layout or alignment that
the accept set of the same node asked for.
-/

namespace Glass2Glass

open Loop Search List Function

/-! ## Declared sets -/

section Step

variable {g : Graph} {edges edges' : EdgeSets} {node : Nat} {s : CapsSet}

/-- Every caps the edge may still carry is contained in the set. -/
def inside (s : CapsSet) (e : Nat) (edges : EdgeSets) : Prop := ∀ p ∈ denote (edges e), s.contains p

theorem inside.mono {frame free : Set Nat} {e : Nat} (h : inside s e edges)
    (hn : Narrowed frame free edges edges') (he : e ∉ free) : inside s e edges' :=
  fun p hp => h p (hn.shrink e he hp)

variable {inE : Nat}

variable {ports : List CapsConstraint}

end Step

section Node

variable {g : ValidatedGraph} {constraints : List NodeConstraint} {edges edges' : EdgeSets}
  {node e : Nat} {s : CapsSet}

end Node

/-! ## Candidates -/

variable {g : ValidatedGraph} {constraints : List NodeConstraint}

def stream (encoding : ByteStreamEncoding) : CapsSet := .one (.byteStream encoding)

end Glass2Glass
