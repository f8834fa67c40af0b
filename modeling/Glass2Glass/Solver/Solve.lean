import Glass2Glass.Solver.Sweep
import Mathlib.Algebra.Group.Nat.Defs

/-!
# Solving a graph

The DAG solver (`solve_graph_preferred` of `runtime/solver.rs`): sweep the nodes in topological order
and back until nothing changes, list the fixated candidates of every edge, and choose one candidate
per edge. A linear chain whose elements declare costs is chosen by the least-cost programme
(`minCostChain`), every other graph by a backtracking search that checks a node as soon as all its
edges are assigned. Log output is left out.
-/

namespace Glass2Glass

open PartialMeet

/-! ## Sweeping -/

variable (g : ValidatedGraph) (constraints : List NodeConstraint)

variable (edges : EdgeSets)

/-- One forward and one backward sweep. -/
def sweepOnce : Except NegotiationFailure EdgeSets := do
  let edges ← g.topo.foldlM (fun edges node => applyNode g.toGraph constraints node edges) edges
  g.topo.reverse.foldlM (fun edges node => applyNode g.toGraph constraints node edges) edges

/-- Whether two states agree on the first `n` edges. -/
def sameEdges (n : Nat) (edges edges' : EdgeSets) : Bool :=
  (List.range n).all fun e => edges e == edges' e

/-- Sweep until nothing changes, at most `fuel` times. -/
def sweepLoop (g : ValidatedGraph) (constraints : List NodeConstraint) :
    Nat → EdgeSets → Except NegotiationFailure EdgeSets
  | 0, edges => .ok edges
  | fuel + 1, edges => do
    let next ← sweepOnce g constraints edges
    if sameEdges g.edgeCount next edges then return next else sweepLoop g constraints fuel next

def sweeps : Except NegotiationFailure EdgeSets :=
  sweepLoop g constraints (8 * g.edgeCount + 4) fun _ => none

/-! ## Candidates -/

/-- The alternatives that collapse to fixed caps, each toward the preferred caps and at its minimum,
in the set's order. -/
def fixatedCandidates (set : CapsSet) (preferred : Option Caps) : List Caps :=
  set.alternatives.foldl (fun out alt =>
    let towardPreferred := preferred.bind fun p => (alt.fixateToward p).toOption
    (towardPreferred.toList ++ alt.fixate.toOption.toList).foldl pushNew out) []

/-- A producer's first alternative, when it is fixed. -/
def producerTarget (set : CapsSet) : Option Caps := set.alternatives.head?.filter Caps.isFixed

/-- What a transform outputs for a fixed input, where that is a function of it. -/
def transformTarget (c : CapsConstraint) (input : Caps) : Option Caps :=
  match c with
  | .identity _ | .identityAny => some input
  | .derivedOutput f => (f input).fixate
  | .derivedFields t => (t.derive input).fixate
  | _ => none

def firstFixation (targets : Nat → Option Caps) (e : Nat) : Option Caps := do
  let target ← targets e
  let set ← edges e
  (fixatedCandidates set (some target)).head?

/-- The caps a node steers its outputs toward. -/
def nodeTarget (g : Graph) (constraints : List NodeConstraint) (edges : EdgeSets)
    (targets : Nat → Option Caps) (node : Nat) : Option Caps :=
  match g.kind node, constraintAt constraints node with
  | _, .element (.produces set) => producerTarget set
  | .transform, .element c =>
    ((g.inEdges node).head?.bind (firstFixation edges targets)).bind (transformTarget c)
  | .tee _, .element _ => (g.inEdges node).head?.bind (firstFixation edges targets)
  | .muxer _, .muxer _ _ (some pad) => (padEdge g node pad).bind (firstFixation edges targets)
  | _, _ => none

def fixationTargets : Nat → Option Caps :=
  g.topo.foldl (fun targets node =>
    let target := nodeTarget g.toGraph constraints edges targets node
    (g.outEdges node).foldl (fun targets e => Function.update targets e target) targets)
    fun _ => none

def edgeDomain (g : Graph) (edges : EdgeSets) (targets : Nat → Option Caps) (e : Nat) :
    Except NegotiationFailure (List Caps) :=
  match edges e with
  | some set =>
    if set.isEmpty then .error (.emptyLinkAt (edgeEndpoints g e))
    else
      let candidates := fixatedCandidates set (targets e)
      if candidates.isEmpty then
        .error (.unfixable (edgeEndpoints g e).1 (edgeEndpoints g e).2)
      else .ok candidates
  | none => .error (.emptyLinkAt (edgeEndpoints g e))

/-- The candidates of every edge, an error at the first that has none. -/
def domainsOf : Except NegotiationFailure (List (List Caps)) :=
  (List.range g.edgeCount).mapM (edgeDomain g.toGraph edges (fixationTargets g constraints edges))

/-! ## Consistency and search -/

/-- Whether a transform's input and output satisfy its relation. -/
def transformPairConsistent (c : CapsConstraint) (input output : Caps) : Bool :=
  match c with
  | .identity _ | .identityAny => input == output
  | .mapping pairs => pairs.any fun pair => pair.1.accepts input && pair.2.accepts output
  | .derivedOutput f => (f input).accepts output
  | .derivedFields t => (t.derive input).accepts output
  | _ => true

/-- Whether a node's relation between its edges holds of a full choice of caps. -/
def edgesConsistent (g : Graph) (constraints : List NodeConstraint) (get : Nat → Caps) (node : Nat) : Bool :=
  match g.kind node, constraintAt constraints node with
  | .muxer _, .batchMuxer _ =>
    get (g.outEdge node) == .batch ((padsInOrder g node).map fun pad => get pad.2)
  | .tee _, .demux _ ports =>
    (g.outEdges node).all fun o => match ports[(g.edge o).src.index]? with
      | some port => transformPairConsistent port (get (g.inEdge node)) (get o)
      | none => true
  | .tee _, .batchDemux _ =>
    match get (g.inEdge node) with
    | .batch streams => streams.length == (g.outEdges node).length &&
        (g.outEdges node).all fun o => streams[(g.edge o).src.index]? == some (get o)
    | _ => false
  | .tee _, _ => (g.outEdges node).all fun o => get o == get (g.inEdge node)
  | .transform, .element c =>
    transformPairConsistent c (get (g.inEdge node)) (get (g.outEdge node))
  | _, _ => true

/-- Whether a node's relation holds of the assigned edges; it cannot be violated while one of the
node's edges is unassigned. -/
def nodeConsistent (g : Graph) (constraints : List NodeConstraint) (assign : Nat → Option Caps) (node : Nat) : Bool :=
  if (g.inEdges node ++ g.outEdges node).any fun e => (assign e).isNone then true
  else edgesConsistent g constraints (fun e => (assign e).getD .klv) node

/-- Assign the edges from `edge` on, trying the candidates of each in order and checking both ends of
an edge once it is assigned. -/
def fixateBacktrack (g : Graph) (constraints : List NodeConstraint) :
    List (List Caps) → (Nat → Option Caps) → Nat → Option (Nat → Option Caps)
  | [], assign, _ => some assign
  | candidates :: domains, assign, edge => candidates.findSome? fun cand =>
    let assign := Function.update assign edge (some cand)
    if nodeConsistent g constraints assign (g.edge edge).src.node &&
        nodeConsistent g constraints assign (g.edge edge).dst.node then
      fixateBacktrack g constraints domains assign (edge + 1)
    else none

/-! ## Preferred chains -/

/-- An element of a linear chain with its declared costs; an empty declaration counts as none. -/
structure ChainNode where
  /-- What the element allows. -/
  constraint : CapsConstraint
  /-- Its declared costs. -/
  preferences : Option CapsPreferences

/-- A chain element, dropping an empty declaration. -/
def ChainNode.new (constraint : CapsConstraint) (preferences : Option CapsPreferences) : ChainNode :=
  ⟨constraint, preferences.filter fun p => !p.isEmpty⟩

/-- The first advertised alternative that the chosen caps select. -/
def alternativeIndex (c : CapsConstraint) (input output : Option Caps) : Option Nat :=
  let position (set : CapsSet) (caps : Caps) : Option Nat :=
    set.alternatives.findIdx? fun a => (a.intersect caps).toOption.isSome
  match c with
  | .produces set => output.bind (position set)
  | .accepts set => input.bind (position set)
  | .identity set => (input.or output).bind (position set)
  | .mapping pairs => input.bind fun input => output.bind fun output =>
    pairs.findIdx? fun pair => pair.1.accepts input && pair.2.accepts output
  | _ => none

/-- What the element pays for its input and output; an undeclared alternative costs its index. -/
def ChainNode.cost (n : ChainNode) (input output : Option Caps) : Nat :=
  match alternativeIndex n.constraint input output with
  | some i => match n.preferences with
    | some p => (p.cost i).toNat
    | none => i
  | none => 0

/-- Saturating addition of 64-bit words. -/
def saturatingAdd (a b : Nat) : Nat := min (a + b) (2 ^ 64 - 1)

/-- Whether a cost and path beat the incumbent: cheaper, or as cheap and lexicographically earlier. -/
def isBetter (current : Option (Nat × List Nat)) (cost : Nat) (path : List Nat) : Bool :=
  match current with
  | none => true
  | some (c, p) => decide (cost < c ∨ cost = c ∧ path < p)

/-- The cheapest prefix ending in candidate `b` of a link, from the cheapest prefixes `best` ending in
the candidates `inputs` of the link before it. -/
def bestPrefix (middle : ChainNode) (inputs : List Caps) (best : List (Option (Nat × List Nat)))
    (output : Caps) (b : Nat) : Option (Nat × List Nat) :=
  (inputs.zip best).foldl (fun current (input, entry) =>
    match entry with
    | none => current
    | some (soFar, path) =>
      if !transformPairConsistent middle.constraint input output then current
      else
        let total := saturatingAdd soFar (middle.cost (some input) (some output))
        let candidate := path ++ [b]
        if isBetter current total candidate then some (total, candidate) else current) none

/-- Carry the cheapest prefixes across the remaining links, each with the element in front of it. -/
def bestPrefixes : List (ChainNode × List Caps) → List Caps → List (Option (Nat × List Nat)) →
    List Caps × List (Option (Nat × List Nat))
  | [], inputs, best => (inputs, best)
  | (middle, outputs) :: links, inputs, best =>
    bestPrefixes links outputs (outputs.zipIdx.map fun (output, b) =>
      bestPrefix middle inputs best output b)

/-- The cheapest complete path, charging the last element. -/
def cheapest (last : ChainNode) (inputs : List Caps) (best : List (Option (Nat × List Nat))) :
    Option (Nat × List Nat) :=
  (inputs.zip best).foldl (fun winner (input, entry) =>
    match entry with
    | none => winner
    | some (soFar, path) =>
      let total := saturatingAdd soFar (last.cost (some input) none)
      if isBetter winner total path then some (total, path) else winner) none

/-- The least-cost consistent choice of one candidate per link of a chain, as candidate indices;
`none` when no element declares costs or no choice is consistent. -/
def minCostChain (nodes : List ChainNode) (domains : List (List Caps)) : Option (List Nat) :=
  match nodes, domains with
  | first :: rest, domain :: others =>
    if rest.length ≠ domains.length then none
    else if !nodes.any fun n => n.preferences.isSome then none
    else
      let start := domain.zipIdx.map fun (caps, j) => some (first.cost none (some caps), [j])
      let (inputs, best) := bestPrefixes (rest.zip others) domain start
      (nodes.getLast?.bind fun last => cheapest last inputs best).map Prod.snd
  | _, _ => none

/-- `preferences[i]`, tolerating a short list. -/
def preferenceAt (preferences : List (Option CapsPreferences)) (index : Nat) : Option CapsPreferences :=
  (preferences[index]?).join

/-- Follow the single output edges from a node: the nodes and the edges passed. -/
def chainWalk (g : Graph) : Nat → Nat → List Nat × List Nat
  | 0, _ => ([], [])
  | fuel + 1, current =>
    match (g.outEdges current).head? with
    | some edge =>
      let (nodes, edges) := chainWalk g fuel (g.edge edge).dst.node
      (current :: nodes, edge :: edges)
    | none => ([current], [])

/-- Whether a node carries a plain element constraint. -/
def NodeConstraint.isElement : NodeConstraint → Bool
  | .element _ => true
  | _ => false

/-- The graph as a linear chain, its nodes and edges from source to sink; `none` when it is none. A
chain has at most one node per node of the graph. -/
def chainOrder (g : Graph) (constraints : List NodeConstraint) : Option (List Nat × List Nat) :=
  let n := g.nodeCount
  if n < 2 ∨ g.edgeCount + 1 ≠ n then none
  else if !constraints.all NodeConstraint.isElement then none
  else if (List.range n).any fun i =>
      decide ((g.inEdges i).length > 1) || decide ((g.outEdges i).length > 1) then none
  else match (List.range n).filter fun i => (g.inEdges i).isEmpty with
    | [head] =>
      let (nodes, edges) := chainWalk g n head
      if nodes.length = n then some (nodes, edges) else none
    | _ => none

def elementAt (constraints : List NodeConstraint) (node : Nat) : CapsConstraint :=
  match constraintAt constraints node with
  | .element c => c
  | _ => .identityAny

/-- The least-cost assignment of a linear chain; `none` when the graph is no chain, nobody declares
costs, or no choice is consistent. -/
def preferredChainAssignment (g : Graph) (constraints : List NodeConstraint)
    (preferences : List (Option CapsPreferences)) (domains : List (List Caps)) : Option (Nat → Option Caps) := do
  if !preferences.any Option.isSome then none
  let (nodes, edges) ← chainOrder g constraints
  let chain := nodes.map fun node =>
    ChainNode.new (elementAt constraints node) (preferenceAt preferences node)
  let chainDomains := edges.map fun e => domains.getD e []
  let pick ← minCostChain chain chainDomains
  return (edges.zip (chainDomains.zip pick)).foldl (fun assign (edge, candidates, j) =>
    Function.update assign edge (candidates[j]?)) fun _ => none

/-- Choose one candidate per edge. -/
def chooseAssignment (g : Graph) (constraints : List NodeConstraint)
    (preferences : List (Option CapsPreferences)) (domains : List (List Caps)) :
    Except NegotiationFailure (Nat → Option Caps) :=
  match preferredChainAssignment g constraints preferences domains with
  | some chosen => .ok chosen
  | none =>
    match fixateBacktrack g constraints domains (fun _ => none) 0 with
    | some assign => .ok assign
    | none => .error .noConsistentFixation

/-- Solve a graph: one fixed caps per edge, by edge id. -/
def solveGraphPreferred (preferences : List (Option CapsPreferences)) : Except NegotiationFailure (List Caps) :=
  if g.nodeCount < 2 ∨ constraints.length ≠ g.nodeCount then .error .degenerate
  else do
    let edges ← sweeps g constraints
    let domains ← domainsOf g constraints edges
    let assign ← chooseAssignment g.toGraph constraints preferences domains
    return (List.range g.edgeCount).map fun e => (assign e).getD .klv

/-- Solve a graph whose elements declare no costs. -/
def solveGraph : Except NegotiationFailure (List Caps) :=
  solveGraphPreferred g constraints []

end Glass2Glass
