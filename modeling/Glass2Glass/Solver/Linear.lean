import Glass2Glass.Lib.Loop
import Glass2Glass.Solver.Chain

/-!
# The linear solver

`solve_linear_preferred` of `runtime/solver.rs`: the links of a chain are narrowed by sweeping over the
elements in both directions, each link gets its candidates, and one candidate per link is chosen. With
declared costs the choice is the least-cost chain; without, or when no choice is consistent, every link
takes its own first candidate. Link `i` lies between element `i` and element `i + 1`.
-/

namespace Glass2Glass

open Loop Search Option

/-! ## Narrowing the links -/

/-- Narrow a link, if there is one, by the set one of its ends imposes. -/
def narrowLink (links : EdgeSets) (idx : Option Nat) (contrib : CapsSet) (upstream downstream : Nat) :
    Except NegotiationFailure EdgeSets :=
  match idx with
  | none => .ok links
  | some idx =>
    let next := narrowBy (links idx) contrib
    if next.isEmpty then .error (.emptyLinkAt (upstream, downstream))
    else .ok (Function.update links idx (some next))

/-- Couple the two links of element `i`, if it has both. -/
def coupleLinks (links : EdgeSets) (i : Nat) (inIdx outIdx : Option Nat) : Except NegotiationFailure EdgeSets :=
  match inIdx, outIdx with
  | some ii, some oi =>
    match links ii, links oi with
    | some a, some b =>
      let coupled := a.intersect b
      if coupled.isEmpty then .error (.emptyLinkAt (i - 1, i + 1))
      else .ok (Function.update (Function.update links ii (some coupled)) oi (some coupled))
    | some a, none => .ok (Function.update links oi (some a))
    | none, some b => .ok (Function.update links ii (some b))
    | none, none => .ok links
  | _, _ => .ok links

/-- Narrow the links of a derivation, forward and then backward. -/
def deriveLinks (derive : Caps → CapsSet)
    (backward : CapsSet → CapsSet → Except Unit (Option CapsSet)) (links : EdgeSets) (i ii oi : Nat) :
    Except NegotiationFailure EdgeSets := do
  let links ← match links ii with
    | some inputSet =>
      let derived := forwardDerivedUnion derive inputSet
      if derived.isEmpty then .error (.emptyLinkAt (i, i + 1))
      else narrowLink links (some oi) derived i (i + 1)
    | none => .ok links
  match links ii, links oi with
  | some inSet, some outSet =>
    match backward inSet outSet with
    | .ok (some narrowed) => .ok (Function.update links ii (some narrowed))
    | .ok none => .ok links
    | .error () => .error (.emptyLinkAt (i - 1, i))
  | _, _ => .ok links

/-- Element `i` of a chain with `nLinks` links narrows the links it touches. -/
def applyConstraint (nLinks i : Nat) (c : CapsConstraint) (links : EdgeSets) : Except NegotiationFailure EdgeSets :=
  let inIdx := if i = 0 then none else some (i - 1)
  let outIdx := if i = nLinks then none else some i
  match c with
  | .produces s => narrowLink links outIdx s i (i + 1)
  | .accepts s => narrowLink links inIdx s (i - 1) i
  | .identity s => do
    let links ← narrowLink links inIdx s (i - 1) i
    let links ← narrowLink links outIdx s i (i + 1)
    coupleLinks links i inIdx outIdx
  | .mapping pairs =>
    match inIdx, outIdx with
    | some ii, some oi =>
      let (newIn, newOut) := filterPairs (links ii) (links oi) pairs
      if newIn.isEmpty || newOut.isEmpty then .error (.emptyLinkAt (i - 1, i + 1))
      else .ok (Function.update (Function.update links ii (some newIn)) oi (some newOut))
    | _, _ => .error (.endpointShapeMismatch i)
  | .derivedOutput f =>
    match inIdx, outIdx with
    | some ii, some oi => deriveLinks f (derivedBackward f) links i ii oi
    | _, _ => .error (.endpointShapeMismatch i)
  | .derivedFields t =>
    match inIdx, outIdx with
    | some ii, some oi =>
      deriveLinks t.derive (backwardFieldNarrow t.derive t.passthrough) links i ii oi
    | _, _ => .error (.endpointShapeMismatch i)
  | .acceptsAny => .ok links
  | .identityAny => coupleLinks links i inIdx outIdx

variable (constraints : List CapsConstraint)

/-- One forward and one backward sweep over the elements. -/
def sweepChain (links : EdgeSets) : Except NegotiationFailure EdgeSets := do
  let step (links : EdgeSets) (p : CapsConstraint × Nat) :=
    applyConstraint (constraints.length - 1) p.2 p.1 links
  let links ← constraints.zipIdx.foldlM step links
  constraints.zipIdx.reverse.foldlM step links

/-- Sweep until nothing changes, at most `fuel` times. -/
def sweepChainLoop (constraints : List CapsConstraint) : Nat → EdgeSets → Except NegotiationFailure EdgeSets
  | 0, links => .ok links
  | fuel + 1, links => do
    let next ← sweepChain constraints links
    if sameEdges (constraints.length - 1) next links then return next
    else sweepChainLoop constraints fuel next

/-- The links before the first sweep: the source's set in front, the sink's behind. -/
def seedLinks (sourceSet : CapsSet) (sink : CapsConstraint) (nLinks : Nat) : EdgeSets :=
  let links := Function.update (fun _ => none) 0 (some sourceSet)
  match sink with
  | .accepts s => Function.update links (nLinks - 1) (some (narrowBy (links (nLinks - 1)) s))
  | _ => links

/-! ## Choosing one candidate per link -/

/-- The candidates of the links from `li` on, fixated toward a target that each element passes on. -/
def linkDomains (constraints : List CapsConstraint) (links : EdgeSets) :
    Nat → Nat → Option Caps → Except NegotiationFailure (List (List Caps))
  | 0, _, _ => .ok []
  | count + 1, li, target =>
    match links li with
    | none => .error (.emptyLinkAt (li, li + 1))
    | some set =>
      if set.isEmpty then .error (.emptyLinkAt (li, li + 1))
      else match fixatedCandidates set target with
        | [] => .error (.unfixable li (li + 1))
        | first :: others => do
          let next := target.bind fun _ => constraints[li + 1]?.bind fun c => transformTarget c first
          let rest ← linkDomains constraints links count (li + 1) next
          return (first :: others) :: rest

/-- Whether a chain may end in the element. -/
def CapsConstraint.isSink : CapsConstraint → Bool
  | .accepts _ | .acceptsAny => true
  | _ => false

/-- The candidates of every link, or why the chain fails before one is chosen. -/
def chainDomains : Except NegotiationFailure (List (List Caps)) :=
  match constraints, constraints.getLast? with
  | first :: _ :: _, some last =>
    let nLinks := constraints.length - 1
    match first with
    | .produces sourceSet =>
      if last.isSink then do
        let links ← sweepChainLoop constraints (8 * nLinks + 4) (seedLinks sourceSet last nLinks)
        linkDomains constraints links nLinks 0 (producerTarget sourceSet)
      else .error (.endpointShapeMismatch nLinks)
    | _ => .error (.endpointShapeMismatch 0)
  | _, _ => .error .degenerate

variable (constraints : List CapsConstraint) (preferences : List (Option CapsPreferences))

variable {domains : List (List Caps)}

end Glass2Glass
