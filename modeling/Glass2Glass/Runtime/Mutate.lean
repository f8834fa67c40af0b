import Glass2Glass.Caps.Fixate
import Glass2Glass.Lib.Fallible
import Glass2Glass.Lib.Slots
import Glass2Glass.Lib.Text
import Glass2Glass.Lib.Wiring
import Glass2Glass.Runtime.Endpoint
import Glass2Glass.Runtime.Push

/-!
# Mutating a running graph

`MutationService` (`g2g-core/src/runtime/mutate.rs`): the live topology of a run and the operations that
rewire it. An operation runs to its end before the next one starts; what it awaits in between (the elements,
the arms, the producers and the timer) is given by its arguments as the answers it gets. A link, an endpoint
and the channel on which an arm hands its element back are numbers.

An operation that stops says whether a producer was stopped by then. Left out are the property mailboxes,
the bus, the log, the timelines of the edges, and what is handed to an arm that is started.
-/

namespace Glass2Glass.Runtime

open Text Fallible

abbrev InstanceName : Type := List Char

/-- Why a mutation is refused. `Err` are the errors of elements. -/
inductive MutationError (Err : Type) where
  | unknownNode (name : InstanceName)
  | notMutable (name : InstanceName)
  | refused (error : Err)
  | downstreamRefused
  | noCaps
  | graphEnded
  | timedOut
  | noTimer
  | noFreePad
  deriving DecidableEq

inductive Stop (Err : Type) where
  /-- With an error, and no producer was stopped. -/
  | refused (error : MutationError Err)
  /-- With an error, after a producer was stopped or an arm was started. -/
  | failed (error : MutationError Err)
  /-- With a panic: an access to a free slot, a fill of a taken one, or an `expect`. -/
  | panic
  /-- Not at all: what it waits for does not come. -/
  | waits
  deriving DecidableEq

/-- How a branch takes caps it cannot negotiate. -/
inductive BranchMode where
  | reconfigure
  | failLoud
  | drop
  deriving DecidableEq

/-- How a node takes new edges while it runs. -/
inductive Growth where
  | fixed
  | branches (mode : BranchMode)
  | inputs (padsInUse : List Nat) (declared : Nat)
  deriving DecidableEq

/-- The channel on which an arm hands its element back. -/
inductive Handback where
  | element (done : Nat)
  | source (done : Nat)
  deriving DecidableEq

structure LiveNode where
  name : InstanceName
  namedAtStartup : Bool
  /-- The mutable edges out of the node. -/
  outEdges : List Nat
  /-- The mutable edges into the node. -/
  inEdges : List Nat
  totalOutEdges : Nat
  totalInEdges : Nat
  done : Option Handback
  removable : Bool
  growth : Growth
  deriving DecidableEq

/-- A mutable edge of the live topology. -/
structure LiveEdge where
  endpoint : Nat
  consumer : Nat
  feasible : Option CapsSet
  policy : LinkPolicy
  capacity : Nat
  mode : BranchMode

/-- The side of a node on which an edge is. -/
inductive Side where
  | below
  | above

/-- A transform, by what it answers. -/
structure Element (Err : Type) where
  category : InstanceName
  emits : Except Err Caps
  configured : Except Err Unit

structure SinkElement (Err : Type) where
  category : InstanceName
  accepts : Option CapsSet
  /-- Whether it takes the caps it is offered, and those it is offered after a conversion. -/
  configured : Except Err Unit
  converted : Except Err Unit

structure SourceElement (Err : Type) where
  category : InstanceName
  produced : Except Err CapsSet
  configured : Except Err Unit

/-- What an operation gets from the run. -/
structure Answers (Err : Type) where
  /-- The handle has a timeout that nothing can measure. -/
  noTimer : Bool
  /-- What the producers do while the operation waits for one to stop. -/
  waiting : List (Nat × ProducerEvent)
  timedOut : Bool
  /-- Why new caps are not taken by the link they are announced on. -/
  announced : Option Err
  /-- The arm of a removed element leaves its link. -/
  drained : Bool
  /-- Whether the arm of the element with this number is taken. -/
  arms : Nat → Bool
  /-- Whether a channel hands its element back. -/
  delivered : Nat → Bool
  /-- An end of stream is taken. -/
  eos : Bool
  /-- The node takes a new edge. -/
  grows : Bool
  /-- What the muxer says to a new input; `none` when its arm has ended. -/
  admitted : Option (Except Err Caps)

/-- The live topology with its endpoints. -/
structure MutationService where
  nodes : Slots LiveNode
  edges : Slots LiveEdge
  /-- For each category, the lowest number that may be free. -/
  nameFloors : InstanceName → Option Nat
  linkCapacity : Nat
  endpoints : Nat → ProducerEndpoint
  /-- The next number of an endpoint, a link or a channel. -/
  fresh : Nat

variable {Err : Type}

abbrev Op (Err α : Type) : Type := Fallible MutationService (Stop Err) α

def refuse {α : Type} (error : MutationError Err) : Op Err α := stop (.refused error)

def fail {α : Type} (error : MutationError Err) : Op Err α := stop (.failed error)

def orRefuse {α : Type} (o : Option α) (error : MutationError Err) : Except (Stop Err) α :=
  match o with
  | some a => .ok a
  | none => .error (.refused error)

def answer {α : Type} : Except Err α → Except (Stop Err) α
  | .ok a => .ok a
  | .error e => .error (.refused (.refused e))

/-- Whether the chain below an edge is known to accept caps. -/
def acceptsDownstream (feasible : Option CapsSet) (caps : Caps) : Bool :=
  feasible.any fun set => set.accepts caps

namespace MutationService

/-! ## Tables -/

variable (s : MutationService)

variable (i : Nat)

def node : Except (Stop Err) LiveNode :=
  match s.nodes.get? i with
  | some n => .ok n
  | none => .error .panic

def edge (s : MutationService) (e : Nat) : Except (Stop Err) LiveEdge :=
  match s.edges.get? e with
  | some edge => .ok edge
  | none => .error .panic

/-- Store the nodes, if the operation on them was possible. -/
def setNodes (nodes : MutationService → Option (Slots LiveNode)) : Op Err Unit := fun s =>
  match nodes s with
  | some nodes => (.ok (), { s with nodes })
  | none => (.error .panic, s)

/-- Store the edges, if the operation on them was possible. -/
def setEdges {α : Type} (edges : MutationService → Option (α × Slots LiveEdge)) : Op Err α := fun s =>
  match edges s with
  | some (a, edges) => (.ok a, { s with edges })
  | none => (.error .panic, s)

def modifyNode (f : LiveNode → LiveNode) : Op Err Unit := setNodes (·.nodes.modify i f)

def fillNode (n : LiveNode) : Op Err Unit := setNodes (·.nodes.fill i n)

def insertNode (n : LiveNode) : Op Err Unit := setNodes fun s => (s.nodes.insert n).map Prod.snd

def modifyEdge (e : Nat) (f : LiveEdge → LiveEdge) : Op Err Unit :=
  setEdges fun s => (s.edges.modify e f).map ((), ·)

def fillEdge (e : Nat) (edge : LiveEdge) : Op Err Unit := setEdges fun s => (s.edges.fill e edge).map ((), ·)

def insertEdge (edge : LiveEdge) : Op Err Nat := setEdges (·.edges.insert edge)

def removeEdge (e : Nat) : Op Err LiveEdge := setEdges (·.edges.remove e)

/-! ## Endpoints -/

def onEndpoint (e : Nat) (f : ProducerEndpoint → ProducerEndpoint) : MutationService :=
  { s with endpoints := Function.update s.endpoints e (f (s.endpoints e)) }

def atEndpoint (e : Nat) (f : ProducerEndpoint → ProducerEndpoint) : Op Err Unit := update (·.onEndpoint e f)

/-- The producers do something. -/
def produce (events : List (Nat × ProducerEvent)) : MutationService :=
  events.foldl (fun s event => s.onEndpoint event.1 (·.after event.2)) s

/-- A number for a link or a channel. -/
def number : Op Err Nat := fun s => (.ok s.fresh, { s with fresh := s.fresh + 1 })

def newEndpoint (caps : Caps) (link : LinkSender) : Op Err Nat := fun s =>
  (.ok s.fresh, { s with
    fresh := s.fresh + 1
    endpoints := Function.update s.endpoints s.fresh ((ProducerEndpoint.new link).setCaps caps) })

/-- Wait for the producer to park and take its link; a deadline that passes first withdraws the request. -/
def detach (endpoint : Nat) (answers : Answers Err) : Op Err LinkSender := do
  update (·.produce answers.waiting)
  if answers.timedOut then do
    atEndpoint endpoint ProducerEndpoint.cancelPark
    refuse .timedOut
  else fun s =>
    match (s.endpoints endpoint).pollDetached with
    | (some (some link), e) => (.ok link, s.onEndpoint endpoint fun _ => e)
    | (some none, _) => (.error (.refused .graphEnded), s)
    | (none, _) => (.error .waits, s)

/-! ## Names -/

def find (s : MutationService) (name : InstanceName) : Except (Stop Err) Nat :=
  orRefuse ((s.nodes.iter.find? fun entry => entry.2.name == name).map Prod.fst) (.unknownNode name)

/-- Count from a number on to a name that is not in the graph and not taken. The floor moves past the names
in the graph. -/
def searchName (s : MutationService) (category : InstanceName) (taken : List InstanceName) :
    Nat → Nat → Nat → Option (InstanceName × Nat)
  | 0, _, _ => none
  | fuel + 1, n, floor =>
    let candidate := category ++ Nat.toDigits 10 n
    let inGraph := s.nodes.iter.any fun entry => entry.2.name == candidate
    let floor := if inGraph && n == floor then n + 1 else floor
    if !inGraph && !taken.contains candidate then some (candidate, floor)
    else searchName s category taken fuel (n + 1) floor

def uniqueNameAmong (category : InstanceName) (taken : List InstanceName) : Op Err InstanceName := fun s =>
  let floor := (s.nameFloors category).getD 0
  match s.searchName category taken (s.nodes.entries.length + taken.length + 1) floor floor with
  | some (name, floor) => (.ok name, { s with nameFloors := Function.update s.nameFloors category (some floor) })
  | none => (.error .panic, s)

def uniqueName (category : InstanceName) : Op Err InstanceName := uniqueNameAmong category []

/-- The floors move past a name that leaves the graph, at every point where it can be read as a category and
a number. -/
def retireName (floors : InstanceName → Option Nat) (name : InstanceName) (namedAtStartup : Bool) :
    InstanceName → Option Nat :=
  (List.range name.length).foldl (fun floors split =>
    let category := name.take split
    let number := name.drop split
    match parseBelow 10 (2 ^ 64) number with
    | some n =>
      if Nat.toDigits 10 n = number ∧ (namedAtStartup ∨ (floors category).isSome) then
        Function.update floors category (some (max ((floors category).getD 0) (n + 1)))
      else floors
    | none => floors) floors

def retireNode : Op Err Unit := fun s =>
  match s.nodes.remove i with
  | some (n, nodes) =>
    (.ok (), { s with nodes, nameFloors := retireName s.nameFloors n.name n.namedAtStartup })
  | none => (.error .panic, s)

/-! ## Handbacks -/

/-- Take the channel out on which the node's element comes back; a source's stays. -/
def takeElementHandback : Op Err (Option Nat) := do
  let n ← query (·.node i)
  match n.done with
  | some (.element done) => do
    modifyNode i fun n => { n with done := none }
    return some done
  | _ => return none

/-- Take the channel out on which the node's source comes back; an element's stays. -/
def takeSourceHandback : Op Err (Option Nat) := do
  let n ← query (·.node i)
  match n.done with
  | some (.source done) => do
    modifyNode i fun n => { n with done := none }
    return some done
  | _ => return none

def putBack (handback : Handback) : Op Err Unit :=
  modifyNode i fun n => { n with done := some handback }

/-- Do something when an operation stops. -/
def onStop {α : Type} (x : Op Err α) (cleanup : Op Err Unit) : Op Err α := fun s =>
  match x s with
  | (.ok a, s) => (.ok a, s)
  | (.error e, s) =>
    match cleanup s with
    | (.ok _, s) => (.error e, s)
    | (.error e, s) => (.error e, s)

/-! ## Positions -/

def edgeAt (name : InstanceName) (side : Side) : Except (Stop Err) Nat := do
  let i ← s.find name
  let n ← s.node i
  let (edges, total) :=
    match side with
    | .below => (n.outEdges, n.totalOutEdges)
    | .above => (n.inEdges, n.totalInEdges)
  if total ≠ 1 then throw (.refused (.notMutable name))
  match edges with
  | [e] => return e
  | _ => throw (.refused (.notMutable name))

/-- The node that lists an edge as leaving it. -/
def producerOf (e : Nat) : Option Nat :=
  (s.nodes.iter.find? fun entry => entry.2.outEdges.contains e).map Prod.fst

/-! ## Negotiation -/

def negotiateChain (elements : List (Element Err)) : Except (Stop Err) (List (Element Err × Caps)) :=
  elements.mapM fun element => do
    let out ← answer element.emits
    return (element, out)

def configureChain (chain : List (Element Err × Caps)) : Except (Stop Err) Unit :=
  chain.forM fun entry => answer entry.1.configured

/-- What a chain on an edge emits. -/
def lastCaps (input : Caps) (chain : List (Element Err × Caps)) : Caps :=
  (chain.getLast?.map Prod.snd).getD input

def convertTail (chain : List (Element Err × Caps)) (produced : Caps) (accepted : CapsSet)
    (converters : Option (Option (List (Element Err)))) : Except (Stop Err) (List (Element Err × Caps)) := do
  let factory ← orRefuse converters .downstreamRefused
  let tail ← orRefuse factory .downstreamRefused
  let tail ← negotiateChain tail
  if tail.isEmpty || !accepted.accepts (lastCaps produced tail) then throw (.refused .downstreamRefused)
  return chain ++ tail

/-- A chain that is negotiated for an edge. -/
structure ChainPlan (Err : Type) where
  edge : Nat
  edgeCaps : Caps
  chain : List (Element Err × Caps)

def prepareChain (name : InstanceName) (side : Side) (elements : List (Element Err))
    (converters : Option (Option (List (Element Err)))) : Except (Stop Err) (ChainPlan Err) := do
  let e ← s.edgeAt name side
  let edge ← s.edge e
  let edgeCaps ← orRefuse (s.endpoints edge.endpoint).caps .noCaps
  let chain ← negotiateChain elements
  let produced := lastCaps edgeCaps chain
  let chain ←
    if produced ≠ edgeCaps ∧ acceptsDownstream edge.feasible produced = false then do
      let accepted ← orRefuse edge.feasible .downstreamRefused
      convertTail chain produced accepted converters
    else pure chain
  configureChain chain
  return { edge := e, edgeCaps, chain }

/-- Offer caps to a sink; the set that the edge accepts with it. -/
def prepareSink (edgeCaps : Caps) (sink : SinkElement Err) (configured : Except Err Unit) :
    Except (Stop Err) CapsSet := do
  answer configured
  return sink.accepts.getD (.one edgeCaps)

/-- Caps that the source produces and the chain below accepts. -/
def agreedCaps (feasible : Option CapsSet) (produced : CapsSet) : Except (Stop Err) Caps := do
  let feasible ← orRefuse feasible .downstreamRefused
  orRefuse (produced.intersect feasible).fixate .downstreamRefused

def firstCaps (s : MutationService) : List Nat → Except (Stop Err) Caps
  | [] => throw (.refused .noCaps)
  | e :: edges => do
    let edge ← s.edge e
    match (s.endpoints edge.endpoint).caps with
    | some caps => return caps
    | none => firstCaps s edges

/-- What a tee broadcasts: the caps into it, or those on a branch. -/
def teeCaps (tee : Nat) : Except (Stop Err) Caps := do
  let n ← s.node tee
  s.firstCaps (n.inEdges ++ n.outEdges)

/-! ## Splicing and removing transforms -/

/-- A transform on its way into the tables. -/
structure Spliced where
  slot : Nat
  name : InstanceName
  endpoint : Nat
  done : Nat
  caps : Caps

/-- An endpoint for each element of a chain, the one given for the last. -/
def hopEndpoints (last : Nat) : List (Element Err × Caps) → Op Err (List Nat)
  | [] => return []
  | [_] => return [last]
  | (_, caps) :: rest => do
    let link ← number
    let hop ← newEndpoint caps (.into link)
    return hop :: (← hopEndpoints last rest)

/-- Name the elements of a chain and start their arms. -/
def startTransforms (endpoint : Nat) (answers : Answers Err) :
    List (Element Err × Caps) → Nat → List InstanceName → Op Err (List (InstanceName × Nat))
  | [], _, _ => return []
  | (element, _) :: rest, i, names => do
    let name ← uniqueNameAmong element.category names
    let done ← number
    if answers.arms i = false then do
      atEndpoint endpoint (·.unpark none)
      fail .graphEnded
    return (name, done) :: (← startTransforms endpoint answers rest (i + 1) (names ++ [name]))

variable (name : InstanceName)

/-- A node for a transform between two edges. -/
def transformNode (above below done : Nat) : LiveNode :=
  { name, namedAtStartup := false, outEdges := [below], inEdges := [above], totalOutEdges := 1
    totalInEdges := 1, done := some (.element done), removable := true, growth := .fixed }

/-- Put the elements of a chain into the tables, each with the edge that leaves it; the last one leads to
where the edge led. Returns the last edge. -/
def spliceNodes (edge : LiveEdge) : Nat → List Spliced → Op Err Nat
  | above, [] => return above
  | above, x :: rest => do
    let below ← insertEdge { edge with
      endpoint := x.endpoint
      consumer := (rest.head?.map Spliced.slot).getD edge.consumer
      feasible := if rest.isEmpty then edge.feasible else some (.one x.caps) }
    fillNode x.slot (transformNode x.name above below x.done)
    spliceNodes edge below rest

/-- The elements of a chain with what they were given. -/
def splicedOf (slots endpoints : List Nat) (started : List (InstanceName × Nat))
    (chain : List (Element Err × Caps)) : List Spliced :=
  (slots.zip (endpoints.zip (started.zip chain))).map fun (slot, endpoint, (name, done), _, caps) =>
    { slot, name, endpoint, done, caps }

/-- The handle sends no empty chain. -/
def insert (side : Side) (elements : List (Element Err))
    (converters : Option (Option (List (Element Err)))) (answers : Answers Err) : Op Err (List InstanceName) := do
  if elements.isEmpty then return []
  let plan ← query (·.prepareChain name side elements converters)
  let edge ← query (·.edge plan.edge)
  let finalCaps := lastCaps plan.edgeCaps plan.chain
  atEndpoint edge.endpoint ProducerEndpoint.requestPark
  let original ← detach edge.endpoint answers
  let last ← newEndpoint finalCaps original
  if finalCaps ≠ plan.edgeCaps then
    match answers.announced with
    | some e => do
      atEndpoint edge.endpoint (·.unpark (some original))
      fail (.refused e)
    | none => pure ()
  let feed ← number
  let endpoints ← hopEndpoints last plan.chain
  let slots ← query fun s => .ok (s.nodes.vacant plan.chain.length)
  let started ← startTransforms edge.endpoint answers plan.chain 0 []
  atEndpoint edge.endpoint (·.unpark (some (.into feed)))
  let above ← spliceNodes edge plan.edge (splicedOf slots endpoints started plan.chain)
  modifyEdge plan.edge fun edge => { edge with consumer := slots.headD 0 }
  modifyEdge plan.edge fun edge => { edge with feasible := some (.one plan.edgeCaps) }
  modifyNode edge.consumer fun n => { n with inEdges := retarget n.inEdges plan.edge above }
  return started.map Prod.fst

def remove (answers : Answers Err) : Op Err Nat := do
  let removed ← query (·.find name)
  let n ← query (·.node removed)
  if n.removable = false then refuse (.notMutable name)
  let above ← query (·.edgeAt name .above)
  let below ← query (·.edgeAt name .below)
  let belowEdge ← query (·.edge below)
  let aboveEdge ← query (·.edge above)
  let up := aboveEdge.endpoint
  let own := belowEdge.endpoint
  let handback ← takeElementHandback removed
  let done ← query fun _ => orRefuse handback (.notMutable name)
  let upstreamCaps ← query fun s => orRefuse (s.endpoints up).caps .noCaps
  let ownCaps ← query fun s => .ok (s.endpoints own).caps
  if ownCaps ≠ some upstreamCaps ∧ acceptsDownstream belowEdge.feasible upstreamCaps = false then do
    putBack removed (.element done)
    refuse .downstreamRefused
  atEndpoint up ProducerEndpoint.requestPark
  let _ ← onStop (detach up answers) (putBack removed (.element done))
  atEndpoint own ProducerEndpoint.claimOnEnd
  atEndpoint own ProducerEndpoint.beginDrain
  if answers.drained = false ∨ answers.delivered done = false then do
    atEndpoint up (·.unpark none)
    fail .graphEnded
  let output ← query fun s => .ok (s.endpoints own).producing
  if ownCaps ≠ some upstreamCaps then
    match answers.announced with
    | some e => do
      atEndpoint up (·.unpark none)
      fail (.refused e)
    | none => pure ()
  atEndpoint up (·.unpark (some output))
  modifyEdge above fun edge => { edge with consumer := belowEdge.consumer }
  let bypassed ← removeEdge below
  modifyEdge above fun edge => { edge with feasible := bypassed.feasible }
  modifyNode belowEdge.consumer fun n => { n with inEdges := retarget n.inEdges below above }
  retireNode removed
  return done

/-! ## Replacing the ends -/

def sinkNode (edge done : Nat) : LiveNode :=
  { name, namedAtStartup := false, outEdges := [], inEdges := [edge], totalOutEdges := 0, totalInEdges := 1
    done := some (.element done), removable := false, growth := .fixed }

def sourceNode (edge done : Nat) : LiveNode :=
  { name, namedAtStartup := false, outEdges := [edge], inEdges := [], totalOutEdges := 1, totalInEdges := 0
    done := some (.source done), removable := false, growth := .fixed }

/-- Start a sink on an edge. Returns the node it occupies. -/
def startSink (edge : Nat) (taken : Bool) : Op Err Nat := do
  let slot ← query fun s => .ok ((s.nodes.vacant 1).headD 0)
  let done ← number
  if taken = false then fail .graphEnded
  fillNode slot (sinkNode name edge done)
  return slot

def replaceSink (element : SinkElement Err) (answers : Answers Err) : Op Err (InstanceName × Nat) := do
  let replaced ← query (·.find name)
  let n ← query (·.node replaced)
  if n.totalOutEdges ≠ 0 then refuse (.notMutable name)
  match n.done with
  | some (.element _) => pure ()
  | _ => refuse (.notMutable name)
  let e ← query (·.edgeAt name .above)
  let edge ← query (·.edge e)
  let edgeCaps ← query fun s => orRefuse (s.endpoints edge.endpoint).caps .noCaps
  let feasible ← query fun _ => prepareSink edgeCaps element element.configured
  let fresh ← uniqueName element.category
  let handback ← takeElementHandback replaced
  match handback with
  | none => stop .panic
  | some done => do
    atEndpoint edge.endpoint ProducerEndpoint.requestPark
    let _ ← onStop (detach edge.endpoint answers) (putBack replaced (.element done))
    if answers.eos = false ∨ answers.delivered done = false then do
      atEndpoint edge.endpoint (·.unpark none)
      fail .graphEnded
    let feed ← number
    let replacement ← onStop (startSink fresh e (answers.arms 0)) (atEndpoint edge.endpoint (·.unpark none))
    atEndpoint edge.endpoint (·.unpark (some (.into feed)))
    modifyEdge e fun edge => { edge with consumer := replacement }
    modifyEdge e fun edge => { edge with feasible := some feasible }
    retireNode replaced
    return (fresh, done)

def replaceSource (source : SourceElement Err) (answers : Answers Err) : Op Err (InstanceName × Nat) := do
  let replaced ← query (·.find name)
  let n ← query (·.node replaced)
  if n.totalInEdges ≠ 0 then refuse (.notMutable name)
  match n.done with
  | some (.source _) => pure ()
  | _ => refuse (.notMutable name)
  let e ← query (·.edgeAt name .below)
  let edge ← query (·.edge e)
  let edgeCaps ← query fun s => orRefuse (s.endpoints edge.endpoint).caps .noCaps
  let produced ← query fun _ => answer source.produced
  let caps ← query fun _ =>
    if produced.accepts edgeCaps then .ok edgeCaps else agreedCaps edge.feasible produced
  query fun _ => answer source.configured
  let fresh ← uniqueName source.category
  let handback ← takeSourceHandback replaced
  match handback with
  | none => stop .panic
  | some done => do
    atEndpoint edge.endpoint ProducerEndpoint.requestPark
    let link ← onStop (detach edge.endpoint answers) (putBack replaced (.source done))
    atEndpoint edge.endpoint ProducerEndpoint.retire
    if answers.delivered done = false then fail .graphEnded
    atEndpoint edge.endpoint ProducerEndpoint.rehome
    if caps ≠ edgeCaps then
      match answers.announced with
      | some e => fail (.refused e)
      | none => atEndpoint edge.endpoint (·.setCaps caps)
    let channel ← number
    if answers.arms 0 = false then fail .graphEnded
    atEndpoint edge.endpoint fun endpoint => { endpoint with link }
    insertNode (sourceNode fresh e channel)
    retireNode replaced
    return (fresh, done)

/-! ## Growing and pruning -/

/-- Put the transforms of a branch into the tables, each between its edge and the next, and start their
arms. Returns their names. -/
def growTransforms (policy : LinkPolicy) (capacity : Nat) (mode : BranchMode) (answers : Answers Err) :
    Nat → Caps → List (Element Err × Caps) → List Nat → List Nat → Op Err (List InstanceName)
  | i, input, (element, caps) :: rest, slot :: slots, e :: below :: edges => do
    let name ← uniqueName element.category
    let done ← number
    if answers.arms i = false then fail .graphEnded
    let link ← number
    let endpoint ← newEndpoint input (.into link)
    fillEdge e { endpoint, consumer := slot, feasible := some (.one input), policy, capacity, mode }
    fillNode slot (transformNode name e below done)
    return name :: (← growTransforms policy capacity mode answers (i + 1) caps rest slots (below :: edges))
  | _, _, _, _, _ => return []

/-- Negotiate a branch: its transforms, then its sink against what they emit, with converters ahead of the
sink if it asks for them. -/
def prepareBranch (sticky : Caps) (transforms : List (Element Err)) (sink : SinkElement Err)
    (converters : Option (Option (List (Element Err)))) : Except (Stop Err) (List (Element Err × Caps) × CapsSet) := do
  let chain ← negotiateChain transforms
  let produced := lastCaps sticky chain
  let (chain, feasible) ←
    match prepareSink produced sink sink.configured with
    | .ok feasible => pure (chain, feasible)
    | .error refusal => do
      let accepted ←
        match sink.accepts with
        | some set => pure set
        | none => throw refusal
      let chain ←
        match convertTail chain produced accepted converters with
        | .ok chain => pure chain
        | .error _ => throw refusal
      let feasible ← prepareSink (lastCaps sticky chain) sink sink.converted
      pure (chain, feasible)
  configureChain chain
  return (chain, feasible)

def addBranch (tee : InstanceName) (branch : Option (List (Element Err) × SinkElement Err))
    (converters : Option (Option (List (Element Err)))) (answers : Answers Err) : Op Err (List InstanceName) := do
  let t ← query (·.find tee)
  let n ← query (·.node t)
  match n.growth, branch with
  | .branches mode, some (transforms, sink) => do
    let sticky ← query (·.teeCaps t)
    let (policy, capacity) ← query fun s =>
      match n.outEdges.head? with
      | some e => do
        let edge ← s.edge e
        return (edge.policy, edge.capacity)
      | none => return (.block, s.linkCapacity)
    let (chain, feasible) ← query fun _ => prepareBranch sticky transforms sink converters
    let count := chain.length + 1
    let slots ← query fun s => .ok (s.nodes.vacant count)
    let edges ← query fun s => .ok (s.edges.vacant count)
    let names ← growTransforms policy capacity mode answers 0 sticky chain slots edges
    let sinkName ← uniqueName sink.category
    let link ← number
    let endpoint ← newEndpoint (lastCaps sticky chain) (.into link)
    let sinkEdge := edges.getD chain.length 0
    fillEdge sinkEdge
      { endpoint, consumer := slots.getD chain.length 0, feasible := some feasible, policy, capacity, mode }
    let _ ← startSink sinkName sinkEdge (answers.arms chain.length)
    if answers.grows = false then fail .graphEnded
    modifyNode t fun n => { n with outEdges := n.outEdges ++ [edges.headD 0] }
    modifyNode t fun n => { n with totalOutEdges := n.totalOutEdges + 1 }
    return names ++ [sinkName]
  | _, _ => refuse (.notMutable tee)

/-- Walk up from an edge to the tee above it, collecting the transforms on the way. The edge above a
transform is looked up by its name. Returns the nodes of the branch from the top, the tee and the edge that
leaves it. -/
def walkUp (s : MutationService) (sink : InstanceName) : Nat → List Nat → Nat → Except (Stop Err) (List Nat × Nat × Nat)
  | 0, _, _ => throw .waits
  | fuel + 1, chain, e => do
    let producer ← orRefuse (s.producerOf e) (.notMutable sink)
    let n ← s.node producer
    match n.growth, n.removable, n.done with
    | .branches _, _, _ => return (chain, producer, e)
    | _, true, some (.element _) => do
      let above ← s.edgeAt n.name .above
      walkUp s sink fuel (producer :: chain) above
    | _, _, _ => throw (.refused (.notMutable sink))

/-- Wait for the elements of a branch to come back, from the top. -/
def collect (answers : Answers Err) : List Nat → Op Err (List Nat)
  | [] => return []
  | i :: rest => do
    let handback ← takeElementHandback i
    match handback with
    | none => stop .panic
    | some done => do
      if answers.delivered done = false then fail .graphEnded
      return done :: (← collect answers rest)

/-- Take the nodes of a branch out of the tables, with the edges into them. -/
def prune : List Nat → Op Err Unit
  | [] => return ()
  | i :: rest => do
    let n ← query (·.node i)
    modifyNode i fun n => { n with inEdges := [] }
    n.inEdges.forM fun e => do
      let _ ← removeEdge e
    retireNode i
    prune rest

def removeBranch (sink : InstanceName) (answers : Answers Err) : Op Err (List Nat) := do
  let i ← query (·.find sink)
  let n ← query (·.node i)
  if n.totalOutEdges ≠ 0 then refuse (.notMutable sink)
  match n.done with
  | some (.element _) => pure ()
  | _ => refuse (.notMutable sink)
  let e ← query (·.edgeAt sink .above)
  let (chain, tee, top) ← query fun s => s.walkUp sink (s.nodes.entries.length + 1) [i] e
  let edge ← query (·.edge top)
  atEndpoint edge.endpoint ProducerEndpoint.requestPark
  let _ ← detach edge.endpoint answers
  if answers.eos = false then do
    atEndpoint edge.endpoint (·.unpark none)
    fail .graphEnded
  atEndpoint edge.endpoint ProducerEndpoint.retire
  let elements ← collect answers chain
  prune chain
  modifyNode tee fun n => { n with outEdges := n.outEdges.filter (· ≠ top) }
  modifyNode tee fun n => { n with totalOutEdges := n.totalOutEdges - 1 }
  return elements

def addInput (muxer : InstanceName) (source : SourceElement Err) (answers : Answers Err) : Op Err InstanceName := do
  let m ← query (·.find muxer)
  let n ← query (·.node m)
  match n.growth with
  | .inputs padsInUse declared => do
    let pad ← query fun _ =>
      orRefuse ((List.range declared).find? fun pad => !padsInUse.contains pad) .noFreePad
    let _ ← query fun _ => answer source.produced
    let link ← number
    if answers.grows = false then refuse .graphEnded
    let fixated ← query fun _ =>
      match answers.admitted with
      | some admitted => answer admitted
      | none => .error (.refused .graphEnded)
    query fun _ => answer source.configured
    let name ← uniqueName source.category
    let endpoint ← newEndpoint fixated (.into link)
    let done ← number
    if answers.arms 0 = false then fail .graphEnded
    let e ← insertEdge
      { endpoint, consumer := m, feasible := some (.one fixated), policy := .block
        capacity := (← query fun s => .ok s.linkCapacity), mode := .reconfigure }
    insertNode (sourceNode name e done)
    modifyNode m fun n => { n with inEdges := n.inEdges ++ [e] }
    modifyNode m fun n => { n with totalInEdges := n.totalInEdges + 1 }
    modifyNode m fun n => { n with growth := .inputs (padsInUse ++ [pad]) declared }
    return name
  | _ => refuse (.notMutable muxer)

end MutationService

/-! ## Requests -/

/-- What the handle asks for. -/
inductive MutationOp (Err : Type) where
  | insert (name : InstanceName) (side : Side) (elements : List (Element Err))
      (converters : Option (Option (List (Element Err))))
  | remove (name : InstanceName)
  | replaceSink (name : InstanceName) (element : SinkElement Err)
  | replaceSource (name : InstanceName) (source : SourceElement Err)
  | addBranch (tee : InstanceName) (branch : Option (List (Element Err) × SinkElement Err))
      (converters : Option (Option (List (Element Err))))
  | removeBranch (sink : InstanceName)
  | addInput (muxer : InstanceName) (source : SourceElement Err)

/-- Whether a request is given a deadline. An empty chain is not sent. -/
def MutationOp.timed : MutationOp Err → Bool
  | .addBranch .. | .addInput .. | .insert _ _ [] _ => false
  | _ => true

namespace MutationService

/-- Serve a request. Returns the names it gave and the channels of the elements it hands back. -/
def serve (request : MutationOp Err) (answers : Answers Err) : Op Err (List InstanceName × List Nat) := do
  if request.timed && answers.noTimer then refuse .noTimer
  match request with
  | .insert name side elements converters => do
    let names ← insert name side elements converters answers
    return (names, [])
  | .remove name => do
    let done ← remove name answers
    return ([], [done])
  | .replaceSink name element => do
    let (fresh, done) ← replaceSink name element answers
    return ([fresh], [done])
  | .replaceSource name source => do
    let (fresh, done) ← replaceSource name source answers
    return ([fresh], [done])
  | .addBranch tee branch converters => do
    let names ← addBranch tee branch converters answers
    return (names, [])
  | .removeBranch sink => do
    let elements ← removeBranch sink answers
    return ([], elements)
  | .addInput muxer source => do
    let name ← addInput muxer source answers
    return ([name], [])

end MutationService

end Glass2Glass.Runtime
