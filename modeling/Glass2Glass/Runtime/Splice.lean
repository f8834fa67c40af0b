import Glass2Glass.Runtime.Handover

/-!
# The caps of a splice

A mutation that splices at an edge, step by step beside the producer of the edge (`insert` and `remove` in
`g2g-core/src/runtime/mutate.rs`). An insertion reads the caps on the edge, configures its chain for them,
parks the producer and lets it go on with the chain's link. A removal reads the caps above the element and
those on the element's own edge, parks the producer above, waits until the element has drained, announces the
caps above to the consumer if the two were different, and lets the producer go on with the element's link.

The caps are read before the producer is stopped. As long as no other caps cross the edge in between, and none
cross the edge of an element whose removal will announce nothing, the splice is configured for the caps that
the producer sends (`splice_runs`). Otherwise it is not (`stale_caps`).

The negotiation of the chain is in `Rewire`; here it is only what it came to.
-/

namespace Glass2Glass.Runtime

/-- What a splice goes by, once it has read the caps. -/
inductive SplicePlan where
  /-- The chain is configured for `edgeCaps` and puts out `finalCaps`. -/
  | insert (edgeCaps finalCaps : Caps)
  /-- The caps above are announced if they are not those on the element's own edge. -/
  | remove (upstreamCaps : Caps) (capsChange : Bool)

def SplicePlan.read : SplicePlan → Caps
  | .insert edgeCaps _ => edgeCaps
  | .remove upstreamCaps _ => upstreamCaps

/-- Where a splice is, between two steps. -/
inductive SpliceStage where
  | idle
  /-- A removal has read the caps above. -/
  | looking (upstreamCaps : Caps)
  | ready (plan : SplicePlan)
  /-- The producer is asked to park. -/
  | asked (plan : SplicePlan)
  /-- The producer's link is in hand; an element to remove drains. -/
  | taken (plan : SplicePlan)
  /-- The element is back, and its link is in hand. -/
  | drained (plan : SplicePlan)
  /-- The splice is done, and these are the caps the consumer of a removed element was told last. -/
  | spliced (plan : SplicePlan) (told : Option Caps)
  | refused

/-- The plan of a splice under way. -/
def SpliceStage.plan? : SpliceStage → Option SplicePlan
  | .ready plan | .asked plan | .taken plan | .drained plan => some plan
  | _ => none

/-- The caps that a splice under way has read on the producer's edge. -/
def SpliceStage.read? : SpliceStage → Option Caps
  | .looking upstreamCaps => some upstreamCaps
  | stage => stage.plan?.map SplicePlan.read

/-- No splice is under way. -/
def SpliceStage.isOver : SpliceStage → Bool
  | .idle | .spliced _ _ | .refused => true
  | _ => false

def capsAfter (initial : Option Caps) (crossed : List PipelinePacket) : Option Caps :=
  crossed.foldl (fun caps packet =>
      match packet with
      | .capsChanged caps => some caps
      | _ => caps)
    initial

def Handover.Action.ofProducer : Handover.Action → Bool
  | .push _ | .readFlag | .passGate | .pollAgain | .observe | .send | .drop | .cancel => true
  | .requestPark | .pollDetached | .cancelPark | .relink _ | .retire | .unpark _ => false

structure Splice where
  edge : Handover
  /-- The caps on the edge at the start of the run. -/
  initial : Option Caps
  /-- The packets that had crossed the edge when the producer last gave its link up. -/
  atPark : List PipelinePacket
  /-- The caps on the edge of the element that is being removed. -/
  own : Option Caps
  stage : SpliceStage

namespace Splice

inductive Action where
  | producer (action : Handover.Action)
  /-- The caps are read, and a chain is configured for them that puts out `finalCaps`. -/
  | insert (finalCaps : Caps)
  /-- The caps above an element are read whose own edge carries `own`. -/
  | remove (own : Option Caps)
  /-- The element that is being removed announces caps to its consumer. -/
  | element (caps : Caps)
  /-- The caps on the element's own edge are read, and the consumer accepts those above or does not. -/
  | readOwn (accepts : Bool)
  | requestPark
  | pollDetached
  | cancelPark
  | drain
  /-- What is to be announced is announced, and the producer goes on with a link. -/
  | finish (link : Nat)
  /-- The consumer or the graph has ended. The producer goes on with the link it had, or with none. -/
  | fail (keep : Bool)

/-- A producer with a link, on an edge that carries `caps`. -/
def new (link : Nat) (caps : Option Caps) : Splice :=
  { edge := { Handover.new link with gate.endpoint.caps := caps }
    initial := caps, atPark := [], own := none, stage := .idle }

variable (s : Splice)

/-- The caps that the producer put on the edge last, before it parked. -/
def flowing : Option Caps := capsAfter s.initial s.atPark

def produce (action : Handover.Action) : Option Splice :=
  (s.edge.step action).map fun edge => { s with
    edge
    atPark :=
      if s.edge.gate.endpoint.detached.isNone && edge.gate.endpoint.detached.isSome then edge.crossed else s.atPark }

/-- The mutator takes a step at the gate. -/
def mutate (actions : List Handover.Action) (stage : SpliceStage) : Option Splice :=
  (Machine.run Handover.step s.edge actions).map fun edge => { s with edge, stage }

def step (s : Splice) : Action → Option Splice
  | .producer action => if action.ofProducer then s.produce action else none
  | .insert finalCaps =>
    if s.stage.isOver then
      match s.edge.gate.endpoint.caps with
      | some edgeCaps => some { s with stage := .ready (.insert edgeCaps finalCaps) }
      | none => some { s with stage := .refused }
    else none
  | .remove own =>
    if s.stage.isOver then
      match s.edge.gate.endpoint.caps with
      | some upstreamCaps => some { s with own, stage := .looking upstreamCaps }
      | none => some { s with own, stage := .refused }
    else none
  | .element caps =>
    match s.stage with
    | .looking _ | .ready (.remove _ _) | .asked (.remove _ _) | .taken (.remove _ _) => some { s with own := some caps }
    | _ => none
  | .readOwn accepts =>
    match s.stage with
    | .looking upstreamCaps =>
      let capsChange := decide (s.own ≠ some upstreamCaps)
      some { s with stage := if capsChange && !accepts then .refused else .ready (.remove upstreamCaps capsChange) }
    | _ => none
  | .requestPark =>
    match s.stage with
    | .ready plan => s.mutate [.requestPark] (.asked plan)
    | _ => none
  | .pollDetached =>
    match s.stage with
    | .asked plan =>
      (s.edge.step .pollDetached).map fun edge => { s with
        edge
        stage :=
          match edge.mutator with
          | .holding _ => .taken plan
          | .asking _ => .asked plan
          | .idle => .refused }
    | _ => none
  | .cancelPark =>
    match s.stage with
    | .asked _ => s.mutate [.cancelPark] .refused
    | _ => none
  | .drain =>
    match s.stage with
    | .taken (.remove upstreamCaps capsChange) => some { s with stage := .drained (.remove upstreamCaps capsChange) }
    | _ => none
  | .finish link =>
    match s.stage with
    | .taken (.insert edgeCaps finalCaps) =>
      s.mutate [.relink link, .unpark true] (.spliced (.insert edgeCaps finalCaps) none)
    | .drained (.remove upstreamCaps capsChange) =>
      s.mutate [.relink link, .unpark true]
        (.spliced (.remove upstreamCaps capsChange) (if capsChange then some upstreamCaps else s.own))
    | _ => none
  | .fail keep =>
    match s.stage with
    | .taken (.insert _ _) => s.mutate [.unpark keep] .refused
    | .taken (.remove _ _) | .drained _ => s.mutate [.unpark false] .refused
    | _ => none

/-- A splice that is done is configured for the caps that the producer put on the edge last before it parked:
the chain is, or the consumer was told of them. -/
def Configured : Prop :=
  match s.stage with
  | .spliced (.insert edgeCaps _) _ => s.flowing = some edgeCaps
  | .spliced (.remove _ _) told => told = s.flowing
  | _ => True

/-- No other caps than those that were read cross the edge before the producer is stopped. When a removal will
announce nothing, no other caps cross the edge of the element until it has drained. -/
def Unchanged : Action → Prop
  | .producer .observe =>
    ∀ caps read, s.edge.stage = .passed (.capsChanged caps) → s.stage.read? = some read → caps = read
  | .element caps => ∀ upstreamCaps, s.stage.plan? = some (.remove upstreamCaps false) → caps = upstreamCaps
  | _ => True

end Splice

/-! ## The producer stands still -/

namespace Handover

variable {s s' : Handover} {action : Action}

/-- While the producer's link is given up or in the mutator's hands, no push is past the gate. -/
structure Stopped (s : Handover) : Prop where
  detached : s.gate.endpoint.detached.isSome = true →
    s.gate.endpoint.park = true ∧ s.gate.endpoint.parked = true ∧ s.gate.endpoint.staged = none
  hands : s.mutator.link?.isSome = true →
    s.gate.endpoint.detached = none ∧ s.gate.endpoint.parked = true ∧ s.gate.endpoint.staged = none
  clear : s.stage.isPast = true → s.gate.endpoint.detached = none ∧ s.mutator.link? = none

theorem caps_pollProducer {e : ProducerEndpoint} : e.pollProducer.caps = e.caps := by
  unfold ProducerEndpoint.pollProducer
  rcases e.staged with _ | link <;> dsimp only <;> split_ifs <;> rfl

theorem detached_pollProducer {e : ProducerEndpoint} (hpark : e.park = false) :
    e.pollProducer.detached = e.detached := by
  unfold ProducerEndpoint.pollProducer
  rcases e.staged with _ | link <;> dsimp only <;> rw [hpark] <;> rfl

theorem link?_eq_none (hguarded : s.Guarded) (hpark : s.gate.endpoint.park = false) : s.mutator.link? = none := by
  have hidle : s.mutator = .idle := by
    by_contra hbusy
    have hraised := hguarded.asked.2 hbusy
    rw [hpark] at hraised
    cases hraised
  rw [hidle]
  rfl

theorem Stopped.detached_eq_none (h : s.Stopped) (hpark : s.gate.endpoint.park = false) :
    s.gate.endpoint.detached = none := by
  by_contra hsome
  have hraised := (h.detached (Option.isSome_iff_ne_none.2 hsome)).1
  rw [hpark] at hraised
  cases hraised

theorem Stopped.wait {packet : PipelinePacket} {gate : Gate} (h : s.Stopped)
    (hpark : s.gate.endpoint.pollProducer.park = true) (hendpoint : gate.endpoint = s.gate.endpoint.pollProducer)
    {woken mutatorWoken : Bool} : Stopped { s with gate, stage := .waiting packet, woken, mutatorWoken } := by
  rw [park_pollProducer] at hpark
  refine ⟨fun _ => ?_, fun hhands => ?_, nofun⟩
  · dsimp only
    rw [hendpoint]
    refine ⟨park_pollProducer.trans hpark, ?_, staged_pollProducer⟩
    unfold ProducerEndpoint.pollProducer
    rcases hstaged : s.gate.endpoint.staged with _ | link <;> dsimp only <;> rw [hpark]
    · rcases hparked : s.gate.endpoint.parked with _ | _
      · rfl
      · exact hparked
    · rfl
  · obtain ⟨hdetached, hparked, hstaged⟩ := h.hands hhands
    rw [hendpoint, pollProducer_of_parked hparked hstaged]
    exact ⟨hdetached, hparked, hstaged⟩

theorem stopped_step (h : s.Stopped) (hguarded : s.Guarded) (hmove : Move s action s') : s'.Stopped := by
  cases hmove with
  | push | stop | again | sent | misdirect | lose => exact ⟨h.detached, h.hands, nofun⟩
  | pass hstage hflag =>
    have hpark : s.gate.endpoint.park = false := by
      by_contra hraised
      rw [Bool.not_eq_false] at hraised
      rw [hguarded.flag (.inl hraised)] at hflag
      cases hflag
    have hempty := link?_eq_none hguarded hpark
    exact ⟨h.detached, h.hands, fun _ => ⟨h.detached_eq_none hpark, hempty⟩⟩
  | ready hstage hpark =>
    rw [park_pollProducer] at hpark
    have hnone := (detached_pollProducer hpark).trans (h.detached_eq_none hpark)
    have hempty := link?_eq_none hguarded hpark
    refine ⟨fun hsome => ?_, fun hsome => ?_, fun _ => ⟨hnone, hempty⟩⟩
    · dsimp only at hsome
      rw [hnone] at hsome
      cases hsome
    · dsimp only at hsome
      rw [hempty] at hsome
      cases hsome
  | wait hstage hpark => exact h.wait hpark rfl
  | observe hstage =>
    rw [observe_eq]
    exact ⟨h.detached, h.hands, fun _ => h.clear (by rw [hstage]; rfl)⟩
  | request hmutator =>
    refine ⟨fun hsome => ⟨rfl, (h.detached hsome).2⟩, nofun, fun hpast => ⟨(h.clear hpast).1, rfl⟩⟩
  | take hmutator hdetached =>
    refine ⟨nofun, fun _ => ⟨rfl, (h.detached (by rw [hdetached]; rfl)).2⟩, fun hpast => ?_⟩
    have hnone := (h.clear hpast).1
    rw [hdetached] at hnone
    cases hnone
  | ended hmutator | listen hmutator => exact ⟨h.detached, nofun, fun hpast => ⟨(h.clear hpast).1, rfl⟩⟩
  | withdraw hmutator => exact ⟨nofun, nofun, fun _ => ⟨rfl, rfl⟩⟩
  | relink hmutator =>
    refine ⟨h.detached, fun _ => h.hands (by rw [hmutator]; rfl), fun hpast => ?_⟩
    have hnone := (h.clear hpast).2
    rw [hmutator] at hnone
    cases hnone
  | retire hmutator => exact ⟨h.detached, h.hands, h.clear⟩
  | unpark hmutator =>
    obtain ⟨hdetached, -, -⟩ := h.hands (by rw [hmutator]; rfl)
    refine ⟨fun hsome => absurd hdetached ?_, nofun, fun _ => ⟨hdetached, rfl⟩⟩
    exact Option.isSome_iff_ne_none.1 hsome

/-- The producer's link is given up, or in the mutator's hands. -/
def held (s : Handover) : Bool := s.gate.endpoint.detached.isSome || s.mutator.link?.isSome

theorem crossed_of_move (hmove : Move s action s') :
    s'.crossed = s.crossed ∧ s'.gate.endpoint.caps = s.gate.endpoint.caps ∨
    action = .observe ∧ ∃ packet, s.stage = .passed packet ∧ s'.crossed = s.crossed ++ [packet] ∧
      s'.gate.endpoint.caps = (s.gate.endpoint.observe packet).caps := by
  cases hmove with
  | observe hstage => exact .inr ⟨rfl, _, hstage, rfl, rfl⟩
  | ready | wait => exact .inl ⟨rfl, caps_pollProducer⟩
  | push | pass | stop | again | sent | misdirect | lose | request | take | ended | listen | withdraw | relink
    | retire | unpark => exact .inl ⟨rfl, rfl⟩

theorem mutator_of_producer (hmove : Move s action s') (hproducer : action.ofProducer = true) :
    s'.mutator = s.mutator := by
  cases hmove <;> first | rfl | cases hproducer

theorem held_of_mutator (hmove : Move s action s') (hmutator : action.ofProducer = false)
    (hheld : s'.held = true) : s.held = true := by
  cases hmove with
  | push | pass | stop | ready | wait | again | observe | sent | misdirect => cases hmutator
  | lose haction =>
    rcases haction with rfl | rfl <;> cases hmutator
  | request | ended | listen =>
    have hdetached : (s.gate.endpoint.detached.isSome || false) = true := hheld
    rw [Bool.or_false] at hdetached
    unfold held
    rw [hdetached]
    rfl
  | take _ hdetached =>
    unfold held
    rw [hdetached]
    rfl
  | withdraw => cases hheld
  | relink h | retire h | unpark h =>
    unfold held
    rw [h]
    exact Bool.or_true _

theorem Stopped.crossed_eq (h : s.Stopped) (hheld : s.held = true) (hmove : Move s action s') :
    s'.crossed = s.crossed := by
  rcases crossed_of_move hmove with ⟨hsame, -⟩ | ⟨-, packet, hstage, -, -⟩
  · exact hsame
  · obtain ⟨hdetached, hempty⟩ := h.clear (by rw [hstage]; rfl)
    unfold held at hheld
    rw [hdetached, hempty] at hheld
    cases hheld

/-- The endpoint of the edge is in order, and it has the caps that crossed it. -/
structure Followed (s : Handover) (initial : Option Caps) (atPark : List PipelinePacket) : Prop where
  guarded : s.Guarded
  stopped : s.Stopped
  caps : s.gate.endpoint.caps = capsAfter initial s.crossed
  parked : s.held = true → atPark = s.crossed

theorem capsAfter_concat (initial : Option Caps) (crossed : List PipelinePacket) (packet : PipelinePacket)
    {e : ProducerEndpoint} (he : e.caps = capsAfter initial crossed) :
    (e.observe packet).caps = capsAfter initial (crossed ++ [packet]) := by
  unfold capsAfter at he ⊢
  rw [List.foldl_append, ← he]
  cases packet <;> rfl

theorem caps_step {initial : Option Caps} (h : s.gate.endpoint.caps = capsAfter initial s.crossed)
    (hmove : Move s action s') : s'.gate.endpoint.caps = capsAfter initial s'.crossed := by
  rcases crossed_of_move hmove with ⟨hcrossed, hcaps⟩ | ⟨-, packet, -, hcrossed, hcaps⟩
  · rw [hcaps, hcrossed, h]
  · rw [hcaps, hcrossed, capsAfter_concat initial s.crossed packet h]

theorem followed_new (link : Nat) (caps : Option Caps) :
    Followed { Handover.new link with gate.endpoint.caps := caps } caps [] where
  guarded := ⟨fun _ => ⟨link, .sink rfl rfl rfl rfl rfl⟩, (guarded_new link).flag, (guarded_new link).asked, rfl,
    nofun, nofun, nofun, nofun⟩
  stopped := ⟨nofun, nofun, nofun⟩
  caps := rfl
  parked := nofun

theorem Followed.mutated {initial : Option Caps} {atPark : List PipelinePacket} {actions : List Action}
    (h : s.Followed initial atPark) (hmutator : ∀ action ∈ actions, action.ofProducer = false)
    (hrun : Machine.run step s actions = some s') :
    s'.Followed initial atPark ∧ s'.crossed = s.crossed ∧ s'.gate.endpoint.caps = s.gate.endpoint.caps := by
  refine Machine.run_keeps (P := fun t => t.Followed initial atPark ∧ t.crossed = s.crossed ∧
    t.gate.endpoint.caps = s.gate.endpoint.caps) ?_ hrun ⟨h, rfl, rfl⟩
  rintro t action hmem t' ⟨ht, hcrossed, hcaps⟩ hstep
  have hmove := move_of_step hstep
  have hsame : t'.crossed = t.crossed ∧ t'.gate.endpoint.caps = t.gate.endpoint.caps := by
    rcases crossed_of_move hmove with hsame | ⟨rfl, -⟩
    · exact hsame
    · cases hmutator _ hmem
  refine ⟨⟨guarded_step ht.guarded hmove, stopped_step ht.stopped ht.guarded hmove, caps_step ht.caps hmove,
    fun hheld => ?_⟩, hsame.1.trans hcrossed, hsame.2.trans hcaps⟩
  rw [hsame.1]
  exact ht.parked (held_of_mutator hmove (hmutator _ hmem) hheld)

end Handover

/-! ## Splices -/

namespace Splice

variable {s s' : Splice}

def Meets (stage : SpliceStage) (mutator : MutatorStage) : Prop :=
  match stage with
  | .asked _ => True
  | .taken _ | .drained _ => mutator.link?.isSome = true
  | _ => mutator = .idle

/-- What holds between the steps of a splice. -/
structure Aligned (s : Splice) : Prop where
  edge : s.edge.Followed s.initial s.atPark
  meets : Meets s.stage s.edge.mutator
  /-- The caps that were read are those on the edge. -/
  read : ∀ read, s.stage.read? = some read → s.edge.gate.endpoint.caps = some read
  /-- The consumer was told what a removal leaves out. -/
  kept : ∀ upstreamCaps, s.stage.plan? = some (.remove upstreamCaps false) → s.own = some upstreamCaps
  configured : s.Configured

theorem aligned_new (link : Nat) (caps : Option Caps) : (new link caps).Aligned :=
  ⟨Handover.followed_new link caps, rfl, nofun, nofun, trivial⟩

theorem aligned_produce {action : Handover.Action} (h : s.Aligned) (hproducer : action.ofProducer = true)
    (hunchanged : s.Unchanged (.producer action)) (hstep : s.produce action = some s') : s'.Aligned := by
  obtain ⟨edge, hedge, rfl⟩ := Option.map_eq_some_iff.1 hstep
  have hmove := Handover.move_of_step hedge
  have hmutator := Handover.mutator_of_producer hmove hproducer
  have hguarded := Handover.guarded_step h.edge.guarded hmove
  have hstopped := Handover.stopped_step h.edge.stopped h.edge.guarded hmove
  refine ⟨⟨hguarded, hstopped, Handover.caps_step h.edge.caps hmove, fun hheld => ?_⟩, ?_, fun read hread => ?_,
    h.kept, ?_⟩
  · dsimp only
    split_ifs with hparks
    · rfl
    · -- The link was given up before this step.
      have hbefore : s.edge.held = true := by
        unfold Handover.held at hheld ⊢
        rw [hmutator] at hheld
        rcases hdetached : s.edge.gate.endpoint.detached with _ | link
        · rw [hdetached, Option.isNone_none, Bool.true_and, Bool.not_eq_true] at hparks
          rw [hparks] at hheld
          exact hheld
        · rfl
      rw [h.edge.stopped.crossed_eq hbefore hmove]
      exact h.edge.parked hbefore
  · dsimp only
    rw [hmutator]
    exact h.meets
  · rcases Handover.crossed_of_move hmove with ⟨-, hcaps⟩ | ⟨rfl, packet, hstage, -, hcaps⟩
    · exact hcaps.trans (h.read read hread)
    · rw [hcaps]
      cases packet with
      | capsChanged caps =>
        rw [hunchanged caps read hstage hread]
        rfl
      | dataFrame | eos | flush | segment | tick | overwrite | spliceInfo => exact h.read read hread
  · have hsame : s.edge.mutator = .idle → edge.gate.endpoint.detached.isSome = false := by
      intro hidle
      by_contra hsome
      have hpark := (hstopped.detached (Bool.not_eq_false _ ▸ hsome)).1
      exact hguarded.asked.1 hpark (hmutator.trans hidle)
    have hconfigured := h.configured
    have hmeets := h.meets
    unfold Configured flowing at hconfigured ⊢
    rcases hstage : s.stage with _ | _ | _ | _ | _ | _ | ⟨plan, told⟩ | _
    case spliced =>
      rw [hstage] at hconfigured hmeets
      rw [hsame hmeets, Bool.and_false, if_neg Bool.false_ne_true]
      exact hconfigured
    all_goals trivial

theorem Aligned.mutated {actions : List Handover.Action} {stage : SpliceStage} (h : s.Aligned)
    (hstep : s.mutate actions stage = some s') (hmutator : ∀ action ∈ actions, action.ofProducer = false)
    (hmeets : ∀ edge, Machine.run Handover.step s.edge actions = some edge → Meets stage edge.mutator)
    (hread : ∀ read, stage.read? = some read → s.stage.read? = some read)
    (hkept : ∀ upstreamCaps, stage.plan? = some (.remove upstreamCaps false) →
      s.stage.plan? = some (.remove upstreamCaps false)) (hconfigured : Configured { s with stage }) : s'.Aligned := by
  obtain ⟨edge, hrun, rfl⟩ := Option.map_eq_some_iff.1 hstep
  obtain ⟨hedge, -, hcaps⟩ := h.edge.mutated hmutator hrun
  exact ⟨hedge, hmeets edge hrun, fun read hsome => hcaps.trans (h.read read (hread read hsome)),
    fun upstreamCaps hsome => h.kept upstreamCaps (hkept upstreamCaps hsome), hconfigured⟩

theorem Aligned.flowing_eq (read : Caps) (h : s.Aligned) (hheld : s.edge.mutator.link?.isSome = true)
    (hread : s.stage.read? = some read) : s.flowing = some read := by
  have hparked : s.atPark = s.edge.crossed := by
    refine h.edge.parked ?_
    unfold Handover.held
    rw [hheld]
    exact Bool.or_true _
  unfold flowing
  rw [hparked, ← h.edge.caps]
  exact h.read read hread

theorem idle_of_unpark {edge edge' : Handover} (before : List Handover.Action) {keep : Bool}
    (hrun : Machine.run Handover.step edge (before ++ [.unpark keep]) = some edge') : edge'.mutator = .idle := by
  obtain ⟨mid, -, hlast⟩ := Machine.run_append_eq_some.1 hrun
  obtain ⟨last, hstep, hnil⟩ := Machine.run_cons_eq_some.1 hlast
  obtain rfl := Option.some.inj hnil
  cases Handover.move_of_step hstep with
  | unpark => rfl
  | lose haction => simp at haction

theorem idle_of_cancelPark {edge edge' : Handover}
    (hrun : Machine.run Handover.step edge [.cancelPark] = some edge') : edge'.mutator = .idle := by
  obtain ⟨last, hstep, hnil⟩ := Machine.run_cons_eq_some.1 hrun
  obtain rfl := Option.some.inj hnil
  cases Handover.move_of_step hstep with
  | withdraw => rfl
  | lose haction => simp at haction

theorem aligned_pollDetached {plan : SplicePlan} (h : s.Aligned) (hstage : s.stage = .asked plan)
    (hstep : s.step .pollDetached = some s') : s'.Aligned := by
  simp only [step, hstage] at hstep
  obtain ⟨edge, hedge, rfl⟩ := Option.map_eq_some_iff.1 hstep
  have hmutators : ∀ action ∈ [Handover.Action.pollDetached], action.ofProducer = false := by
    simp [Handover.Action.ofProducer]
  obtain ⟨hfollowed, -, hcaps⟩ := h.edge.mutated hmutators (Machine.run_cons_eq_some.2 ⟨edge, hedge, Machine.run_nil⟩)
  have hread := h.read plan.read (by rw [hstage]; rfl)
  have hkept := h.kept
  rw [hstage] at hkept
  rcases hmutator : edge.mutator with _ | waits | link
  · exact ⟨hfollowed, hmutator, nofun, nofun, trivial⟩
  · refine ⟨hfollowed, trivial, fun read hsome => ?_, hkept, trivial⟩
    rw [← Option.some.inj hsome]
    exact hcaps.trans hread
  · refine ⟨hfollowed, ?_, fun read hsome => ?_, hkept, trivial⟩
    · exact congrArg (fun m : MutatorStage => m.link?.isSome) hmutator
    · rw [← Option.some.inj hsome]
      exact hcaps.trans hread

theorem aligned_finish {link : Nat} (h : s.Aligned) (hstep : s.step (.finish link) = some s') : s'.Aligned := by
  have hmutators : ∀ action ∈ [Handover.Action.relink link, .unpark true], action.ofProducer = false := by
    simp [Handover.Action.ofProducer]
  have hmeets := h.meets
  have hkept := h.kept
  have hflowing := fun read => h.flowing_eq read
  rcases hstage : s.stage with _ | _ | _ | _ | plan | plan | _ | _ <;> simp only [step, hstage] at hstep <;>
    rw [hstage] at hmeets hkept hflowing <;> try cases hstep
  · rcases plan with ⟨edgeCaps, finalCaps⟩ | _
    · refine h.mutated hstep hmutators (fun _ => idle_of_unpark [.relink link]) nofun nofun ?_
      exact hflowing edgeCaps hmeets rfl
    · cases hstep
  · rcases plan with _ | ⟨upstreamCaps, capsChange⟩
    · cases hstep
    · refine h.mutated hstep hmutators (fun _ => idle_of_unpark [.relink link]) nofun nofun ?_
      refine Eq.trans ?_ (hflowing upstreamCaps hmeets rfl).symm
      rcases capsChange with _ | _
      · exact hkept upstreamCaps rfl
      · rfl

theorem aligned_fail {keep : Bool} (h : s.Aligned) (hstep : s.step (.fail keep) = some s') : s'.Aligned := by
  have hmutators : ∀ keep, ∀ action ∈ [Handover.Action.unpark keep], action.ofProducer = false := by
    simp [Handover.Action.ofProducer]
  rcases hstage : s.stage with _ | _ | _ | _ | plan | plan | _ | _ <;> simp only [step, hstage] at hstep <;>
    try cases hstep
  · rcases plan with _ | _
    · exact h.mutated hstep (hmutators keep) (fun _ => idle_of_unpark []) nofun nofun trivial
    · exact h.mutated hstep (hmutators false) (fun _ => idle_of_unpark []) nofun nofun trivial
  · exact h.mutated hstep (hmutators false) (fun _ => idle_of_unpark []) nofun nofun trivial

theorem Aligned.idle (h : s.Aligned) (hover : s.stage.isOver = true) : s.edge.mutator = .idle := by
  have hmeets := h.meets
  rcases hstage : s.stage <;> rw [hstage] at hover hmeets <;> first | exact hmeets | cases hover

theorem aligned_element {caps : Caps} (h : s.Aligned) (hunchanged : s.Unchanged (.element caps))
    (hstep : s.step (.element caps) = some s') : s'.Aligned := by
  have hmeets := h.meets
  have hread := h.read
  have hown : ∀ upstreamCaps, s.stage.plan? = some (.remove upstreamCaps false) → some caps = some upstreamCaps :=
    fun upstreamCaps hsome => congrArg some (hunchanged upstreamCaps hsome)
  rcases hstage : s.stage with _ | _ | plan | plan | plan | _ | _ | _ <;> simp only [step, hstage] at hstep <;>
    rw [hstage] at hmeets hread hown <;> try cases hstep
  · exact ⟨h.edge, hmeets, hread, hown, trivial⟩
  all_goals
    rcases plan with _ | _ <;> cases hstep
    exact ⟨h.edge, hmeets, hread, hown, trivial⟩

theorem aligned_step {action : Action} (h : s.Aligned) (hunchanged : s.Unchanged action)
    (hstep : s.step action = some s') : s'.Aligned := by
  have hmeets := h.meets
  have hread := h.read
  have hkept := h.kept
  cases action with
  | producer action =>
    simp only [step] at hstep
    split_ifs at hstep with hproducer
    exact aligned_produce h hproducer hunchanged hstep
  | insert finalCaps =>
    simp only [step] at hstep
    split_ifs at hstep with hover
    rcases hcaps : s.edge.gate.endpoint.caps with _ | edgeCaps <;> rw [hcaps] at hstep <;>
      obtain rfl := Option.some.inj hstep
    · exact ⟨h.edge, h.idle hover, nofun, nofun, trivial⟩
    · exact ⟨h.edge, h.idle hover, fun read hsome => hcaps.trans hsome, nofun, trivial⟩
  | remove own =>
    simp only [step] at hstep
    split_ifs at hstep with hover
    rcases hcaps : s.edge.gate.endpoint.caps with _ | upstreamCaps <;> rw [hcaps] at hstep <;>
      obtain rfl := Option.some.inj hstep
    · exact ⟨h.edge, h.idle hover, nofun, nofun, trivial⟩
    · exact ⟨h.edge, h.idle hover, fun read hsome => hcaps.trans hsome, nofun, trivial⟩
  | element caps => exact aligned_element h hunchanged hstep
  | readOwn accepts =>
    rcases hstage : s.stage <;> rw [hstage] at hmeets hread <;> simp only [step, hstage] at hstep <;> try cases hstep
    split_ifs with hrefused
    · exact ⟨h.edge, hmeets, nofun, nofun, trivial⟩
    · refine ⟨h.edge, hmeets, hread, fun upstreamCaps hsome => ?_, trivial⟩
      obtain ⟨rfl, hsame⟩ := SplicePlan.remove.inj (Option.some.inj hsome)
      exact not_not.1 (of_decide_eq_false hsame)
  | requestPark =>
    rcases hstage : s.stage <;> simp only [step, hstage] at hstep <;> try cases hstep
    refine h.mutated hstep (by simp [Handover.Action.ofProducer]) (fun _ _ => trivial) ?_ ?_ trivial <;> rw [hstage]
    · exact fun _ => id
    · exact fun _ => id
  | pollDetached =>
    rcases hstage : s.stage
    case asked plan => exact aligned_pollDetached h hstage hstep
    all_goals
      simp only [step, hstage] at hstep
      cases hstep
  | cancelPark =>
    rcases hstage : s.stage <;> simp only [step, hstage] at hstep <;> try cases hstep
    exact h.mutated hstep (by simp [Handover.Action.ofProducer]) (fun _ => idle_of_cancelPark) nofun nofun trivial
  | drain =>
    rcases hstage : s.stage with _ | _ | _ | _ | plan | _ | _ | _ <;> simp only [step, hstage] at hstep <;>
      try cases hstep
    rw [hstage] at hmeets hread hkept
    rcases plan with _ | _ <;> cases hstep
    exact ⟨h.edge, hmeets, hread, hkept, trivial⟩
  | finish link => exact aligned_finish h hstep
  | fail keep => exact aligned_fail h hstep

/-- In every interleaving of splices with the producer of their edge, a splice that is done is configured for
the caps that the producer put on the edge last before it parked, as long as no other caps than those that were
read cross the edge before the producer is stopped, and none cross the edge of an element whose removal
announces nothing until it has drained. -/
theorem splice_runs {link : Nat} {caps : Option Caps} {actions : List Action}
    (hrun : Machine.run step (new link caps) actions = some s)
    (hunchanged : Machine.Along step Unchanged (new link caps) actions) : s.Configured := by
  refine Aligned.configured (Machine.run_keeps_along ?_ hrun hunchanged (aligned_new link caps))
  exact fun _ _ _ h hc hstep => aligned_step h hc hstep

/-- The actions of a push that finds nothing at the gate. -/
def pushThrough (packet : PipelinePacket) : List Action :=
  [.push packet, .readFlag, .observe, .send].map .producer

def pushAndPark (packet : PipelinePacket) : List Action :=
  [.push packet, .readFlag, .passGate].map .producer

/-- An insertion and the removal of an element, each while the producer pushes. -/
def calm : List Action :=
  [.insert .klv, .requestPark] ++ pushAndPark .tick ++
  [.pollDetached, .finish 1, .remove (some .klv), .readOwn true, .requestPark, .producer .pollAgain,
    .producer .readFlag, .producer .passGate, .pollDetached, .drain, .finish 2]

theorem splice_runs_calm : ∃ s, Machine.run step (new 0 (some .klv)) calm = some s ∧
      s.stage = .spliced (.remove .klv false) (some .klv) ∧ s.flowing = some .klv := by
  have hunchanged : Machine.Along step Unchanged (new 0 (some .klv)) calm := by
    intro before action after mid heq hmid
    have hmem : action ∈ calm := by
      rw [heq]
      exact List.mem_append_right _ List.mem_cons_self
    have hquiet : ∀ action ∈ calm, action ≠ .producer .observe ∧ ∀ caps, action ≠ .element caps := by
      simp [calm, pushAndPark]
    obtain ⟨hobserve, helement⟩ := hquiet action hmem
    unfold Unchanged
    split
    · exact absurd rfl hobserve
    · exact absurd rfl (helement _)
    · trivial
  have hend : (Machine.run step (new 0 (some .klv)) calm).map Splice.stage =
      some (.spliced (.remove .klv false) (some .klv)) := rfl
  obtain ⟨s, hrun, hstage⟩ := Option.map_eq_some_iff.1 hend
  have hconfigured := splice_runs hrun hunchanged
  rw [Configured, hstage] at hconfigured
  exact ⟨s, hrun, hstage, hconfigured.symm⟩

/-- The producer announces other caps after they were read. An insertion is done with its chain configured for
the old caps, and a removal is done with the consumer told of the old caps. -/
theorem stale_caps :
    (∃ s, Machine.run step (new 0 (some .klv)) ([.insert .klv] ++ pushThrough (.capsChanged .onvifMetadata) ++
        [.requestPark] ++ pushAndPark .tick ++ [.pollDetached, .finish 1]) = some s ∧
      s.stage = .spliced (.insert .klv .klv) none ∧ s.flowing = some .onvifMetadata ∧ ¬ s.Configured) ∧
    ∃ s, Machine.run step (new 0 (some .klv)) ([.remove (some .klv), .readOwn true] ++
        pushThrough (.capsChanged .onvifMetadata) ++ [.requestPark] ++ pushAndPark .tick ++
        [.pollDetached, .drain, .finish 1]) = some s ∧
      s.stage = .spliced (.remove .klv false) (some .klv) ∧ s.flowing = some .onvifMetadata ∧ ¬ s.Configured :=
  ⟨⟨_, rfl, rfl, rfl, nofun⟩, ⟨_, rfl, rfl, rfl, nofun⟩⟩

end Splice

end Glass2Glass.Runtime
