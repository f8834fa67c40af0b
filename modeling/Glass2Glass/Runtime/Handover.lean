import Glass2Glass.Lib.Machine
import Glass2Glass.Runtime.Endpoint
import Glass2Glass.Wire.Packet

/-!
# Handing a link over

The producer of a retargetable edge and the mutator, as two parties that interleave freely. The producer
pushes packets (`SenderSink::poll_push` in `g2g-core/src/runtime/channel.rs`): it reads the pending flag
without the lock, goes through the gate under the lock when the flag is up, tells the endpoint of the packet
and sends it. The mutator runs
operations one after the other (`detach` in `g2g-core/src/runtime/mutate.rs`): it asks the producer to park,
waits for the link or gives up, and lets the producer go on with a link. Every lock section is one step.

A push that returned is over, whatever its outcome was. Left out are the interceptor, the signals that come
back and the instrumentation. What the link does with a packet that is sent is in `Push`, and the number that
the endpoint gives a frame is in `Numbering`.
-/

namespace Glass2Glass.Runtime

/-- A packet crosses the edge, which carries the caps it announces from now on. -/
def ProducerEndpoint.observe (e : ProducerEndpoint) : PipelinePacket → ProducerEndpoint
  | .capsChanged caps => e.setCaps caps
  | _ => e

/-- An endpoint with its flag and the wakers registered at it. -/
structure Gate where
  endpoint : ProducerEndpoint
  /-- Read by the producer at every push, without the lock. -/
  pending : Bool
  producer : Bool
  mutator : Bool

namespace Gate

def new (link : LinkSender) : Gate :=
  { endpoint := .new link, pending := false, producer := false, mutator := false }

def requestPark (g : Gate) : Gate := { g with endpoint := g.endpoint.requestPark, pending := true }

/-- The link that the producer gave up, or an error; else the mutator waits. -/
def pollDetached (g : Gate) : Option (Option LinkSender) × Gate :=
  match g.endpoint.pollDetached with
  | (some result, endpoint) => (some result, { g with endpoint })
  | (none, endpoint) => (none, { g with endpoint, mutator := true })

/-- The producer may go on. Returns whether it is woken. -/
def unpark (g : Gate) (replacement : Option LinkSender) : Bool × Gate :=
  (g.producer, { g with endpoint := g.endpoint.unpark replacement, pending := true, producer := false })

/-- A park request is withdrawn. Returns whether the producer is woken. -/
def cancelPark (g : Gate) : Bool × Gate :=
  (g.producer, { g with endpoint := g.endpoint.cancelPark, pending := true, producer := false })

/-- What the producer finds at the gate. -/
structure Passage where
  /-- It may send; else it waits. -/
  ready : Bool
  /-- The mutator is woken. -/
  wakes : Bool
  gate : Gate

def pollProducer (g : Gate) : Passage :=
  let endpoint := g.endpoint.pollProducer
  -- It gives its link up now, unless it did so before.
  let parks := endpoint.park && !(g.endpoint.parked && g.endpoint.staged.isNone)
  if endpoint.park then
    { ready := false, wakes := parks && g.mutator
      gate := { g with endpoint, producer := true, mutator := g.mutator && !parks } }
  else
    { ready := true, wakes := false, gate := { g with endpoint, pending := false } }

end Gate

/-- Where a push is, between two steps. -/
inductive PushPhase where
  | idle
  /-- The flag is to be read. -/
  | polled (packet : PipelinePacket)
  /-- The flag was up. -/
  | gated (packet : PipelinePacket)
  /-- The push waits at the gate. -/
  | waiting (packet : PipelinePacket)
  /-- The endpoint is to be told of the packet. -/
  | passed (packet : PipelinePacket)
  /-- The packet is to be sent, or the push waits for room on the link. -/
  | sending (packet : PipelinePacket)

/-- The packet of the push under way. -/
def PushPhase.packet? : PushPhase → Option PipelinePacket
  | .idle => none
  | .polled packet | .gated packet | .waiting packet | .passed packet | .sending packet => some packet

def PushPhase.isPast : PushPhase → Bool
  | .passed _ | .sending _ => true
  | _ => false

inductive MutatorStage where
  | idle
  /-- The producer is asked to park, and the mutator waits for the link or is about to look for it. -/
  | asking (waits : Bool)
  /-- The link is in the mutator's hands. -/
  | holding (link : LinkSender)
  deriving DecidableEq

def MutatorStage.link? : MutatorStage → Option LinkSender
  | .holding link => some link
  | _ => none

inductive PushFate where
  | underWay
  | enqueued
  /-- The link did not take the packet, or the push was cancelled. -/
  | lost
  deriving DecidableEq

/-- A producer and the mutator at one endpoint. -/
structure Handover where
  gate : Gate
  stage : PushPhase
  /-- The producer was woken since it began to wait. -/
  woken : Bool
  mutator : MutatorStage
  /-- The mutator was woken since it began to wait. -/
  mutatorWoken : Bool
  /-- The producer was told to go on without a link. -/
  dismissed : Bool
  /-- A packet was sent on a link that is closed. -/
  misdirected : Bool
  pushes : List (PipelinePacket × PushFate)
  /-- The packets that the endpoint was told of, in order. -/
  crossed : List PipelinePacket
  /-- The packets put on a link, in order. -/
  sent : List (LinkSender × PipelinePacket)

namespace Handover

inductive Action where
  | push (packet : PipelinePacket)
  | readFlag
  | passGate
  | pollAgain
  | observe
  | send
  /-- The link does not take the packet: it is leaky and full, or its consumer is gone. -/
  | drop
  /-- A push that waits is cancelled. -/
  | cancel
  | requestPark
  | pollDetached
  | cancelPark
  /-- The mutator goes on with another link for the producer. -/
  | relink (link : Nat)
  | retire
  | unpark (keep : Bool)

/-- The producer has a link, and no mutation is under way. -/
def new (link : Nat) : Handover :=
  { gate := .new (.into link), stage := .idle, woken := false, mutator := .idle, mutatorWoken := false
    dismissed := false, misdirected := false, pushes := [], crossed := [], sent := [] }

variable (s : Handover)

/-- The push under way is over. -/
def finish (fate : PushFate) : Handover :=
  { s with
    stage := .idle
    pushes := s.pushes.dropLast ++ (s.stage.packet?.map fun packet => (packet, fate)).toList }

/-- The packet is sent on the producer's link. -/
def enqueue (packet : PipelinePacket) : Handover :=
  match s.gate.endpoint.link with
  | .into link => { s.finish .enqueued with sent := s.sent ++ [(.into link, packet)] }
  | .closed => { s.finish .lost with misdirected := true }

def step : Action → Option Handover
  | .push packet =>
    match s.stage with
    | .idle => some { s with stage := .polled packet, pushes := s.pushes ++ [(packet, .underWay)] }
    | _ => none
  | .readFlag =>
    match s.stage with
    | .polled packet => some { s with stage := if s.gate.pending then .gated packet else .passed packet }
    | _ => none
  | .passGate =>
    match s.stage with
    | .gated packet =>
      let passage := s.gate.pollProducer
      some { s with
        gate := passage.gate
        stage := if passage.ready then .passed packet else .waiting packet
        woken := false
        mutatorWoken := s.mutatorWoken || passage.wakes }
    | _ => none
  | .pollAgain =>
    match s.stage with
    | .waiting packet => some { s with stage := .polled packet }
    | _ => none
  | .observe =>
    match s.stage with
    | .passed packet => some { s with
        gate.endpoint := s.gate.endpoint.observe packet
        stage := .sending packet
        crossed := s.crossed ++ [packet] }
    | _ => none
  | .send =>
    match s.stage with
    | .sending packet => some (s.enqueue packet)
    | _ => none
  | .drop =>
    match s.stage with
    | .sending _ => some (s.finish .lost)
    | _ => none
  | .cancel =>
    match s.stage with
    | .waiting _ | .sending _ => some (s.finish .lost)
    | _ => none
  | .requestPark =>
    match s.mutator with
    | .idle => some { s with gate := s.gate.requestPark, mutator := .asking false }
    | _ => none
  | .pollDetached =>
    match s.mutator with
    | .asking _ =>
      match s.gate.pollDetached with
      | (some (some link), gate) => some { s with gate, mutator := .holding link }
      | (some none, gate) => some { s with gate, mutator := .idle }
      | (none, gate) => some { s with gate, mutator := .asking true, mutatorWoken := false }
    | _ => none
  | .cancelPark =>
    match s.mutator with
    | .asking _ =>
      let (wakes, gate) := s.gate.cancelPark
      some { s with gate, woken := s.woken || wakes, mutator := .idle }
    | _ => none
  | .relink link =>
    match s.mutator with
    | .holding _ => some { s with mutator := .holding (.into link) }
    | _ => none
  | .retire =>
    match s.mutator with
    | .holding _ => some { s with gate.endpoint.retired := true }
    | _ => none
  | .unpark keep =>
    match s.mutator with
    | .holding link =>
      let (wakes, gate) := s.gate.unpark (if keep then some link else none)
      some { s with gate, woken := s.woken || wakes, mutator := .idle, dismissed := s.dismissed || !keep }
    | _ => none

/-- What a step does. -/
inductive Move (s : Handover) : Action → Handover → Prop where
  | push {packet : PipelinePacket} (hstage : s.stage = .idle) :
      Move s (.push packet) { s with stage := .polled packet, pushes := s.pushes ++ [(packet, .underWay)] }
  | pass {packet : PipelinePacket} (hstage : s.stage = .polled packet) (hflag : s.gate.pending = false) :
      Move s .readFlag { s with stage := .passed packet }
  | stop {packet : PipelinePacket} (hstage : s.stage = .polled packet) (hflag : s.gate.pending = true) :
      Move s .readFlag { s with stage := .gated packet }
  | ready {packet : PipelinePacket} (hstage : s.stage = .gated packet)
      (hpark : s.gate.endpoint.pollProducer.park = false) :
      Move s .passGate { s with
        gate := { s.gate with endpoint := s.gate.endpoint.pollProducer, pending := false }
        stage := .passed packet, woken := false }
  | wait {packet : PipelinePacket} {parks : Bool} (hstage : s.stage = .gated packet)
      (hpark : s.gate.endpoint.pollProducer.park = true)
      (hparks : parks = !(s.gate.endpoint.parked && s.gate.endpoint.staged.isNone)) :
      Move s .passGate { s with
        gate := { s.gate with
          endpoint := s.gate.endpoint.pollProducer, producer := true, mutator := s.gate.mutator && !parks }
        stage := .waiting packet, woken := false, mutatorWoken := s.mutatorWoken || parks && s.gate.mutator }
  | again {packet : PipelinePacket} (hstage : s.stage = .waiting packet) :
      Move s .pollAgain { s with stage := .polled packet }
  | observe {packet : PipelinePacket} (hstage : s.stage = .passed packet) :
      Move s .observe { s with
        gate.endpoint := s.gate.endpoint.observe packet, stage := .sending packet, crossed := s.crossed ++ [packet] }
  | sent {packet : PipelinePacket} {link : Nat} (hstage : s.stage = .sending packet)
      (hlink : s.gate.endpoint.link = .into link) :
      Move s .send { s.finish .enqueued with sent := s.sent ++ [(.into link, packet)] }
  | misdirect {packet : PipelinePacket} (hstage : s.stage = .sending packet)
      (hlink : s.gate.endpoint.link = .closed) : Move s .send { s.finish .lost with misdirected := true }
  | lose {packet : PipelinePacket} {action : Action} (haction : action = .drop ∨ action = .cancel)
      (hstage : s.stage.packet? = some packet) : Move s action (s.finish .lost)
  | request (hmutator : s.mutator = .idle) :
      Move s .requestPark { s with gate := s.gate.requestPark, mutator := .asking false }
  | take {waits : Bool} {link : LinkSender} (hmutator : s.mutator = .asking waits)
      (hdetached : s.gate.endpoint.detached = some link) :
      Move s .pollDetached { s with gate.endpoint.detached := none, mutator := .holding link }
  | ended {waits : Bool} (hmutator : s.mutator = .asking waits) (hdetached : s.gate.endpoint.detached = none)
      (hgone : s.gate.endpoint.gone = true) : Move s .pollDetached { s with mutator := .idle }
  | listen {waits : Bool} (hmutator : s.mutator = .asking waits) (hdetached : s.gate.endpoint.detached = none) :
      Move s .pollDetached { s with gate.mutator := true, mutator := .asking true, mutatorWoken := false }
  | withdraw {waits : Bool} (hmutator : s.mutator = .asking waits) :
      Move s .cancelPark { s with
        gate := { s.gate with endpoint := s.gate.endpoint.cancelPark, pending := true, producer := false }
        woken := s.woken || s.gate.producer, mutator := .idle }
  | relink {old : LinkSender} {link : Nat} (hmutator : s.mutator = .holding old) :
      Move s (.relink link) { s with mutator := .holding (.into link) }
  | retire {link : LinkSender} (hmutator : s.mutator = .holding link) :
      Move s .retire { s with gate.endpoint.retired := true }
  | unpark {link : LinkSender} {keep : Bool} (hmutator : s.mutator = .holding link) :
      Move s (.unpark keep) { s with
        gate := { s.gate with
          endpoint := s.gate.endpoint.unpark (if keep then some link else none)
          pending := true, producer := false }
        woken := s.woken || s.gate.producer, mutator := .idle, dismissed := s.dismissed || !keep }

variable {packet : PipelinePacket}

theorem move_of_enqueue {s : Handover} (hstage : s.stage = .sending packet) :
    Move s .send (s.enqueue packet) := by
  unfold enqueue
  split
  · next hlink => exact .sent hstage hlink
  · next hlink => exact .misdirect hstage hlink

theorem move_of_passGate {s : Handover} (hstage : s.stage = .gated packet) :
    Move s .passGate { s with
      gate := s.gate.pollProducer.gate
      stage := if s.gate.pollProducer.ready then .passed packet else .waiting packet
      woken := false
      mutatorWoken := s.mutatorWoken || s.gate.pollProducer.wakes } := by
  rcases hpark : s.gate.endpoint.pollProducer.park with _ | _
  · have hready := Move.ready hstage hpark
    simpa [Gate.pollProducer, hpark] using hready
  · have hwait := Move.wait hstage hpark rfl
    simpa [Gate.pollProducer, hpark] using hwait

theorem move_of_pollDetached {s s' : Handover} {waits : Bool} (hmutator : s.mutator = .asking waits)
    (hstep : s.step .pollDetached = some s') : Move s .pollDetached s' := by
  rcases hdetached : s.gate.endpoint.detached with _ | link
  · rcases hgone : s.gate.endpoint.gone with _ | _
    · have hlisten := Move.listen hmutator hdetached
      simp [step, hmutator, Gate.pollDetached, ProducerEndpoint.pollDetached, hdetached, hgone] at hstep
      rwa [← hstep]
    · have hended := Move.ended hmutator hdetached hgone
      simp [step, hmutator, Gate.pollDetached, ProducerEndpoint.pollDetached, hdetached, hgone] at hstep
      rwa [← hstep]
  · have htake := Move.take hmutator hdetached
    simp [step, hmutator, Gate.pollDetached, ProducerEndpoint.pollDetached, hdetached] at hstep
    rwa [← hstep]

theorem move_of_step {s s' : Handover} {action : Action} (hstep : s.step action = some s') :
    Move s action s' := by
  cases action with
  | pollDetached =>
    rcases hmutator : s.mutator with _ | waits | link
    · simp [step, hmutator] at hstep
    · exact move_of_pollDetached hmutator hstep
    · simp [step, hmutator] at hstep
  | retire =>
    rcases hmutator : s.mutator with _ | waits | link <;> simp [step, hmutator] at hstep
    have hretire := Move.retire hmutator
    rw [← hstep]
    simpa [hmutator] using hretire
  | requestPark | cancelPark | relink | unpark =>
    rcases hmutator : s.mutator with _ | waits | link <;> simp [step, hmutator] at hstep
    all_goals
      obtain rfl := hstep
      first
      | exact .request hmutator
      | exact .withdraw hmutator
      | exact .relink hmutator
      | exact .unpark hmutator
  | passGate =>
    rcases hstage : s.stage <;> simp only [step, hstage] at hstep <;> try cases hstep
    exact move_of_passGate hstage
  | readFlag =>
    rcases hstage : s.stage <;> simp only [step, hstage] at hstep <;> try cases hstep
    split_ifs
    · next hflag => exact .stop hstage hflag
    · next hflag => exact .pass hstage (Bool.not_eq_true _ ▸ hflag)
  | push | pollAgain | observe | send | drop | cancel =>
    rcases hstage : s.stage <;> simp only [step, hstage] at hstep <;> try cases hstep
    all_goals first
      | exact .push hstage
      | exact .again hstage
      | exact .observe hstage
      | exact move_of_enqueue hstage
      | exact .lose (.inl rfl) (by rw [hstage]; rfl)
      | exact .lose (.inr rfl) (by rw [hstage]; rfl)

/-! ## Where the link is -/

/-- The producer's link, in one of four places. -/
inductive Place (endpoint : ProducerEndpoint) (mutator : MutatorStage) (link : Nat) : Prop where
  | sink (hlink : endpoint.link = .into link) (hdetached : endpoint.detached = none)
      (hstaged : endpoint.staged = none) (hparked : endpoint.parked = false) (hhands : mutator.link? = none)
  | detached (hlink : endpoint.link = .closed) (hdetached : endpoint.detached = some (.into link))
      (hstaged : endpoint.staged = none) (hparked : endpoint.parked = true) (hpark : endpoint.park = true)
      (hhands : mutator.link? = none)
  | hands (hlink : endpoint.link = .closed) (hdetached : endpoint.detached = none)
      (hstaged : endpoint.staged = none) (hparked : endpoint.parked = true)
      (hhands : mutator = .holding (.into link))
  | staged (hlink : endpoint.link = .closed) (hdetached : endpoint.detached = none)
      (hstaged : endpoint.staged = some (.into link)) (hparked : endpoint.parked = true)
      (hhands : mutator.link? = none)

/-- What holds of the gate and the two parties. -/
structure Guarded : Prop where
  place : s.dismissed = false → ∃ link, Place s.gate.endpoint s.mutator link
  /-- The flag is up while there is something to do at the gate. -/
  flag : s.gate.endpoint.park = true ∨ s.gate.endpoint.staged.isSome = true → s.gate.pending = true
  /-- A request stands as long as the operation that made it. -/
  asked : s.gate.endpoint.park = true ↔ s.mutator ≠ .idle
  present : s.gate.endpoint.gone = false
  past : s.stage.isPast = true → s.dismissed = false → ∃ link, s.gate.endpoint.link = .into link
  registered : ∀ packet, s.stage = .waiting packet → s.gate.producer = true ∨ s.woken = true
  mutatorRegistered : s.mutator = .asking true →
    s.gate.endpoint.detached = none ∧ s.gate.mutator = true ∨ s.mutatorWoken = true
  directed : s.misdirected = true → s.dismissed = true

/-- What holds of the packets. -/
structure Logged : Prop where
  /-- Only the last push can be under way. -/
  settled : ∃ before, s.pushes = before ++ (s.stage.packet?.map fun packet => (packet, .underWay)).toList ∧
    ∀ entry ∈ before, entry.2 ≠ .underWay
  sent : s.sent.map Prod.snd = (s.pushes.filter fun entry => entry.2 = .enqueued).map Prod.fst

variable {s s' : Handover} {action : Action}

/-! ### The packets -/

theorem logged_new (link : Nat) : (new link).Logged := ⟨⟨[], rfl, nofun⟩, rfl⟩

theorem Logged.frame (h : s.Logged) (hpushes : s'.pushes = s.pushes) (hsent : s'.sent = s.sent)
    (hstage : s'.stage.packet? = s.stage.packet?) : s'.Logged := by
  refine ⟨?_, ?_⟩
  · rw [hpushes, hstage]
    exact h.settled
  · rw [hpushes, hsent]
    exact h.sent

theorem Logged.finish (fate : PushFate) (h : s.Logged)
    (hstage : s.stage.packet? = some packet) (hfate : fate ≠ .underWay)
    (hsent : s'.sent.map Prod.snd = s.sent.map Prod.snd ++ if fate = .enqueued then [packet] else [])
    (hpushes : s'.pushes = (s.finish fate).pushes) (hidle : s'.stage = .idle) : s'.Logged := by
  obtain ⟨before, hbefore, hsettled⟩ := h.settled
  have hover : s'.pushes = before ++ [(packet, fate)] := by
    rw [hpushes]
    unfold Handover.finish
    rw [hbefore, hstage]
    simp
  refine ⟨⟨before ++ [(packet, fate)], ?_, ?_⟩, ?_⟩
  · rw [hidle, hover]
    simp [PushPhase.packet?]
  · intro entry hentry
    rcases List.mem_append.1 hentry with hentry | hentry
    · exact hsettled entry hentry
    · rw [List.mem_singleton.1 hentry]
      exact hfate
  · rw [hsent, h.sent, hbefore, hover]
    cases fate <;> simp

theorem logged_step (h : s.Logged) (hmove : Move s action s') : s'.Logged := by
  cases hmove with
  | @push packet hstage =>
    obtain ⟨before, hbefore, hsettled⟩ := h.settled
    rw [hstage] at hbefore
    have hall : s.pushes = before := by simpa [PushPhase.packet?] using hbefore
    refine ⟨⟨before, ?_, hsettled⟩, ?_⟩
    · rw [hall]
      rfl
    · rw [List.filter_append, List.map_append, h.sent]
      simp
  | pass hstage | stop hstage | ready hstage | wait hstage | again hstage | observe hstage =>
    exact h.frame rfl rfl (by rw [hstage]; rfl)
  | sent hstage hlink =>
    refine h.finish .enqueued (congrArg PushPhase.packet? hstage) nofun ?_ rfl rfl
    rw [List.map_append, if_pos rfl]
    rfl
  | misdirect hstage hlink =>
    exact h.finish .lost (congrArg PushPhase.packet? hstage) nofun (List.append_nil _).symm rfl rfl
  | lose _ hstage => exact h.finish .lost hstage nofun (List.append_nil _).symm rfl rfl
  | request | take | ended | listen | withdraw | relink | retire | unpark => exact h.frame rfl rfl rfl

/-! ### The gate -/

section Place

variable {e : ProducerEndpoint} {m : MutatorStage} {link : Nat}

theorem staged_pollProducer : e.pollProducer.staged = none := by
  unfold ProducerEndpoint.pollProducer
  rcases hstaged : e.staged with _ | link <;> dsimp only <;> split_ifs <;> first | exact hstaged | rfl

theorem park_pollProducer : e.pollProducer.park = e.park := by
  unfold ProducerEndpoint.pollProducer
  rcases e.staged with _ | link <;> dsimp only <;> split_ifs <;> rfl

theorem gone_pollProducer : e.pollProducer.gone = e.gone := by
  unfold ProducerEndpoint.pollProducer
  rcases e.staged with _ | link <;> dsimp only <;> split_ifs <;> rfl

theorem pollProducer_of_parked (hparked : e.parked = true) (hstaged : e.staged = none) : e.pollProducer = e := by
  unfold ProducerEndpoint.pollProducer
  rw [hstaged]
  dsimp only
  rw [hparked, if_neg (by simp)]

theorem Place.pollProducer (h : Place e m link) : Place e.pollProducer m link := by
  cases h with
  | sink hlink hdetached hstaged hparked hhands =>
    rcases hpark : e.park with _ | _
    · have heq : e.pollProducer = e := by simp [ProducerEndpoint.pollProducer, hstaged, hpark]
      rw [heq]
      exact .sink hlink hdetached hstaged hparked hhands
    · have heq : e.pollProducer =
          { e with detached := some (.into link), link := .closed, parked := true } := by
        simp [ProducerEndpoint.pollProducer, hstaged, hpark, hparked, hlink]
      rw [heq]
      exact .detached rfl rfl hstaged rfl hpark hhands
  | detached hlink hdetached hstaged hparked hpark hhands =>
    rw [pollProducer_of_parked hparked hstaged]
    exact .detached hlink hdetached hstaged hparked hpark hhands
  | hands hlink hdetached hstaged hparked hhands =>
    rw [pollProducer_of_parked hparked hstaged]
    exact .hands hlink hdetached hstaged hparked hhands
  | staged hlink hdetached hstaged hparked hhands =>
    rcases hpark : e.park with _ | _
    · have heq : e.pollProducer = { e with link := .into link, staged := none, parked := false } := by
        simp [ProducerEndpoint.pollProducer, hstaged, hpark]
      rw [heq]
      exact .sink rfl hdetached rfl rfl hhands
    · have heq : e.pollProducer = { e with
          detached := some (.into link), link := .closed, staged := none, parked := true } := by
        simp [ProducerEndpoint.pollProducer, hstaged, hpark]
      rw [heq]
      exact .detached rfl rfl rfl rfl hpark hhands

theorem observe_eq (packet : PipelinePacket) : e.observe packet = { e with caps := (e.observe packet).caps } := by
  unfold ProducerEndpoint.observe ProducerEndpoint.setCaps
  split <;> rfl

theorem Place.observe (packet : PipelinePacket) (h : Place e m link) : Place (e.observe packet) m link := by
  rw [observe_eq]
  cases h with
  | sink hlink hdetached hstaged hparked hhands => exact .sink hlink hdetached hstaged hparked hhands
  | detached hlink hdetached hstaged hparked hpark hhands =>
    exact .detached hlink hdetached hstaged hparked hpark hhands
  | hands hlink hdetached hstaged hparked hhands => exact .hands hlink hdetached hstaged hparked hhands
  | staged hlink hdetached hstaged hparked hhands => exact .staged hlink hdetached hstaged hparked hhands

theorem Place.link_eq (h : Place e m link) (hpark : e.park = false) (hidle : m = .idle)
    (hstaged : e.staged = none) : e.link = .into link := by
  cases h with
  | sink hlink => exact hlink
  | detached _ _ _ _ hpark' =>
    rw [hpark] at hpark'
    cases hpark'
  | hands _ _ _ _ hhands =>
    rw [hidle] at hhands
    cases hhands
  | staged _ _ hstaged' =>
    rw [hstaged] at hstaged'
    cases hstaged'

theorem Place.requestPark (h : Place e .idle link) (waits : Bool) : Place e.requestPark (.asking waits) link := by
  cases h with
  | sink hlink hdetached hstaged hparked => exact .sink hlink hdetached hstaged hparked rfl
  | detached hlink hdetached hstaged hparked => exact .detached hlink hdetached hstaged hparked rfl rfl
  | hands _ _ _ _ hhands => cases hhands
  | staged hlink hdetached hstaged hparked => exact .staged hlink hdetached hstaged hparked rfl

theorem Place.take {waits : Bool} {l : LinkSender} (h : Place e (.asking waits) link)
    (hdetached : e.detached = some l) : Place { e with detached := none } (.holding l) link := by
  cases h with
  | sink _ hnone | staged _ hnone =>
    rw [hdetached] at hnone
    cases hnone
  | detached hlink hsome hstaged hparked =>
    obtain rfl : l = .into link := Option.some.inj (hdetached.symm.trans hsome)
    exact .hands hlink rfl hstaged hparked rfl
  | hands _ _ _ _ hhands => cases hhands

theorem Place.cancelPark {waits : Bool} (h : Place e (.asking waits) link) : Place e.cancelPark .idle link := by
  unfold ProducerEndpoint.cancelPark
  cases h with
  | sink hlink hdetached hstaged hparked =>
    refine .sink hlink rfl ?_ hparked rfl
    rw [hdetached, hstaged]
    rfl
  | detached hlink hdetached hstaged hparked =>
    refine .staged hlink rfl ?_ hparked rfl
    rw [hdetached]
    rfl
  | hands _ _ _ _ hhands => cases hhands
  | staged hlink hdetached hstaged hparked =>
    refine .staged hlink rfl ?_ hparked rfl
    rw [hdetached, hstaged]
    rfl

theorem Place.empty_hands {m' : MutatorStage} (h : Place e m link) (hm : m.link? = none) (hm' : m'.link? = none) :
    Place e m' link := by
  cases h with
  | sink hlink hdetached hstaged hparked => exact .sink hlink hdetached hstaged hparked hm'
  | detached hlink hdetached hstaged hparked hpark => exact .detached hlink hdetached hstaged hparked hpark hm'
  | hands _ _ _ _ hhands =>
    rw [hhands] at hm
    cases hm
  | staged hlink hdetached hstaged hparked => exact .staged hlink hdetached hstaged hparked hm'

theorem Place.of_holding {l : LinkSender} (h : Place e (.holding l) link) :
    l = .into link ∧ e.link = .closed ∧ e.detached = none ∧ e.staged = none ∧ e.parked = true := by
  cases h with
  | sink _ _ _ _ hhands | detached _ _ _ _ _ hhands | staged _ _ _ _ hhands => cases hhands
  | hands hlink hdetached hstaged hparked hhands =>
    exact ⟨MutatorStage.holding.inj hhands, hlink, hdetached, hstaged, hparked⟩

end Place

theorem guarded_new (link : Nat) : (new link).Guarded where
  place _ := ⟨link, .sink rfl rfl rfl rfl rfl⟩
  flag h := by simp [new, Gate.new, ProducerEndpoint.new] at h
  asked := ⟨nofun, fun h => absurd rfl h⟩
  present := rfl
  past := nofun
  registered := nofun
  mutatorRegistered := nofun
  directed := nofun

section

variable (h : s.Guarded)

include h

theorem Guarded.restage {stage : PushPhase} {misdirected : Bool} {pushes : List (PipelinePacket × PushFate)}
    {crossed : List PipelinePacket} {sent : List (LinkSender × PipelinePacket)}
    (hpast : stage.isPast = true → s.dismissed = false → ∃ link, s.gate.endpoint.link = .into link)
    (hwaiting : ∀ packet, stage ≠ .waiting packet) (hdirected : misdirected = true → s.dismissed = true) :
    Guarded { s with stage, misdirected, pushes, crossed, sent } where
  place := h.place
  flag := h.flag
  asked := h.asked
  present := h.present
  past := hpast
  registered packet hstage := absurd hstage (hwaiting packet)
  mutatorRegistered := h.mutatorRegistered
  directed := hdirected

theorem guarded_observe (hstage : s.stage = .passed packet) :
    Guarded { s with
      gate.endpoint := s.gate.endpoint.observe packet, stage := .sending packet
      crossed := s.crossed ++ [packet] } := by
  rw [observe_eq]
  refine ⟨fun hkept => ?_, h.flag, h.asked, h.present, fun _ hkept => ?_, nofun, h.mutatorRegistered, h.directed⟩
  · obtain ⟨link, hplace⟩ := h.place hkept
    exact ⟨link, observe_eq packet ▸ hplace.observe packet⟩
  · exact h.past (by rw [hstage]; rfl) hkept

theorem guarded_ready
    (hpark : s.gate.endpoint.pollProducer.park = false) : Guarded { s with
      gate := { s.gate with endpoint := s.gate.endpoint.pollProducer, pending := false }
      stage := .passed packet, woken := false } where
  place hkept := by
    obtain ⟨link, hplace⟩ := h.place hkept
    exact ⟨link, hplace.pollProducer⟩
  flag hraised := by
    rw [hpark, staged_pollProducer] at hraised
    simp at hraised
  asked := by
    rw [park_pollProducer]
    exact h.asked
  present := gone_pollProducer.trans h.present
  past _ hkept := by
    obtain ⟨link, hplace⟩ := h.place hkept
    have hidle : s.mutator = .idle := by
      by_contra hbusy
      have hraised := h.asked.2 hbusy
      rw [← park_pollProducer, hpark] at hraised
      cases hraised
    exact ⟨link, hplace.pollProducer.link_eq hpark hidle staged_pollProducer⟩
  registered := nofun
  mutatorRegistered hasking := by
    have hraised := h.asked.2 (by rw [hasking]; nofun)
    rw [← park_pollProducer, hpark] at hraised
    cases hraised
  directed := h.directed

theorem guarded_wait {parks : Bool}
    (hpark : s.gate.endpoint.pollProducer.park = true)
    (hparks : parks = !(s.gate.endpoint.parked && s.gate.endpoint.staged.isNone)) : Guarded { s with
      gate := { s.gate with
        endpoint := s.gate.endpoint.pollProducer, producer := true, mutator := s.gate.mutator && !parks }
      stage := .waiting packet, woken := false, mutatorWoken := s.mutatorWoken || parks && s.gate.mutator } where
  place hkept := by
    obtain ⟨link, hplace⟩ := h.place hkept
    exact ⟨link, hplace.pollProducer⟩
  flag _ := h.flag (.inl (park_pollProducer ▸ hpark))
  asked := by
    rw [park_pollProducer]
    exact h.asked
  present := gone_pollProducer.trans h.present
  past := nofun
  registered _ _ := .inl rfl
  mutatorRegistered hasking := by
    rcases h.mutatorRegistered hasking with ⟨hdetached, hmutator⟩ | hwoken
    · rcases parks with _ | _
      · -- It had given its link up before, and the mutator is registered since.
        rw [eq_comm, Bool.not_eq_false', Bool.and_eq_true, Option.isNone_iff_eq_none] at hparks
        rw [pollProducer_of_parked hparks.1 hparks.2, hmutator]
        exact .inl ⟨hdetached, rfl⟩
      · rw [hmutator]
        exact .inr (Bool.or_true _)
    · rw [hwoken]
      exact .inr rfl
  directed := h.directed

theorem Guarded.woken (hstage : s.stage = .waiting packet) :
    (s.woken || s.gate.producer) = true := by
  rcases h.registered packet hstage with hregistered | hwoken
  · rw [hregistered, Bool.or_true]
  · rw [hwoken, Bool.true_or]

theorem guarded_withdraw {waits : Bool} (hmutator : s.mutator = .asking waits) :
    Guarded { s with
      gate := { s.gate with endpoint := s.gate.endpoint.cancelPark, pending := true, producer := false }
      woken := s.woken || s.gate.producer, mutator := .idle } where
  place hkept := by
    obtain ⟨link, hplace⟩ := h.place hkept
    rw [hmutator] at hplace
    exact ⟨link, hplace.cancelPark⟩
  flag _ := rfl
  asked := ⟨nofun, fun hbusy => absurd rfl hbusy⟩
  present := h.present
  past := h.past
  registered _ hstage := .inr (h.woken hstage)
  mutatorRegistered := nofun
  directed := h.directed

theorem guarded_unpark {link : LinkSender} {keep : Bool} (hmutator : s.mutator = .holding link) :
    Guarded { s with
      gate := { s.gate with
        endpoint := s.gate.endpoint.unpark (if keep then some link else none), pending := true, producer := false }
      woken := s.woken || s.gate.producer, mutator := .idle, dismissed := s.dismissed || !keep } where
  place hkept := by
    obtain ⟨hbefore, hkeep⟩ := Bool.or_eq_false_iff.1 hkept
    obtain rfl : keep = true := by simpa using hkeep
    obtain ⟨l, hplace⟩ := h.place hbefore
    rw [hmutator] at hplace
    obtain ⟨rfl, hlink, hdetached, -, hparked⟩ := hplace.of_holding
    exact ⟨l, .staged hlink hdetached rfl hparked rfl⟩
  flag _ := rfl
  asked := ⟨nofun, fun hbusy => absurd rfl hbusy⟩
  present := h.present
  past hpast hkept := h.past hpast (Bool.or_eq_false_iff.1 hkept).1
  registered _ hstage := .inr (h.woken hstage)
  mutatorRegistered := nofun
  directed hmisdirected := by
    rw [h.directed hmisdirected, Bool.true_or]

theorem guarded_step (hmove : Move s action s') : s'.Guarded := by
  cases hmove with
  | push | stop | again | sent | lose => exact h.restage nofun nofun h.directed
  | pass hstage hflag =>
    refine h.restage (fun _ hkept => ?_) nofun h.directed
    -- The flag is down, so there was nothing to do at the gate.
    have hdown : ¬ (s.gate.endpoint.park = true ∨ s.gate.endpoint.staged.isSome = true) := fun hraised => by
      have htrue := h.flag hraised
      rw [hflag] at htrue
      cases htrue
    rw [not_or, Bool.not_eq_true, Bool.not_eq_true, Option.isSome_eq_false_iff, Option.isNone_iff_eq_none] at hdown
    have hidle : s.mutator = .idle := by
      by_contra hbusy
      have hraised := h.asked.2 hbusy
      rw [hdown.1] at hraised
      cases hraised
    obtain ⟨link, hplace⟩ := h.place hkept
    exact ⟨link, hplace.link_eq hdown.1 hidle hdown.2⟩
  | ready hstage hpark => exact guarded_ready h hpark
  | wait hstage hpark hparks => exact guarded_wait h hpark hparks
  | observe hstage => exact guarded_observe h hstage
  | misdirect hstage hlink =>
    refine h.restage nofun nofun fun _ => ?_
    by_contra hkept
    obtain ⟨link, hopen⟩ := h.past (by rw [hstage]; rfl) (Bool.not_eq_true _ ▸ hkept)
    rw [hlink] at hopen
    cases hopen
  | request hmutator =>
    refine ⟨fun hkept => ?_, fun _ => rfl, ⟨nofun, fun _ => rfl⟩, h.present, h.past, h.registered, nofun, h.directed⟩
    obtain ⟨link, hplace⟩ := h.place hkept
    rw [hmutator] at hplace
    exact ⟨link, hplace.requestPark false⟩
  | take hmutator hdetached =>
    refine ⟨fun hkept => ?_, h.flag, ⟨nofun, fun _ => ?_⟩, h.present, h.past, h.registered, nofun, h.directed⟩
    · obtain ⟨link, hplace⟩ := h.place hkept
      rw [hmutator] at hplace
      exact ⟨link, hplace.take hdetached⟩
    · exact h.asked.2 (by rw [hmutator]; nofun)
  | ended hmutator hdetached hgone =>
    rw [h.present] at hgone
    cases hgone
  | listen hmutator hdetached =>
    refine ⟨fun hkept => ?_, h.flag, ⟨nofun, fun _ => ?_⟩, h.present, h.past, h.registered,
      fun _ => .inl ⟨hdetached, rfl⟩, h.directed⟩
    · obtain ⟨link, hplace⟩ := h.place hkept
      exact ⟨link, hplace.empty_hands (by rw [hmutator]; rfl) rfl⟩
    · exact h.asked.2 (by rw [hmutator]; nofun)
  | withdraw hmutator => exact guarded_withdraw h hmutator
  | @relink _ link hmutator =>
    refine ⟨fun hkept => ?_, h.flag, ⟨nofun, fun _ => ?_⟩, h.present, h.past, h.registered, nofun, h.directed⟩
    · obtain ⟨l, hplace⟩ := h.place hkept
      rw [hmutator] at hplace
      obtain ⟨-, hlink, hdetached, hstaged, hparked⟩ := hplace.of_holding
      exact ⟨link, .hands hlink hdetached hstaged hparked rfl⟩
    · exact h.asked.2 (by rw [hmutator]; nofun)
  | retire hmutator =>
    refine ⟨fun hkept => ?_, h.flag, h.asked, h.present, h.past, h.registered, h.mutatorRegistered, h.directed⟩
    obtain ⟨l, hplace⟩ := h.place hkept
    rw [hmutator] at hplace
    obtain ⟨rfl, hlink, hdetached, hstaged, hparked⟩ := hplace.of_holding
    exact ⟨l, .hands hlink hdetached hstaged hparked hmutator⟩
  | unpark hmutator => exact guarded_unpark h hmutator

end

/-! ## Runs -/

/-- The open links: at the producer, given up, in the mutator's hands, and staged. -/
def openLinks (s : Handover) : List LinkSender :=
  ([s.gate.endpoint.link] ++ s.gate.endpoint.detached.toList ++ s.mutator.link?.toList ++
    s.gate.endpoint.staged.toList).filter (· ≠ .closed)

theorem openLinks_of_place {link : Nat} (h : Place s.gate.endpoint s.mutator link) : s.openLinks = [.into link] := by
  unfold openLinks
  cases h with
  | sink hlink hdetached hstaged hparked hhands | detached hlink hdetached hstaged hparked hpark hhands
  | hands hlink hdetached hstaged hparked hhands | staged hlink hdetached hstaged hparked hhands =>
    rw [hlink, hdetached, hstaged, hhands]
    rfl

/-- A push is lost only when it is cancelled, the link does not take its packet, or the producer was told to
go on without a link. -/
def Lossless (s : Handover) : Prop := s.misdirected = false → ∀ entry ∈ s.pushes, entry.2 ≠ .lost

theorem Lossless.finish {fate : PushFate} (h : s.Lossless) (hkept : s.misdirected = false) (hfate : fate ≠ .lost) :
    ∀ entry ∈ (s.finish fate).pushes, entry.2 ≠ .lost := by
  intro entry hentry
  rcases List.mem_append.1 hentry with hentry | hentry
  · exact h hkept entry (s.pushes.dropLast_subset hentry)
  · rw [Option.mem_toList, Option.map_eq_some_iff] at hentry
    obtain ⟨packet, -, rfl⟩ := hentry
    exact hfate

theorem lossless_step (h : s.Lossless) (hdrop : action ≠ .drop) (hcancel : action ≠ .cancel)
    (hmove : Move s action s') : s'.Lossless := by
  cases hmove with
  | push =>
    intro hkept entry hentry
    rcases List.mem_append.1 hentry with hentry | hentry
    · exact h hkept entry hentry
    · rw [List.mem_singleton.1 hentry]
      nofun
  | sent => exact fun hkept => h.finish hkept nofun
  | misdirect => nofun
  | lose haction =>
    rcases haction with rfl | rfl
    · exact absurd rfl hdrop
    · exact absurd rfl hcancel
  | pass | stop | ready | wait | again | observe | request | take | ended | listen | withdraw | relink | retire
    | unpark => exact h

theorem Logged.sent_eq (h : s.Logged) (hlossless : s.Lossless) (hkept : s.misdirected = false) :
    s.sent.map Prod.snd ++ s.stage.packet?.toList = s.pushes.map Prod.fst := by
  obtain ⟨before, hpushes, hsettled⟩ := h.settled
  have hall : ∀ entry ∈ before, entry.2 = .enqueued := by
    intro entry hentry
    have hlost := hlossless hkept entry (hpushes ▸ List.mem_append_left _ hentry)
    have hover := hsettled entry hentry
    rcases hfate : entry.2 with _ | _ | _
    · exact absurd hfate hover
    · rfl
    · exact absurd hfate hlost
  have hbefore : before.filter (fun entry => entry.2 = .enqueued) = before :=
    List.filter_eq_self.2 fun entry hentry => decide_eq_true (hall entry hentry)
  rw [h.sent, hpushes, List.filter_append, hbefore]
  rcases s.stage.packet? with _ | packet
  · simp
  · simp

/-- In every interleaving of a producer and a mutator, as long as the producer is not told to go on without a
link: its open link is in exactly one place. The flag is up while a request stands or a link waits to be
picked up, and a producer that pushes then stops at the gate. A producer that waits there has been woken once
it may go on. No packet is sent on a closed link. The packets on the links are those pushed, each once and in
order. -/
theorem handover_runs {link : Nat} {actions : List Action} (hrun : Machine.run step (new link) actions = some s) :
    (s.dismissed = false → s.openLinks.length = 1) ∧
    (s.gate.endpoint.park = true ∨ s.gate.endpoint.staged.isSome = true → s.gate.pending = true) ∧
    (s.gate.endpoint.park = true → ∀ packet,
      (s.stage = .polled packet → s.step .readFlag = some { s with stage := .gated packet }) ∧
      (s.stage = .gated packet → ∃ s', s.step .passGate = some s' ∧ s'.stage = .waiting packet)) ∧
    (∀ action s', action = .cancelPark ∨ (∃ keep, action = .unpark keep) → s.step action = some s' →
      ∀ packet, s'.stage = .waiting packet → s'.woken = true) ∧
    (s.misdirected = true → s.dismissed = true) ∧
    s.sent.map Prod.snd = (s.pushes.filter fun entry => entry.2 = .enqueued).map Prod.fst ∧
    ((∀ action ∈ actions, action ≠ .drop ∧ action ≠ .cancel) → s.dismissed = false →
      s.sent.map Prod.snd ++ s.stage.packet?.toList = s.pushes.map Prod.fst) := by
  have hguarded : s.Guarded := Machine.run_keeps
    (fun _ _ _ _ h hstep => guarded_step h (move_of_step hstep)) hrun (guarded_new link)
  have hlogged : s.Logged := Machine.run_keeps
    (fun _ _ _ _ h hstep => logged_step h (move_of_step hstep)) hrun (logged_new link)
  refine ⟨fun hkept => ?_, hguarded.flag, fun hpark packet => ⟨fun hstage => ?_, fun hstage => ?_⟩, ?_,
    hguarded.directed, hlogged.sent, fun htaken hkept => ?_⟩
  · obtain ⟨l, hplace⟩ := hguarded.place hkept
    rw [openLinks_of_place hplace]
    rfl
  · simp only [step, hstage]
    rw [hguarded.flag (Or.inl hpark)]
    rfl
  · simp only [step, hstage, Gate.pollProducer, park_pollProducer, hpark, if_true]
    exact ⟨_, rfl, rfl⟩
  · intro action s' haction hstep packet hstage
    rcases haction with rfl | ⟨keep, rfl⟩
    · cases move_of_step hstep with
      | withdraw => exact hguarded.woken hstage
      | lose haction => simp at haction
    · cases move_of_step hstep with
      | unpark => exact hguarded.woken hstage
      | lose haction => simp at haction
  · have hlossless : s.Lossless := Machine.run_keeps
      (fun _ action hmem _ h hstep => lossless_step h (htaken action hmem).1 (htaken action hmem).2
        (move_of_step hstep)) hrun (fun _ => nofun)
    refine hlogged.sent_eq hlossless ?_
    by_contra hmis
    rw [hguarded.directed (Bool.not_eq_false _ ▸ hmis)] at hkept
    cases hkept

/-- A second operation asks the producer to park before it has picked up the link of the first one. -/
def overtaken : List Action :=
  [.requestPark, .push .tick, .readFlag, .passGate, .pollDetached, .relink 1, .unpark true, .requestPark,
    .pollAgain, .readFlag, .passGate, .cancelPark, .pollAgain, .readFlag, .passGate, .observe, .send]

theorem handover_runs_overtaken :
    ∃ s, Machine.run step (new 0) overtaken = some s ∧ s.openLinks.length = 1 ∧ s.sent = [(.into 1, .tick)] := by
  have hend : (Machine.run step (new 0) overtaken).map (fun s => (s.dismissed, s.sent)) =
      some (false, [(.into 1, .tick)]) := rfl
  obtain ⟨s, hrun, hs⟩ := Option.map_eq_some_iff.1 hend
  obtain ⟨hkept, hsent⟩ := Prod.mk.inj hs
  exact ⟨s, hrun, (handover_runs hrun).1 hkept, hsent⟩

end Handover

end Glass2Glass.Runtime
