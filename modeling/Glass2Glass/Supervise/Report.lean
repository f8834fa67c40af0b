import Mathlib.Data.List.Infix
import Mathlib.Algebra.Group.Nat.Defs

/-!
# The supervisor

`step_supervised` of `g2g-core/src/supervise.rs` brings one frame from a source to a sink. A policy says what to do about
each fault, and a report counts what was done. The stages, the policy and the watchdog are arbitrary; what they were
asked is written down in the order of the asking (`Event`).
-/

namespace Glass2Glass.Supervise

inductive HttpTransportFailure where
  | timeout
  | connect
  | request
  | body
  | decode
  | redirect
  deriving DecidableEq

inductive HardwareError where
  | vulkan (code : Int)
  | v4l2 (code : Int)
  | wgpu
  | mediaFoundation (code : Int)
  | cuda (code : Int)
  | io (code : Int)
  | alsa (code : Int)
  | pulseAudio (code : Int)
  | pipeWire (code : Int)
  | peripheral
  | other
  | deckLink (code : Int)
  | libraryNotFound (name : String)
  | http (status : Nat)
  | httpTransport (failure : HttpTransportFailure)
  | missingCodec (name : String)
  | hip (code : Int)
  deriving DecidableEq

inductive NetworkFailure where
  | connect
  | stream
  deriving DecidableEq

inductive G2gError where
  | capsMismatch
  | notConfigured
  | fixationFailed
  | poolExhausted
  | unsupportedDomain
  | allocationConflict
  | hardware (error : HardwareError)
  | shutdown
  | copyBudget
  | inputRefused
  | controlBinding
  | timeout
  | portCountMismatch (ports streams : Nat)
  | batchFrameTaken (index : Nat)
  | seekRefused
  | visitRecorderConflict
  | network (failure : NetworkFailure)
  | rtspStream
  | fileNotFound
  | windowClosed
  deriving DecidableEq

inductive Recovery where
  | retry
  | skip
  | reset
  | escalate
  deriving DecidableEq

/-- Faults that trying again cannot clear. -/
def isStructural : G2gError → Bool
  | .capsMismatch | .notConfigured | .fixationFailed | .unsupportedDomain | .allocationConflict | .copyBudget => true
  | _ => false

/-- Addition in 32 bits that stays at the largest number. -/
def saturatingAdd (a b : Nat) : Nat := min (a + b) (2 ^ 32 - 1)

/-- What a policy answers to a fault, of how many in a row. -/
structure FaultPolicy (π : Type) where
  classify : π → G2gError → Nat → Recovery × π

structure RetryThenReset where
  maxRetries : Nat
  maxResets : Nat

def RetryThenReset.classify (p : RetryThenReset) (err : G2gError) (consecutive : Nat) : Recovery :=
  if isStructural err then .escalate
  else
    let resetCeiling := saturatingAdd p.maxRetries p.maxResets
    if consecutive ≤ p.maxRetries then .retry
    else if consecutive ≤ resetCeiling then .reset
    else .escalate

def retryThenReset : FaultPolicy RetryThenReset where
  classify p err consecutive := (p.classify err consecutive, p)

structure SkipBounded where
  maxSkips : Nat

def SkipBounded.classify (p : SkipBounded) (err : G2gError) (consecutive : Nat) : Recovery :=
  if isStructural err || decide (p.maxSkips < consecutive) then .escalate else .skip

def skipBounded : FaultPolicy SkipBounded where
  classify p err consecutive := (p.classify err consecutive, p)

/-- A source and a sink. A call that suspends gives nothing. -/
structure Stages (σ κ φ : Type) where
  next : σ → Option (Except G2gError (Option φ)) × σ
  consume : κ → φ → Option (Except G2gError Unit) × κ
  recoverSource : σ → Option (Except G2gError Unit) × σ
  recoverSink : κ → Option (Except G2gError Unit) × κ

structure SupervisorReport where
  frames : Nat
  faults : Nat
  retries : Nat
  resets : Nat
  skips : Nat
  consecutiveFaults : Nat
  escalated : Bool
  lastError : Option G2gError

def SupervisorReport.new : SupervisorReport where
  frames := 0
  faults := 0
  retries := 0
  resets := 0
  skips := 0
  consecutiveFaults := 0
  escalated := false
  lastError := none

inductive Supervised where
  | advanced
  | skipped
  | recovered
  | eos
  | pending
  | escalated (err : G2gError)

/-- What the supervisor asked, and what it heard. -/
inductive Event where
  | attempted (result : Except G2gError Bool)
  | pet
  | classified (recovery : Recovery)
  | recoverSource (result : Except G2gError Unit)
  | recoverSink (result : Except G2gError Unit)

/-- All that a supervisor works on. -/
structure World (σ κ π ω : Type) where
  src : σ
  sink : κ
  policy : π
  watchdog : ω
  report : SupervisorReport
  events : List Event

section Step

variable {σ κ φ π ω : Type} (stages : Stages σ κ φ) (policy : FaultPolicy π) (pet : ω → ω)

namespace World

variable (w : World σ κ π ω)

def log (event : Event) : World σ κ π ω := { w with events := w.events ++ [event] }

/-- One attempt to bring a frame to the sink. -/
def attempt : Option (Except G2gError Bool) × World σ κ π ω :=
  match stages.next w.src with
  | (none, src) => (none, { w with src })
  | (some (.error err), src) => (some (.error err), { w with src }.log (.attempted (.error err)))
  | (some (.ok none), src) => (some (.ok false), { w with src }.log (.attempted (.ok false)))
  | (some (.ok (some frame)), src) =>
    match stages.consume w.sink frame with
    | (none, sink) => (none, { w with src, sink })
    | (some (.error err), sink) => (some (.error err), { w with src, sink }.log (.attempted (.error err)))
    | (some (.ok ()), sink) => (some (.ok true), { w with src, sink }.log (.attempted (.ok true)))

def recoverBoth : Option (Except G2gError Unit) × World σ κ π ω :=
  match stages.recoverSource w.src with
  | (none, src) => (none, { w with src })
  | (some (.error err), src) => (some (.error err), { w with src }.log (.recoverSource (.error err)))
  | (some (.ok ()), src) =>
    let w := { w with src }.log (.recoverSource (.ok ()))
    match stages.recoverSink w.sink with
    | (none, sink) => (none, { w with sink })
    | (some result, sink) => (some result, { w with sink }.log (.recoverSink result))

/-- A frame came to the sink. -/
def advance : World σ κ π ω :=
  { w with
    report := { w.report with frames := saturatingAdd w.report.frames 1, consecutiveFaults := 0 }
    watchdog := pet w.watchdog }.log .pet

/-- A fault is counted and the policy is asked. -/
def fault (err : G2gError) : Recovery × World σ κ π ω :=
  let report := { w.report with
    faults := saturatingAdd w.report.faults 1
    consecutiveFaults := saturatingAdd w.report.consecutiveFaults 1
    lastError := some err }
  let answer := policy.classify w.policy err report.consecutiveFaults
  (answer.1, { w with report, policy := answer.2 }.log (.classified answer.1))

def escalate : World σ κ π ω := { w with report := { w.report with escalated := true } }

def retry : World σ κ π ω :=
  { w with report := { w.report with retries := saturatingAdd w.report.retries 1 } }

def skip : World σ κ π ω :=
  { w with report := { w.report with skips := saturatingAdd w.report.skips 1 } }

def reset : World σ κ π ω :=
  { w with report := { w.report with resets := saturatingAdd w.report.resets 1 } }

end World

def maxAttempts : Nat := 64

/-- The loop of `step_supervised`, with the attempts that are left. -/
def attempts : Nat → World σ κ π ω → Supervised × World σ κ π ω
  | 0, w => (.escalated (w.report.lastError.getD .shutdown), w.escalate)
  | left + 1, w =>
    match w.attempt stages with
    | (none, w) => (.pending, w)
    | (some (.ok true), w) => (.advanced, w.advance pet)
    | (some (.ok false), w) => (.eos, w)
    | (some (.error err), w) =>
      match w.fault policy err with
      | (.retry, w) => attempts left w.retry
      | (.skip, w) => (.skipped, w.skip)
      | (.reset, w) =>
        match w.reset.recoverBoth stages with
        | (some (.ok ()), w) => (.recovered, w)
        | (some (.error recoverErr), w) => (.escalated recoverErr, w.escalate)
        | (none, w) => (.escalated err, w.escalate)
      | (.escalate, w) => (.escalated err, w.escalate)

def stepSupervised (w : World σ κ π ω) : Supervised × World σ κ π ω := attempts stages policy pet maxAttempts w

inductive RunOutcome where
  | completed
  | escalated (err : G2gError)
  | suspended

/-- `run_supervised`, for so many steps. It has no outcome yet when they are used up. -/
def runSupervised : Nat → World σ κ π ω → Option RunOutcome × World σ κ π ω
  | 0, w => (none, w)
  | steps + 1, w =>
    match stepSupervised stages policy pet w with
    | (.advanced, w) | (.skipped, w) | (.recovered, w) => runSupervised steps w
    | (.eos, w) => (some .completed, w)
    | (.escalated err, w) => (some (.escalated err), w)
    | (.pending, w) => (some .suspended, w)

/-- The world before the first step. -/
def World.start (src : σ) (sink : κ) (p : π) (watchdog : ω) : World σ κ π ω where
  src
  sink
  policy := p
  watchdog
  report := .new
  events := []

end Step

end Glass2Glass.Supervise
