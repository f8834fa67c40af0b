import Glass2Glass.Caps.Basic

/-!
# Producer endpoints

The producing end of an edge that can be retargeted (`ProducerEndpoint` in `g2g-core/src/runtime/channel.rs`),
with the link in the hands of the producer. The mutator asks the producer to park; at its next push the
producer leaves its link behind and waits, until it is given a link to go on with. Every method holds the
endpoint's lock, so each is one step. The timeline of the edge, which is kept here too, is left out.

A producer keeps its link as long as nothing takes it out of the endpoint: being asked to park, parking and
a park request that is withdrawn do not change it (`producing_cancelPark`).
-/

namespace Glass2Glass.Runtime

/-- The sending end of a link, or one whose receiver is gone. -/
inductive LinkSender where
  | into (link : Nat)
  | closed
  deriving DecidableEq

/-- The producing end of an edge, and the link its producer holds. -/
structure ProducerEndpoint where
  /-- The mutator wants the producer to stop. -/
  park : Bool
  /-- The producer has stopped. -/
  parked : Bool
  /-- The link that the producer gave up. -/
  detached : Option LinkSender
  /-- The link that the producer picks up when it goes on. -/
  staged : Option LinkSender
  /-- The producer's arm has ended. -/
  gone : Bool
  /-- The mutator wants the link when the arm ends. -/
  claimed : Bool
  /-- The arm flushes its element when its input ends. -/
  drain : Bool
  /-- The producer ends because its place was taken. -/
  retired : Bool
  caps : Option Caps
  /-- The link in the hands of the producer. -/
  link : LinkSender

inductive ProducerEvent where
  /-- It comes to its next push. -/
  | poll
  /-- It sends new caps. -/
  | capsChanged (caps : Caps)
  /-- Its arm ends. -/
  | gone

namespace ProducerEndpoint

def new (link : LinkSender) : ProducerEndpoint :=
  { park := false, parked := false, detached := none, staged := none, gone := false, claimed := false,
    drain := false, retired := false, caps := none, link }

variable (e : ProducerEndpoint)

def setCaps (caps : Caps) : ProducerEndpoint := { e with caps := some caps }

def claimOnEnd : ProducerEndpoint := { e with claimed := true }

def beginDrain : ProducerEndpoint := { e with drain := true }

def requestPark : ProducerEndpoint := { e with park := true }

/-- The link that the producer gave up, or that there will be none; `none` while neither is known. -/
def pollDetached : Option (Option LinkSender) × ProducerEndpoint :=
  match e.detached with
  | some link => (some (some link), { e with detached := none })
  | none => (if e.gone then some none else none, e)

/-- The producer may go on, with another link. -/
def unpark (replacement : Option LinkSender) : ProducerEndpoint :=
  { e with park := false, staged := replacement }

def cancelPark : ProducerEndpoint :=
  { e with park := false, staged := e.detached.or e.staged, detached := none }

def retire : ProducerEndpoint := { e with retired := true }.unpark none

/-- The endpoint is handed to another producer. -/
def rehome : ProducerEndpoint :=
  { e with
    park := false, parked := false, gone := false, claimed := false, drain := false, retired := false
    detached := none, staged := none }

/-- The producer comes to a push: it picks up a staged link, and parks if it is asked to. -/
def pollProducer : ProducerEndpoint :=
  let e :=
    match e.staged with
    | some link => { e with link, staged := none, parked := false }
    | none => e
  if e.park && !e.parked then { e with detached := some e.link, link := .closed, parked := true } else e

/-- The producer's arm ends, and leaves a claimed link behind. -/
def producerGone : ProducerEndpoint :=
  { e with
    gone := true
    detached := if e.claimed && e.detached.isNone then some e.link else e.detached }

/-- The producer does something. -/
def after : ProducerEvent → ProducerEndpoint
  | .poll => e.pollProducer
  | .capsChanged caps => e.setCaps caps
  | .gone => e.producerGone

/-- The link that the producer pushes into when it goes on. -/
def producing : LinkSender := e.staged.getD (e.detached.getD e.link)

/-- No operation is under way at the endpoint. -/
structure Steady : Prop where
  /-- A link is given up or given back, not both. -/
  one : e.detached = none ∨ e.staged = none
  /-- A producer that gave its link up has stopped. -/
  stopped : e.detached.isSome = true → e.parked = true
  /-- A producer that has stopped gave its link up, or has one to pick up. -/
  waits : e.parked = true → e.detached.isSome = true ∨ e.staged.isSome = true
  unclaimed : e.claimed = false

variable {e : ProducerEndpoint}

section

variable (h : e.Steady)

include h

theorem Steady.requestPark : e.requestPark.Steady := ⟨h.one, h.stopped, h.waits, h.unclaimed⟩

theorem Steady.setCaps (caps : Caps) : (e.setCaps caps).Steady :=
  ⟨h.one, h.stopped, h.waits, h.unclaimed⟩

theorem Steady.pollProducer : e.pollProducer.Steady := by
  obtain ⟨hone, hstopped, hwaits, hunclaimed⟩ := h
  unfold ProducerEndpoint.pollProducer
  rcases hstaged : e.staged with _ | link <;> dsimp only
  · split_ifs
    · exact ⟨Or.inr hstaged, fun _ => rfl, fun _ => Or.inl rfl, hunclaimed⟩
    · exact ⟨hone, hstopped, hwaits, hunclaimed⟩
  · have hdetached : e.detached = none := by simpa [hstaged] using hone
    split_ifs
    · exact ⟨Or.inr rfl, fun _ => rfl, fun _ => Or.inl rfl, hunclaimed⟩
    · refine ⟨Or.inl hdetached, fun hsome => ?_, nofun, hunclaimed⟩
      rw [hdetached] at hsome
      cases hsome

theorem Steady.producerGone : e.producerGone.Steady := by
  have hdetached : e.producerGone.detached = e.detached := by
    unfold ProducerEndpoint.producerGone
    rw [h.unclaimed]
    rfl
  refine ⟨?_, ?_, ?_, h.unclaimed⟩ <;> rw [hdetached]
  · exact h.one
  · exact h.stopped
  · exact h.waits

theorem Steady.after (event : ProducerEvent) : (e.after event).Steady := by
  cases event with
  | poll => exact h.pollProducer
  | capsChanged caps => exact h.setCaps caps
  | gone => exact h.producerGone

theorem Steady.cancelPark : e.cancelPark.Steady := by
  refine ⟨Or.inl rfl, nofun, fun hparked => Or.inr ?_, h.unclaimed⟩
  unfold ProducerEndpoint.cancelPark
  simpa using h.waits hparked

end

end ProducerEndpoint

end Glass2Glass.Runtime
