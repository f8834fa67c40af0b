import Glass2Glass.Lib.Machine
import Glass2Glass.Caps.Basic

/-!
# Reconfigure requests

The reverse slot of a link, `LinkReceiver::request_reconfigure` and the checks that
`SenderSink::take_reconfigure_or_relay` makes before and after each send
(`g2g-core/src/runtime/channel.rs`). A store into a slot and a take from it are one step each, and the
consumer may make requests between any two steps of the producer. Requests are numbered in the order they
are made.

A check takes the request and, when it is one that waits for the other check, puts it back. A request made
in between is overwritten. Requests are latest-wins exactly as long as that does not happen
(`reconfigure_latest_iff`).
-/

namespace Glass2Glass.Runtime

open Machine

/-- What a consumer asks of its producer. -/
inductive Reconfigure where
  | propose (caps : Caps)
  | renegotiate
  | forceKeyframe
  /-- A set of the eight orientations, one bit each. -/
  | absorbOrientation (orientations : UInt8)

/-- Which requests a producer answers itself, beside `propose` and `renegotiate`. -/
structure ReconfigureAnswered where
  keyframe : Bool
  orientation : Bool

/-- Whether the producer answers a request. -/
def ReconfigureAnswered.answers (answered : ReconfigureAnswered) : Reconfigure → Bool
  | .forceKeyframe => answered.keyframe
  | .absorbOrientation _ => answered.orientation
  | .propose _ | .renegotiate => true

/-- Whether an answered request waits for the other check: an orientation for the check before a send, a
key frame for the check after it. -/
def Reconfigure.waits (preSend : Bool) : Reconfigure → Bool
  | .absorbOrientation _ => !preSend
  | .forceKeyframe => preSend
  | _ => false

structure Request where
  number : Nat
  signal : Reconfigure

inductive PushStage where
  /-- Before a push. -/
  | ready
  /-- After the first check; the packet is sent before the second. -/
  | sent
  /-- A check took a request that it puts back. -/
  | puttingBack (preSend : Bool) (r : Request)
  /-- A check took a request that it relays. -/
  | relaying (preSend : Bool) (r : Request)

/-- How a request left the link. -/
inductive Outcome where
  /-- Surfaced to the producer as the outcome of a push. -/
  | surfaced
  /-- Stored into the slot of the upstream link. -/
  | relayed
  | dropped

/-- The reverse side of a link, and what became of the requests made on it. -/
structure ReverseLink where
  answered : ReconfigureAnswered
  slot : Option Request
  /-- Whether the producer relays to an upstream link. -/
  relays : Bool
  /-- The slot of the upstream link. -/
  upstream : Option Request
  stage : PushStage
  /-- How many requests were made. -/
  requests : Nat
  outcomes : List (Request × Outcome)

namespace ReverseLink

def new (answered : ReconfigureAnswered) (relays : Bool) : ReverseLink :=
  { answered, slot := none, relays, upstream := none, stage := .ready, requests := 0, outcomes := [] }

variable (s : ReverseLink)

/-- After a check that surfaces nothing the push goes on. -/
def proceed (preSend : Bool) : ReverseLink :=
  { s with stage := if preSend then .sent else .ready }

def settle (r : Request) (outcome : Outcome) : ReverseLink :=
  { s with outcomes := s.outcomes ++ [(r, outcome)] }

/-- A check, up to the second slot it touches. -/
def takeReconfigureOrRelay (preSend : Bool) : ReverseLink :=
  match s.slot with
  | none => s.proceed preSend
  | some r =>
    let s := { s with slot := none }
    if s.answered.answers r.signal then
      if r.signal.waits preSend then { s with stage := .puttingBack preSend r }
      else { s.settle r .surfaced with stage := .ready }
    else if s.relays then { s with stage := .relaying preSend r }
    else (s.settle r .dropped).proceed preSend

/-- The steps of the two parties. -/
inductive Action where
  /-- The consumer makes a request. -/
  | request (signal : Reconfigure)
  /-- The producer begins to push a packet; the end of a stream is not held back. -/
  | push (eos : Bool)
  /-- The producer goes on. -/
  | poll
  /-- The producer drops a push that waits for room. -/
  | cancel

def step : Action → Option ReverseLink
  | .request signal => some { s with slot := some ⟨s.requests, signal⟩, requests := s.requests + 1 }
  | .push eos =>
    match s.stage with
    | .ready => some (if eos then { s with stage := .sent } else s.takeReconfigureOrRelay true)
    | _ => none
  | .poll =>
    match s.stage with
    | .ready => none
    | .sent => some (s.takeReconfigureOrRelay false)
    | .puttingBack preSend r => some ({ s with slot := some r }.proceed preSend)
    | .relaying preSend r =>
      some (({ s with upstream := some r }.settle r .relayed).proceed preSend)
  | .cancel =>
    match s.stage with
    | .sent => some { s with stage := .ready }
    | _ => none

/-- The request that the producer has in hand. -/
def held : Option Request :=
  match s.stage with
  | .puttingBack _ r | .relaying _ r => some r
  | _ => none

end ReverseLink

/-! ## Requests in hand -/

/-- The slot holds the last request or nothing; the last request is in the slot, in the producer's hands,
or left the link; and a request is dropped only when the producer neither answers it nor has a link to
relay it to. -/
structure Latest (s : ReverseLink) : Prop where
  slot : ∀ r, s.slot = some r → r.number + 1 = s.requests
  kept : 0 < s.requests → ∃ r, r.number + 1 = s.requests ∧
    (s.slot = some r ∨ s.held = some r ∨ ∃ outcome, (r, outcome) ∈ s.outcomes)
  dropped : ∀ r, (r, Outcome.dropped) ∈ s.outcomes → s.answered.answers r.signal = false ∧ s.relays = false

/-- Requests have numbers of requests made, and what is in the slot was made after what is in hand. -/
structure Numbered (s : ReverseLink) : Prop where
  slot : ∀ r, s.slot = some r → r.number < s.requests
  held : ∀ r, s.held = some r → r.number < s.requests
  order : ∀ r r', s.held = some r → s.slot = some r' → r.number < r'.number

variable {s s' : ReverseLink} {r : Request} {preSend : Bool} {action : ReverseLink.Action}

/-- What a step does to the requests under way. -/
inductive Effect (action : ReverseLink.Action) (s s' : ReverseLink) : Prop where
  | quiet (hheld : s.held = none) (hheld' : s'.held = none) (hslot : s'.slot = s.slot)
      (hrequests : s'.requests = s.requests) (houtcomes : s'.outcomes = s.outcomes)
  | request (signal : Reconfigure) (hheld : s'.held = s.held)
      (hslot : s'.slot = some ⟨s.requests, signal⟩) (hrequests : s'.requests = s.requests + 1)
      (houtcomes : s'.outcomes = s.outcomes)
  | take (r : Request) (hheld : s.held = none) (hheld' : s'.held = some r) (hslot : s.slot = some r)
      (hslot' : s'.slot = none) (hrequests : s'.requests = s.requests)
      (houtcomes : s'.outcomes = s.outcomes)
  /-- A request leaves the slot and the link. -/
  | leave (r : Request) (outcome : Outcome) (hheld : s.held = none) (hheld' : s'.held = none)
      (hslot : s.slot = some r) (hslot' : s'.slot = none) (hrequests : s'.requests = s.requests)
      (houtcomes : s'.outcomes = s.outcomes ++ [(r, outcome)])
      (hdropped : outcome = .dropped → s.answered.answers r.signal = false ∧ s.relays = false)
  | putBack (preSend : Bool) (r : Request) (haction : action = .poll)
      (hstage : s.stage = .puttingBack preSend r) (hheld' : s'.held = none) (hslot' : s'.slot = some r)
      (hrequests : s'.requests = s.requests) (houtcomes : s'.outcomes = s.outcomes)
  | relay (r : Request) (hheld : s.held = some r) (hheld' : s'.held = none) (hslot : s'.slot = s.slot)
      (hrequests : s'.requests = s.requests) (houtcomes : s'.outcomes = s.outcomes ++ [(r, .relayed)])

theorem held_proceed : (s.proceed preSend).held = none := by
  cases preSend <;> rfl

theorem effect_takeReconfigureOrRelay (hheld : s.held = none) : Effect action s (s.takeReconfigureOrRelay preSend) := by
  unfold ReverseLink.takeReconfigureOrRelay
  rcases hslot : s.slot with _ | r
  · exact .quiet hheld held_proceed rfl rfl rfl
  · dsimp only
    split_ifs with hanswers hwaits hrelays
    · exact .take r hheld rfl hslot rfl rfl rfl
    · exact .leave r .surfaced hheld rfl hslot rfl rfl rfl nofun
    · exact .take r hheld rfl hslot rfl rfl rfl
    · refine .leave r .dropped hheld held_proceed hslot rfl rfl rfl fun _ => ⟨?_, ?_⟩
      · simpa using hanswers
      · simpa using hrelays

theorem held_eq {stage : PushStage} (h : s.stage = stage) : s.held = { s with stage }.held := by
  unfold ReverseLink.held
  rw [h]

theorem settings_takeReconfigureOrRelay : (s.takeReconfigureOrRelay preSend).answered = s.answered ∧
      (s.takeReconfigureOrRelay preSend).relays = s.relays := by
  unfold ReverseLink.takeReconfigureOrRelay
  rcases s.slot with _ | r
  · exact ⟨rfl, rfl⟩
  · dsimp only
    split_ifs <;> exact ⟨rfl, rfl⟩

/-- Every step has one of the effects, and leaves alone what the producer answers and whether it
relays. -/
theorem step_effect (hstep : s.step action = some s') :
    Effect action s s' ∧ s'.answered = s.answered ∧ s'.relays = s.relays := by
  unfold ReverseLink.step at hstep
  split at hstep
  · next signal =>
    obtain rfl := Option.some.inj hstep
    exact ⟨.request signal rfl rfl rfl rfl, rfl, rfl⟩
  · next eos =>
    split at hstep
    · next hstage =>
      obtain rfl := Option.some.inj hstep
      have hheld : s.held = none := held_eq hstage
      cases eos with
      | true => exact ⟨.quiet hheld rfl rfl rfl rfl, rfl, rfl⟩
      | false => exact ⟨effect_takeReconfigureOrRelay hheld, settings_takeReconfigureOrRelay⟩
    · cases hstep
  · split at hstep
    · cases hstep
    · next hstage =>
      obtain rfl := Option.some.inj hstep
      exact ⟨effect_takeReconfigureOrRelay (held_eq hstage), settings_takeReconfigureOrRelay⟩
    · next preSend r hstage =>
      obtain rfl := Option.some.inj hstep
      exact ⟨.putBack preSend r rfl hstage held_proceed rfl rfl rfl, rfl, rfl⟩
    · next preSend r hstage =>
      obtain rfl := Option.some.inj hstep
      exact ⟨.relay r (held_eq hstage) held_proceed rfl rfl rfl, rfl, rfl⟩
  · split at hstep
    · next hstage =>
      obtain rfl := Option.some.inj hstep
      exact ⟨.quiet (held_eq hstage) rfl rfl rfl rfl, rfl, rfl⟩
    · cases hstep

/-! ## Latest wins -/

theorem numbered_step (h : Numbered s) (hstep : s.step action = some s') : Numbered s' := by
  obtain ⟨heffect, -⟩ := step_effect hstep
  cases heffect with
  | quiet hheld hheld' hslot hrequests houtcomes | relay r hheld hheld' hslot hrequests houtcomes =>
    refine ⟨?_, ?_, ?_⟩ <;> simp only [hslot, hheld', hrequests]
    · exact h.slot
    · exact nofun
    · exact nofun
  | request signal hheld hslot hrequests houtcomes =>
    refine ⟨?_, ?_, ?_⟩ <;> simp only [hslot, hheld, hrequests, Option.some.injEq]
    · rintro r rfl
      exact Nat.lt_succ_self _
    · exact fun r hr => Nat.lt_succ_of_lt (h.held r hr)
    · rintro r r' hr rfl
      exact h.held r hr
  | take r hheld hheld' hslot hslot' hrequests houtcomes =>
    refine ⟨?_, ?_, ?_⟩ <;> simp only [hslot', hheld', hrequests, Option.some.injEq]
    · exact nofun
    · rintro r rfl
      exact h.slot _ hslot
    · exact nofun
  | leave r outcome hheld hheld' hslot hslot' hrequests houtcomes hdropped =>
    refine ⟨?_, ?_, ?_⟩ <;> simp only [hslot', hheld', hrequests]
    · exact nofun
    · exact nofun
    · exact nofun
  | putBack preSend r haction hstage hheld' hslot' hrequests houtcomes =>
    refine ⟨?_, ?_, ?_⟩ <;> simp only [hslot', hheld', hrequests, Option.some.injEq]
    · rintro r rfl
      exact h.held _ (held_eq hstage)
    · exact nofun
    · exact nofun

/-- What is kept as long as nothing is overwritten. -/
structure Kept (s : ReverseLink) : Prop extends Latest s where
  /-- A request in hand is the last one, unless a later one is in the slot. -/
  held : ∀ r, s.held = some r → s.slot = none → r.number + 1 = s.requests

theorem kept_new (answered : ReconfigureAnswered) (relays : Bool) : Kept (.new answered relays) where
  slot := nofun
  kept := nofun
  dropped := nofun
  held := nofun

/-- A step keeps the last request, unless it puts back an older one over it. -/
theorem kept_step (h : Kept s) (hstep : s.step action = some s')
    (hput : ∀ preSend r, action = .poll → s.stage = .puttingBack preSend r → s.slot = none) : Kept s' := by
  obtain ⟨heffect, hanswered, hrelays⟩ := step_effect hstep
  have hkept := h.kept
  have hdropped := h.dropped
  rw [← hanswered, ← hrelays] at hdropped
  cases heffect with
  | quiet hheld hheld' hslot hrequests houtcomes =>
    rw [hheld] at hkept
    refine ⟨⟨?_, ?_, ?_⟩, ?_⟩ <;> simp only [hslot, hheld', hrequests, houtcomes]
    · exact h.slot
    · exact hkept
    · exact hdropped
    · exact nofun
  | request signal hheld hslot hrequests houtcomes =>
    refine ⟨⟨?_, ?_, ?_⟩, ?_⟩ <;> simp only [hslot, hheld, hrequests, houtcomes, Option.some.injEq]
    · rintro r rfl
      rfl
    · exact fun _ => ⟨⟨s.requests, signal⟩, rfl, Or.inl rfl⟩
    · exact hdropped
    · exact nofun
  | take r hheld hheld' hslot hslot' hrequests houtcomes =>
    refine ⟨⟨?_, ?_, ?_⟩, ?_⟩ <;> simp only [hslot', hheld', hrequests, houtcomes, Option.some.injEq]
    · exact nofun
    · exact fun _ => ⟨r, h.slot r hslot, Or.inr (Or.inl rfl)⟩
    · exact hdropped
    · rintro r rfl -
      exact h.slot _ hslot
  | leave r outcome hheld hheld' hslot hslot' hrequests houtcomes hdrop =>
    refine ⟨⟨?_, ?_, ?_⟩, ?_⟩ <;> simp only [hslot', hheld', hrequests, houtcomes]
    · exact nofun
    · exact fun _ => ⟨r, h.slot r hslot, Or.inr (Or.inr ⟨outcome, List.mem_append_right _ (by simp)⟩)⟩
    · intro r' hr'
      rcases List.mem_append.1 hr' with hr' | hr'
      · exact hdropped r' hr'
      · obtain ⟨rfl, heq⟩ := Prod.mk.inj (List.mem_singleton.1 hr')
        rw [hanswered, hrelays]
        exact hdrop heq.symm
    · exact nofun
  | putBack preSend r haction hstage hheld' hslot' hrequests houtcomes =>
    have hlast := h.held r (held_eq hstage) (hput preSend r haction hstage)
    refine ⟨⟨?_, ?_, ?_⟩, ?_⟩ <;> simp only [hslot', hheld', hrequests, houtcomes, Option.some.injEq]
    · rintro r rfl
      exact hlast
    · exact fun _ => ⟨r, hlast, Or.inl rfl⟩
    · exact hdropped
    · exact nofun
  | relay r hheld hheld' hslot hrequests houtcomes =>
    refine ⟨⟨?_, ?_, ?_⟩, ?_⟩ <;> simp only [hslot, hheld', hrequests, houtcomes]
    · exact h.slot
    · intro hpos
      obtain ⟨r', hnumber, hwhere⟩ := hkept hpos
      refine ⟨r', hnumber, ?_⟩
      rcases hwhere with hwhere | hwhere | ⟨outcome, hwhere⟩
      · exact Or.inl hwhere
      · obtain rfl := Option.some.inj (hheld.symm.trans hwhere)
        exact Or.inr (Or.inr ⟨.relayed, List.mem_append_right _ (by simp)⟩)
      · exact Or.inr (Or.inr ⟨outcome, List.mem_append_left _ hwhere⟩)
    · intro r' hr'
      rcases List.mem_append.1 hr' with hr' | hr'
      · exact hdropped r' hr'
      · cases (Prod.mk.inj (List.mem_singleton.1 hr')).2
    · exact nofun

/-- No put-back of a list of actions overwrites a request. -/
def PutsBackInto (s : ReverseLink) (actions : List ReverseLink.Action) : Prop :=
  ∀ before after mid, actions = before ++ .poll :: after → run ReverseLink.step s before = some mid →
    ∀ preSend r, mid.stage = .puttingBack preSend r → mid.slot = none

theorem kept_run {actions : List ReverseLink.Action} (h : Kept s) (hput : PutsBackInto s actions)
    (hrun : run ReverseLink.step s actions = some s') : Kept s' := by
  refine run_keeps_along (fun _ _ _ h hc hstep => kept_step h hstep hc) hrun ?_ h
  rintro before action after mid rfl hmid preSend r rfl hstage
  exact hput before after mid rfl hmid preSend r hstage

/-- In every run, the slot holds the last request or nothing and the last request is kept until it leaves
the link, after every step, exactly when every put-back finds the slot empty: the consumer has made no
request since the check took the one put back. -/
theorem reconfigure_latest_iff (answered : ReconfigureAnswered) (relays : Bool) (actions : List ReverseLink.Action) :
    (∀ before after mid, actions = before ++ after →
      run ReverseLink.step (.new answered relays) before = some mid → Latest mid) ↔
    PutsBackInto (.new answered relays) actions := by
  constructor
  · intro hlatest before after mid heq hmid preSend r hstage
    have hnumbered : Numbered mid := by
      refine run_keeps (fun _ _ _ _ h hstep => numbered_step h hstep) hmid ⟨?_, ?_, ?_⟩ <;> exact nofun
    -- After the put-back, the slot would hold an older request than before.
    have hnext : run ReverseLink.step (.new answered relays) (before ++ [.poll]) =
        some ({ mid with slot := some r }.proceed preSend) := by
      refine run_append_eq_some.2 ⟨mid, hmid, run_cons_eq_some.2 ⟨_, ?_, run_nil⟩⟩
      unfold ReverseLink.step
      rw [hstage]
    have hold := hlatest before (.poll :: after) mid heq hmid
    have hnew := hlatest (before ++ [.poll]) after _ (by rw [heq, List.append_assoc]; rfl) hnext
    by_contra hslot
    obtain ⟨r', hr'⟩ := Option.ne_none_iff_exists'.1 hslot
    have horder := hnumbered.order r r' (held_eq hstage) hr'
    have hlast := hold.slot r' hr'
    have hlast' : r.number + 1 = mid.requests := hnew.slot r rfl
    omega
  · intro hput before after mid heq hmid
    refine (kept_run (kept_new answered relays) (fun b a m hb hm => ?_) hmid).toLatest
    exact hput b (a ++ after) m (by rw [heq, hb, List.append_assoc]; rfl) hm

/-- A request made between a take and a put-back is lost: a source adapter's check before a send puts the
key frame request back over it. -/
theorem putBack_overwrites : ∃ s, run ReverseLink.step (.new ⟨true, false⟩ false)
        [.request .forceKeyframe, .push false, .request .renegotiate, .poll] = some s ∧
      s.slot = some ⟨0, .forceKeyframe⟩ ∧ s.requests = 2 ∧ s.outcomes = [] ∧ ¬ Latest s := by
  refine ⟨_, rfl, rfl, rfl, rfl, fun h => ?_⟩
  exact absurd (h.slot _ rfl) (by decide)

end Glass2Glass.Runtime
