import Glass2Glass.Lib.Machine
import Mathlib.Data.List.Perm.Basic

/-!
# Preroll

The preroll bookkeeping of `StateController` (`g2g-core/src/runtime/state.rs`) for a pipeline that is not
live: `set_state`, `expect_prerolls`, `request_repreroll`, `notify_prerolled` and `complete_preroll`, called
from any number of threads. Every load, store, swap and compare-and-exchange of an atomic is one step, and
a call under way is the step it takes next. The wakers, the play anchor, the `StateChanged` messages and
the return codes touch none of the atomics and are left out.

Some calls arm the preroll again (the transitions down to `Ready` and `Null`, and `request_repreroll`), the
others complete it (the transition to `Playing`, and `notify_prerolled`). As long as the two kinds do not
overlap, the bookkeeping is right (`preroll_bookkeeping`). A call of one kind that starts between two steps
of the other can leave a playing pipeline that waits for its preroll (`repreroll_leaves_playing`).
-/

namespace Glass2Glass.Runtime

open Machine List

inductive PipelineState where
  | null
  | ready
  | paused
  | playing
  deriving DecidableEq

/-- The atomics of a controller, and what happened since the preroll was last armed. -/
structure StateController where
  state : PipelineState
  prerolled : Bool
  /-- How many sinks still owe a preroll buffer. -/
  pendingPreroll : Nat
  prerollTarget : Nat
  prerollGen : UInt64
  /-- How often `AsyncDone` was posted in this cycle. -/
  posted : Nat
  /-- How many calls of `notify_prerolled` started in this cycle. -/
  started : Nat
  /-- How many of the calls took one off the pending count in this cycle. -/
  counted : Nat
  /-- Whether the pipeline was playing in this cycle. -/
  played : Bool

/-- A call under way, by the step it takes next. -/
inductive Call where
  /-- `set_state(Playing)` zeroes the pending count. -/
  | playing
  /-- `notify_prerolled` takes one off the pending count, if it still is `cur`. -/
  | notify (cur : Nat)
  /-- `complete_preroll` sets the latch. -/
  | complete
  /-- `complete_preroll` posts `AsyncDone`. -/
  | post
  /-- `set_state(Ready)` or `set_state(Null)` loads the target. -/
  | down
  /-- The same call stores what it loaded as the pending count. -/
  | downLoaded (target : Nat)
  /-- The same call clears the latch. -/
  | downStored
  /-- `request_repreroll` bumps the generation. -/
  | repreroll
  /-- The same call clears the latch. -/
  | bumped
  /-- The same call loads the target. -/
  | cleared
  /-- The same call stores what it loaded as the pending count. -/
  | loaded (target : Nat)
  deriving DecidableEq

def Call.arms : Call → Bool
  | .playing | .notify _ | .complete | .post => false
  | .down | .downLoaded _ | .downStored | .repreroll | .bumped | .cleared | .loaded _ => true

/-- Whether a call is a `notify_prerolled` that has not counted. -/
def Call.isNotify : Call → Bool
  | .notify _ => true
  | _ => false

/-- The operations of the controller. -/
inductive StateOp where
  | setState (new : PipelineState)
  | notifyPrerolled
  | requestRepreroll

namespace StateController

def new (initial : PipelineState) : StateController :=
  { state := initial, prerolled := false, pendingPreroll := 1, prerollTarget := 1, prerollGen := 0,
    posted := 0, started := 0, counted := 0, played := decide (initial = .playing) }

variable (s : StateController)

/-- Store the pending count; a cycle begins. -/
def arm (target : Nat) : StateController :=
  { s with
    pendingPreroll := target, posted := 0, started := 0, counted := 0
    played := decide (s.state = .playing) }

/-- `complete_preroll`, with nothing else under way. -/
def completePreroll : StateController :=
  if s.prerolled then s else { s with prerolled := true, posted := s.posted + 1 }

/-- `expect_prerolls`, before the run. -/
def expectPrerolls (sinks : Nat) : StateController :=
  let s := { s with prerollTarget := sinks }.arm sinks
  if sinks = 0 then s.completePreroll else s

/-- The first step of a call, with what is left of the call. -/
def start : StateOp → StateController × Option Call
  | .setState new =>
    let next := { s with state := new }
    if s.state = new then (next, none)
    else
      match new with
      | .playing => ({ next with played := true }, some .playing)
      | .ready | .null => (next, some .down)
      | .paused => (next, none)
  | .notifyPrerolled =>
    ({ s with started := s.started + 1 },
      if s.pendingPreroll = 0 then none else some (.notify s.pendingPreroll))
  | .requestRepreroll => (s, if s.state = .playing then none else some .repreroll)

/-- One more step of a call, with what is left of it. The weak compare-and-exchange may fail for no
reason. -/
def perform (spurious : Bool) : Call → StateController × Option Call
  | .playing => ({ s with pendingPreroll := 0 }, some .complete)
  | .notify cur =>
    if spurious = false ∧ s.pendingPreroll = cur then
      ({ s with pendingPreroll := cur - 1, counted := s.counted + 1 },
        if cur = 1 then some .complete else none)
    else (s, if s.pendingPreroll = 0 then none else some (.notify s.pendingPreroll))
  | .complete => ({ s with prerolled := true }, if s.prerolled then none else some .post)
  | .post => ({ s with posted := s.posted + 1 }, none)
  | .down => (s, some (.downLoaded s.prerollTarget))
  | .downLoaded target => (s.arm target, some .downStored)
  | .downStored => ({ s with prerolled := false }, none)
  | .repreroll => ({ s with prerollGen := s.prerollGen + 1 }, some .bumped)
  | .bumped => ({ s with prerolled := false }, some .cleared)
  | .cleared => (s, some (.loaded s.prerollTarget))
  | .loaded target => (s.arm target, none)

/-- Whether the future of `await_prerolled` resolves when it is polled. -/
def awaitPrerolled : Bool := s.prerolled

end StateController

/-- A controller with the calls under way. -/
structure Control where
  controller : StateController
  calls : List Call

namespace Control

/-- The steps of all threads. -/
inductive Action where
  /-- A thread makes a call. -/
  | call (op : StateOp)
  /-- A call under way takes its next step. -/
  | advance (call : Call) (spurious : Bool)

def new (initial : PipelineState) (sinks : Nat) : Control :=
  { controller := (StateController.new initial).expectPrerolls sinks, calls := [] }

def step (s : Control) : Action → Option Control
  | .call op =>
    let (controller, next) := s.controller.start op
    some { controller, calls := next.toList ++ s.calls }
  | .advance call spurious =>
    if call ∈ s.calls then
      let (controller, next) := s.controller.perform spurious call
      some { controller, calls := next.toList ++ s.calls.erase call }
    else none

/-- A call that has more to do than its first step is made only while the calls under way are of its
kind: they all arm the preroll, as it does, or all complete it. -/
def Exclusive (s : Control) : Action → Prop
  | .call op => ∀ next ∈ (s.controller.start op).2, ∀ call ∈ s.calls, call.arms = next.arms
  | .advance _ _ => True

end Control

/-! ## One cycle -/

variable {sinks : Nat} {s : StateController} {calls rest : List Call} {call : Call} {spurious : Bool}

/-- What holds of a cycle at any time: `AsyncDone` is posted at most once, and only after every sink was
notified of or the pipeline was playing. -/
structure Cycle (sinks : Nat) (s : StateController) : Prop where
  target : s.prerollTarget = sinks
  once : s.posted ≤ 1
  earned : 0 < s.posted → s.played = true ∨ sinks ≤ s.started

/-- What holds while no call arms the preroll. -/
structure Completing (sinks : Nat) (s : StateController) (calls : List Call) : Prop where
  kind : ∀ call ∈ calls, call.arms = false
  owed : ∀ cur, .notify cur ∈ calls → cur ≠ 0
  latched : s.prerolled = true → s.pendingPreroll = 0
  /-- The latch is set once, and who sets it posts. -/
  posts : s.posted + calls.count .post = if s.prerolled then 1 else 0
  drained : .complete ∈ calls → s.pendingPreroll = 0
  playing : s.state = .playing → s.prerolled = true ∨ .playing ∈ calls ∨ .complete ∈ calls
  played : s.state = .playing ∨ .playing ∈ calls → s.played = true
  /-- Unless the pipeline was playing, the pending count falls only as notifications count. -/
  pending : s.played = false → s.pendingPreroll + s.counted = sinks
  begun : s.counted + calls.countP Call.isNotify ≤ s.started

/-- What is stored and what is still to be stored by a call that arms the preroll. -/
def Call.Arming (sinks : Nat) (s : StateController) : Call → Prop
  | .downLoaded target => target = sinks
  | .downStored => s.pendingPreroll = sinks ∧ s.posted = 0 ∧ s.counted = 0 ∧ s.played = false
  | .cleared => s.prerolled = false
  | .loaded target => target = sinks ∧ s.prerolled = false
  | _ => True

/-- What holds while calls arm the preroll. -/
structure Arming (sinks : Nat) (s : StateController) (calls : List Call) : Prop where
  nonempty : calls ≠ []
  kind : ∀ call ∈ calls, call.arms = true
  state : s.state ≠ .playing
  stored : ∀ call ∈ calls, call.Arming sinks s

theorem Completing.perm (h : Completing sinks s calls) (hperm : calls.Perm rest) : Completing sinks s rest where
  kind call hcall := h.kind call (hperm.mem_iff.2 hcall)
  owed cur hcall := h.owed cur (hperm.mem_iff.2 hcall)
  latched := h.latched
  posts := by
    rw [← hperm.count_eq]
    exact h.posts
  drained hcall := h.drained (hperm.mem_iff.2 hcall)
  playing hstate := by
    rw [← hperm.mem_iff, ← hperm.mem_iff]
    exact h.playing hstate
  played hcall := h.played (hcall.imp_right hperm.mem_iff.2)
  pending := h.pending
  begun := by
    rw [← hperm.countP_eq]
    exact h.begun

/-! ## Completing -/

theorem Completing.forget {cur : Nat} (h : Completing sinks s (.notify cur :: rest)) : Completing sinks s rest where
  kind := (List.forall_mem_cons.1 h.kind).2
  owed cur' hcall := h.owed cur' (mem_cons_of_mem _ hcall)
  latched := h.latched
  posts := h.posts
  drained hcall := h.drained (mem_cons_of_mem _ hcall)
  playing hstate := by simpa using h.playing hstate
  played hcall := h.played (hcall.imp_right (mem_cons_of_mem _))
  pending := h.pending
  begun := by
    have hbegun := h.begun
    rw [countP_cons] at hbegun
    omega

theorem completing_retry {cur : Nat} (h : Completing sinks s (.notify cur :: rest))
    (hpending : s.pendingPreroll ≠ 0) : Completing sinks s (.notify s.pendingPreroll :: rest) where
  kind := List.forall_mem_cons.2 ⟨rfl, h.forget.kind⟩
  owed cur' hcall := by
    rcases List.mem_cons.1 hcall with heq | hcall
    · obtain rfl := Call.notify.inj heq
      exact hpending
    · exact h.forget.owed cur' hcall
  latched := h.latched
  posts := h.posts
  drained hcall := h.forget.drained (by simpa using hcall)
  playing hstate := by simpa using h.playing hstate
  played hcall := h.forget.played (by simpa using hcall)
  pending := h.pending
  begun := h.begun

theorem completing_counted {cur : Nat} (h : Completing sinks s (.notify cur :: rest)) (hcur : s.pendingPreroll = cur) :
    Completing sinks { s with pendingPreroll := cur - 1, counted := s.counted + 1 }
      ((if cur = 1 then some Call.complete else none).toList ++ rest) := by
  have hpos : cur ≠ 0 := h.owed cur mem_cons_self
  have hpending : s.pendingPreroll ≠ 0 := hcur.trans_ne hpos
  -- Somebody still owes a buffer, so nobody has completed the preroll.
  have hlatched : s.prerolled = false := by simpa using mt h.latched hpending
  have hdrained : .complete ∉ rest := fun hcall => hpending (h.forget.drained hcall)
  have hcount : s.played = false → cur - 1 + (s.counted + 1) = sinks := by
    intro hplayed
    have hsum := h.pending hplayed
    omega
  have hbegun : s.counted + 1 + rest.countP Call.isNotify ≤ s.started := by
    have hbegun := h.begun
    rw [countP_cons_of_pos rfl] at hbegun
    omega
  have hlatch : s.prerolled = true → cur - 1 = 0 := by
    rw [hlatched]
    exact nofun
  split_ifs with hlast
  · refine ⟨List.forall_mem_cons.2 ⟨rfl, h.forget.kind⟩, fun cur' hcall => ?_, hlatch, h.posts, fun _ => ?_,
      fun _ => .inr (.inr mem_cons_self), fun hcall => ?_, hcount, hbegun⟩
    · exact h.forget.owed cur' (by simpa using hcall)
    · exact Nat.sub_eq_zero_of_le (Nat.le_of_eq hlast)
    · exact h.forget.played (by simpa using hcall)
  · exact ⟨h.forget.kind, h.forget.owed, hlatch, h.posts, fun hcall => absurd hcall hdrained,
      h.forget.playing, h.forget.played, hcount, hbegun⟩

theorem completing_playing (h : Completing sinks s (.playing :: rest)) :
    Completing sinks { s with pendingPreroll := 0 } (.complete :: rest) where
  kind := List.forall_mem_cons.2 ⟨rfl, (List.forall_mem_cons.1 h.kind).2⟩
  owed cur hcall := h.owed cur (by simpa using hcall)
  latched _ := rfl
  posts := h.posts
  drained _ := rfl
  playing _ := .inr (.inr mem_cons_self)
  played _ := h.played (.inr mem_cons_self)
  pending hplayed := by
    rw [h.played (.inr mem_cons_self)] at hplayed
    cases hplayed
  begun := h.begun

theorem completing_complete (h : Completing sinks s (.complete :: rest)) : Completing sinks { s with prerolled := true }
      ((if s.prerolled then none else some Call.post).toList ++ rest) := by
  have hkind := (List.forall_mem_cons.1 h.kind).2
  have hpending := h.drained mem_cons_self
  have hposts := h.posts
  split_ifs with hlatched <;> simp only [hlatched, if_true, Bool.false_eq_true, if_false] at hposts
  · exact ⟨hkind, fun cur hcall => h.owed cur (mem_cons_of_mem _ hcall), fun _ => hpending, hposts,
      fun _ => hpending, fun _ => .inl rfl, fun hcall => h.played (hcall.imp_right (mem_cons_of_mem _)),
      h.pending, h.begun⟩
  · refine ⟨List.forall_mem_cons.2 ⟨rfl, hkind⟩, fun cur hcall => ?_, fun _ => hpending, ?_, fun _ => hpending,
      fun _ => .inl rfl, fun hcall => ?_, h.pending, h.begun⟩
    · exact h.owed cur (by simpa using hcall)
    · have hnone : s.posted + rest.count .post = 0 := hposts
      show s.posted + (.post :: rest).count .post = 1
      rw [count_cons_self]
      omega
    · exact h.played (by simpa using hcall)

theorem completing_post (h : Completing sinks s (.post :: rest)) :
    Completing sinks { s with posted := s.posted + 1 } rest where
  kind := (List.forall_mem_cons.1 h.kind).2
  owed cur hcall := h.owed cur (mem_cons_of_mem _ hcall)
  latched := h.latched
  posts := by
    have hposts := h.posts
    rw [count_cons_self] at hposts
    rw [← hposts]
    exact Nat.add_right_comm _ _ _
  drained hcall := h.drained (mem_cons_of_mem _ hcall)
  playing hstate := by simpa using h.playing hstate
  played hcall := h.played (hcall.imp_right (mem_cons_of_mem _))
  pending := h.pending
  begun := h.begun

theorem completing_perform (h : Completing sinks s (call :: rest)) :
    Completing sinks (s.perform spurious call).1 ((s.perform spurious call).2.toList ++ rest) := by
  cases call with
  | playing => exact completing_playing h
  | notify cur =>
    by_cases hswap : spurious = false ∧ s.pendingPreroll = cur
    · rw [StateController.perform, if_pos hswap]
      exact completing_counted h hswap.2
    · rw [StateController.perform, if_neg hswap]
      split_ifs with hzero
      · exact h.forget
      · exact completing_retry h hzero
  | complete => exact completing_complete h
  | post => exact completing_post h
  | _ => cases h.kind _ mem_cons_self

theorem cycle_post (hcycle : Cycle sinks s) (h : Completing sinks s (.post :: rest)) :
    Cycle sinks { s with posted := s.posted + 1 } := by
  have hposts := h.posts
  rw [count_cons_self] at hposts
  have hlatched : s.prerolled = true := by
    by_contra hlatched
    rw [if_neg hlatched] at hposts
    omega
  rw [if_pos hlatched] at hposts
  refine ⟨hcycle.target, ?_, fun _ => ?_⟩
  · show s.posted + 1 ≤ 1
    omega
  · rcases hplayed : s.played with _ | _
    · have hsum := h.pending hplayed
      have hzero := h.latched hlatched
      have hbegun := h.begun
      have hearned : sinks ≤ s.started := by omega
      exact .inr hearned
    · exact .inl rfl

theorem cycle_perform (hcycle : Cycle sinks s) (h : Completing sinks s (call :: rest)) :
    Cycle sinks (s.perform spurious call).1 := by
  have hsame := hcycle
  obtain ⟨htarget, honce, hearned⟩ := hcycle
  cases call with
  | playing | complete => exact ⟨htarget, honce, hearned⟩
  | notify cur =>
    unfold StateController.perform
    dsimp only
    split_ifs <;> exact ⟨htarget, honce, hearned⟩
  | post => exact cycle_post hsame h
  | _ => cases h.kind _ mem_cons_self

/-! ## Arming -/

theorem cycle_arm (hcycle : Cycle sinks s) : Cycle sinks (s.arm sinks) :=
  ⟨hcycle.target, Nat.zero_le 1, fun hposted => absurd hposted (Nat.lt_irrefl 0)⟩

theorem Call.Arming.arm (h : call.Arming sinks s) (hstate : s.state ≠ .playing) : call.Arming sinks (s.arm sinks) := by
  cases call with
  | downStored => exact ⟨rfl, rfl, rfl, decide_eq_false hstate⟩
  | _ => exact h

theorem Call.Arming.clear (h : call.Arming sinks s) : call.Arming sinks { s with prerolled := false } := by
  cases call with
  | cleared => rfl
  | loaded target => exact ⟨h.1, rfl⟩
  | _ => exact h

theorem completing_fresh (hstate : s.state ≠ .playing) (hlatched : s.prerolled = false)
    (h : Call.downStored.Arming sinks s) : Completing sinks s [] := by
  obtain ⟨hpending, hposted, hcounted, -⟩ := h
  refine ⟨nofun, nofun, ?_, ?_, nofun, fun hplaying => absurd hplaying hstate, ?_, fun _ => ?_, ?_⟩
  · rw [hlatched]
    exact nofun
  · rw [hlatched, hposted]
    rfl
  · exact fun hplaying => absurd (hplaying.resolve_right not_mem_nil) hstate
  · rw [hpending, hcounted]
    rfl
  · rw [hcounted]
    exact Nat.zero_le _

/-- The bookkeeping of a controller with calls under way. -/
structure Prerolling (sinks : Nat) (s : StateController) (calls : List Call) : Prop where
  cycle : Cycle sinks s
  phase : Completing sinks s calls ∨ Arming sinks s calls

theorem arming_next {next : Call} {s' : StateController} (h : Arming sinks s (call :: rest))
    (hstate : s'.state = s.state) (hnext : next.arms = true) (hstored : next.Arming sinks s')
    (hrest : ∀ call ∈ rest, call.Arming sinks s → call.Arming sinks s') : Arming sinks s' (next :: rest) where
  nonempty := cons_ne_nil _ _
  kind := List.forall_mem_cons.2 ⟨hnext, (List.forall_mem_cons.1 h.kind).2⟩
  state := hstate.trans_ne h.state
  stored := List.forall_mem_cons.2
    ⟨hstored, fun call hcall => hrest call hcall (h.stored call (mem_cons_of_mem _ hcall))⟩

theorem arming_end {s' : StateController} (h : Arming sinks s (call :: rest))
    (hstate : s'.state = s.state) (hlatched : s'.prerolled = false) (hstored : Call.downStored.Arming sinks s')
    (hrest : ∀ call ∈ rest, call.Arming sinks s → call.Arming sinks s') :
    Completing sinks s' rest ∨ Arming sinks s' rest := by
  have hstate' : s'.state ≠ .playing := hstate.trans_ne h.state
  by_cases hnil : rest = []
  · rw [hnil]
    exact .inl (completing_fresh hstate' hlatched hstored)
  · refine .inr ⟨hnil, (List.forall_mem_cons.1 h.kind).2, hstate', fun call hcall => ?_⟩
    exact hrest call hcall (h.stored call (mem_cons_of_mem _ hcall))

theorem arming_perform (hcycle : Cycle sinks s) (h : Arming sinks s (call :: rest)) :
    Prerolling sinks (s.perform spurious call).1 ((s.perform spurious call).2.toList ++ rest) := by
  obtain ⟨htarget, honce, hearned⟩ := hcycle
  have hstored := h.stored call mem_cons_self
  cases call with
  | down =>
    exact ⟨⟨htarget, honce, hearned⟩, .inr (arming_next h rfl rfl htarget fun _ _ => id)⟩
  | downLoaded target =>
    obtain rfl : target = sinks := hstored
    refine ⟨cycle_arm ⟨htarget, honce, hearned⟩, .inr (arming_next h rfl rfl ?_ fun _ _ hcall => ?_)⟩
    · exact ⟨rfl, rfl, rfl, decide_eq_false h.state⟩
    · exact hcall.arm h.state
  | downStored =>
    exact ⟨⟨htarget, honce, hearned⟩, arming_end h rfl rfl hstored fun _ _ hcall => hcall.clear⟩
  | repreroll =>
    exact ⟨⟨htarget, honce, hearned⟩, .inr (arming_next h rfl rfl trivial fun _ _ => id)⟩
  | bumped =>
    refine ⟨⟨htarget, honce, hearned⟩, .inr (arming_next h rfl rfl rfl fun _ _ hcall => ?_)⟩
    exact hcall.clear
  | cleared =>
    refine ⟨⟨htarget, honce, hearned⟩, .inr (arming_next h rfl rfl ?_ fun _ _ => id)⟩
    exact ⟨htarget, hstored⟩
  | loaded target =>
    obtain ⟨rfl, hlatched⟩ : target = sinks ∧ s.prerolled = false := hstored
    refine ⟨cycle_arm ⟨htarget, honce, hearned⟩, arming_end h rfl hlatched ?_ fun _ _ hcall => ?_⟩
    · exact ⟨rfl, rfl, rfl, decide_eq_false h.state⟩
    · exact hcall.arm h.state
  | _ => cases h.kind _ mem_cons_self

/-! ## Calls -/

section

variable (h : Prerolling sinks s calls)

include h

theorem arming_start (hkind : ∀ c ∈ calls, c.arms = call.arms)
    (harms : call.arms = true) {s' : StateController} (hstate : s'.state ≠ .playing)
    (hstored : call.Arming sinks s') (hcalls : ∀ c ∈ calls, c.Arming sinks s → c.Arming sinks s') :
    Arming sinks s' (call :: calls) where
  nonempty := cons_ne_nil _ _
  kind := List.forall_mem_cons.2 ⟨harms, fun c hc => (hkind c hc).trans harms⟩
  state := hstate
  stored := by
    refine List.forall_mem_cons.2 ⟨hstored, fun c hc => ?_⟩
    rcases h.phase with hcompleting | harming
    · -- There is none under way.
      have htrue : c.arms = true := (hkind c hc).trans harms
      rw [hcompleting.kind c hc] at htrue
      cases htrue
    · exact hcalls c hc (harming.stored c hc)

theorem completing_of_kind (hkind : ∀ c ∈ calls, c.arms = false) :
    Completing sinks s calls := by
  refine h.phase.resolve_right fun harming => ?_
  obtain ⟨c, hc⟩ := exists_mem_of_ne_nil calls harming.nonempty
  have htrue := harming.kind c hc
  rw [hkind c hc] at htrue
  cases htrue

theorem prerolling_playing (hkind : ∀ c ∈ calls, c.arms = false) :
    Prerolling sinks { s with state := .playing, played := true } (.playing :: calls) := by
  have hc := completing_of_kind h hkind
  refine ⟨⟨h.cycle.target, h.cycle.once, fun _ => .inl rfl⟩, .inl ⟨?_, ?_, hc.latched, hc.posts, ?_, ?_,
    fun _ => rfl, nofun, hc.begun⟩⟩
  · exact List.forall_mem_cons.2 ⟨rfl, hkind⟩
  · exact fun cur hcall => hc.owed cur (by simpa using hcall)
  · exact fun hcall => hc.drained (by simpa using hcall)
  · exact fun _ => .inr (.inl mem_cons_self)

theorem prerolling_paused : Prerolling sinks { s with state := .paused } calls := by
  refine ⟨⟨h.cycle.target, h.cycle.once, h.cycle.earned⟩, ?_⟩
  rcases h.phase with hc | ha
  · refine .inl ⟨hc.kind, hc.owed, hc.latched, hc.posts, hc.drained, nofun, ?_, hc.pending, hc.begun⟩
    exact fun hcall => hc.played (.inr (hcall.resolve_left nofun))
  · refine .inr ⟨ha.nonempty, ha.kind, nofun, fun c hc => ?_⟩
    have hstored := ha.stored c hc
    cases c <;> exact hstored

theorem prerolling_started :
    Prerolling sinks { s with started := s.started + 1 } calls := by
  refine ⟨⟨h.cycle.target, h.cycle.once, fun hposted => ?_⟩, ?_⟩
  · exact (h.cycle.earned hposted).imp_right Nat.le_succ_of_le
  · rcases h.phase with hc | ha
    · exact .inl ⟨hc.kind, hc.owed, hc.latched, hc.posts, hc.drained, hc.playing, hc.played, hc.pending,
        Nat.le_succ_of_le hc.begun⟩
    · refine .inr ⟨ha.nonempty, ha.kind, ha.state, fun c hc => ?_⟩
      have hstored := ha.stored c hc
      cases c <;> exact hstored

theorem prerolling_notify (hkind : ∀ c ∈ calls, c.arms = false)
    (hpending : s.pendingPreroll ≠ 0) :
    Prerolling sinks { s with started := s.started + 1 } (.notify s.pendingPreroll :: calls) := by
  have hc := completing_of_kind h hkind
  refine ⟨(prerolling_started h).cycle, .inl ⟨?_, ?_, hc.latched, hc.posts, ?_, ?_, ?_, hc.pending, ?_⟩⟩
  · exact List.forall_mem_cons.2 ⟨rfl, hkind⟩
  · intro cur hcall
    rcases List.mem_cons.1 hcall with heq | hcall
    · obtain rfl := Call.notify.inj heq
      exact hpending
    · exact hc.owed cur hcall
  · exact fun hcall => hc.drained (by simpa using hcall)
  · intro hstate
    simpa using hc.playing hstate
  · exact fun hcall => hc.played (by simpa using hcall)
  · rw [countP_cons_of_pos rfl]
    exact Nat.succ_le_succ hc.begun

theorem prerolling_start {op : StateOp}
    (hkind : ∀ next, (s.start op).2 = some next → ∀ c ∈ calls, c.arms = next.arms) :
    Prerolling sinks (s.start op).1 ((s.start op).2.toList ++ calls) := by
  have hcycle := h.cycle
  cases op with
  | setState new =>
    by_cases hsame : s.state = new
    · simp only [StateController.start, if_pos hsame]
      rw [← hsame]
      exact h
    · simp only [StateController.start, if_neg hsame] at hkind ⊢
      cases new with
      | playing => exact prerolling_playing h (hkind _ rfl)
      | paused => exact prerolling_paused h
      | ready | null =>
        refine ⟨⟨hcycle.target, hcycle.once, hcycle.earned⟩, .inr ?_⟩
        refine arming_start h (hkind _ rfl) rfl nofun trivial fun c _ hstored => ?_
        cases c <;> exact hstored
  | notifyPrerolled =>
    rw [StateController.start] at hkind ⊢
    split_ifs at hkind ⊢ with hpending
    · exact prerolling_started h
    · exact prerolling_notify h (hkind _ rfl) hpending
  | requestRepreroll =>
    rw [StateController.start] at hkind ⊢
    split_ifs at hkind ⊢ with hplaying
    · exact h
    · exact ⟨hcycle, .inr (arming_start h (hkind _ rfl) rfl hplaying trivial fun _ _ => id)⟩

end

/-! ## Runs -/

theorem prerolling_new {initial : PipelineState} (hinitial : initial ≠ .playing) (hsinks : 1 ≤ sinks) :
    Prerolling sinks (Control.new initial sinks).controller (Control.new initial sinks).calls := by
  have hne : sinks ≠ 0 := Nat.one_le_iff_ne_zero.1 hsinks
  have heq : (Control.new initial sinks).controller =
      { StateController.new initial with prerollTarget := sinks }.arm sinks := by
    simp only [Control.new, StateController.expectPrerolls, if_neg hne]
  rw [heq]
  refine ⟨⟨rfl, Nat.zero_le 1, fun hposted => absurd hposted (Nat.lt_irrefl 0)⟩, .inl ?_⟩
  exact completing_fresh hinitial rfl ⟨rfl, rfl, rfl, decide_eq_false hinitial⟩

theorem Arming.perm (h : Arming sinks s calls) (hperm : calls.Perm rest) : Arming sinks s rest where
  nonempty hnil := h.nonempty (hperm.trans (hnil ▸ .refl _)).eq_nil
  kind c hc := h.kind c (hperm.mem_iff.2 hc)
  state := h.state
  stored c hc := h.stored c (hperm.mem_iff.2 hc)

theorem prerolling_step {s s' : Control} {action : Control.Action}
    (h : Prerolling sinks s.controller s.calls) (hexclusive : s.Exclusive action)
    (hstep : s.step action = some s') : Prerolling sinks s'.controller s'.calls := by
  unfold Control.step at hstep
  split at hstep
  · obtain rfl := Option.some.inj hstep
    exact prerolling_start h hexclusive
  · next call spurious =>
    split_ifs at hstep with hcall
    obtain rfl := Option.some.inj hstep
    have hperm := perm_cons_erase hcall
    rcases h.phase with hc | ha
    · exact ⟨cycle_perform h.cycle (hc.perm hperm), .inl (completing_perform (hc.perm hperm))⟩
    · exact arming_perform h.cycle (ha.perm hperm)

/-- In every run in which calls that arm the preroll and calls that complete it do not overlap: with no
call under way, a playing pipeline is prerolled, and a paused and prerolled one has no sink that owes a
buffer; and in each cycle `AsyncDone` is posted at most once, and only after as many notifications started
as there are sinks, unless the pipeline was playing. -/
theorem preroll_bookkeeping (initial : PipelineState) (hinitial : initial ≠ .playing) (sinks : Nat)
    (hsinks : 1 ≤ sinks) (actions : List Control.Action) (s : Control)
    (hexclusive : Along Control.step Control.Exclusive (.new initial sinks) actions)
    (hrun : run Control.step (.new initial sinks) actions = some s) : (s.calls = [] →
      (s.controller.state = .playing → s.controller.awaitPrerolled = true) ∧
      (s.controller.prerolled = true → s.controller.state = .paused → s.controller.pendingPreroll = 0)) ∧
    s.controller.posted ≤ 1 ∧
    (0 < s.controller.posted → s.controller.played = true ∨ sinks ≤ s.controller.started) := by
  have h : Prerolling sinks s.controller s.calls := by
    refine run_keeps_along (P := fun s => Prerolling sinks s.controller s.calls) ?_ hrun hexclusive
      (prerolling_new hinitial hsinks)
    exact fun _ _ _ h hc hstep => prerolling_step h hc hstep
  refine ⟨fun hnil => ?_, h.cycle.once, h.cycle.earned⟩
  have hc : Completing sinks s.controller [] := by
    have hcalls := completing_of_kind h (by rw [hnil]; exact nofun)
    rwa [hnil] at hcalls
  refine ⟨fun hplaying => ?_, fun hlatched _ => hc.latched hlatched⟩
  exact (hc.playing hplaying).resolve_right (not_or.2 ⟨not_mem_nil, not_mem_nil⟩)

/-- A sink is notified of, and the preroll completes. -/
theorem preroll_bookkeeping_notified :
    ∃ s, run Control.step (.new .paused 1) [.call .notifyPrerolled, .advance (.notify 1) false,
        .advance .complete false, .advance .post false] = some s ∧
      s.controller.posted = 1 ∧ s.controller.played = false ∧ 1 ≤ s.controller.started := by
  refine ⟨_, rfl, rfl, rfl, ?_⟩
  refine ((preroll_bookkeeping .paused nofun 1 Nat.le.refl [.call .notifyPrerolled, .advance (.notify 1) false,
    .advance .complete false, .advance .post false] _ ?_ rfl).2.2 (by decide)).resolve_left (by decide)
  -- The one call is made with no other under way.
  refine .cons ?_ fun _ _ => .cons trivial fun _ _ => .cons trivial fun _ _ => .cons trivial fun _ _ => along_nil
  exact fun _ _ _ hcall => absurd hcall not_mem_nil

/-- A `request_repreroll` that found the pipeline paused goes on after `set_state(Playing)`: the pipeline
plays, with the latch cleared and a sink that owes a buffer. -/
theorem repreroll_leaves_playing :
    ∃ s, run Control.step (.new .paused 1) [.call .requestRepreroll, .call (.setState .playing),
        .advance .playing false, .advance .complete false, .advance .post false,
        .advance .repreroll false, .advance .bumped false, .advance .cleared false,
        .advance (.loaded 1) false] = some s ∧
      s.calls = [] ∧ s.controller.state = .playing ∧ s.controller.awaitPrerolled = false ∧
      s.controller.pendingPreroll = 1 :=
  ⟨_, rfl, rfl, rfl, rfl, rfl⟩

end Glass2Glass.Runtime
