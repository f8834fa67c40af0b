import Glass2Glass.Supervise.Report

/-!
# Runs within a budget

A supervised run is a list of rounds: each is an attempt and what became of it (`Round`). The report counts the rounds
and the watchdog is fed by them (`Books`). A ladder of answers is a rule on the number of faults in a row, so that the
rounds say when the run is given up (`GivesUp`), and it is given up there and nowhere else (`run_supervised_budget`).
-/

namespace Glass2Glass.Supervise

open List
open World (log advance)

/-- What became of a fault. -/
inductive Answer where
  | retry
  | skip
  | escalate
  /-- The sink is not asked when the source failed. -/
  | resetSource (err : G2gError)
  | reset (sink : Except G2gError Unit)
  deriving DecidableEq

inductive Round where
  | delivered
  | ended
  | faulted (err : G2gError) (answer : Answer)
  deriving DecidableEq

namespace Answer

def recovery : Answer → Recovery
  | retry => .retry
  | skip => .skip
  | escalate => .escalate
  | resetSource _ | reset _ => .reset

def events : Answer → List Event
  | resetSource err => [.recoverSource (.error err)]
  | reset sink => [.recoverSource (.ok ()), .recoverSink sink]
  | _ => []

end Answer

namespace Round

/-- A frame is followed by a feeding of the watchdog, a reset by the two hooks, the source's first. -/
def events : Round → List Event
  | delivered => [.attempted (.ok true), .pet]
  | ended => [.attempted (.ok false)]
  | faulted err answer => [.attempted (.error err), .classified answer.recovery] ++ answer.events

/-- What the step gives that ends with this round. A round that is tried again does not end a step. -/
def result : Round → Option Supervised
  | delivered => some .advanced
  | ended => some .eos
  | faulted _ .retry => none
  | faulted _ .skip => some .skipped
  | faulted err .escalate => some (.escalated err)
  | faulted _ (.resetSource err) => some (.escalated err)
  | faulted _ (.reset (.error err)) => some (.escalated err)
  | faulted _ (.reset (.ok ())) => some .recovered

def isFault : Round → Bool
  | faulted _ _ => true
  | _ => false

/-- Whether the policy gave this answer. -/
def answered (recovery : Recovery) : Round → Bool
  | faulted _ answer => answer.recovery = recovery
  | _ => false

def inRow (n : Nat) : Round → Nat
  | delivered => 0
  | ended => n
  | faulted _ _ => n + 1

def lastFault (last : Option G2gError) : Round → Option G2gError
  | faulted err _ => some err
  | _ => last

end Round

variable (rounds : List Round)

def deliveries : Nat := rounds.countP (· = .delivered)

def faults : Nat := rounds.countP Round.isFault

def answers (recovery : Recovery) (rounds : List Round) : Nat := rounds.countP (Round.answered recovery)

/-- The faults since the last frame. -/
def faultsInRow : Nat := rounds.foldl Round.inRow 0

def lastFault (rounds : List Round) : Option G2gError := rounds.foldl Round.lastFault none

/-- What a counter of 32 bits says of a number. -/
def saturated (n : Nat) : Nat := min n (2 ^ 32 - 1)

@[simp] theorem saturatingAdd_saturated (n : Nat) : saturatingAdd (saturated n) 1 = saturated (n + 1) := by
  simp only [saturatingAdd, saturated]
  omega

@[simp] theorem saturated_of_lt {n : Nat} (h : n < 2 ^ 32) : saturated n = n := min_eq_left (by omega)

section Append

variable (rounds : List Round) (r : Round)

@[simp] theorem deliveries_concat :
    deliveries (rounds ++ [r]) = deliveries rounds + if r = .delivered then 1 else 0 := by
  simp [deliveries, countP_append, countP_cons]

@[simp] theorem faults_concat : faults (rounds ++ [r]) = faults rounds + if r.isFault then 1 else 0 := by
  simp [faults, countP_append, countP_cons]

@[simp] theorem answers_concat (recovery : Recovery) :
    answers recovery (rounds ++ [r]) = answers recovery rounds + if r.answered recovery then 1 else 0 := by
  simp [answers, countP_append, countP_cons]

@[simp] theorem faultsInRow_concat : faultsInRow (rounds ++ [r]) = r.inRow (faultsInRow rounds) := by
  simp [faultsInRow]

@[simp] theorem lastFault_concat : lastFault (rounds ++ [r]) = r.lastFault (lastFault rounds) := by
  simp [lastFault]

end Append

theorem faults_eq_answers (rounds : List Round) :
    faults rounds = answers .retry rounds + answers .reset rounds + answers .skip rounds
      + answers .escalate rounds := by
  induction rounds using List.reverseRecOn with
  | nil => rfl
  | append_singleton rounds r ih =>
    rcases r with _ | _ | ⟨err, _ | _ | _ | _ | _⟩ <;> simp [Round.isFault, Round.answered, Answer.recovery] <;> omega

/-- Each fault is answered by the rule, of the faults in a row that the counter says. -/
def Ruled (rule : G2gError → Nat → Recovery → Prop) (rounds : List Round) : Prop :=
  ∀ earlier err answer, earlier ++ [.faulted err answer] <+: rounds →
    rule err (saturated (faultsInRow earlier + 1)) answer.recovery

theorem Ruled.nil (rule : G2gError → Nat → Recovery → Prop) : Ruled rule [] := by
  intro earlier err answer hinit
  exact absurd (List.prefix_nil.mp hinit) (by simp)

theorem Ruled.concat {rule : G2gError → Nat → Recovery → Prop} {rounds : List Round} {r : Round} (h : Ruled rule rounds)
    (hr : ∀ err answer, r = .faulted err answer → rule err (saturated (faultsInRow rounds + 1)) answer.recovery) :
    Ruled rule (rounds ++ [r]) := by
  intro earlier err answer hinit
  rcases List.prefix_concat_iff.mp hinit with hwhole | hearlier
  · obtain ⟨rfl, hlast⟩ := append_inj' hwhole rfl
    exact hr err answer (List.singleton_inj.mp hlast).symm
  · exact h earlier err answer hearlier

section Books

variable {σ κ φ π ω : Type} {own : π → Prop} {rule : G2gError → Nat → Recovery → Prop} {stages : Stages σ κ φ}
  {policy : FaultPolicy π} {pet : ω → ω} {dog : ω}

/-- The calls and the hooks of the stages finish. -/
structure Stages.Ready (stages : Stages σ κ φ) : Prop where
  next : ∀ src, (stages.next src).1 ≠ none
  consume : ∀ sink frame, (stages.consume sink frame).1 ≠ none
  recoverSource : ∀ src, (stages.recoverSource src).1 ≠ none
  recoverSink : ∀ sink, (stages.recoverSink sink).1 ≠ none

/-- A world after so many rounds, whose policy is one of its own. Whether it escalated is for the outcome to say. -/
structure Books (own : π → Prop) (rule : G2gError → Nat → Recovery → Prop) (pet : ω → ω) (dog : ω) (w : World σ κ π ω)
    (rounds : List Round) : Prop where
  events : w.events = rounds.flatMap Round.events
  watchdog : w.watchdog = pet^[deliveries rounds] dog
  frames : w.report.frames = saturated (deliveries rounds)
  faults : w.report.faults = saturated (faults rounds)
  retries : w.report.retries = saturated (answers .retry rounds)
  resets : w.report.resets = saturated (answers .reset rounds)
  skips : w.report.skips = saturated (answers .skip rounds)
  consecutiveFaults : w.report.consecutiveFaults = saturated (faultsInRow rounds)
  lastError : w.report.lastError = lastFault rounds
  ruled : Ruled rule rounds
  policy : own w.policy

theorem World.attempt_ready (h : stages.Ready) (w : World σ κ π ω) :
    ∃ result src sink, w.attempt stages = (some result, { w with src, sink }.log (.attempted result)) := by
  rw [World.attempt]
  obtain ⟨answer, src, hnext⟩ : ∃ answer src, stages.next w.src = (answer, src) := ⟨_, _, rfl⟩
  rw [hnext]
  rcases answer with _ | err | _ | frame
  · exact absurd (congrArg Prod.fst hnext) (h.next w.src)
  · exact ⟨_, src, w.sink, rfl⟩
  · exact ⟨_, src, w.sink, rfl⟩
  · obtain ⟨taken, sink, hconsume⟩ : ∃ taken sink, stages.consume w.sink frame = (taken, sink) := ⟨_, _, rfl⟩
    dsimp only
    rw [hconsume]
    rcases taken with _ | err | _
    · exact absurd (congrArg Prod.fst hconsume) (h.consume w.sink frame)
    · exact ⟨_, src, sink, rfl⟩
    · exact ⟨_, src, sink, rfl⟩

/-- What the hooks give, of what became of the fault. -/
def Answer.recovered : Answer → Except G2gError Unit
  | .resetSource err => .error err
  | .reset sink => sink
  | _ => .ok ()

theorem World.recoverBoth_ready (h : stages.Ready) (w : World σ κ π ω) :
    ∃ (answer : Answer) (src : σ) (sink : κ), answer.recovery = .reset ∧ w.recoverBoth stages
      = (some answer.recovered, { w with src, sink, events := w.events ++ answer.events }) := by
  rw [World.recoverBoth]
  obtain ⟨first, src, hsource⟩ : ∃ first src, stages.recoverSource w.src = (first, src) := ⟨_, _, rfl⟩
  rw [hsource]
  rcases first with _ | err | _
  · exact absurd (congrArg Prod.fst hsource) (h.recoverSource w.src)
  · exact ⟨.resetSource err, src, w.sink, rfl, rfl⟩
  · obtain ⟨second, sink, hsink⟩ : ∃ second sink, stages.recoverSink w.sink = (second, sink) := ⟨_, _, rfl⟩
    simp only [log]
    rw [hsink]
    rcases second with _ | result
    · exact absurd (congrArg Prod.fst hsink) (h.recoverSink w.sink)
    · refine ⟨.reset result, src, sink, rfl, ?_⟩
      simp [Answer.recovered, Answer.events]

theorem Books.start (src : σ) (sink : κ) {p : π} (hp : own p) : Books own rule pet dog (World.start src sink p dog) [] where
  events := rfl
  watchdog := rfl
  frames := rfl
  faults := rfl
  retries := rfl
  resets := rfl
  skips := rfl
  consecutiveFaults := rfl
  lastError := rfl
  ruled := .nil rule
  policy := hp

variable {rounds : List Round}

theorem Books.congr {w w' : World σ κ π ω} (h : Books own rule pet dog w rounds)
    (hevents : w'.events = w.events) (hwatchdog : w'.watchdog = w.watchdog) (hpolicy : w'.policy = w.policy)
    (hreport : { w'.report with escalated := w.report.escalated } = w.report) : Books own rule pet dog w' rounds := by
  obtain ⟨hframes, hfaults, hretries, hresets, hskips, hconsecutive, -, hlast⟩ := SupervisorReport.mk.inj hreport
  exact ⟨hevents.trans h.events, hwatchdog.trans h.watchdog, hframes.trans h.frames, hfaults.trans h.faults,
    hretries.trans h.retries, hresets.trans h.resets, hskips.trans h.skips, hconsecutive.trans h.consecutiveFaults,
    hlast.trans h.lastError, h.ruled, hpolicy ▸ h.policy⟩

theorem Books.delivered {w : World σ κ π ω} (h : Books own rule pet dog w rounds) (src : σ) (sink : κ) :
    Books own rule pet dog (({ w with src, sink }.log (.attempted (.ok true))).advance pet) (rounds ++ [.delivered]) where
  events := by simp [log, advance, h.events, Round.events]
  watchdog := by simp [log, advance, h.watchdog, Function.iterate_succ_apply']
  frames := by simp [log, advance, h.frames]
  faults := by simp [log, advance, h.faults, Round.isFault]
  retries := by simp [log, advance, h.retries, Round.answered]
  resets := by simp [log, advance, h.resets, Round.answered]
  skips := by simp [log, advance, h.skips, Round.answered]
  consecutiveFaults := by simp [log, advance, Round.inRow, saturated]
  lastError := by simp [log, advance, h.lastError, Round.lastFault]
  ruled := h.ruled.concat (by simp)
  policy := h.policy

theorem Books.ended {w : World σ κ π ω} (h : Books own rule pet dog w rounds) (src : σ) (sink : κ) :
    Books own rule pet dog ({ w with src, sink }.log (.attempted (.ok false))) (rounds ++ [.ended]) where
  events := by simp [log, h.events, Round.events]
  watchdog := by simp [log, h.watchdog]
  frames := by simp [log, h.frames]
  faults := by simp [log, h.faults, Round.isFault]
  retries := by simp [log, h.retries, Round.answered]
  resets := by simp [log, h.resets, Round.answered]
  skips := by simp [log, h.skips, Round.answered]
  consecutiveFaults := by simp [log, h.consecutiveFaults, Round.inRow]
  lastError := by simp [log, h.lastError, Round.lastFault]
  ruled := h.ruled.concat (by simp)
  policy := h.policy

/-- A fault is counted once, and once more for its answer. -/
theorem Books.faulted {w w' : World σ κ π ω} (h : Books own rule pet dog w rounds) (err : G2gError)
    (answer : Answer) (hrule : rule err (saturated (faultsInRow rounds + 1)) answer.recovery)
    (hevents : w'.events = w.events ++ (Round.faulted err answer).events) (hwatchdog : w'.watchdog = w.watchdog)
    (hpolicy : own w'.policy) (hreport : { w'.report with escalated := w.report.escalated } = { w.report with
      faults := saturatingAdd w.report.faults 1
      consecutiveFaults := saturatingAdd w.report.consecutiveFaults 1
      lastError := some err
      retries := if answer.recovery = .retry then saturatingAdd w.report.retries 1 else w.report.retries
      resets := if answer.recovery = .reset then saturatingAdd w.report.resets 1 else w.report.resets
      skips := if answer.recovery = .skip then saturatingAdd w.report.skips 1 else w.report.skips }) :
    Books own rule pet dog w' (rounds ++ [.faulted err answer]) := by
  obtain ⟨hframes, hfaults, hretries, hresets, hskips, hconsecutive, -, hlast⟩ := SupervisorReport.mk.inj hreport
  have hcount : ∀ (recovery : Recovery) (n : Nat), n = saturated (answers recovery rounds) →
      (if answer.recovery = recovery then saturatingAdd n 1 else n)
        = saturated (answers recovery (rounds ++ [.faulted err answer])) := by
    rintro recovery n rfl
    rw [answers_concat, Round.answered]
    by_cases hanswer : answer.recovery = recovery <;> simp [hanswer]
  exact {
    events := by rw [hevents, h.events, flatMap_append, flatMap_singleton]
    watchdog := by simp [hwatchdog, h.watchdog]
    frames := by simp [hframes, h.frames]
    faults := by simp [hfaults, h.faults, Round.isFault]
    retries := hretries.trans (hcount .retry _ h.retries)
    resets := hresets.trans (hcount .reset _ h.resets)
    skips := hskips.trans (hcount .skip _ h.skips)
    consecutiveFaults := by simp [hconsecutive, h.consecutiveFaults, Round.inRow]
    lastError := by simp [hlast, Round.lastFault]
    ruled := h.ruled.concat fun err' answer' heq => by
      obtain ⟨rfl, rfl⟩ := Round.faulted.inj heq
      exact hrule
    policy := hpolicy }

/-- How a step ends that has so many attempts: with the round that it ends on, or by force. -/
def Resolves (left : Nat) (rounds more : List Round) (result : Supervised) : Prop :=
  (∃ retried last, more = retried ++ [last] ∧ retried.length < left ∧ (∀ r ∈ retried, r.result = none)
      ∧ last.result = some result)
    ∨ (more.length = left ∧ (∀ r ∈ more, r.result = none)
      ∧ result = .escalated ((lastFault (rounds ++ more)).getD .shutdown))

theorem Resolves.last {left : Nat} (rounds : List Round) {r : Round} {result : Supervised} (h : r.result = some result) :
    Resolves (left + 1) rounds [r] result :=
  .inl ⟨[], r, rfl, Nat.succ_pos left, by simp, h⟩

theorem Resolves.retry {left : Nat} {rounds more : List Round} {r : Round} {result : Supervised} (hr : r.result = none)
    (h : Resolves left (rounds ++ [r]) more result) : Resolves (left + 1) rounds (r :: more) result := by
  rcases h with ⟨retried, last, rfl, hlength, hretried, hlast⟩ | ⟨hlength, hretried, hresult⟩
  · exact .inl ⟨r :: retried, last, rfl, Nat.succ_lt_succ hlength, List.forall_mem_cons.mpr ⟨hr, hretried⟩, hlast⟩
  · refine .inr ⟨congrArg (· + 1) hlength, List.forall_mem_cons.mpr ⟨hr, hretried⟩, ?_⟩
    rw [hresult, append_assoc, singleton_append]

/-- A step adds its rounds to the books. -/
theorem attempts_rounds (hready : stages.Ready) (hrule : ∀ p err consecutive, own p →
      rule err consecutive (policy.classify p err consecutive).1 ∧ own (policy.classify p err consecutive).2) (left : Nat) :
    ∀ (w : World σ κ π ω) (rounds : List Round), Books own rule pet dog w rounds →
      ∃ more, Resolves left rounds more (attempts stages policy pet left w).1
        ∧ Books own rule pet dog (attempts stages policy pet left w).2 (rounds ++ more) := by
  induction left with
  | zero =>
    intro w rounds h
    refine ⟨[], .inr ⟨rfl, by simp, ?_⟩, ?_⟩
    · rw [append_nil, ← h.lastError]
      rfl
    · rw [append_nil]
      exact h.congr rfl rfl rfl rfl
  | succ left ih =>
    intro w rounds h
    obtain ⟨result, src, sink, hattempt⟩ := w.attempt_ready hready
    rw [attempts, hattempt]
    rcases result with err | _ | _
    · -- A fault: the policy is asked, of one more in a row than the report says.
      have hruled : rule err (saturated (faultsInRow rounds + 1))
          (policy.classify w.policy err (saturatingAdd w.report.consecutiveFaults 1)).1 := by
        rw [h.consecutiveFaults, saturatingAdd_saturated]
        exact (hrule _ _ _ h.policy).1
      have hown := (hrule w.policy err (saturatingAdd w.report.consecutiveFaults 1) h.policy).2
      obtain ⟨recovery, p, hclassify⟩ : ∃ recovery p,
        policy.classify w.policy err (saturatingAdd w.report.consecutiveFaults 1) = (recovery, p) := ⟨_, _, rfl⟩
      rw [hclassify] at hruled hown
      simp only [World.fault, log, hclassify]
      cases recovery with
      | retry =>
        have hretried : Books own rule pet dog (World.retry { w with
            src, sink, policy := p
            report := { w.report with
              faults := saturatingAdd w.report.faults 1
              consecutiveFaults := saturatingAdd w.report.consecutiveFaults 1
              lastError := some err }
            events := w.events ++ [.attempted (.error err)] ++ [.classified .retry] })
            (rounds ++ [.faulted err .retry]) :=
          h.faulted err .retry hruled (by simp [World.retry, Round.events, Answer.recovery, Answer.events]) rfl hown rfl
        obtain ⟨more, hresolves, hbooks⟩ := ih _ _ hretried
        refine ⟨.faulted err .retry :: more, hresolves.retry rfl, ?_⟩
        rw [append_cons rounds]
        exact hbooks
      | skip =>
        refine ⟨[.faulted err .skip], .last rounds rfl, h.faulted err .skip hruled ?_ rfl hown rfl⟩
        simp [World.skip, Round.events, Answer.recovery, Answer.events]
      | escalate =>
        refine ⟨[.faulted err .escalate], .last rounds rfl, h.faulted err .escalate hruled ?_ rfl hown rfl⟩
        simp [World.escalate, Round.events, Answer.recovery, Answer.events]
      | reset =>
        obtain ⟨answer, src', sink', hanswer, hrecover⟩ := World.recoverBoth_ready hready (World.reset { w with
          src, sink, policy := p
          report := { w.report with
            faults := saturatingAdd w.report.faults 1
            consecutiveFaults := saturatingAdd w.report.consecutiveFaults 1
            lastError := some err }
          events := w.events ++ [.attempted (.error err)] ++ [.classified .reset] })
        simp only [hrecover]
        rw [← hanswer] at hruled
        have hresult : ∀ err', answer.recovered = .error err' →
            (Round.faulted err answer).result = some (.escalated err') := by
          intro err' herr
          rcases answer with _ | _ | _ | _ | ⟨_ | _⟩ <;> simp_all [Answer.recovered, Answer.recovery, Round.result]
        have hresult' : answer.recovered = .ok () → (Round.faulted err answer).result = some .recovered := by
          intro hok
          rcases answer with _ | _ | _ | _ | ⟨_ | _⟩ <;> simp_all [Answer.recovered, Answer.recovery, Round.result]
        rcases hrecovered : answer.recovered with err' | _
        · refine ⟨[.faulted err answer], .last rounds (hresult err' hrecovered),
            h.faulted err answer hruled ?_ rfl ?_ ?_⟩
          · simp [World.escalate, World.reset, Round.events, hanswer]
          · exact hown
          · simp [World.escalate, World.reset, hanswer]
        · refine ⟨[.faulted err answer], .last rounds (hresult' hrecovered),
            h.faulted err answer hruled ?_ rfl ?_ ?_⟩
          · simp [World.reset, Round.events, hanswer]
          · exact hown
          · simp [World.reset, hanswer]
    · exact ⟨[.ended], .last rounds rfl, h.ended src sink⟩
    · exact ⟨[.delivered], .last rounds rfl, h.delivered src sink⟩

def Round.stops (r : Round) : Prop := r.result = some .eos ∨ ∃ err, r.result = some (.escalated err)

/-- How a run ends: it has not, or with its last round, or by force. -/
def Concludes (steps : Nat) (rounds : List Round) : Option RunOutcome → Prop
  | none => steps ≤ rounds.length ∧ ∀ r ∈ rounds, ¬ r.stops
  | some .completed => ∃ earlier, rounds = earlier ++ [.ended] ∧ ∀ r ∈ earlier, ¬ r.stops
  | some (.escalated err) =>
    (∃ earlier last, rounds = earlier ++ [last] ∧ last.result = some (.escalated err) ∧ ∀ r ∈ earlier, ¬ r.stops)
      ∨ ∃ earlier retried, rounds = earlier ++ retried ∧ retried.length = maxAttempts ∧ (∀ r ∈ retried, r.result = none)
        ∧ err = (lastFault rounds).getD .shutdown ∧ ∀ r ∈ earlier, ¬ r.stops
  | some .suspended => False

theorem Concludes.mono {steps steps' : Nat} {outcome : Option RunOutcome} (hle : steps' ≤ steps)
    (h : Concludes steps rounds outcome) : Concludes steps' rounds outcome := by
  rcases outcome with _ | _ | _ | _
  · exact ⟨hle.trans h.1, h.2⟩
  all_goals exact h

theorem Round.not_stops_of_result {r : Round} {result : Option Supervised} (h : r.result = result)
    (heos : result ≠ some .eos) (hescalated : ∀ err, result ≠ some (.escalated err)) : ¬ r.stops := by
  rintro (hr | ⟨err, hr⟩)
  · exact heos (h.symm.trans hr)
  · exact hescalated err (h.symm.trans hr)

theorem Round.eq_ended {r : Round} (h : r.result = some .eos) : r = .ended := by
  rcases r with _ | _ | ⟨err, _ | _ | _ | _ | ⟨_ | _⟩⟩ <;> first | rfl | cases h

theorem Round.result_ne_pending (r : Round) : r.result ≠ some .pending := by
  rcases r with _ | _ | ⟨err, _ | _ | _ | _ | ⟨_ | _⟩⟩ <;> exact fun h => by cases h

/-- A run adds its rounds to the books, each step at least one. -/
theorem runSupervised_rounds (hready : stages.Ready) (hrule : ∀ p err consecutive, own p →
      rule err consecutive (policy.classify p err consecutive).1 ∧ own (policy.classify p err consecutive).2) (steps : Nat) :
    ∀ (w : World σ κ π ω) (rounds : List Round), Books own rule pet dog w rounds → (∀ r ∈ rounds, ¬ r.stops) →
      ∃ all, Books own rule pet dog (runSupervised stages policy pet steps w).2 all
        ∧ Concludes (rounds.length + steps) all (runSupervised stages policy pet steps w).1 := by
  induction steps with
  | zero => exact fun w rounds h hgoes => ⟨rounds, h, le_rfl, hgoes⟩
  | succ steps ih =>
    intro w rounds h hgoes
    obtain ⟨more, hresolves, hbooks⟩ := attempts_rounds hready hrule maxAttempts w rounds h
    have hstep : stepSupervised stages policy pet w = attempts stages policy pet maxAttempts w := rfl
    obtain ⟨result, w', hattempts⟩ : ∃ result w', attempts stages policy pet maxAttempts w = (result, w') := ⟨_, _, rfl⟩
    rw [hattempts] at hresolves hbooks
    rw [runSupervised, hstep, hattempts]
    have htried : ∀ {retried : List Round}, (∀ r ∈ retried, r.result = none) → ∀ r ∈ retried, ¬ r.stops :=
      fun hretried r hr => Round.not_stops_of_result (hretried r hr) (by simp) (by simp)
    rcases hresolves with ⟨retried, last, rfl, -, hretried, hlast⟩ | ⟨hlength, hretried, hforced⟩
    · have hearlier : ∀ r ∈ rounds ++ retried, ¬ r.stops := by
        intro r hr
        exact (List.mem_append.mp hr).elim (hgoes r) (htried hretried r)
      -- The rounds of a step that the run goes on after.
      have hgo : ¬ last.stops → ∃ all, Books own rule pet dog (runSupervised stages policy pet steps w').2 all
          ∧ Concludes (rounds.length + (steps + 1)) all (runSupervised stages policy pet steps w').1 := by
        intro hnot
        obtain ⟨all, hall, hconcludes⟩ := ih w' _ hbooks (by
          intro r hr
          rw [← append_assoc, mem_append, mem_singleton] at hr
          rcases hr with hr | rfl
          · exact hearlier r hr
          · exact hnot)
        refine ⟨all, hall, hconcludes.mono ?_⟩
        rw [length_append, length_append, length_singleton]
        omega
      cases result with
      | advanced | skipped | recovered => exact hgo (Round.not_stops_of_result hlast (by simp) (by simp))
      | eos => exact ⟨_, hbooks, rounds ++ retried, by rw [Round.eq_ended hlast, append_assoc], hearlier⟩
      | pending => exact absurd hlast last.result_ne_pending
      | escalated err =>
        exact ⟨_, hbooks, .inl ⟨rounds ++ retried, last, (append_assoc _ _ _).symm, hlast, hearlier⟩⟩
    · subst hforced
      exact ⟨_, hbooks, .inr ⟨rounds, more, rfl, hlength, hretried, rfl, hgoes⟩⟩

end Books

/-! ## Budgets -/

/-- The fault of a reset that failed. -/
def Round.recoverFailed : Round → Option G2gError
  | faulted _ (.resetSource err) | faulted _ (.reset (.error err)) => some err
  | _ => none

/-- The last round is cause to give up: a fault that is structural or one too many in a row, or a hook that failed. -/
def GivesUp (limit : Nat) (rounds : List Round) (err : G2gError) : Prop :=
  ∃ earlier last, rounds = earlier ++ [last]
    ∧ (((∃ answer, last = .faulted err answer) ∧ (isStructural err = true ∨ limit ≤ faultsInRow rounds))
      ∨ last.recoverFailed = some err)

/-- The last round is the end of the stream. -/
def Ended (rounds : List Round) : Prop := ∃ earlier, rounds = earlier ++ [.ended]

/-- A run of so many steps is given up at the first cause, and otherwise ends with the stream or goes on. -/
structure WithinBudget (limit steps : Nat) (outcome : Option RunOutcome) (rounds : List Round) : Prop where
  escalates : ∀ err, outcome = some (.escalated err) ↔ GivesUp limit rounds err
  completes : outcome = some .completed ↔ Ended rounds
  suspends : outcome ≠ some .suspended
  first : ∀ earlier, earlier <+: rounds → earlier ≠ rounds → (∀ err, ¬ GivesUp limit earlier err) ∧ ¬ Ended earlier
  goesOn : outcome = none → steps ≤ rounds.length

/-- Answers that escalate from a number of faults in a row on, and do not take all attempts of a step before. -/
structure Ladder (rule : G2gError → Nat → Recovery → Prop) (limit : Nat) : Prop where
  escalates : ∀ err consecutive recovery, rule err consecutive recovery →
    (recovery = .escalate ↔ isStructural err = true ∨ limit ≤ consecutive)
  retries : ∀ err consecutive, rule err consecutive .retry → consecutive < maxAttempts
  counted : limit < 2 ^ 32

section Ladder

variable {rule : G2gError → Nat → Recovery → Prop} {limit : Nat} {rounds : List Round}

theorem Ladder.escalated_iff (h : Ladder rule limit) {earlier : List Round} {last : Round}
    (hruled : Ruled rule (earlier ++ [last])) (err : G2gError) :
    last.result = some (.escalated err) ↔ GivesUp limit (earlier ++ [last]) err := by
  have hcounted : ∀ n, limit ≤ saturated n ↔ limit ≤ n := by
    intro n
    have := h.counted
    simp only [saturated]
    omega
  have hcause : ∀ err answer, last = .faulted err answer →
      (answer.recovery = .escalate ↔ isStructural err = true ∨ limit ≤ faultsInRow (earlier ++ [last])) := by
    rintro err answer rfl
    rw [h.escalates err _ _ (hruled earlier err answer (prefix_refl _)), hcounted, faultsInRow_concat]
    rfl
  constructor
  · intro hresult
    refine ⟨earlier, last, rfl, ?_⟩
    rcases last with _ | _ | ⟨err', _ | _ | _ | _ | ⟨_ | _⟩⟩ <;> cases hresult
    · exact .inl ⟨⟨_, rfl⟩, (hcause _ _ rfl).mp rfl⟩
    · exact .inr rfl
    · exact .inr rfl
  · rintro ⟨earlier', last', heq, hgives⟩
    obtain ⟨-, hlast⟩ := append_inj' heq rfl
    obtain rfl := List.singleton_inj.mp hlast
    rcases hgives with ⟨⟨answer, rfl⟩, hgives⟩ | hfailed
    · have hescalate := (hcause err answer rfl).mpr hgives
      cases answer <;> cases hescalate
      rfl
    · rcases last with _ | _ | ⟨err', _ | _ | _ | _ | ⟨_ | _⟩⟩ <;> cases hfailed <;> rfl

theorem length_le_faultsInRow {retried : List Round} (hretried : ∀ r ∈ retried, r.result = none) (earlier : List Round) :
    retried.length ≤ faultsInRow (earlier ++ retried) := by
  induction retried using List.reverseRecOn with
  | nil => exact Nat.zero_le _
  | append_singleton retried r ih =>
    rw [← append_assoc, faultsInRow_concat, length_append, length_singleton]
    have hr := hretried r (by simp)
    have hle := ih fun r' hr' => hretried r' (mem_append_left _ hr')
    rcases r with _ | _ | ⟨err, answer⟩
    · cases hr
    · cases hr
    · exact Nat.succ_le_succ hle

theorem Ladder.not_forced (h : Ladder rule limit) {earlier retried : List Round}
    (hruled : Ruled rule (earlier ++ retried)) (hretried : ∀ r ∈ retried, r.result = none) :
    retried.length ≠ maxAttempts := by
  intro hlength
  obtain rfl | ⟨before, r, rfl⟩ := retried.eq_nil_or_concat'
  · exact absurd hlength (by decide)
  · have hr := hretried r (by simp)
    have hle := length_le_faultsInRow (fun r' hr' => hretried r' (mem_append_left _ hr')) earlier
    rw [length_append, length_singleton] at hlength
    rcases r with _ | _ | ⟨err, answer⟩
    · cases hr
    · cases hr
    · have hretry : answer.recovery = .retry := by
        rcases answer with _ | _ | _ | _ | ⟨_ | _⟩ <;> first | rfl | cases hr
      rw [← append_assoc] at hruled
      have hrule := hruled (earlier ++ before) err answer (prefix_refl _)
      rw [hretry] at hrule
      have hfew := h.retries err _ hrule
      simp only [saturated, maxAttempts] at hfew hlength
      omega

theorem Concludes.not_stops {steps : Nat} {outcome : Option RunOutcome} (h : Concludes steps rounds outcome)
    {earlier : List Round} {last : Round} {later : List Round} (heq : rounds = earlier ++ [last] ++ later)
    (hlater : later ≠ []) : ¬ last.stops := by
  have hinit : last ∈ rounds.dropLast := by
    rw [heq, dropLast_append_of_ne_nil hlater]
    simp
  rcases outcome with _ | _ | ⟨err⟩ | _
  · exact h.2 last (mem_of_mem_dropLast hinit)
  · obtain ⟨before, rfl, hbefore⟩ := h
    rw [dropLast_concat] at hinit
    exact hbefore last hinit
  · rcases h with ⟨before, final, rfl, -, hbefore⟩ | ⟨before, retried, rfl, -, hretried, -, hbefore⟩
    · rw [dropLast_concat] at hinit
      exact hbefore last hinit
    · rcases List.mem_append.mp (mem_of_mem_dropLast hinit) with hmem | hmem
      · exact hbefore last hmem
      · exact Round.not_stops_of_result (hretried last hmem) (by simp) (by simp)
  · exact h.elim

/-- A run under a ladder stays within its budget. -/
theorem Ladder.withinBudget (h : Ladder rule limit) {steps : Nat} {outcome : Option RunOutcome}
    (hruled : Ruled rule rounds) (hconcludes : Concludes steps rounds outcome) :
    WithinBudget limit steps outcome rounds := by
  have hstops : ∀ {earlier : List Round} {last : Round} {later : List Round}, rounds = earlier ++ [last] ++ later →
      later ≠ [] → ¬ last.stops := fun heq hlater => hconcludes.not_stops heq hlater
  -- A round in the list is a prefix's last, so the rule speaks of it.
  have hinit : ∀ {earlier : List Round}, earlier <+: rounds → Ruled rule earlier :=
    fun hpre before err answer hbefore => hruled before err answer (hbefore.trans hpre)
  have hresult : ∀ err, outcome = some (.escalated err) →
      ∃ earlier last, rounds = earlier ++ [last] ∧ last.result = some (.escalated err) := by
    rintro err rfl
    rcases hconcludes with ⟨earlier, last, heq, hlast, -⟩ | ⟨earlier, retried, rfl, hlength, hretried, -⟩
    · exact ⟨earlier, last, heq, hlast⟩
    · exact absurd hlength (h.not_forced hruled hretried)
  have hends : ∀ {earlier : List Round} {last : Round}, rounds = earlier ++ [last] → last.stops →
      ((∃ err, outcome = some (.escalated err)) ∨ outcome = some .completed) := by
    intro earlier last heq hlast
    rcases outcome with _ | _ | ⟨err⟩ | _
    · exact absurd hlast (hconcludes.2 last (by simp [heq]))
    · exact .inr rfl
    · exact .inl ⟨err, rfl⟩
    · exact hconcludes.elim
  have hcompleted : outcome = some .completed → Ended rounds := by
    rintro rfl
    obtain ⟨earlier, heq, -⟩ := hconcludes
    exact ⟨earlier, heq⟩
  have hsame : ∀ {earlier earlier' : List Round} {last last' : Round}, rounds = earlier ++ [last] →
      rounds = earlier' ++ [last'] → last = last' := by
    intro earlier earlier' last last' heq heq'
    exact List.singleton_inj.mp (append_inj' (heq.symm.trans heq') rfl).2
  refine ⟨fun err => ⟨fun hescalated => ?_, fun hgives => ?_⟩, ⟨hcompleted, fun hended => ?_⟩, ?_, ?_, ?_⟩
  · obtain ⟨earlier, last, rfl, hlast⟩ := hresult err hescalated
    exact (h.escalated_iff hruled err).mp hlast
  · obtain ⟨earlier, last, heq, -⟩ := id hgives
    rw [heq] at hgives
    have hlast := (h.escalated_iff (heq ▸ hruled) err).mpr hgives
    rcases hends heq (.inr ⟨err, hlast⟩) with ⟨err', hescalated⟩ | hdone
    · obtain ⟨earlier', last', heq', hlast'⟩ := hresult err' hescalated
      obtain rfl := hsame heq heq'
      cases hlast.symm.trans hlast'
      exact hescalated
    · obtain ⟨earlier', heq'⟩ := hcompleted hdone
      obtain rfl := hsame heq heq'
      cases hlast
  · obtain ⟨earlier, heq⟩ := hended
    rcases hends heq (.inl rfl) with ⟨err, hescalated⟩ | hdone
    · obtain ⟨earlier', last', heq', hlast'⟩ := hresult err hescalated
      obtain rfl := hsame heq heq'
      cases hlast'
    · exact hdone
  · rintro rfl
    exact hconcludes
  · intro earlier hpre hne
    obtain ⟨later, hlater⟩ := id hpre
    have hlaterNe : later ≠ [] := by
      rintro rfl
      exact hne (by rw [← hlater, append_nil])
    refine ⟨?_, ?_⟩
    · intro err hgives
      obtain ⟨before, last, rfl, -⟩ := id hgives
      exact hstops hlater.symm hlaterNe (.inr ⟨err, (h.escalated_iff (hinit hpre) err).mpr hgives⟩)
    · rintro ⟨before, rfl⟩
      exact hstops hlater.symm hlaterNe (.inl rfl)
  · rintro rfl
    exact hconcludes.1

end Ladder

/-! ## Supervised runs -/

section Runs

variable {σ κ φ π ω : Type} {stages : Stages σ κ φ} {pet : ω → ω} {dog : ω}

def Event.isPet : Event → Bool
  | .pet => true
  | _ => false

def Event.isRecoverSource : Event → Bool
  | .recoverSource _ => true
  | _ => false

def Event.isRecoverSink : Event → Bool
  | .recoverSink _ => true
  | _ => false

/-- The source's hook failed, so the sink's is not called. -/
def Event.sourceFailed : Event → Bool
  | .recoverSource (.error _) => true
  | _ => false

/-- The accounts of a run. The rounds say in which order all was asked: a frame is followed by a feeding of the watchdog,
a reset by the source's hook and then the sink's. -/
structure Accounts (pet : ω → ω) (dog : ω) (w : World σ κ π ω) (rounds : List Round) : Prop where
  events : w.events = rounds.flatMap Round.events
  watchdog : w.watchdog = pet^[deliveries rounds] dog
  pets : w.events.countP Event.isPet = deliveries rounds
  frames : deliveries rounds < 2 ^ 32 → w.report.frames = deliveries rounds
  faults : faults rounds < 2 ^ 32 → w.report.faults = faults rounds
  balance : Supervise.faults rounds < 2 ^ 32 → w.report.faults = w.report.retries + w.report.resets + w.report.skips
    + if ∃ r ∈ rounds, r.answered .escalate = true then 1 else 0
  sources : Supervise.faults rounds < 2 ^ 32 → w.events.countP Event.isRecoverSource = w.report.resets
  sinks : Supervise.faults rounds < 2 ^ 32 →
    w.events.countP Event.isRecoverSink + w.events.countP Event.sourceFailed = w.report.resets

theorem countP_events {kind : Event → Bool} {count : Round → Bool}
    (h : ∀ r : Round, r.events.countP kind = if count r then 1 else 0) (rounds : List Round) :
    (rounds.flatMap Round.events).countP kind = rounds.countP count := by
  induction rounds with
  | nil => rfl
  | cons r rounds ih => rw [flatMap_cons, countP_append, countP_cons, h, ih, Nat.add_comm]

theorem countP_sinks (rounds : List Round) :
    (rounds.flatMap Round.events).countP Event.isRecoverSink + (rounds.flatMap Round.events).countP Event.sourceFailed
      = answers .reset rounds := by
  induction rounds with
  | nil => rfl
  | cons r rounds ih =>
    have hr : r.events.countP Event.isRecoverSink + r.events.countP Event.sourceFailed
        = if r.answered .reset = true then 1 else 0 := by
      rcases r with _ | _ | ⟨err, _ | _ | _ | _ | ⟨_ | _⟩⟩ <;> rfl
    rw [answers, countP_cons, ← hr, ← answers, ← ih, flatMap_cons, countP_append, countP_append]
    omega

theorem Concludes.answers_escalate {steps : Nat} {outcome : Option RunOutcome} {rounds : List Round}
    (h : Concludes steps rounds outcome) :
    answers .escalate rounds = if ∃ r ∈ rounds, r.answered .escalate = true then 1 else 0 := by
  split_ifs with hescalates
  · obtain ⟨r, hmem, hr⟩ := hescalates
    obtain ⟨earlier, later, rfl⟩ := append_of_mem hmem
    have hstops : ∀ {r : Round}, r.answered .escalate = true → r.stops := by
      intro r hr
      rcases r with _ | _ | ⟨err, _ | _ | _ | _ | ⟨_ | _⟩⟩ <;> first | exact .inr ⟨_, rfl⟩ | cases hr
    have hlater : later = [] := by
      by_contra hlater
      exact h.not_stops (show earlier ++ r :: later = earlier ++ [r] ++ later by simp) hlater (hstops hr)
    have hearlier : answers .escalate earlier = 0 := by
      rw [answers, countP_eq_zero]
      intro r' hr' hanswered
      obtain ⟨before, after, rfl⟩ := append_of_mem hr'
      have hsplit : before ++ r' :: after ++ r :: later = before ++ [r'] ++ (after ++ r :: later) := by simp
      exact h.not_stops hsplit (by simp) (hstops hanswered)
    rw [hlater, answers_concat, hearlier, if_pos hr]
  · rw [answers, countP_eq_zero]
    exact fun r hmem hr => hescalates ⟨r, hmem, hr⟩

theorem answers_le_faults (recovery : Recovery) (rounds : List Round) : answers recovery rounds ≤ faults rounds := by
  have := faults_eq_answers rounds
  cases recovery <;> omega

theorem Books.accounts {own : π → Prop} {rule : G2gError → Nat → Recovery → Prop} {w : World σ κ π ω} {rounds : List Round} {steps : Nat}
    {outcome : Option RunOutcome} (h : Books own rule pet dog w rounds) (hconcludes : Concludes steps rounds outcome) :
    Accounts pet dog w rounds := by
  have hanswers : ∀ recovery, Supervise.faults rounds < 2 ^ 32 → saturated (answers recovery rounds) = answers recovery rounds :=
    fun recovery hfew => saturated_of_lt ((answers_le_faults recovery rounds).trans_lt hfew)
  refine ⟨h.events, h.watchdog, ?_, fun hfew => h.frames.trans (saturated_of_lt hfew),
    fun hfew => h.faults.trans (saturated_of_lt hfew), fun hfew => ?_, fun hfew => ?_, fun hfew => ?_⟩
  · rw [h.events]
    refine countP_events (fun r => ?_) rounds
    rcases r with _ | _ | ⟨err, _ | _ | _ | _ | ⟨_ | _⟩⟩ <;> rfl
  · rw [h.faults, h.retries, h.resets, h.skips, saturated_of_lt hfew, hanswers _ hfew, hanswers _ hfew,
      hanswers _ hfew, ← hconcludes.answers_escalate]
    exact faults_eq_answers rounds
  · rw [h.events, h.resets, hanswers _ hfew]
    refine countP_events (fun r => ?_) rounds
    rcases r with _ | _ | ⟨err, _ | _ | _ | _ | ⟨_ | _⟩⟩ <;> rfl
  · rw [h.events, h.resets, hanswers _ hfew]
    exact countP_sinks rounds

theorem RetryThenReset.ladder (p : RetryThenReset) (hretries : p.maxRetries < 64)
    (hbudget : p.maxRetries + p.maxResets < 2 ^ 32 - 1) :
    Ladder (fun err consecutive recovery => recovery = p.classify err consecutive) (p.maxRetries + p.maxResets + 1) where
  escalates := by
    have hceiling : saturatingAdd p.maxRetries p.maxResets = p.maxRetries + p.maxResets := min_eq_left (by omega)
    rintro err consecutive recovery rfl
    simp only [RetryThenReset.classify, hceiling]
    split_ifs with hstructural hretry hreset
    · simp [hstructural]
    · simp only [hstructural, reduceCtorEq, false_or, false_iff]
      omega
    · simp only [hstructural, reduceCtorEq, false_or, false_iff]
      omega
    · simp only [hstructural, true_iff]
      omega
  retries := by
    intro err consecutive hretry
    simp only [RetryThenReset.classify] at hretry
    split_ifs at hretry with hstructural hfew
    exact hfew.trans_lt hretries
  counted := by omega

theorem SkipBounded.ladder (p : SkipBounded) (hbudget : p.maxSkips < 2 ^ 32 - 1) :
    Ladder (fun err consecutive recovery => recovery = p.classify err consecutive) (p.maxSkips + 1) where
  escalates := by
    rintro err consecutive recovery rfl
    simp only [SkipBounded.classify, Bool.or_eq_true, decide_eq_true_eq]
    split_ifs with hescalates
    · exact iff_of_true rfl hescalates
    · exact iff_of_false (by decide) hescalates
  retries := by
    intro err consecutive hretry
    simp only [SkipBounded.classify] at hretry
    split_ifs at hretry
  counted := by omega

theorem runSupervised_start {π : Type} (hready : stages.Ready) (pet : ω → ω) (src : σ) (sink : κ) (dog : ω) (steps : Nat)
    (policy : FaultPolicy π) (own : π → Prop) (rule : G2gError → Nat → Recovery → Prop)
    (hrule : ∀ p err consecutive, own p →
      rule err consecutive (policy.classify p err consecutive).1 ∧ own (policy.classify p err consecutive).2)
    (p : π) (hp : own p) :
    ∃ rounds, Books own rule pet dog (runSupervised stages policy pet steps (.start src sink p dog)).2 rounds
      ∧ Concludes steps rounds (runSupervised stages policy pet steps (.start src sink p dog)).1 := by
  obtain ⟨rounds, hbooks, hconcludes⟩ :=
    runSupervised_rounds hready hrule steps (.start src sink p dog) [] (.start src sink hp) (by simp)
  rw [length_nil, Nat.zero_add] at hconcludes
  exact ⟨rounds, hbooks, hconcludes⟩

/-- Every supervised run keeps its accounts, and each of its steps makes no more than the attempts that it has. Under
retries and resets, or under skips, it stays within its budget. -/
theorem run_supervised_budget (hready : stages.Ready) (pet : ω → ω) (src : σ) (sink : κ) (dog : ω) (steps : Nat) :
    (∀ p : RetryThenReset, p.maxRetries < 64 → p.maxRetries + p.maxResets < 2 ^ 32 - 1 → ∃ rounds,
      Accounts pet dog (runSupervised stages retryThenReset pet steps (.start src sink p dog)).2 rounds
        ∧ WithinBudget (p.maxRetries + p.maxResets + 1) steps
          (runSupervised stages retryThenReset pet steps (.start src sink p dog)).1 rounds)
    ∧ (∀ p : SkipBounded, p.maxSkips < 2 ^ 32 - 1 → ∃ rounds,
      Accounts pet dog (runSupervised stages skipBounded pet steps (.start src sink p dog)).2 rounds
        ∧ WithinBudget (p.maxSkips + 1) steps
          (runSupervised stages skipBounded pet steps (.start src sink p dog)).1 rounds)
    ∧ ∀ {π : Type} (policy : FaultPolicy π) (p : π), ∃ rounds more,
      Accounts pet dog (runSupervised stages policy pet steps (.start src sink p dog)).2 rounds
        ∧ Concludes steps rounds (runSupervised stages policy pet steps (.start src sink p dog)).1
        ∧ more.length ≤ maxAttempts
        ∧ (stepSupervised stages policy pet (runSupervised stages policy pet steps (.start src sink p dog)).2).2.events
          = (rounds ++ more).flatMap Round.events := by
  refine ⟨fun p hretries hbudget => ?_, fun p hbudget => ?_, fun policy p => ?_⟩
  · obtain ⟨rounds, hbooks, hconcludes⟩ := runSupervised_start hready pet src sink dog steps retryThenReset (· = p)
      (fun err consecutive recovery => recovery = p.classify err consecutive)
      (by rintro _ err consecutive rfl; exact ⟨rfl, rfl⟩) p rfl
    exact ⟨rounds, hbooks.accounts hconcludes, (p.ladder hretries hbudget).withinBudget hbooks.ruled hconcludes⟩
  · obtain ⟨rounds, hbooks, hconcludes⟩ := runSupervised_start hready pet src sink dog steps skipBounded (· = p)
      (fun err consecutive recovery => recovery = p.classify err consecutive)
      (by rintro _ err consecutive rfl; exact ⟨rfl, rfl⟩) p rfl
    exact ⟨rounds, hbooks.accounts hconcludes, (p.ladder hbudget).withinBudget hbooks.ruled hconcludes⟩
  · -- An arbitrary policy answers by no rule.
    obtain ⟨rounds, hbooks, hconcludes⟩ := runSupervised_start hready pet src sink dog steps policy (fun _ => True)
      (fun _ _ _ => True) (fun _ _ _ _ => ⟨trivial, trivial⟩) p trivial
    obtain ⟨more, hresolves, hmore⟩ := attempts_rounds hready (fun _ _ _ _ => ⟨trivial, trivial⟩) maxAttempts _ rounds
      hbooks
    refine ⟨rounds, more, hbooks.accounts hconcludes, hconcludes, ?_, hmore.events⟩
    rcases hresolves with ⟨retried, last, rfl, hlength, -⟩ | ⟨hlength, -⟩
    · rw [length_append, length_singleton]
      exact hlength
    · exact hlength.le

end Runs

/-- Stages that fail, and a source that cannot be brought back. -/
def deadStages : Stages Unit Unit Unit where
  next _ := (some (.error .timeout), ())
  consume _ _ := (some (.ok ()), ())
  recoverSource _ := (some (.error .shutdown), ())
  recoverSink _ := (some (.ok ()), ())

theorem deadStages_ready : deadStages.Ready :=
  ⟨fun _ => Option.some_ne_none _, fun _ _ => Option.some_ne_none _, fun _ => Option.some_ne_none _,
    fun _ => Option.some_ne_none _⟩

/-- The sink's hook is not called in a reset whose source failed. -/
theorem reset_without_sink : (runSupervised deadStages retryThenReset id 1 (.start () () ⟨0, 1⟩ ())).2.report.resets = 1
      ∧ (runSupervised deadStages retryThenReset id 1 (.start () () ⟨0, 1⟩ ())).2.events.countP Event.isRecoverSource = 1
      ∧ (runSupervised deadStages retryThenReset id 1 (.start () () ⟨0, 1⟩ ())).2.events.countP Event.isRecoverSink
        = 0 := by
  decide

theorem run_supervised_budget_dead :
    ∃ rounds, Accounts id () (runSupervised deadStages retryThenReset id 5 (.start () () ⟨2, 1⟩ ())).2 rounds
      ∧ WithinBudget 4 5 (runSupervised deadStages retryThenReset id 5 (.start () () ⟨2, 1⟩ ())).1 rounds :=
  (run_supervised_budget deadStages_ready id () () () 5).1 ⟨2, 1⟩ (by decide) (by decide)

end Glass2Glass.Supervise
