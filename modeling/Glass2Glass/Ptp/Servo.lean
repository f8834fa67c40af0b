import Mathlib.Algebra.Group.Int.Defs
import Mathlib.Algebra.Group.Nat.Defs
import Mathlib.Data.Int.Basic
import Mathlib.Data.List.Infix

/-!
# The clock servo

The servo (`PtpServo` in `g2g-core/src/ptp/mod.rs`) gives samples of a master clock to a drift clock and keeps its own
account of how far they were off. What it says of itself is a function of the samples that it accepted
(`PtpServo.run_tracks`). It trusts the master after a lock that was lost (`PtpServo.trust_after_lost_lock`), and this is
the only time that it trusts it without the last samples (`PtpServo.state_trusted_iff`).
-/

namespace Glass2Glass.Ptp

open List Option

inductive PtpState where
  | freeRunning
  | locked
  | holdover
  deriving DecidableEq

inductive ExchangeResult where
  | accepted
  | rejectedInvalid
  | rejectedOutlier
  deriving DecidableEq

inductive DriftObservation where
  | folded
  | rejected
  | restarted

inductive ClockPriority where
  | systemFallback
  | provider
  | audioProvider
  | liveSource
  | ptpGrandmaster
  deriving DecidableEq

/-- A drift clock: its projection of a reference time, and its answer to a sample. The servo relies on nothing else. -/
structure DriftClock (δ : Type) where
  project : δ → Nat → Nat
  observe : δ → Nat → Nat → DriftObservation × δ

/-- A number in 64 bits with a sign. -/
def toI64 (n : Int) : Int := n.bmod (2 ^ 64)

def minLockSamples : Nat := 8

def errorWindow : Nat := 16

def lockThresholdNs : Nat := 1000000

def holdoverTimeoutNs : Nat := 5000000000

structure PtpServo (δ : Type) where
  drift : δ
  errors : List Nat
  samples : Nat
  lastUpdateNs : Nat
  lastErrorNs : Int
  lastDelayNs : Int
  locked : Bool
  everLocked : Bool

/-- What a servo is fed: the four times of an exchange, or a master time as it is. -/
inductive Call where
  | exchange (t1 t2 t3 t4 : Nat)
  | observe (loc master : Nat)

namespace PtpServo

variable {δ : Type} (clock : DriftClock δ)

def new (drift : δ) : PtpServo δ where
  drift := drift
  errors := []
  samples := 0
  lastUpdateNs := 0
  lastErrorNs := 0
  lastDelayNs := 0
  locked := false
  everLocked := false

variable (s : PtpServo δ)

/-- The error of a sample enters the window, and the window decides on the lock. -/
def accept (loc : Nat) (error : Int) : PtpServo δ :=
  let samples := s.samples + 1
  let kept := if s.errors.length = errorWindow then s.errors.drop 1 else s.errors
  let errors := if 2 ≤ samples then kept ++ [error.natAbs] else s.errors
  let worst := errors.max?.getD (2 ^ 64 - 1)
  let locked := decide (minLockSamples ≤ samples ∧ errors ≠ [] ∧ worst ≤ lockThresholdNs)
  { s with
    samples, lastUpdateNs := loc, lastErrorNs := error, errors, locked
    everLocked := locked || s.everLocked }

/-- How far a sample is from what the drift clock would say. -/
def score (loc master : Nat) : Int := toI64 (toI64 master - toI64 (clock.project s.drift loc))

def fold (loc master : Nat) : ExchangeResult × PtpServo δ :=
  let error := if 1 ≤ s.samples then score clock s loc master else 0
  match clock.observe s.drift loc master with
  | (.rejected, drift) => (.rejectedOutlier, { s with drift })
  | (.folded, drift) => (.accepted, { s with drift }.accept loc error)
  | (.restarted, drift) => (.accepted, { s with drift, locked := false, errors := [], samples := 0 }.accept loc 0)

/-- The master time that an exchange measures and its delay, unless they are impossible. -/
def measure (t1 t2 t3 t4 : Nat) : Option (Nat × Int) :=
  let masterToUs : Int := t2 - t1
  let usToMaster : Int := t4 - t3
  let offset := (masterToUs - usToMaster).tdiv 2
  let delay := (masterToUs + usToMaster).tdiv 2
  let master : Int := t2 - offset
  if delay < 0 then none
  else if master ≤ 0 then none
  else some ((master % 2 ^ 64).toNat, delay)

def syncExchange (t1 t2 t3 t4 : Nat) : ExchangeResult × PtpServo δ :=
  match measure t1 t2 t3 t4 with
  | none => (.rejectedInvalid, s)
  | some (master, delay) =>
    let (result, s) := s.fold clock t2 master
    (result, if result = .accepted then { s with lastDelayNs := toI64 delay } else s)

def observeMaster (loc master : Nat) : ExchangeResult × PtpServo δ :=
  if master = 0 then (.rejectedInvalid, s) else s.fold clock loc master

/-- What the servo says of itself at a reference time. -/
def state (now : Nat) : PtpState :=
  if s.samples < minLockSamples then .freeRunning
  else if holdoverTimeoutNs < now - s.lastUpdateNs then
    if s.everLocked then .holdover else .freeRunning
  else if s.locked then .locked
  else .freeRunning

/-- What is offered for the election of a clock. -/
def candidate (now : Nat) : Option ClockPriority :=
  if s.state now = .freeRunning then none else some .ptpGrandmaster

def call : Call → ExchangeResult × PtpServo δ
  | .exchange t1 t2 t3 t4 => s.syncExchange clock t1 t2 t3 t4
  | .observe loc master => s.observeMaster clock loc master

/-! ## The samples of a run -/

/-- A sample that was accepted: when, how far off, and whether the fit began anew with it. -/
structure Sample where
  loc : Nat
  error : Int
  restarts : Bool

/-- The times that a call comes to, unless they are impossible. -/
def times : Call → Option (Nat × Nat)
  | .exchange t1 t2 t3 t4 => (measure t1 t2 t3 t4).map fun measured => (t2, measured.1)
  | .observe loc master => if master = 0 then none else some (loc, master)

/-- The sample that a call adds, if the drift clock takes it. -/
def sample (c : Call) : Option Sample :=
  (times c).bind fun (loc, master) =>
    match (clock.observe s.drift loc master).1 with
    | .rejected => none
    | .folded => some { loc, error := score clock s loc master, restarts := false }
    | .restarted => some { loc, error := score clock s loc master, restarts := true }

def next (t : PtpServo δ × List Sample) (c : Call) : PtpServo δ × List Sample :=
  ((t.1.call clock c).2, t.2 ++ (t.1.sample clock c).toList)

def run (drift : δ) (calls : List Call) : PtpServo δ × List Sample := calls.foldl (next clock) (new drift, [])

end PtpServo

/-! ## What samples are worth -/

open PtpServo (Sample)

/-- The samples since the fit began. -/
def sinceRestart (log : List Sample) : List Sample :=
  log.foldl (fun fit x => if x.restarts then [x] else fit ++ [x]) []

/-- The errors in the window. The first sample of a fit has none. -/
def window (log : List Sample) : List Nat :=
  let errors := ((sinceRestart log).drop 1).map fun x => x.error.natAbs
  errors.drop (errors.length - errorWindow)

/-- The last samples agree with the fit. -/
def Settled (log : List Sample) : Prop :=
  minLockSamples ≤ (sinceRestart log).length ∧ ∀ error ∈ window log, error ≤ lockThresholdNs

instance (log : List Sample) : Decidable (Settled log) := inferInstanceAs (Decidable (_ ∧ _))

/-- The samples agreed once. -/
def EverSettled (log : List Sample) : Prop := ∃ earlier ∈ log.inits, Settled earlier

instance (log : List Sample) : Decidable (EverSettled log) := inferInstanceAs (Decidable (∃ earlier ∈ _, _))

def lastSample (log : List Sample) : Nat := (log.getLast?.map (·.loc)).getD 0

/-- No sample came for a while. -/
def Stale (log : List Sample) (now : Nat) : Prop := holdoverTimeoutNs < now - lastSample log

instance (log : List Sample) (now : Nat) : Decidable (Stale log now) := inferInstanceAs (Decidable (_ < _))

/-! ## What a servo knows -/

section Window

variable {α : Type}

theorem window_concat (size : Nat) (hsize : 0 < size) (l : List α) (x : α) :
    (if (l.drop (l.length - size)).length = size then (l.drop (l.length - size)).drop 1 else l.drop (l.length - size))
      ++ [x] = (l ++ [x]).drop ((l ++ [x]).length - size) := by
  have hlength : (l.drop (l.length - size)).length = min l.length size := by
    rw [length_drop]
    omega
  rw [hlength, length_append, length_singleton, drop_append_of_le_length (by omega)]
  split
  · rw [drop_drop]
    congr 2
    omega
  · -- The window is not full, so nothing was dropped from it.
    congr 2
    omega

end Window

theorem max?_getD_le_iff {errors : List Nat} (hne : errors ≠ []) (fallback bound : Nat) :
    errors.max?.getD fallback ≤ bound ↔ ∀ error ∈ errors, error ≤ bound := by
  obtain ⟨worst, hworst⟩ : ∃ worst, errors.max? = some worst := by
    rw [← isSome_iff_exists, List.isSome_max?_iff]
    exact hne
  obtain ⟨hmem, hle⟩ := List.max?_eq_some_iff.mp hworst
  rw [hworst, getD_some]
  exact ⟨fun hbound error herror => (hle error herror).trans hbound, fun hall => hall worst hmem⟩

theorem sinceRestart_concat (log : List Sample) (x : Sample) :
    sinceRestart (log ++ [x]) = if x.restarts then [x] else sinceRestart log ++ [x] := by
  rw [sinceRestart, foldl_append]
  rfl

theorem window_eq (log : List Sample) : window log = (((sinceRestart log).drop 1).map fun x => x.error.natAbs).drop
      ((((sinceRestart log).drop 1).map fun x => x.error.natAbs).length - errorWindow) := rfl

theorem window_length (log : List Sample) : (window log).length = min ((sinceRestart log).length - 1) errorWindow := by
  rw [window_eq, length_drop, length_map, length_drop]
  omega

theorem everSettled_concat (log : List Sample) (x : Sample) :
    EverSettled (log ++ [x]) ↔ EverSettled log ∨ Settled (log ++ [x]) := by
  simp only [EverSettled, mem_inits, prefix_concat_iff]
  constructor
  · rintro ⟨earlier, rfl | hstarts, hsettled⟩
    · exact .inr hsettled
    · exact .inl ⟨earlier, hstarts, hsettled⟩
  · rintro (⟨earlier, hstarts, hsettled⟩ | hsettled)
    · exact ⟨earlier, .inr hstarts, hsettled⟩
    · exact ⟨_, .inl rfl, hsettled⟩

namespace PtpServo

variable {δ : Type} {clock : DriftClock δ}

/-- What a servo keeps is what its samples are worth. -/
structure Tracks (s : PtpServo δ) (log : List Sample) : Prop where
  samples : s.samples = (sinceRestart log).length
  errors : s.errors = window log
  lastUpdateNs : s.lastUpdateNs = lastSample log
  locked : s.locked = true ↔ Settled log
  everLocked : s.everLocked = true ↔ EverSettled log

theorem Tracks.new (drift : δ) : Tracks (new drift) [] where
  samples := rfl
  errors := rfl
  lastUpdateNs := rfl
  locked := by
    have h : ¬ Settled [] := by decide
    exact ⟨fun hlocked => absurd hlocked Bool.false_ne_true, fun hsettled => absurd hsettled h⟩
  everLocked := by
    have h : ¬ EverSettled [] := by decide
    exact ⟨fun hlocked => absurd hlocked Bool.false_ne_true, fun hsettled => absurd hsettled h⟩

variable {log : List Sample} {s : PtpServo δ}

/-- A sample that is accepted after `log` leaves a servo that knows it too, whatever the servo held that `accept` does
not read. -/
theorem Tracks.accept {x : Sample} {error : Int}
    (hsamples : s.samples + 1 = (sinceRestart (log ++ [x])).length)
    (herrors : s.errors = if x.restarts then [] else window log)
    (hever : s.everLocked = true ↔ EverSettled log)
    (herror : 2 ≤ s.samples + 1 → error = x.error) : Tracks (s.accept x.loc error) (log ++ [x]) := by
  have hwindow : (s.accept x.loc error).errors = window (log ++ [x]) := by
    simp only [PtpServo.accept]
    by_cases hrestarts : x.restarts = true
    · have hfit : sinceRestart (log ++ [x]) = [x] := by rw [sinceRestart_concat, if_pos hrestarts]
      rw [hfit] at hsamples
      rw [if_neg (by simp only [length_singleton] at hsamples; omega), herrors, if_pos hrestarts, window_eq, hfit]
      rfl
    · have hfit : sinceRestart (log ++ [x]) = sinceRestart log ++ [x] := by
        rw [sinceRestart_concat, if_neg hrestarts]
      rw [hfit, length_append, length_singleton] at hsamples
      rw [if_neg hrestarts] at herrors
      rw [window_eq, hfit]
      by_cases hfirst : (sinceRestart log).length = 0
      · -- The first sample of a fit is not scored.
        have hnil := eq_nil_of_length_eq_zero hfirst
        rw [if_neg (by omega), herrors, window_eq, hnil]
        rfl
      · rw [if_pos (by omega), drop_append_of_le_length (by omega), map_append, herror (by omega), herrors]
        exact window_concat errorWindow (by decide) _ _
  have hlocked : (s.accept x.loc error).locked = true ↔ Settled (log ++ [x]) := by
    have hdef : (s.accept x.loc error).locked = decide (minLockSamples ≤ s.samples + 1
        ∧ (s.accept x.loc error).errors ≠ []
        ∧ (s.accept x.loc error).errors.max?.getD (2 ^ 64 - 1) ≤ lockThresholdNs) := rfl
    rw [hdef, decide_eq_true_iff, hwindow, hsamples, Settled]
    constructor
    · rintro ⟨henough, hne, hworst⟩
      exact ⟨henough, (max?_getD_le_iff hne _ _).mp hworst⟩
    · rintro ⟨henough, hall⟩
      have hne : window (log ++ [x]) ≠ [] := by
        rw [← length_pos_iff, window_length]
        simp only [minLockSamples, errorWindow] at *
        omega
      exact ⟨henough, hne, (max?_getD_le_iff hne _ _).mpr hall⟩
  have heverLocked : (s.accept x.loc error).everLocked = ((s.accept x.loc error).locked || s.everLocked) := rfl
  exact {
    samples := hsamples
    errors := hwindow
    lastUpdateNs := by simp [lastSample, PtpServo.accept]
    locked := hlocked
    everLocked := by rw [heverLocked, Bool.or_eq_true, hlocked, hever, everSettled_concat, or_comm] }

theorem fold_tracks (h : Tracks s log) {c : Call} {loc master : Nat} (htimes : times c = some (loc, master)) :
    Tracks (s.fold clock loc master).2 (log ++ (s.sample clock c).toList) := by
  rw [sample, htimes, bind_some, fold]
  obtain ⟨answer, drift, hobserve⟩ : ∃ answer drift, clock.observe s.drift loc master = (answer, drift) := ⟨_, _, rfl⟩
  dsimp only
  rw [hobserve]
  cases answer with
  | rejected =>
    rw [toList_none, append_nil]
    exact ⟨h.samples, h.errors, h.lastUpdateNs, h.locked, h.everLocked⟩
  | folded =>
    refine Tracks.accept (s := { s with drift }) (x := { loc, error := score clock s loc master, restarts := false })
      ?_ h.errors h.everLocked ?_
    · rw [sinceRestart_concat, if_neg Bool.false_ne_true, length_append]
      exact congrArg (· + 1) h.samples
    · intro hsecond
      have hscored : 1 ≤ s.samples := Nat.le_of_succ_le_succ hsecond
      simp only [if_pos hscored]
  | restarted =>
    refine Tracks.accept (s := { s with drift, locked := false, errors := [], samples := 0 })
      (x := { loc, error := score clock s loc master, restarts := true }) ?_ rfl h.everLocked ?_
    · rw [sinceRestart_concat, if_pos rfl]
      rfl
    · intro hsecond
      exact absurd hsecond (by decide : ¬ 2 ≤ 0 + 1)

theorem Tracks.lastDelay (h : Tracks s log) (delay : Int) : Tracks { s with lastDelayNs := delay } log :=
  ⟨h.samples, h.errors, h.lastUpdateNs, h.locked, h.everLocked⟩

theorem next_tracks {t : PtpServo δ × List Sample} (h : Tracks t.1 t.2) (c : Call) :
    Tracks (next clock t c).1 (next clock t c).2 := by
  cases c with
  | exchange t1 t2 t3 t4 =>
    simp only [next, call, syncExchange]
    cases hmeasure : measure t1 t2 t3 t4 with
    | none =>
      have hsample : t.1.sample clock (.exchange t1 t2 t3 t4) = none := by simp [sample, times, hmeasure]
      rw [hsample, toList_none, append_nil]
      exact h
    | some measured =>
      have hfold : Tracks (t.1.fold clock t2 measured.1).2 (t.2 ++ (t.1.sample clock (.exchange t1 t2 t3 t4)).toList) :=
        fold_tracks h (by simp [times, hmeasure])
      dsimp only
      split
      · exact hfold.lastDelay _
      · exact hfold
  | observe loc master =>
    simp only [next, call, observeMaster]
    split_ifs with hzero
    · have hsample : t.1.sample clock (.observe loc master) = none := by simp [sample, times, hzero]
      rw [hsample, toList_none, append_nil]
      exact h
    · exact fold_tracks h (if_neg hzero)

theorem run_tracks (drift : δ) (calls : List Call) : Tracks (run clock drift calls).1 (run clock drift calls).2 := by
  suffices h : ∀ t : PtpServo δ × List Sample, Tracks t.1 t.2 →
      Tracks (calls.foldl (next clock) t).1 (calls.foldl (next clock) t).2 from h _ (Tracks.new drift)
  induction calls with
  | nil => exact fun t h => h
  | cons c calls ih => exact fun t h => ih _ (next_tracks h c)

/-! ## Trust -/

/-- A call that is not accepted changes the drift clock alone. -/
def KeepsAccount (s s' : PtpServo δ) : Prop :=
  s'.samples = s.samples ∧ s'.errors = s.errors ∧ s'.locked = s.locked ∧ s'.lastUpdateNs = s.lastUpdateNs
    ∧ s'.lastDelayNs = s.lastDelayNs

theorem fold_rejected (s : PtpServo δ) (loc master : Nat) (h : (s.fold clock loc master).1 ≠ .accepted) :
    s.KeepsAccount (s.fold clock loc master).2 := by
  rw [fold] at h ⊢
  obtain ⟨answer, drift, hobserve⟩ : ∃ answer drift, clock.observe s.drift loc master = (answer, drift) := ⟨_, _, rfl⟩
  rw [hobserve] at h ⊢
  cases answer with
  | rejected => exact ⟨rfl, rfl, rfl, rfl, rfl⟩
  | folded | restarted => exact absurd rfl h

theorem call_rejected (s : PtpServo δ) (c : Call) (h : (s.call clock c).1 ≠ .accepted) :
    s.KeepsAccount (s.call clock c).2 := by
  cases c with
  | exchange t1 t2 t3 t4 =>
    simp only [call, syncExchange] at h ⊢
    cases hmeasure : measure t1 t2 t3 t4 with
    | none => exact ⟨rfl, rfl, rfl, rfl, rfl⟩
    | some measured =>
      simp only [hmeasure] at h
      dsimp only
      rw [if_neg h]
      exact fold_rejected s t2 measured.1 h
  | observe loc master =>
    simp only [call, observeMaster] at h ⊢
    split_ifs at h ⊢ with hzero
    · exact ⟨rfl, rfl, rfl, rfl, rfl⟩
    · exact fold_rejected s loc master h

/-- A servo that accepted `log` trusts its master at `now` for its last samples alone, and keeps its account over a
call that it rejects. -/
structure TrustsLastSamples (clock : DriftClock δ) (s : PtpServo δ) (log : List Sample) (now : Nat) : Prop where
  locked : s.state now = .locked → Settled log ∧ ¬ Stale log now
  holdover : s.state now = .holdover → Settled log ∧ Stale log now
  unsettled : ¬ Settled log → s.state now = .freeRunning ∧ s.candidate now = none
  rejected : ∀ c, (s.call clock c).1 ≠ .accepted → s.KeepsAccount (s.call clock c).2

theorem Tracks.state (h : Tracks s log) (now : Nat) :
    s.state now = if (sinceRestart log).length < minLockSamples then .freeRunning
      else if Stale log now then if EverSettled log then .holdover else .freeRunning
      else if Settled log then .locked else .freeRunning := by
  simp only [PtpServo.state, h.samples, h.lastUpdateNs, h.locked, h.everLocked, Stale]
  split_ifs <;> rfl

/-- The servo trusts its master for its last samples alone, at every reading of every run, unless it agreed once, has
enough samples that do not agree, and hears no more. -/
theorem state_trusted_iff (clock : DriftClock δ) (drift : δ) (calls : List Call) (now : Nat) :
    TrustsLastSamples clock (run clock drift calls).1 (run clock drift calls).2 now
      ↔ ¬ (EverSettled (run clock drift calls).2 ∧ ¬ Settled (run clock drift calls).2
        ∧ minLockSamples ≤ (sinceRestart (run clock drift calls).2).length ∧ Stale (run clock drift calls).2 now) := by
  have htracks : Tracks (run clock drift calls).1 (run clock drift calls).2 := run_tracks drift calls
  have hstate := htracks.state now
  generalize (run clock drift calls).1 = s at *
  generalize (run clock drift calls).2 = log at *
  constructor
  · rintro htrusts ⟨hever, hunsettled, henough, hstale⟩
    have hfree := (htrusts.unsettled hunsettled).1
    rw [hstate, if_neg (by omega), if_pos hstale, if_pos hever] at hfree
    exact absurd hfree (by decide)
  · intro hok
    -- A lock that was lost is not stale, so `state` does not come to the lock of before.
    have hsettled : s.state now ≠ .freeRunning → Settled log := by
      intro htrusted
      by_contra hunsettled
      refine htrusted ?_
      rw [hstate, if_neg hunsettled]
      split_ifs with hfew hstale hever
      · rfl
      · exact absurd ⟨hever, hunsettled, by omega, hstale⟩ hok
      · rfl
      · rfl
    refine ⟨fun hlocked => ⟨hsettled (by rw [hlocked]; decide), ?_⟩, fun hholdover => ⟨hsettled (by rw [hholdover]; decide), ?_⟩,
      fun hunsettled => ?_, call_rejected s⟩
    · intro hstale
      rw [hstate, if_pos hstale] at hlocked
      split_ifs at hlocked
    · by_contra hfresh
      rw [hstate, if_neg hfresh] at hholdover
      split_ifs at hholdover
    · have hfree : s.state now = .freeRunning := by
        by_contra htrusted
        exact hunsettled (hsettled htrusted)
      exact ⟨hfree, if_pos hfree⟩

/-- A drift clock that takes each sample and projects a time to itself. -/
def idleDrift : DriftClock Unit where
  project _ reference := reference
  observe drift _ _ := (.folded, drift)

/-- Eight samples that agree and one that is two milliseconds off. -/
def lostLock : List Call :=
  (List.range 8).map (fun i => .observe (i + 1) (i + 1)) ++ [.observe 9 2000009]

/-- A servo that lost its lock trusts its master once that is silent for five seconds. -/
theorem trust_after_lost_lock : ((run idleDrift () lostLock).1.state 10 = .freeRunning
        ∧ (run idleDrift () lostLock).1.state 5000000010 = .holdover
        ∧ (run idleDrift () lostLock).1.candidate 5000000010 = some .ptpGrandmaster)
      ∧ ¬ TrustsLastSamples idleDrift (run idleDrift () lostLock).1 (run idleDrift () lostLock).2 5000000010 := by
  have hholdover : (run idleDrift () lostLock).1.state 5000000010 = .holdover := by decide
  refine ⟨⟨by decide, hholdover, by decide⟩, fun htrusts => ?_⟩
  have hunsettled : ¬ Settled (run idleDrift () lostLock).2 := by decide
  exact hunsettled (htrusts.holdover hholdover).1

end PtpServo

end Glass2Glass.Ptp
