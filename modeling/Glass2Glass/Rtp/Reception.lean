import Glass2Glass.Rtp.Counters
import Glass2Glass.Time
import Mathlib.Data.List.Chain
import Mathlib.Data.List.DropRight

/-!
# What a receiver reports

`ReceptionStats` (`g2g-plugins/src/rtcp.rs`) over any run of packets and reports. It counts with 32-bit words that
wrap, and as long as what they count fits, the reports say how many packets are lost (`reports_exact`).
-/

namespace Glass2Glass.Rtcp

open List
open Rtp (RtpSequenceExtender carried extendWrapping_first extendWrapping_near)

def sequenceCycle : Nat := 2 ^ 16

def dlsrUnitsPerSecond : Nat := 2 ^ 16

structure ReceptionStats where
  sourceSsrc : Nat
  clockHz : Nat
  sequenceExtender : RtpSequenceExtender
  firstSequence : Option Nat
  received : Nat
  expectedPrior : Nat
  receivedPrior : Nat
  /-- The arrival of the first packet. -/
  arrival0Ns : Nat
  haveTransit : Bool
  transit : Nat
  jitterX16 : Nat
  lastSrMid : Nat
  lastSrArrivalNs : Nat

structure ReportBlock where
  ssrc : Nat
  fractionLost : Nat
  cumulativeLost : Nat
  highestSeq : Nat
  jitter : Nat
  lastSr : Nat
  delaySinceLastSr : Nat

/-- The time of a packet on the way, in units of the media clock. -/
def transitOf (clockHz arrival0Ns rtpTs arrivalNs : Nat) : Nat :=
  (nsToTicks (arrivalNs - arrival0Ns) clockHz % 2 ^ 32 + 2 ^ 32 - rtpTs) % 2 ^ 32

/-- How far apart two 32-bit words are, as a number with a sign. -/
def transitChange (previous transit : Nat) : Nat :=
  let d := (transit + 2 ^ 32 - previous) % 2 ^ 32
  if d < 2 ^ 31 then d else 2 ^ 32 - d

namespace ReceptionStats

def new (sourceSsrc clockHz : Nat) : ReceptionStats where
  sourceSsrc := sourceSsrc
  clockHz := clockHz
  sequenceExtender := .new
  firstSequence := none
  received := 0
  expectedPrior := 0
  receivedPrior := 0
  arrival0Ns := 0
  haveTransit := false
  transit := 0
  jitterX16 := 0
  lastSrMid := 0
  lastSrArrivalNs := 0

variable (s : ReceptionStats)

def onRtp (ssrc seq rtpTs arrivalNs : Nat) : ReceptionStats :=
  let (sequence, sequenceExtender) := s.sequenceExtender.extend seq
  let s :=
    if s.firstSequence.isNone then
      { s with firstSequence := some sequence, sourceSsrc := ssrc, arrival0Ns := arrivalNs }
    else s
  let transit := transitOf s.clockHz s.arrival0Ns rtpTs arrivalNs
  let jitterX16 :=
    if s.haveTransit then
      min (s.jitterX16 + transitChange s.transit transit) (2 ^ 32 - 1) - min (s.jitterX16 + 8) (2 ^ 32 - 1) / 2 ^ 4
    else s.jitterX16
  { s with sequenceExtender, received := (s.received + 1) % 2 ^ 32, jitterX16, transit, haveTransit := true }

def onSenderReport (ntp arrivalNs : Nat) : ReceptionStats :=
  { s with lastSrMid := ntp / 2 ^ 16 % 2 ^ 32, lastSrArrivalNs := arrivalNs }

def extendedHighest : Nat :=
  (s.sequenceExtender.highest.getD sequenceCycle - sequenceCycle) % 2 ^ 32

def expected : Nat :=
  match s.firstSequence, s.sequenceExtender.highest with
  | some first, some highest => (highest - first + 1) % 2 ^ 32
  | _, _ => 0

def cumulativeLost : Nat := s.expected - s.received

def reportBlock (nowNs : Nat) : ReportBlock × ReceptionStats :=
  let expectedInterval := (s.expected + 2 ^ 32 - s.expectedPrior) % 2 ^ 32
  let receivedInterval := (s.received + 2 ^ 32 - s.receivedPrior) % 2 ^ 32
  let lostInterval := expectedInterval - receivedInterval
  let fractionLost :=
    if expectedInterval = 0 ∨ lostInterval = 0 then 0 else lostInterval * 2 ^ 8 % 2 ^ 32 / expectedInterval % 2 ^ 8
  let dlsr :=
    if s.lastSrArrivalNs = 0 then 0 else nsToTicks (nowNs - s.lastSrArrivalNs) dlsrUnitsPerSecond % 2 ^ 32
  ({ ssrc := s.sourceSsrc
     fractionLost
     cumulativeLost := s.cumulativeLost % 2 ^ 24
     highestSeq := s.extendedHighest
     jitter := s.jitterX16 / 2 ^ 4
     lastSr := s.lastSrMid
     delaySinceLastSr := dlsr },
    { s with expectedPrior := s.expected, receivedPrior := s.received })

end ReceptionStats

/-! ## Runs -/

/-- A packet by its true number. -/
structure Arrival where
  number : Int
  rtpTs : Nat
  arrivalNs : Nat

inductive Call
  | rtp (ssrc : Nat) (arrival : Arrival)
  | senderReport (ntp arrivalNs : Nat)
  | report (nowNs : Nat)

def ReceptionStats.apply (s : ReceptionStats) : Call → ReceptionStats
  | .rtp ssrc a => s.onRtp ssrc (carried 16 a.number) a.rtpTs a.arrivalNs
  | .senderReport ntp arrivalNs => s.onSenderReport ntp arrivalNs
  | .report nowNs => (s.reportBlock nowNs).2

def statsAfter (ssrc clockHz : Nat) (calls : List Call) : ReceptionStats := calls.foldl .apply (.new ssrc clockHz)

variable (calls : List Call)

def arrivals : List Arrival :=
  calls.filterMap fun
    | .rtp _ a => some a
    | _ => none

/-- The calls up to the last report. -/
def reported : List Call :=
  calls.rdropWhile fun
    | .report _ => false
    | _ => true

def highestOf (high : Int) (arrivals : List Arrival) : Int := arrivals.foldl (fun high a => max high a.number) high

/-- How many numbers there are from the first to the highest. -/
def spanned : List Arrival → Nat
  | [] => 0
  | a :: as => (highestOf a.number as - a.number + 1).toNat

/-- Each number is less than half a cycle from the highest before it. -/
def Within (high : Int) : List Arrival → Prop
  | [] => True
  | a :: as => high < a.number + 2 ^ 15 ∧ a.number < high + 2 ^ 15 ∧ Within (max high a.number) as

/-- The first number is in the first cycle. -/
def InReach : List Arrival → Prop
  | [] => True
  | a :: as => 0 ≤ a.number ∧ a.number < 2 ^ 16 ∧ Within a.number as

def transits (clockHz : Nat) : List Arrival → List Nat
  | [] => []
  | a :: as => (a :: as).map fun b => transitOf clockHz a.arrivalNs b.rtpTs b.arrivalNs

/-- No transit is further than `bound` from the one before it. -/
def Steady (clockHz bound : Nat) (arrivals : List Arrival) : Prop :=
  (transits clockHz arrivals).IsChain fun previous transit => transitChange previous transit ≤ bound

/-- How many numbers the packets since the last report add. -/
def expectedSince : Nat := spanned (arrivals calls) - spanned (arrivals (reported calls))

def lostSince : Nat :=
  expectedSince calls - ((arrivals calls).length - (arrivals (reported calls)).length)

/-! ## What is counted -/

/-- The statistics after the packet `a` and others. -/
structure Counted (clockHz : Nat) (a : Arrival) (as : List Arrival) (s : ReceptionStats) : Prop where
  first : s.firstSequence = some (a.number + 2 ^ 16).toNat
  highest : s.sequenceExtender.highest = some (highestOf a.number as + 2 ^ 16).toNat
  received : s.received = (as.length + 1) % 2 ^ 32
  arrival0 : s.arrival0Ns = a.arrivalNs
  clock : s.clockHz = clockHz
  have_transit : s.haveTransit = true
  transit : (transits clockHz (a :: as)).getLast? = some s.transit
  jitter : ∀ bound, Steady clockHz bound (a :: as) → s.jitterX16 ≤ 16 * bound + 7 ∨ 2 ^ 28 ≤ bound
  fits : s.jitterX16 < 2 ^ 32

def Tracks (clockHz : Nat) : List Arrival → ReceptionStats → Prop
  | [], s => s.firstSequence = none ∧ s.sequenceExtender.highest = none ∧ s.received = 0 ∧ s.haveTransit = false ∧
      s.jitterX16 = 0 ∧ s.clockHz = clockHz
  | a :: as, s => Counted clockHz a as s

structure Inv (clockHz : Nat) (calls : List Call) (s : ReceptionStats) : Prop where
  tracks : Tracks clockHz (arrivals calls) s
  expectedPrior : s.expectedPrior = spanned (arrivals (reported calls))
  receivedPrior : s.receivedPrior = (arrivals (reported calls)).length % 2 ^ 32

section

variable {ssrc clockHz j d bound : Nat} {high : Int} {a b : Arrival} {as bs : List Arrival} {s : ReceptionStats}
  {calls : List Call} {call : Call}

theorem highestOf_append : highestOf high (as ++ [a]) = max (highestOf high as) a.number := by
  rw [highestOf, foldl_append]
  rfl

theorem le_highestOf : high ≤ highestOf high as := by
  induction as generalizing high with
  | nil => exact le_rfl
  | cons a as ih => exact (le_max_left _ _).trans ih

theorem within_append : Within high (as ++ [a]) ↔ Within high as ∧ highestOf high as < a.number + 2 ^ 15 ∧
    a.number < highestOf high as + 2 ^ 15 := by
  induction as generalizing high with
  | nil => simp [Within, highestOf]
  | cons b as ih =>
    rw [cons_append, Within, ih, Within, and_assoc, and_assoc]
    rfl

theorem InReach.of_append (h : InReach (as ++ [a])) : InReach as := by
  cases as with
  | nil => trivial
  | cons b as => exact ⟨h.1, h.2.1, (within_append.1 h.2.2).1⟩

theorem spanned_append : spanned as ≤ spanned (as ++ [a]) := by
  cases as with
  | nil => exact Nat.zero_le _
  | cons b as =>
    rw [cons_append, spanned, spanned, highestOf_append]
    omega

theorem jitter_step (hd : d ≤ bound) (h : j ≤ 16 * bound + 7 ∨ 2 ^ 28 ≤ bound) :
    min (j + d) (2 ^ 32 - 1) - min (j + 8) (2 ^ 32 - 1) / 2 ^ 4 ≤ 16 * bound + 7 ∨ 2 ^ 28 ≤ bound := by
  rcases h with h | h
  · by_cases hbound : 2 ^ 28 ≤ bound
    · exact .inr hbound
    · left
      omega
  · exact .inr h

theorem carried_cycle (x : Int) : carried 16 (x + 2 ^ 16) = carried 16 x := by
  unfold carried
  omega

theorem onRtp_first {seq rtpTs arrivalNs : Nat} (hfirst : s.firstSequence = none) (htransit : s.haveTransit = false) :
    s.onRtp ssrc seq rtpTs arrivalNs =
      { s with
        sourceSsrc := ssrc
        sequenceExtender := (s.sequenceExtender.extend seq).2
        firstSequence := some (s.sequenceExtender.extend seq).1
        received := (s.received + 1) % 2 ^ 32
        arrival0Ns := arrivalNs
        haveTransit := true
        transit := transitOf s.clockHz arrivalNs rtpTs arrivalNs } := by
  simp [ReceptionStats.onRtp, hfirst, htransit]

theorem onRtp_next {first seq rtpTs arrivalNs : Nat} (hfirst : s.firstSequence = some first)
    (htransit : s.haveTransit = true) : s.onRtp ssrc seq rtpTs arrivalNs =
      { s with
        sequenceExtender := (s.sequenceExtender.extend seq).2
        received := (s.received + 1) % 2 ^ 32
        transit := transitOf s.clockHz s.arrival0Ns rtpTs arrivalNs
        jitterX16 := min (s.jitterX16 +
          transitChange s.transit (transitOf s.clockHz s.arrival0Ns rtpTs arrivalNs)) (2 ^ 32 - 1) -
            min (s.jitterX16 + 8) (2 ^ 32 - 1) / 2 ^ 4 } := by
  simp [ReceptionStats.onRtp, hfirst, htransit]

theorem onRtp_prior (s : ReceptionStats) (ssrc seq rtpTs arrivalNs : Nat) : (s.onRtp ssrc seq rtpTs arrivalNs).expectedPrior = s.expectedPrior ∧
    (s.onRtp ssrc seq rtpTs arrivalNs).receivedPrior = s.receivedPrior := by
  unfold ReceptionStats.onRtp
  split_ifs <;> exact ⟨rfl, rfl⟩

theorem counted_first (hlow : 0 ≤ a.number) (hupp : a.number < 2 ^ 16) (h : Tracks clockHz [] s) :
    Counted clockHz a [] (s.onRtp ssrc (carried 16 a.number) a.rtpTs a.arrivalNs) := by
  obtain ⟨hfirst, hhighest, hreceived, htransit, hjitter, rfl⟩ := h
  have hext : ((s.sequenceExtender.extend (carried 16 a.number)).1 : Int) = a.number + 2 ^ 16 := by
    rw [RtpSequenceExtender.extends.number, hhighest, ← carried_cycle]
    exact extendWrapping_first (.inl rfl) (by omega) (by omega)
  have hsequence : (s.sequenceExtender.extend (carried 16 a.number)).1 = (a.number + 2 ^ 16).toNat := by omega
  have hnext := RtpSequenceExtender.extends.first s.sequenceExtender (carried 16 a.number) hhighest
  rw [hsequence] at hnext
  rw [onRtp_first hfirst htransit, hsequence, hreceived, hjitter]
  refine ⟨rfl, hnext, rfl, rfl, rfl, rfl, ?_, fun _ _ => .inl (Nat.zero_le _), Nat.two_pow_pos 32⟩
  rw [transits, map_cons, map_nil, getLast?_singleton]

theorem counted_next (hlow : 0 ≤ a.number) (hupp : a.number < 2 ^ 16) (hspan : spanned (a :: as ++ [b]) < 2 ^ 32)
    (hdown : highestOf a.number as < b.number + 2 ^ 15) (hup : b.number < highestOf a.number as + 2 ^ 15)
    (h : Counted clockHz a as s) :
    Counted clockHz a (as ++ [b]) (s.onRtp ssrc (carried 16 b.number) b.rtpTs b.arrivalNs) := by
  have hle : a.number ≤ highestOf a.number as := le_highestOf
  rw [cons_append, spanned, highestOf_append] at hspan
  have hext : ((s.sequenceExtender.extend (carried 16 b.number)).1 : Int) = b.number + 2 ^ 16 := by
    rw [RtpSequenceExtender.extends.number, h.highest, ← carried_cycle]
    exact extendWrapping_near (.inl rfl) (by omega) (by omega) (by omega) (by omega) (by omega)
  have hnext := RtpSequenceExtender.extends.raise s.sequenceExtender (carried 16 b.number) _ h.highest
  have htransits : transits clockHz (a :: (as ++ [b])) =
      transits clockHz (a :: as) ++ [transitOf clockHz a.arrivalNs b.rtpTs b.arrivalNs] := by
    rw [transits, transits, ← cons_append, map_append]
    rfl
  rw [onRtp_next h.first h.have_transit, h.arrival0, h.clock]
  refine ⟨h.first, ?_, ?_, rfl, rfl, h.have_transit, ?_, fun bound hbound => ?_, ?_⟩
  · rw [hnext, highestOf_append]
    congr 1
    omega
  · dsimp only
    rw [h.received, length_append, length_singleton]
    omega
  · rw [htransits, getLast?_concat]
  · rw [Steady, htransits, isChain_append] at hbound
    exact jitter_step (hbound.2.2 _ h.transit _ rfl) (h.jitter bound hbound.1)
  · dsimp only
    omega

theorem tracks_onRtp (hreach : InReach (as ++ [b])) (hspan : spanned (as ++ [b]) < 2 ^ 32) (h : Tracks clockHz as s) :
    Tracks clockHz (as ++ [b]) (s.onRtp ssrc (carried 16 b.number) b.rtpTs b.arrivalNs) := by
  cases as with
  | nil => exact counted_first hreach.1 hreach.2.1 h
  | cons a as =>
    obtain ⟨-, hdown, hup⟩ := within_append.1 hreach.2.2
    exact counted_next hreach.1 hreach.2.1 hspan hdown hup h

theorem expected_eq (hreach : InReach as) (hspan : spanned as < 2 ^ 32) (h : Tracks clockHz as s) :
    s.expected = spanned as ∧ s.received = as.length % 2 ^ 32 := by
  unfold ReceptionStats.expected
  cases as with
  | nil =>
    rw [h.1, h.2.1]
    exact ⟨rfl, h.2.2.1⟩
  | cons a as =>
    rw [h.first, h.highest]
    have hle : a.number ≤ highestOf a.number as := le_highestOf
    have hlow := hreach.1
    rw [spanned] at hspan ⊢
    refine ⟨?_, h.received⟩
    dsimp only
    omega

theorem Tracks.other {expectedPrior receivedPrior lastSrMid lastSrArrivalNs : Nat} (h : Tracks clockHz as s) :
    Tracks clockHz as { s with expectedPrior, receivedPrior, lastSrMid, lastSrArrivalNs } := by
  cases as with
  | nil => exact h
  | cons a as => exact ⟨h.1, h.2, h.3, h.4, h.5, h.6, h.7, h.8, h.9⟩

theorem inv_statsAfter (hreach : InReach (arrivals calls)) (hspan : spanned (arrivals calls) < 2 ^ 32) :
    Inv clockHz calls (statsAfter ssrc clockHz calls) := by
  induction calls using List.reverseRecOn with
  | nil => exact ⟨⟨rfl, rfl, rfl, rfl, rfl, rfl⟩, rfl, rfl⟩
  | append_singleton calls call ih =>
    have hafter : statsAfter ssrc clockHz (calls ++ [call]) = (statsAfter ssrc clockHz calls).apply call := by
      rw [statsAfter, foldl_append]
      rfl
    rw [hafter]
    generalize statsAfter ssrc clockHz calls = s at ih
    cases call with
    | rtp ssrc a =>
      have harrivals : arrivals (calls ++ [.rtp ssrc a]) = arrivals calls ++ [a] := filterMap_append
      have hreported : reported (calls ++ [.rtp ssrc a]) = reported calls := rdropWhile_concat_pos _ _ _ rfl
      rw [harrivals] at hreach hspan
      obtain ⟨htracks, hexpected, hreceived⟩ := ih hreach.of_append (spanned_append.trans_lt hspan)
      obtain ⟨hsameExpected, hsameReceived⟩ := onRtp_prior s ssrc (carried 16 a.number) a.rtpTs a.arrivalNs
      exact ⟨harrivals ▸ tracks_onRtp hreach hspan htracks, hreported ▸ hsameExpected.trans hexpected,
        hreported ▸ hsameReceived.trans hreceived⟩
    | senderReport ntp arrivalNs =>
      have harrivals : arrivals (calls ++ [.senderReport ntp arrivalNs]) = arrivals calls := by
        rw [arrivals, filterMap_append]
        exact append_nil _
      have hreported : reported (calls ++ [.senderReport ntp arrivalNs]) = reported calls := rdropWhile_concat_pos _ _ _ rfl
      rw [harrivals] at hreach hspan
      obtain ⟨htracks, hexpected, hreceived⟩ := ih hreach hspan
      exact ⟨harrivals ▸ htracks.other, hreported ▸ hexpected, hreported ▸ hreceived⟩
    | report nowNs =>
      have harrivals : arrivals (calls ++ [.report nowNs]) = arrivals calls := by
        rw [arrivals, filterMap_append]
        exact append_nil _
      have hreported : reported (calls ++ [.report nowNs]) = calls ++ [.report nowNs] :=
        rdropWhile_concat_neg _ _ _ Bool.false_ne_true
      rw [harrivals] at hreach hspan
      have htracks := (ih hreach hspan).tracks
      obtain ⟨hexpected, hreceived⟩ := expected_eq hreach hspan htracks
      exact ⟨harrivals ▸ htracks.other, by rw [hreported, harrivals]; exact hexpected,
        by rw [hreported, harrivals]; exact hreceived⟩

theorem spanned_le_append (as bs : List Arrival) : spanned as ≤ spanned (as ++ bs) := by
  induction bs using List.reverseRecOn with
  | nil => rw [append_nil]
  | append_singleton bs b ih => exact ih.trans (append_assoc as bs [b] ▸ spanned_append)

theorem exists_recent (calls : List Call) : ∃ recent, arrivals calls = arrivals (reported calls) ++ recent := by
  obtain ⟨recent, hrecent⟩ := rdropWhile_prefix (fun | .report _ => false | _ => true) calls
  refine ⟨arrivals recent, ?_⟩
  rw [arrivals, arrivals, arrivals, ← filterMap_append]
  exact congrArg _ hrecent.symm

theorem lostSince_lt (h : expectedSince calls ≠ 0) : lostSince calls < expectedSince calls := by
  obtain ⟨recent, hrecent⟩ := exists_recent calls
  unfold lostSince
  rw [hrecent, length_append, Nat.add_sub_cancel_left]
  refine Nat.sub_lt (Nat.pos_of_ne_zero h) (length_pos_iff.2 fun hnil => h ?_)
  rw [expectedSince, hrecent, hnil, append_nil, Nat.sub_self]

theorem fits_lostSince : 256 * lostSince calls / expectedSince calls ≤ 255 := by
  by_cases h : expectedSince calls = 0
  · rw [h, Nat.div_zero]
    exact Nat.zero_le _
  · refine Nat.le_of_lt_succ ((Nat.div_lt_iff_lt_mul (Nat.pos_of_ne_zero h)).2 ?_)
    exact Nat.mul_lt_mul_of_pos_left (lostSince_lt h) (by decide)

theorem fractionLost_eq (hreach : InReach (arrivals calls)) (hspan : spanned (arrivals calls) < 2 ^ 32)
    (hcount : (arrivals calls).length < 2 ^ 32) (h : Inv clockHz calls s) (nowNs : Nat) :
    (s.reportBlock nowNs).1.fractionLost = if expectedSince calls = 0 ∨ lostSince calls = 0 then 0
      else lostSince calls * 2 ^ 8 % 2 ^ 32 / expectedSince calls % 2 ^ 8 := by
  obtain ⟨hexpected, hreceived⟩ := expected_eq hreach hspan h.tracks
  obtain ⟨recent, hrecent⟩ := exists_recent calls
  have hle : spanned (arrivals (reported calls)) ≤ spanned (arrivals calls) := by
    rw [hrecent]
    exact spanned_le_append _ _
  have hlength : (arrivals (reported calls)).length ≤ (arrivals calls).length := by
    rw [hrecent, length_append]
    exact Nat.le_add_right _ _
  have hexpectedInterval : (s.expected + 2 ^ 32 - s.expectedPrior) % 2 ^ 32 = expectedSince calls := by
    rw [hexpected, h.expectedPrior, expectedSince]
    omega
  have hreceivedInterval : (s.received + 2 ^ 32 - s.receivedPrior) % 2 ^ 32 =
      (arrivals calls).length - (arrivals (reported calls)).length := by
    rw [hreceived, h.receivedPrior]
    omega
  unfold ReceptionStats.reportBlock
  dsimp only
  rw [hexpectedInterval, hreceivedInterval, ← lostSince]

end

/-- What the statistics say is true of the run. -/
structure Exact (clockHz : Nat) (calls : List Call) (s : ReceptionStats) : Prop where
  room : ∀ highest, s.sequenceExtender.highest = some highest →
    sequenceCycle ≤ highest ∧ ∀ first, s.firstSequence = some first → first ≤ highest
  highest : ∀ a as, arrivals calls = a :: as → s.extendedHighest = (highestOf a.number as).toNat % 2 ^ 32
  lost : s.cumulativeLost = spanned (arrivals calls) - (arrivals calls).length
  fraction : expectedSince calls < 2 ^ 24 → ∀ nowNs,
    (s.reportBlock nowNs).1.fractionLost = 256 * lostSince calls / expectedSince calls
  fits : 256 * lostSince calls / expectedSince calls ≤ 255
  noLoss : lostSince calls = 0 → ∀ nowNs, (s.reportBlock nowNs).1.fractionLost = 0
  jitter : ∀ bound, Steady clockHz bound (arrivals calls) → ∀ nowNs, (s.reportBlock nowNs).1.jitter ≤ bound

/-- After any run of packets and reports. -/
theorem reports_exact (ssrc clockHz : Nat) (calls : List Call) (hreach : InReach (arrivals calls))
    (hspan : spanned (arrivals calls) < 2 ^ 32) (hcount : (arrivals calls).length < 2 ^ 32) :
    Exact clockHz calls (statsAfter ssrc clockHz calls) := by
  have h : Inv clockHz calls (statsAfter ssrc clockHz calls) := inv_statsAfter hreach hspan
  obtain ⟨hexpected, hreceived⟩ := expected_eq hreach hspan h.tracks
  have hfraction := fractionLost_eq hreach hspan hcount h
  generalize statsAfter ssrc clockHz calls = s at *
  have htracks := h.tracks
  refine ⟨fun highest hhighest => ?_, fun a as harrivals => ?_, ?_, fun hinterval nowNs => ?_, fits_lostSince,
    fun hlost nowNs => ?_, fun bound hsteady nowNs => ?_⟩
  · cases harrivals : arrivals calls with
    | nil =>
      rw [harrivals] at htracks
      rw [htracks.2.1] at hhighest
      cases hhighest
    | cons a as =>
      rw [harrivals] at htracks hreach
      rw [htracks.highest] at hhighest
      obtain rfl := Option.some.inj hhighest
      have hle : a.number ≤ highestOf a.number as := le_highestOf
      have hlow := hreach.1
      refine ⟨by unfold sequenceCycle; omega, fun first hfirst => ?_⟩
      rw [htracks.first] at hfirst
      obtain rfl := Option.some.inj hfirst
      omega
  · rw [harrivals] at htracks hreach
    have hle : a.number ≤ highestOf a.number as := le_highestOf
    have hlow := hreach.1
    rw [ReceptionStats.extendedHighest, htracks.highest, Option.getD_some, sequenceCycle]
    omega
  · rw [ReceptionStats.cumulativeLost, hexpected, hreceived, Nat.mod_eq_of_lt hcount]
  · rw [hfraction]
    split_ifs with hnone
    · rcases hnone with hnone | hnone <;> simp [hnone]
    · have hlost := lostSince_lt fun h0 => hnone (.inl h0)
      rw [mul_comm, Nat.mod_eq_of_lt (show 2 ^ 8 * lostSince calls < 2 ^ 32 by omega)]
      exact Nat.mod_eq_of_lt (Nat.lt_succ_of_le fits_lostSince)
  · rw [hfraction, if_pos (.inr hlost)]
  · have hjitter : s.jitterX16 ≤ 16 * bound + 7 ∨ 2 ^ 28 ≤ bound ∧ s.jitterX16 < 2 ^ 32 := by
      cases harrivals : arrivals calls with
      | nil =>
        rw [harrivals] at htracks
        rw [htracks.2.2.2.2.1]
        exact .inl (Nat.zero_le _)
      | cons a as =>
        rw [harrivals] at htracks hsteady
        exact (htracks.jitter bound hsteady).imp_right fun hbound => ⟨hbound, htracks.fits⟩
    unfold ReceptionStats.reportBlock
    dsimp only
    omega

/-- Two packets of five, a report, and one of the two after it. -/
def lossyRun : List Call :=
  [.rtp 7 ⟨65534, 0, 1000⟩, .rtp 7 ⟨65538, 360, 5000000⟩, .report 6000000, .rtp 7 ⟨65540, 540, 7000000⟩]

theorem reports_exact_lossy : Exact 90000 lossyRun (statsAfter 7 90000 lossyRun) :=
  reports_exact 7 90000 lossyRun (by simp [lossyRun, arrivals, InReach, Within]) (by decide) (by decide)

/-- A packet that comes many times. -/
def repeated (n : Nat) : List Call := replicate n (.rtp 7 ⟨0, 0, 0⟩)

theorem arrivals_repeated (n : Nat) : arrivals (repeated n) = replicate n ⟨0, 0, 0⟩ :=
  filterMap_replicate_of_some rfl

theorem within_replicate (n : Nat) : Within 0 (replicate n ⟨0, 0, 0⟩) ∧ highestOf 0 (replicate n ⟨0, 0, 0⟩) = 0 := by
  induction n with
  | zero => exact ⟨trivial, rfl⟩
  | succ n ih =>
    exact ⟨⟨by decide, by decide, ih.1⟩, ih.2⟩

theorem inReach_repeated (n : Nat) :
    InReach (arrivals (repeated (n + 1))) ∧ spanned (arrivals (repeated (n + 1))) = 1 := by
  obtain ⟨hwithin, hhighest⟩ := within_replicate n
  rw [arrivals_repeated, replicate_succ, spanned, hhighest]
  exact ⟨⟨le_rfl, by decide, hwithin⟩, rfl⟩

theorem cumulativeLost_repeated {n : Nat} (hn : (n + 1) % 2 ^ 32 = 0) :
    (statsAfter 7 90000 (repeated (n + 1))).cumulativeLost = 1 := by
  obtain ⟨hreach, hspan⟩ := inReach_repeated n
  have hfits : spanned (arrivals (repeated (n + 1))) < 2 ^ 32 := by omega
  obtain ⟨hexpected, hreceived⟩ := expected_eq hreach hfits (inv_statsAfter hreach hfits).tracks
  rw [ReceptionStats.cumulativeLost, hexpected, hreceived, hspan, arrivals_repeated, length_replicate, hn]

/-- The count of the packets wraps, and one is reported lost. -/
theorem received_wraps : InReach (arrivals (repeated (4294967295 + 1))) ∧
    spanned (arrivals (repeated (4294967295 + 1))) < 2 ^ 24 ∧
      (statsAfter 7 90000 (repeated (4294967295 + 1))).cumulativeLost ≠
        spanned (arrivals (repeated (4294967295 + 1))) - (arrivals (repeated (4294967295 + 1))).length := by
  obtain ⟨hreach, hspan⟩ := inReach_repeated 4294967295
  refine ⟨hreach, by rw [hspan]; decide, ?_⟩
  rw [cumulativeLost_repeated (by decide), hspan, arrivals_repeated, length_replicate]
  decide

end Glass2Glass.Rtcp
