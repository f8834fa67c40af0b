import Glass2Glass.Time

/-!
# Samples inside a segment

`Segment::kept_samples` (`g2g-core/src/segment.rs`) over a run of audio frames that follow each other. Each frame
rounds the edges of the segment against its own rounded time, and still the parts that are kept come to one block
(`kept_samples_block`): where a frame keeps a sample before an edge, the frames before it keep all of theirs.
-/

namespace Glass2Glass.Playback

open List
open Mcu (ticksToNs)

/-- A segment, as far as its edges go. -/
structure Segment where
  start : Nat
  stop : Option Nat

/-- The samples of a frame that are kept, from the first to before the end. -/
structure KeptSamples where
  first : Nat
  stop : Nat
  ptsNs : Nat

def ptsNone : Nat := 2 ^ 64 - 1

/-- The samples of a frame at `ptsNs` that come before an edge. -/
def samplesUntil (ptsNs sampleCount rate edgeNs : Nat) : Nat := min (nsToTicks (edgeNs - ptsNs) rate) sampleCount

def Segment.keptSamples (seg : Segment) (ptsNs sampleCount rate : Nat) : Option KeptSamples :=
  if ptsNs = ptsNone then if 0 < sampleCount then some ⟨0, sampleCount, ptsNs⟩ else none
  else
    let first := samplesUntil ptsNs sampleCount rate seg.start
    let stop := seg.stop.elim sampleCount (samplesUntil ptsNs sampleCount rate)
    if first < stop then some ⟨first, stop, min (ptsNs + ticksToNs first rate) (2 ^ 64 - 1)⟩ else none

/-! ## A run of frames -/

/-- The frames of a run with where they start. -/
def framesFrom : Nat → List Nat → List (Nat × Nat)
  | _, [] => []
  | start, count :: counts => (start, count) :: framesFrom (start + count) counts

/-- The samples of a frame that are kept, by their places in the run. -/
def keptOf (seg : Segment) (rate : Nat) (frame : Nat × Nat) : List Nat :=
  (seg.keptSamples (ticksToNs frame.1 rate) frame.2 rate).elim [] fun kept =>
    range' (frame.1 + kept.first) (kept.stop - kept.first)

def keptIndices (seg : Segment) (rate : Nat) (counts : List Nat) : List Nat :=
  (framesFrom 0 counts).flatMap (keptOf seg rate)

/-- The samples that the frames of a run have before an edge. -/
def cut (rate : Nat) : Option Nat → Nat × Nat → Nat
  | none, frame => frame.2
  | some e, frame => samplesUntil (ticksToNs frame.1 rate) frame.2 rate e

def before (rate : Nat) (edge : Option Nat) (frames : List (Nat × Nat)) : Nat := (frames.map (cut rate edge)).sum

section

variable {rate a b c start t n m : Nat} {edge : Option Nat} {seg : Segment} {frame earlier : Nat × Nat}
  {counts : List Nat} {frames : List (Nat × Nat)} {kept : KeptSamples}

theorem ticksToNs_nearest (hpos : 0 < rate) (h : ticksToNs t rate ≠ ptsNone) :
    ticksToNs t rate * rate ≤ t * nanosPerSecond + rate / 2 ∧
      t * nanosPerSecond + rate / 2 < ticksToNs t rate * rate + rate ∧ ticksToNs t rate < ptsNone := by
  rw [ticksToNs_eq, scaleRounded, if_neg hpos.ne'] at h ⊢
  have hsplit := Nat.div_add_mod (t * nanosPerSecond + rate / 2) rate
  have hmod := Nat.mod_lt (t * nanosPerSecond + rate / 2) hpos
  rw [mul_comm] at hsplit
  have hlt := ((min_lt_iff.1 ((min_le_right _ _).lt_of_ne h)).resolve_right (lt_irrefl _))
  rw [min_eq_left hlt.le]
  exact ⟨by omega, by omega, hlt⟩

theorem cut_le : cut rate edge frame ≤ frame.2 := by
  cases edge with
  | none => exact le_rfl
  | some e =>
    exact min_le_right _ _

theorem cut_mono (h : a ≤ b) : cut rate (some a) frame ≤ cut rate (some b) frame := by
  exact min_le_min_right _ (scaleRounded_mono _ _ (Nat.sub_le_sub_right h _))

theorem cut_earlier (hpos : 0 < rate) (hrate : rate ≤ nanosPerSecond) (hnext : earlier.1 + earlier.2 ≤ frame.1)
    (hstamp : ticksToNs frame.1 rate ≠ ptsNone) (h : 0 < cut rate edge frame) : cut rate edge earlier = earlier.2 := by
  cases edge with
  | none => rfl
  | some e =>
    have hmono : ticksToNs earlier.1 rate ≤ ticksToNs frame.1 rate := scaleRounded_mono _ _ (by omega)
    obtain ⟨-, hupper, hfits⟩ := ticksToNs_nearest hpos hstamp
    obtain ⟨hlower, -, -⟩ := ticksToNs_nearest hpos (t := earlier.1) (hmono.trans_lt hfits).ne
    rw [cut, samplesUntil, nsToTicks, scaleRounded, if_neg (by decide)] at h ⊢
    generalize ticksToNs frame.1 rate = pts at *
    generalize ticksToNs earlier.1 rate = earlierPts at *
    obtain ⟨gap, rfl⟩ := Nat.exists_eq_add_of_le hmono
    have hticks := (lt_min_iff.1 (lt_min_iff.1 h).1).1
    rw [Nat.div_pos_iff] at hticks
    obtain ⟨past, rfl⟩ : ∃ past, e = earlierPts + gap + past := Nat.exists_eq_add_of_le (by
      by_contra hlt
      rw [Nat.sub_eq_zero_of_le (by omega), zero_mul] at hticks
      exact absurd hticks.2 (by decide))
    rw [Nat.add_sub_cancel_left] at hticks
    rw [add_assoc, Nat.add_sub_cancel_left]
    have hplace : frame.1 < earlierPts + gap + 1 := by
      refine Nat.lt_of_mul_lt_mul_right (a := nanosPerSecond) ?_
      calc frame.1 * nanosPerSecond < (earlierPts + gap + 1) * rate := by rw [add_one_mul]; omega
        _ ≤ (earlierPts + gap + 1) * nanosPerSecond := Nat.mul_le_mul_left _ hrate
    refine min_eq_right (le_min ?_ (by unfold ptsNone at hfits; omega))
    -- half a sample that an edge rounds up is more than what the two stamps round away
    rw [add_mul] at hupper ⊢
    unfold nanosPerSecond at *
    omega

theorem le_of_mem_framesFrom (h : frame ∈ framesFrom start counts) : start ≤ frame.1 := by
  induction counts generalizing start with
  | nil => cases h
  | cons count counts ih =>
    rcases mem_cons.1 h with rfl | h
    · exact le_rfl
    · exact (Nat.le_add_right _ _).trans (ih h)

theorem before_eq_zero (frame : Nat × Nat) (hpos : 0 < rate) (hrate : rate ≤ nanosPerSecond) (hn : frame.2 ≠ cut rate edge frame)
    (hstamps : ∀ later ∈ framesFrom (frame.1 + frame.2) counts, ticksToNs later.1 rate ≠ ptsNone) :
    before rate edge (framesFrom (frame.1 + frame.2) counts) = 0 := by
  refine List.sum_eq_zero_iff_forall_eq_nat.2 fun samples hmem => ?_
  obtain ⟨later, hlater, rfl⟩ := mem_map.1 hmem
  by_contra hne
  exact hn (cut_earlier hpos hrate (le_of_mem_framesFrom hlater) (hstamps later hlater) (Nat.pos_of_ne_zero hne)).symm

theorem keptOf_eq (hstamp : ticksToNs frame.1 rate ≠ ptsNone) : keptOf seg rate frame =
    range' (frame.1 + cut rate (some seg.start) frame) (cut rate seg.stop frame - cut rate (some seg.start) frame) := by
  have hstop : seg.stop.elim frame.2 (samplesUntil (ticksToNs frame.1 rate) frame.2 rate) = cut rate seg.stop frame := by
    cases seg.stop
    · rw [cut, Option.elim_none]
    · rw [cut, Option.elim_some]
  rw [keptOf, Segment.keptSamples, if_neg hstamp, cut]
  dsimp only
  rw [hstop]
  split_ifs with h
  · rw [Option.elim_some]
  · rw [Option.elim_none, Nat.sub_eq_zero_of_le (not_lt.1 h), range'_zero]

/-- The parts that are kept make one block. -/
theorem flatMap_keptOf (seg : Segment) (hpos : 0 < rate) (hrate : rate ≤ nanosPerSecond)
    (hstamps : ∀ frame ∈ framesFrom start counts, ticksToNs frame.1 rate ≠ ptsNone) :
    (framesFrom start counts).flatMap (keptOf seg rate) =
      range' (start + before rate (some seg.start) (framesFrom start counts))
        (before rate seg.stop (framesFrom start counts) - before rate (some seg.start) (framesFrom start counts)) := by
  induction counts generalizing start with
  | nil => rfl
  | cons count counts ih =>
    rw [framesFrom, forall_mem_cons] at hstamps
    have hrest (edge : Option Nat) (hn : count ≠ cut rate edge (start, count)) :
        before rate edge (framesFrom (start + count) counts) = 0 :=
      before_eq_zero (start, count) hpos hrate hn hstamps.2
    have hfirst := hrest (some seg.start)
    have hlast := hrest seg.stop
    have hle : cut rate seg.stop (start, count) ≤ count := cut_le
    have hle' : cut rate (some seg.start) (start, count) ≤ count := cut_le
    rw [framesFrom, flatMap_cons, ih hstamps.2, keptOf_eq hstamps.1]
    simp only [before, map_cons, sum_cons] at hfirst hlast ⊢
    generalize (map (cut rate (some seg.start)) (framesFrom (start + count) counts)).sum = restFirst at *
    generalize (map (cut rate seg.stop) (framesFrom (start + count) counts)).sum = restLast at *
    generalize cut rate (some seg.start) (start, count) = first at *
    generalize cut rate seg.stop (start, count) = last at *
    by_cases hin : count = first
    · -- the block begins after this frame
      have hnone : last - first = 0 := by omega
      rw [hnone, range'_zero, nil_append]
      congr 1 <;> omega
    · rw [hfirst hin, add_zero, add_zero, Nat.sub_zero]
      by_cases hall : count = last
      · have hplace : start + count = start + first + (last - first) := by omega
        rw [hplace, range'_append_1]
        congr 1
        omega
      · rw [hlast hall, range'_zero, append_nil, add_zero]

theorem before_mono (rate : Nat) (frames : List (Nat × Nat)) (h : a ≤ b) : before rate (some a) frames ≤ before rate (some b) frames := by
  unfold before
  induction frames with
  | nil => rw [map_nil, map_nil]
  | cons frame frames ih =>
    exact Nat.add_le_add (cut_mono h) ih

theorem div_add_div_close (hpos : 0 < rate) (x y : Nat) :
    (x + rate / 2) / rate + (y + rate / 2) / rate < (x + y + rate / 2) / rate + 2 ∧
      (x + y + rate / 2) / rate < (x + rate / 2) / rate + (y + rate / 2) / rate + 2 := by
  have hx := Nat.div_add_mod (x + rate / 2) rate
  have hy := Nat.div_add_mod (y + rate / 2) rate
  have hsum := Nat.div_add_mod (x + y + rate / 2) rate
  have hx' := Nat.mod_lt (x + rate / 2) hpos
  have hy' := Nat.mod_lt (y + rate / 2) hpos
  have hsum' := Nat.mod_lt (x + y + rate / 2) hpos
  constructor <;> refine Nat.lt_of_mul_lt_mul_left (a := rate) ?_ <;> rw [mul_add, mul_add] <;> omega

theorem min_close {top : Nat} (h : a + b < c + 2 ∧ c < a + b + 2) :
    min (min a top + min b top) top ≤ min c top + 1 ∧ min c top ≤ min (min a top + min b top) top + 1 := by
  constructor <;> omega

theorem ticksToNs_add (hpos : 0 < rate) :
    min (ticksToNs n rate + ticksToNs m rate) (2 ^ 64 - 1) ≤ ticksToNs (n + m) rate + 1 ∧
      ticksToNs (n + m) rate ≤ min (ticksToNs n rate + ticksToNs m rate) (2 ^ 64 - 1) + 1 := by
  rw [ticksToNs_eq, ticksToNs_eq, ticksToNs_eq, scaleRounded, scaleRounded, scaleRounded, if_neg hpos.ne',
    if_neg hpos.ne', if_neg hpos.ne', add_mul]
  exact min_close (div_add_div_close hpos _ _)

theorem ptsNs_keptSamples (hpos : 0 < rate)
    (h : seg.keptSamples (ticksToNs frame.1 rate) frame.2 rate = some kept) :
    kept.ptsNs ≤ ticksToNs (frame.1 + kept.first) rate + 1 ∧ ticksToNs (frame.1 + kept.first) rate ≤ kept.ptsNs + 1 := by
  unfold Segment.keptSamples at h
  dsimp only at h
  split_ifs at h
  · obtain rfl := Option.some.inj h
    exact ⟨Nat.le_succ _, Nat.le_succ _⟩
  · obtain rfl := Option.some.inj h
    exact ticksToNs_add hpos

end

/-- Of frames with a stamp, the parts that are kept make one block, and those of two segments that meet make that of
both; each part has the stamp of its first sample but for one nanosecond. -/
theorem keptSamples_block (rate : Nat) (hpos : 0 < rate) (hrate : rate ≤ 10 ^ 8) (counts : List Nat) :
    (∀ (seg : Segment), ∀ frame ∈ framesFrom 0 counts, ∀ kept,
      seg.keptSamples (ticksToNs frame.1 rate) frame.2 rate = some kept →
        kept.ptsNs ≤ ticksToNs (frame.1 + kept.first) rate + 1 ∧
          ticksToNs (frame.1 + kept.first) rate ≤ kept.ptsNs + 1) ∧
    ((∀ frame ∈ framesFrom 0 counts, ticksToNs frame.1 rate ≠ ptsNone) →
      (∀ seg : Segment, ∃ first count, keptIndices seg rate counts = range' first count) ∧
      ∀ a b c, a ≤ b → b ≤ c →
        keptIndices ⟨a, some b⟩ rate counts ++ keptIndices ⟨b, some c⟩ rate counts =
          keptIndices ⟨a, some c⟩ rate counts) := by
  have hnanos : rate ≤ nanosPerSecond := hrate.trans (by decide)
  refine ⟨fun seg frame _ kept => ptsNs_keptSamples hpos, fun hstamps => ?_⟩
  have hblock (seg : Segment) := flatMap_keptOf seg hpos hnanos hstamps
  refine ⟨fun seg => ⟨_, _, hblock seg⟩, fun a b c hab hbc => ?_⟩
  have hfirst := before_mono rate (framesFrom 0 counts) hab
  have hlast := before_mono rate (framesFrom 0 counts) hbc
  unfold keptIndices
  rw [hblock, hblock, hblock]
  dsimp only
  generalize before rate (some a) (framesFrom 0 counts) = start at *
  generalize before rate (some b) (framesFrom 0 counts) = middle at *
  obtain ⟨gap, rfl⟩ := Nat.exists_eq_add_of_le hfirst
  rw [Nat.add_sub_cancel_left, ← add_assoc, range'_append_1]
  congr 1
  omega

theorem keptSamples_block_cd : keptIndices ⟨0, some 10000000⟩ 44100 [441, 441] ++
    keptIndices ⟨10000000, some 20000000⟩ 44100 [441, 441] = keptIndices ⟨0, some 20000000⟩ 44100 [441, 441] :=
  ((keptSamples_block 44100 (by decide) (by decide) [441, 441]).2 (by decide)).2 _ _ _ (by decide) (by decide)

/-- The stamp of the second frame saturates, which is to have none, and a frame without a stamp is kept. -/
theorem keptIndices_gap : ¬ ∃ first count, keptIndices ⟨0, some 1000000000⟩ 1 [18446744074, 1] = range' first count := by
  rintro ⟨first, count, h⟩
  have hkept : keptIndices ⟨0, some 1000000000⟩ 1 [18446744074, 1] = [0, 18446744074] := by decide
  rw [hkept] at h
  have hcount := congrArg length h
  rw [length_range'] at hcount
  obtain rfl : count = 2 := hcount.symm
  rw [range'_succ, range'_succ, cons.injEq, cons.injEq] at h
  omega

end Glass2Glass.Playback
