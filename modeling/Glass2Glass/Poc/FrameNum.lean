import Glass2Glass.Poc.Wraps

/-!
# Counts from frame numbers

The counts of types 1 and 2 against the recursion of the standard, which has no words to leave (`Standard`). While
`FrameNumOffset` fits its word, the source returns the counts of the standard, cut to a word (`run_frameNum`).
-/

namespace Glass2Glass.Poc

open Saturating

namespace Standard

/-- The frame number of the picture before, and how far the frame numbers wrapped until then. -/
structure Previous where
  frameNum : Int
  offset : Int

def frameNumOffset (prev : Previous) (sps : H264PocContext) (slice : H264SlicePoc) : Int :=
  if slice.isIdr then 0
  else if prev.frameNum > slice.frameNum then prev.offset + 2 ^ sps.log2MaxFrameNum
  else prev.offset

variable (offset : Int) (sps : H264PocContext) (slice : H264SlicePoc)

def absFrameNum : Int :=
  let n := if sps.offsetsForRefFrame.length ≠ 0 then offset + slice.frameNum else 0
  if slice.nalRefIdc = 0 ∧ n > 0 then n - 1 else n

def expectedPicOrderCnt : Int :=
  let n := absFrameNum offset sps slice
  let cycle : Int := sps.offsetsForRefFrame.length
  let expected :=
    if n > 0 then
      (n - 1) / cycle * sps.offsetsForRefFrame.sum + (sps.offsetsForRefFrame.take (((n - 1) % cycle).toNat + 1)).sum
    else 0
  if slice.nalRefIdc = 0 then expected + sps.offsetForNonRefPic else expected

/-- The count of a picture of type 1. -/
def type1 : Int :=
  let expected := expectedPicOrderCnt offset sps slice
  if ¬ slice.fieldPicFlag then
    let top := expected + slice.deltaPicOrderCnt.1
    min top (top + sps.offsetForTopToBottomField + slice.deltaPicOrderCnt.2)
  else if ¬ slice.bottomFieldFlag then expected + slice.deltaPicOrderCnt.1
  else expected + sps.offsetForTopToBottomField + slice.deltaPicOrderCnt.1

/-- The count of a picture of type 2. -/
def type2 (offset : Int) (slice : H264SlicePoc) : Int :=
  if slice.isIdr then 0
  else if slice.nalRefIdc = 0 then 2 * (offset + slice.frameNum) - 1
  else 2 * (offset + slice.frameNum)

def count : Int :=
  if sps.picOrderCntType = 1 then type1 offset sps slice else type2 offset slice

/-- The offsets of pictures, one after another. -/
def offsets (sps : H264PocContext) (prev : Previous) : List H264SlicePoc → List Int
  | [] => []
  | slice :: slices =>
    let offset := frameNumOffset prev sps slice
    offset :: offsets sps ⟨slice.frameNum, offset⟩ slices

/-- The counts of pictures, one after another. -/
def run (sps : H264PocContext) (prev : Previous) (slices : List H264SlicePoc) : List Int :=
  List.zipWith (fun offset slice => count offset sps slice) (offsets sps prev slices) slices

end Standard

/-- What the parameter sets and slice headers that are parsed have: a cycle of at most 255 offsets, signed words, frame
numbers of up to 16 bits. -/
structure H264PocContext.Parsed (sps : H264PocContext) : Prop where
  frameNum : sps.log2MaxFrameNum ≤ 16
  cycle : sps.offsetsForRefFrame.length ≤ 255
  offsets : ∀ offset ∈ sps.offsetsForRefFrame, Fits 32 offset
  nonRef : Fits 32 sps.offsetForNonRefPic
  topToBottom : Fits 32 sps.offsetForTopToBottomField

structure H264SlicePoc.Parsed (slice : H264SlicePoc) (sps : H264PocContext) : Prop where
  frameNum : slice.frameNum < 2 ^ sps.log2MaxFrameNum
  top : Fits 32 slice.deltaPicOrderCnt.1
  bottom : Fits 32 slice.deltaPicOrderCnt.2
  field : slice.fieldPicFlag = true → slice.deltaPicOrderCnt.2 = 0

variable {sps : H264PocContext} {slice : H264SlicePoc} {offset : Int}

theorem word_bounds {v : Int} (h : Fits 32 v) : -2 ^ 31 ≤ v ∧ v ≤ 2 ^ 31 := by
  unfold Fits at h
  omega

theorem frameNum_lt (hsps : sps.Parsed) (hslice : slice.Parsed sps) : slice.frameNum < 2 ^ 16 :=
  hslice.frameNum.trans_le (Nat.pow_le_pow_right (by decide) hsps.frameNum)

variable {s : H264PocState}

theorem frameNumOffset_eq (hsps : sps.Parsed) {prev : Standard.Previous}
    (hnum : s.prevFrameNum = prev.frameNum) (hoffset : s.prevFrameNumOffset = prev.offset) (hprev : Fits 32 prev.offset) :
    s.frameNumOffset sps slice = Standard.frameNumOffset prev sps slice := by
  have hpow : (2 : Int) ^ sps.log2MaxFrameNum ≤ 2 ^ 16 := pow_le_pow_right₀ (by decide) hsps.frameNum
  have hpos : (0 : Int) < 2 ^ sps.log2MaxFrameNum := by positivity
  have hword := word_bounds hprev
  have hsum : Fits 64 (prev.offset + 2 ^ sps.log2MaxFrameNum) := by
    unfold Fits
    omega
  unfold H264PocState.frameNumOffset Standard.frameNumOffset
  rw [hnum, hoffset, saturate_of_fits hsum]

/-! ## Type 1 -/

theorem absFrameNum_eq (hsps : sps.Parsed) (hslice : slice.Parsed sps) (hoffset : Fits 32 offset) :
    (let n := if sps.offsetsForRefFrame = [] then 0 else saturate 64 (offset + slice.frameNum)
      if slice.nalRefIdc = 0 ∧ n > 0 then n - 1 else n) = Standard.absFrameNum offset sps slice := by
  have hnum := frameNum_lt hsps hslice
  have hword := word_bounds hoffset
  have hfits : Fits 64 (offset + slice.frameNum) := by
    unfold Fits
    omega
  unfold Standard.absFrameNum
  simp only [saturate_of_fits hfits, ne_eq, List.length_eq_zero_iff, ite_not]

/-- The expected count that the source derives is the standard's, or both are far from any word. -/
theorem expected_tracks (hsps : sps.Parsed) (slice : H264SlicePoc) (n : Int) : Tracks (2 ^ 62)
      (let expected :=
        if n > 0 then
          (sps.offsetsForRefFrame.take (((n - 1) % (sps.offsetsForRefFrame.length : Int)).toNat + 1)).foldl
            (fun a o => saturate 64 (a + o))
            (saturate 64 ((n - 1) / (sps.offsetsForRefFrame.length : Int) *
              sps.offsetsForRefFrame.foldl (fun a o => saturate 64 (a + o)) 0))
        else 0
      if slice.nalRefIdc = 0 then saturate 64 (expected + sps.offsetForNonRefPic) else expected)
      (let expected :=
        if n > 0 then
          (n - 1) / (sps.offsetsForRefFrame.length : Int) * sps.offsetsForRefFrame.sum +
            (sps.offsetsForRefFrame.take (((n - 1) % (sps.offsetsForRefFrame.length : Int)).toNat + 1)).sum
        else 0
      if slice.nalRefIdc = 0 then expected + sps.offsetForNonRefPic else expected) := by
  have hwords : ∀ o ∈ sps.offsetsForRefFrame, -2 ^ 31 ≤ o ∧ o ≤ 2 ^ 31 := fun o ho => word_bounds (hsps.offsets o ho)
  have hcycle : (sps.offsetsForRefFrame.length : Int) ≤ 255 := by exact_mod_cast hsps.cycle
  -- Adding up the cycle stays in the word.
  have hsum : sps.offsetsForRefFrame.foldl (fun a o => saturate 64 (a + o)) 0 = sps.offsetsForRefFrame.sum := by
    rw [@foldl_exact 0 0 (2 ^ 31) sps.offsetsForRefFrame 64 (by decide) (by decide) (by
      omega) hwords, zero_add]
  have hexpected : Tracks (2 ^ 63 - 1 - 255 * 2 ^ 31) (if n > 0 then
        (sps.offsetsForRefFrame.take (((n - 1) % (sps.offsetsForRefFrame.length : Int)).toNat + 1)).foldl
          (fun a o => saturate 64 (a + o))
          (saturate 64 ((n - 1) / (sps.offsetsForRefFrame.length : Int) *
            sps.offsetsForRefFrame.foldl (fun a o => saturate 64 (a + o)) 0))
      else 0)
      (if n > 0 then
        (n - 1) / (sps.offsetsForRefFrame.length : Int) * sps.offsetsForRefFrame.sum +
          (sps.offsetsForRefFrame.take (((n - 1) % (sps.offsetsForRefFrame.length : Int)).toNat + 1)).sum
      else 0) := by
    split_ifs with hn
    · rw [hsum]
      have hfold := (tracks_saturate 64 ((n - 1) / (sps.offsetsForRefFrame.length : Int) * sps.offsetsForRefFrame.sum)).foldl
        64 (show (0 : Int) ≤ 2 ^ 31 by decide) le_rfl fun o ho => hwords o
          (List.mem_of_mem_take (i := ((n - 1) % (sps.offsetsForRefFrame.length : Int)).toNat + 1) ho)
      refine hfold.mono ?_
      have hlength : ((sps.offsetsForRefFrame.take
          (((n - 1) % (sps.offsetsForRefFrame.length : Int)).toNat + 1)).length : Int) ≤ 255 := by
        rw [List.length_take]
        omega
      omega
    · exact Or.inl rfl
  by_cases href : slice.nalRefIdc = 0
  · rw [if_pos href, if_pos href]
    have hadded := hexpected.add 64 (by decide) (word_bounds hsps.nonRef)
    exact hadded.mono (by decide)
  · rw [if_neg href, if_neg href]
    exact hexpected.mono (by decide)

theorem pocType1_eq (hsps : sps.Parsed) (hslice : slice.Parsed sps)
    (hoffset : s.frameNumOffset sps slice = offset) (hfits : Fits 32 offset) :
    s.pocType1 sps slice = (s.advanceFrameNum slice offset, clampPoc (Standard.type1 offset sps slice)) := by
  have habs := absFrameNum_eq hsps hslice hfits
  have hexpected := expected_tracks hsps slice (Standard.absFrameNum offset sps slice)
  unfold H264PocState.pocType1
  dsimp only at habs hexpected ⊢
  rw [hoffset, habs]
  generalize hcut : (if slice.nalRefIdc = 0 then saturate 64 (_ + sps.offsetForNonRefPic) else _) = cut at hexpected ⊢
  change Tracks (2 ^ 62) cut (Standard.expectedPicOrderCnt offset sps slice) at hexpected
  have htop := hexpected.add 64 (by decide) (word_bounds hslice.top)
  have hmiddle := htop.add 64 (by decide) (word_bounds hsps.topToBottom)
  have hbottom := hmiddle.add 64 (by decide) (word_bounds hslice.bottom)
  have htop' : saturate 32 _ = saturate 32 _ := htop.saturate (by decide)
  have hbottom' : saturate 32 _ = saturate 32 _ := hbottom.saturate (by decide)
  refine Prod.ext rfl ?_
  unfold pickField clampPoc Standard.type1
  dsimp only
  cases hfield : slice.fieldPicFlag with
  | false =>
    rw [if_pos Bool.false_ne_true, if_pos Bool.false_ne_true, saturate_min, saturate_min, htop', hbottom']
  | true =>
    rw [if_neg (not_not.2 rfl), if_neg (not_not.2 rfl)]
    cases hbottomField : slice.bottomFieldFlag with
    | false => rw [if_neg Bool.false_ne_true, if_pos Bool.false_ne_true, htop']
    | true =>
      -- A field has no second difference.
      rw [if_pos rfl, if_neg (not_not.2 rfl), hbottom', hslice.field hfield]
      congr 1
      ring

/-! ## Type 2 -/

theorem pocType2_eq (hsps : sps.Parsed) (hslice : slice.Parsed sps)
    (hoffset : s.frameNumOffset sps slice = offset) (hfits : Fits 32 offset) :
    s.pocType2 sps slice = (s.advanceFrameNum slice offset, clampPoc (Standard.type2 offset slice)) := by
  have hnum := frameNum_lt hsps hslice
  have hword := word_bounds hfits
  have hsum : Fits 64 (offset + slice.frameNum) := by
    unfold Fits
    omega
  have hdoubled : Fits 64 ((offset + slice.frameNum) * 2) := by
    unfold Fits
    omega
  have hnonRef : Fits 64 ((offset + slice.frameNum) * 2 - 1) := by
    unfold Fits
    omega
  unfold H264PocState.pocType2 Standard.type2
  dsimp only
  rw [hoffset, saturate_of_fits hsum, saturate_of_fits hdoubled, saturate_of_fits hnonRef, mul_comm]

/-! ## Runs -/

/-- The source holds the frame number of the picture before and its offset. -/
structure H264PocState.After (s : H264PocState) (prev : Standard.Previous) : Prop where
  frameNum : s.prevFrameNum = prev.frameNum
  offset : s.prevFrameNumOffset = prev.offset
  fits : Fits 32 prev.offset

theorem run_frameNum (hsps : sps.Parsed) (htype : sps.picOrderCntType ≠ 0) (slices : List H264SlicePoc)
    (hslices : ∀ slice ∈ slices, slice.Parsed sps) {prev : Standard.Previous} (hs : s.After prev)
    (hfits : ∀ offset ∈ Standard.offsets sps prev slices, Fits 32 offset) :
    H264PocState.run sps s slices = (Standard.run sps prev slices).map clampPoc := by
  induction slices generalizing s prev with
  | nil => rfl
  | cons slice slices ih =>
    obtain ⟨hslice, hslices⟩ := List.forall_mem_cons.1 hslices
    obtain ⟨hoffset, hfits⟩ := List.forall_mem_cons.1 hfits
    have heq : s.frameNumOffset sps slice = Standard.frameNumOffset prev sps slice :=
      frameNumOffset_eq hsps hs.frameNum hs.offset hs.fits
    have hstep : s.compute sps slice = (s.advanceFrameNum slice (Standard.frameNumOffset prev sps slice),
        clampPoc (Standard.count (Standard.frameNumOffset prev sps slice) sps slice)) := by
      unfold H264PocState.compute Standard.count
      split
      · next h => exact absurd h htype
      · next h => rw [if_pos h, pocType1_eq hsps hslice heq hoffset]
      · next _ h => rw [if_neg h, pocType2_eq hsps hslice heq hoffset]
    have hnum := frameNum_lt hsps hslice
    have hs' : (s.advanceFrameNum slice (Standard.frameNumOffset prev sps slice)).After
        ⟨slice.frameNum, Standard.frameNumOffset prev sps slice⟩ := by
      refine ⟨saturate_of_fits ?_, saturate_of_fits hoffset, hoffset⟩
      unfold Fits
      omega
    rw [H264PocState.run, hstep, ih hslices hs' hfits]
    rfl

/-! ## All counts -/

/-- Counts of type 0 and H.265 come back whatever their cycles, counts of types 1 and 2 are the standard's while the frame
numbers' offset fits its word. -/
theorem counts_recovered : (∀ (sps : H264PocContext) (pictures : List (Int × H264SlicePoc)), sps.picOrderCntType = 0 →
      1 ≤ sps.log2MaxPicOrderCntLsb → sps.log2MaxPicOrderCntLsb ≤ 30 →
      Counted (2 ^ sps.log2MaxPicOrderCntLsb) 0 pictures →
      H264PocState.run sps .default (pictures.map Prod.snd) = pictures.map fun picture => picture.2.order picture.1) ∧
    (∀ (sps : H265PocContext) (events : List H265Counted),
      1 ≤ sps.log2MaxPicOrderCntLsb → sps.log2MaxPicOrderCntLsb ≤ 30 →
      CountedH265 (2 ^ sps.log2MaxPicOrderCntLsb) 0 true events →
      H265PocState.run sps .default (events.map H265Counted.event) = (events.filterMap id).map Prod.fst) ∧
    ∀ (sps : H264PocContext) (slices : List H264SlicePoc), sps.picOrderCntType ≠ 0 → sps.Parsed →
      (∀ slice ∈ slices, slice.Parsed sps) → (∀ offset ∈ Standard.offsets sps ⟨0, 0⟩ slices, Fits 32 offset) →
      H264PocState.run sps .default slices = (Standard.run sps ⟨0, 0⟩ slices).map clampPoc := by
  refine ⟨fun sps pictures htype hpos hle h => ?_, fun sps events hpos hle h => ?_,
    fun sps slices htype hsps hslices hfits => ?_⟩
  · exact run_type0 htype (cycle_two_pow hpos (by omega)) pictures 0 ⟨rfl, rfl⟩ h
  · have hs : H265PocState.default.At (2 ^ sps.log2MaxPicOrderCntLsb) 0 true :=
      ⟨rfl, rfl, iff_of_true (Or.inl Bool.false_ne_true) rfl⟩
    exact H265PocState.run_counts (cycle_two_pow hpos (by omega)) events 0 true hs h
  · exact run_frameNum hsps htype slices hslices ⟨rfl, rfl, by decide⟩ hfits

/-- A reference frame without differences. -/
def plainSlice (isIdr : Bool) (frameNum lsb : Nat) : H264SlicePoc :=
  ⟨frameNum, false, false, isIdr, 1, lsb, 0, (0, 0)⟩

/-- Counts that pass the end of a cycle of 16, after an IDR, after a CRA picture, and by frame numbers. -/
theorem counts_recovered_wrap :
    H264PocState.run ⟨4, 0, 4, 0, 0, []⟩ .default [plainSlice true 0 0, plainSlice false 1 7, plainSlice false 2 14,
      plainSlice false 3 4] = [0, 7, 14, 20] ∧
    H265PocState.run ⟨4⟩ .default [.picture ⟨21, 12, true, false, 0⟩, .picture ⟨8, 9, false, false, 0⟩,
      .picture ⟨1, 2, false, false, 0⟩] = [12, 9, 18] ∧
    H264PocState.run ⟨4, 2, 4, 0, 0, []⟩ .default [plainSlice true 0 0, plainSlice false 15 0, plainSlice false 0 0] =
      [0, 30, 32] :=
  ⟨counts_recovered.1 ⟨4, 0, 4, 0, 0, []⟩ [(0, plainSlice true 0 0), (7, plainSlice false 1 7),
      (14, plainSlice false 2 14), (20, plainSlice false 3 4)] rfl (by decide) (by decide)
      ⟨by decide, by decide, by decide, rfl, by decide, by decide, by decide, rfl, by decide, by decide, by decide, rfl,
        by decide, by decide, by decide, rfl, trivial⟩,
    counts_recovered.2.1 ⟨4⟩ [some (12, ⟨21, 12, true, false, 0⟩), some (9, ⟨8, 9, false, false, 0⟩),
      some (18, ⟨1, 2, false, false, 0⟩)] (by decide) (by decide)
      ⟨⟨by decide, rfl, rfl⟩, by decide, by decide, rfl, ⟨by decide, rfl, rfl⟩, by decide, by decide, rfl,
        ⟨by decide, rfl, rfl⟩, by decide, by decide, rfl, trivial⟩,
    counts_recovered.2.2 ⟨4, 2, 4, 0, 0, []⟩ [plainSlice true 0 0, plainSlice false 15 0, plainSlice false 0 0]
      (by decide) ⟨by decide, by decide, by decide, by decide, by decide⟩
      (by
        intro slice h
        simp only [List.mem_cons, List.not_mem_nil, or_false] at h
        rcases h with rfl | rfl | rfl
        all_goals exact ⟨by decide, by decide, by decide, fun _ => rfl⟩)
      (by decide)⟩

/-! ## A long stream -/

/-- A cycle of two offsets that cancel: the count tells odd from even frames. -/
def parityContext : H264PocContext := ⟨16, 1, 4, 0, 0, [1, -1]⟩

/-- Frame numbers that wrap `n` times. -/
def wraps (n : Nat) : List H264SlicePoc := (List.replicate n [plainSlice false 1 0, plainSlice false 0 0]).flatten

theorem wraps_succ (n : Nat) : wraps (n + 1) = plainSlice false 1 0 :: plainSlice false 0 0 :: wraps n := rfl

theorem compute_parity (s : H264PocState) (frameNum : Nat) :
    (s.compute parityContext (plainSlice false frameNum 0)).1 = s.advanceFrameNum (plainSlice false frameNum 0)
      (s.frameNumOffset parityContext (plainSlice false frameNum 0)) := rfl

/-- Once the offset is cut, the counts are not the standard's. -/
theorem wraps_differ (k n : Nat) (h : n + (k + 1) = 2 ^ 15 + 1) :
    H264PocState.run parityContext ⟨0, 0, 0, min (n * 65536) (2 ^ 31 - 1)⟩ (wraps (k + 1)) ≠
      Standard.run parityContext ⟨0, n * 65536⟩ (wraps (k + 1)) := by
  induction k generalizing n with
  | zero =>
    obtain rfl : n = 2 ^ 15 := by omega
    decide
  | succ k ih =>
    intro heq
    refine ih (n + 1) (by omega) ?_
    have hfits : Fits 32 (min ((n : Int) * 65536) (2 ^ 31 - 1)) := by
      unfold Fits
      omega
    have hcut : clampPoc (saturate 64 (min ((n : Int) * 65536) (2 ^ 31 - 1) + 65536)) =
        min (((n + 1 : Nat) : Int) * 65536) (2 ^ 31 - 1) := by
      unfold clampPoc saturate
      omega
    have hpow : (2 : Int) ^ parityContext.log2MaxFrameNum = 65536 := by decide
    have hodd : ((⟨0, 0, 0, min (n * 65536) (2 ^ 31 - 1)⟩ : H264PocState).compute parityContext (plainSlice false 1 0)).1 =
        ⟨0, 0, 1, min (n * 65536) (2 ^ 31 - 1)⟩ := by
      change (⟨0, 0, 1, clampPoc (min (n * 65536) (2 ^ 31 - 1))⟩ : H264PocState) = _
      rw [clampPoc, saturate_of_fits hfits]
    have heven : ((⟨0, 0, 1, min (n * 65536) (2 ^ 31 - 1)⟩ : H264PocState).compute parityContext
        (plainSlice false 0 0)).1 = ⟨0, 0, 0, min (((n + 1 : Nat) : Int) * 65536) (2 ^ 31 - 1)⟩ := by
      rw [compute_parity]
      have hidr : ¬ (plainSlice false 0 0).isIdr = true := Bool.false_ne_true
      have hwrap : (1 : Int) > ((plainSlice false 0 0).frameNum : Int) := by decide
      have hnum : clampPoc ((plainSlice false 0 0).frameNum : Int) = 0 := by decide
      unfold H264PocState.advanceFrameNum H264PocState.frameNumOffset
      rw [if_neg hidr, if_pos hwrap, hpow, hcut, hnum]
    rw [wraps_succ] at heq
    have htail := (List.cons.inj (List.cons.inj heq).2).2
    rw [hodd, heven] at htail
    rw [htail]
    change Standard.run parityContext ⟨0, (n : Int) * 65536 + 2 ^ parityContext.log2MaxFrameNum⟩ (wraps (k + 1)) = _
    rw [hpow, Nat.cast_succ, add_mul, one_mul]

theorem idr_differ {slices : List H264SlicePoc}
    (h : H264PocState.run parityContext ⟨0, 0, 0, 0⟩ slices ≠ Standard.run parityContext ⟨0, 0⟩ slices) :
    H264PocState.run parityContext .default (plainSlice true 0 0 :: slices) ≠
      Standard.run parityContext ⟨0, 0⟩ (plainSlice true 0 0 :: slices) :=
  fun heq => h (List.cons.inj heq).2

/-- After 2 ^ 15 wraps the offset is cut to an odd number, and odd frames count as even ones. -/
theorem long_stream_differs : H264PocState.run parityContext .default (plainSlice true 0 0 :: wraps (2 ^ 15 + 1)) ≠
      Standard.run parityContext ⟨0, 0⟩ (plainSlice true 0 0 :: wraps (2 ^ 15 + 1)) := by
  have h := wraps_differ (2 ^ 15) 0 (by decide)
  generalize wraps (2 ^ 15 + 1) = slices at h ⊢
  exact idr_differ h

end Glass2Glass.Poc
