import Glass2Glass.Poc.Order
import Mathlib.Tactic.Ring

/-!
# Counts across wraps

A count that is coded by its lower part is found again near the count it is held against (`pocMsb_near`). The states hold
every picture against the count of its anchor, so runs return the true counts (`run_type0`, `H265PocState.run_counts`).
-/

namespace Glass2Glass.Poc

open Saturating

variable {maxLsb anchor count : Int}

/-- Fewer than half a cycle apart. -/
def NearCount (maxLsb anchor count : Int) : Prop := 2 * (count - anchor) < maxLsb ∧ 2 * (anchor - count) < maxLsb

instance (maxLsb anchor count : Int) : Decidable (NearCount maxLsb anchor count) := inferInstanceAs (Decidable (_ ∧ _))

/-- A cycle of the lower part, which divides the range of counts. -/
structure Cycle (maxLsb : Int) : Prop where
  pos : 0 < maxLsb
  even : 2 ∣ maxLsb
  dvd : maxLsb ∣ 2 ^ 31

theorem cycle_two_pow {bits : Nat} (hpos : 1 ≤ bits) (hle : bits ≤ 31) : Cycle (2 ^ bits) where
  pos := by positivity
  even := dvd_pow_self 2 (Nat.pos_iff_ne_zero.1 hpos)
  dvd := pow_dvd_pow 2 hle

theorem fits_upper (hcycle : Cycle maxLsb) (hcount : Fits 32 count) : Fits 32 (count - count % maxLsb) := by
  obtain ⟨hpos, -, q, hq⟩ := hcycle
  have hmod := Int.emod_nonneg count hpos.ne'
  have hdiv := Int.emod_add_mul_ediv count maxLsb
  unfold Fits at *
  refine ⟨?_, by omega⟩
  -- The lowest count is a whole number of cycles.
  have hlow : -q ≤ count / maxLsb := by
    rw [Int.le_ediv_iff_mul_le hpos, Int.neg_mul, Int.mul_comm, ← hq]
    exact hcount.1
  have hmul := mul_le_mul_of_nonneg_left hlow hpos.le
  have hneg : maxLsb * -q = -(maxLsb * q) := by ring
  omega

theorem upper_cases (hcycle : Cycle maxLsb) (hnear : NearCount maxLsb anchor count) :
    count - count % maxLsb = anchor - anchor % maxLsb ∨ count - count % maxLsb = anchor - anchor % maxLsb + maxLsb ∨
      count - count % maxLsb = anchor - anchor % maxLsb - maxLsb := by
  obtain ⟨hpos, -, -⟩ := hcycle
  obtain ⟨h1, h2⟩ := hnear
  have hc0 := Int.emod_nonneg count hpos.ne'
  have hc1 := Int.emod_lt_of_pos count hpos
  have ha0 := Int.emod_nonneg anchor hpos.ne'
  have ha1 := Int.emod_lt_of_pos anchor hpos
  have hc := Int.emod_add_mul_ediv count maxLsb
  have ha := Int.emod_add_mul_ediv anchor maxLsb
  have hsub : maxLsb * (count / maxLsb - anchor / maxLsb) =
      count - count % maxLsb - (anchor - anchor % maxLsb) := by
    rw [mul_sub]
    omega
  have hlt : count / maxLsb - anchor / maxLsb < 2 := by
    by_contra hge
    have hmul := mul_le_mul_of_nonneg_left (not_lt.1 hge) hpos.le
    omega
  have hgt : -2 < count / maxLsb - anchor / maxLsb := by
    by_contra hle
    have hmul := mul_le_mul_of_nonneg_left (not_lt.1 hle) hpos.le
    omega
  obtain h | h | h : count / maxLsb - anchor / maxLsb = 0 ∨ count / maxLsb - anchor / maxLsb = 1 ∨
      count / maxLsb - anchor / maxLsb = -1 := by omega
  · rw [h] at hsub
    omega
  · rw [h] at hsub
    omega
  · rw [h] at hsub
    omega

theorem pocMsb_near (hcycle : Cycle maxLsb) (hcount : Fits 32 count) (hnear : NearCount maxLsb anchor count) :
    pocMsb maxLsb (anchor - anchor % maxLsb) (anchor % maxLsb) (count % maxLsb) = count - count % maxLsb := by
  have hfits := saturate_of_fits (fits_upper hcycle hcount)
  have hcases := upper_cases hcycle hnear
  obtain ⟨hpos, ⟨half, rfl⟩, -⟩ := hcycle
  obtain ⟨h1, h2⟩ := hnear
  have hc0 := Int.emod_nonneg count hpos.ne'
  have hc1 := Int.emod_lt_of_pos count hpos
  have ha0 := Int.emod_nonneg anchor hpos.ne'
  have ha1 := Int.emod_lt_of_pos anchor hpos
  have hhalf : 2 * half / 2 = half := Int.mul_ediv_cancel_left half (by decide)
  unfold pocMsb
  rcases hcases with h | h | h
  · -- The same cycle.
    rw [if_neg (by omega), if_neg (by omega), h]
  · -- The lower part went past its end.
    rw [if_pos (by omega), ← h, hfits]
  · -- The lower part went back past its beginning.
    rw [if_neg (by omega), if_pos (by omega), ← h, hfits]

/-! ## H.264, type 0 -/

/-- The count that a picture presents at, where its lower part stands for `count`. -/
def H264SlicePoc.order (slice : H264SlicePoc) (count : Int) : Int :=
  if ¬ slice.fieldPicFlag then min count (count + slice.deltaPicOrderCntBottom)
  else if slice.bottomFieldFlag then count + slice.deltaPicOrderCntBottom else count

/-- The slices carry the lower parts of counts, each near the count of the last reference picture. An IDR counts from
zero. -/
def Counted (maxLsb : Int) : Int → List (Int × H264SlicePoc) → Prop
  | _, [] => True
  | anchor, (count, slice) :: pictures =>
    let anchor := if slice.isIdr then 0 else anchor
    NearCount maxLsb anchor count ∧ Fits 32 count ∧ Fits 32 (slice.order count) ∧
      (slice.picOrderCntLsb : Int) = count % maxLsb ∧
      Counted maxLsb (if slice.nalRefIdc ≠ 0 then count else anchor) pictures

/-- The state holds the count of the last reference picture. -/
def H264PocState.At (s : H264PocState) (maxLsb anchor : Int) : Prop :=
  s.prevPocMsb = anchor - anchor % maxLsb ∧ s.prevPocLsb = anchor % maxLsb

theorem H264PocState.pocType0_near {s : H264PocState} {sps : H264PocContext} {slice : H264SlicePoc}
    (hcycle : Cycle (2 ^ sps.log2MaxPicOrderCntLsb)) (hs : s.At (2 ^ sps.log2MaxPicOrderCntLsb) anchor)
    (hnear : NearCount (2 ^ sps.log2MaxPicOrderCntLsb) (if slice.isIdr then 0 else anchor) count)
    (hcount : Fits 32 count) (horder : Fits 32 (slice.order count))
    (hlsb : (slice.picOrderCntLsb : Int) = count % 2 ^ sps.log2MaxPicOrderCntLsb) :
    (s.pocType0 sps slice).2 = slice.order count ∧ (s.pocType0 sps slice).1.At (2 ^ sps.log2MaxPicOrderCntLsb)
        (if slice.nalRefIdc ≠ 0 then count else if slice.isIdr then 0 else anchor) := by
  have hreset : (if slice.isIdr then { s with prevPocMsb := 0, prevPocLsb := 0 } else s).At
      (2 ^ sps.log2MaxPicOrderCntLsb) (if slice.isIdr then 0 else anchor) := by
    split_ifs
    · exact ⟨(by rw [Int.zero_emod, Int.sub_zero]), (Int.zero_emod _).symm⟩
    · exact hs
  have hmsb := pocMsb_near hcycle hcount hnear
  rw [← hreset.1, ← hreset.2, ← hlsb] at hmsb
  unfold pocType0
  dsimp only
  rw [hmsb, Int.sub_add_cancel]
  refine ⟨?_, ?_⟩
  · unfold pickField clampPoc
    exact saturate_of_fits horder
  · split_ifs at hreset ⊢
    all_goals first | exact hreset | exact ⟨hlsb ▸ rfl, hlsb⟩

theorem run_type0 {sps : H264PocContext} (htype : sps.picOrderCntType = 0)
    (hcycle : Cycle (2 ^ sps.log2MaxPicOrderCntLsb)) (pictures : List (Int × H264SlicePoc)) (anchor : Int)
    {s : H264PocState} (hs : s.At (2 ^ sps.log2MaxPicOrderCntLsb) anchor)
    (h : Counted (2 ^ sps.log2MaxPicOrderCntLsb) anchor pictures) :
    H264PocState.run sps s (pictures.map Prod.snd) = pictures.map fun picture => picture.2.order picture.1 := by
  induction pictures generalizing s anchor with
  | nil => rfl
  | cons picture pictures ih =>
    obtain ⟨hnear, hcount, horder, hlsb, hrest⟩ := h
    have hstep : s.compute sps picture.2 = s.pocType0 sps picture.2 := by
      simp only [H264PocState.compute, htype]
    obtain ⟨hreturned, hs'⟩ := H264PocState.pocType0_near hcycle hs hnear hcount horder hlsb
    rw [List.map_cons, List.map_cons, H264PocState.run, hstep, hreturned, ih _ hs' hrest]

/-! ## H.265 -/

/-- The picture types that the standard defines. -/
def maxPictureType : Nat := 21

def H265SlicePoc.IsRasl (slice : H265SlicePoc) : Prop := slice.nalUnitType = 8 ∨ slice.nalUnitType = 9

def H265SlicePoc.IsRadl (slice : H265SlicePoc) : Prop := slice.nalUnitType = 6 ∨ slice.nalUnitType = 7

def H265SlicePoc.IsSubLayerNonReference (slice : H265SlicePoc) : Prop :=
  slice.nalUnitType ∈ [0, 2, 4, 6, 8, 10, 12, 14]

instance (slice : H265SlicePoc) : Decidable slice.IsRasl := inferInstanceAs (Decidable (_ ∨ _))

instance (slice : H265SlicePoc) : Decidable slice.IsRadl := inferInstanceAs (Decidable (_ ∨ _))

instance (slice : H265SlicePoc) : Decidable slice.IsSubLayerNonReference := inferInstanceAs (Decidable (_ ∈ _))

/-- A picture that the next ones are held against. -/
def H265SlicePoc.IsAnchor (slice : H265SlicePoc) : Prop :=
  slice.temporalId = 0 ∧ ¬ slice.IsRasl ∧ ¬ slice.IsRadl ∧ ¬ slice.IsSubLayerNonReference

instance (slice : H265SlicePoc) : Decidable slice.IsAnchor := inferInstanceAs (Decidable (_ ∧ _))

/-- The picture begins a coded video sequence: an IDR or BLA picture, or the first picture or the first after an end of
sequence, if it is a random access point. -/
def H265SlicePoc.Begins (slice : H265SlicePoc) (first : Bool) : Prop :=
  16 ≤ slice.nalUnitType ∧ (slice.nalUnitType ≠ h265NalCra ∨ first = true)

instance (slice : H265SlicePoc) (first : Bool) : Decidable (slice.Begins first) := inferInstanceAs (Decidable (_ ∧ _))

/-- The flags of a slice say what its type does. -/
structure H265SlicePoc.Typed (slice : H265SlicePoc) : Prop where
  defined : slice.nalUnitType ≤ maxPictureType
  irap : slice.isIrap = decide (16 ≤ slice.nalUnitType ∧ slice.nalUnitType ≤ 23)
  idr : slice.isIdr = decide (slice.nalUnitType = 19 ∨ slice.nalUnitType = 20)

theorem isAnchor_iff {slice : H265SlicePoc} (h : slice.nalUnitType ≤ maxPictureType) :
    h265IsPrevTid0Candidate slice = true ↔ slice.IsAnchor := by
  have hall : ∀ nalUnitType ≤ maxPictureType,
      (h265NalIsReference nalUnitType = true ∧ ¬ (nalUnitType = h265NalRadlR ∨ nalUnitType = h265NalRaslR)) ↔
        ¬ (nalUnitType = 8 ∨ nalUnitType = 9) ∧ ¬ (nalUnitType = 6 ∨ nalUnitType = 7) ∧
          nalUnitType ∉ [0, 2, 4, 6, 8, 10, 12, 14] := by decide
  unfold h265IsPrevTid0Candidate H265SlicePoc.IsAnchor
  rw [decide_eq_true_iff, hall _ h]
  rfl

/-- An event, a picture with the count that its lower part stands for. -/
abbrev H265Counted := Option (Int × H265SlicePoc)

def H265Counted.event : H265Counted → H265Event
  | none => .endOfSequence
  | some (_, slice) => .picture slice

/-- The slices carry the lower parts of counts, each near the count of the last anchor. A picture that begins a coded video
sequence has no upper part. -/
def CountedH265 (maxLsb : Int) : Int → Bool → List H265Counted → Prop
  | _, _, [] => True
  | anchor, _, none :: events => CountedH265 maxLsb anchor true events
  | anchor, first, some (count, slice) :: events =>
    slice.Typed ∧ (if slice.Begins first then 0 ≤ count ∧ count < maxLsb else NearCount maxLsb anchor count) ∧
      Fits 32 count ∧ (slice.slicePicOrderCntLsb : Int) = count % maxLsb ∧
      CountedH265 maxLsb (if slice.IsAnchor then count else anchor) false events

/-- The state holds the count of the last anchor. -/
structure H265PocState.At (s : H265PocState) (maxLsb anchor : Int) (first : Bool) : Prop where
  msb : s.prevPocMsb = anchor - anchor % maxLsb
  lsb : s.prevPocLsb = anchor % maxLsb
  first_eq : (¬ s.started = true ∨ s.afterEndOfSequence = true) ↔ first = true

namespace H265PocState

variable {s : H265PocState} {sps : H265PocContext} {slice : H265SlicePoc} {first : Bool}

theorem begins_iff (htyped : slice.Typed) (hfirst : (¬ s.started = true ∨ s.afterEndOfSequence = true) ↔ first = true) :
    (slice.isIrap = true ∧ (slice.isIdr = true ∨
      (h265NalBlaWLp ≤ slice.nalUnitType ∧ slice.nalUnitType ≤ h265NalBlaNLp) ∨
      slice.nalUnitType = h265NalCra ∧ (¬ s.started = true ∨ s.afterEndOfSequence = true))) ↔ slice.Begins first := by
  have hdefined := htyped.defined
  rw [htyped.irap, htyped.idr, hfirst, decide_eq_true_iff, decide_eq_true_iff]
  unfold H265SlicePoc.Begins h265NalBlaWLp h265NalBlaNLp h265NalCra
  unfold maxPictureType at hdefined
  constructor
  · rintro ⟨⟨h, -⟩, hbegin⟩
    refine ⟨h, ?_⟩
    rcases hbegin with h | h | ⟨-, h⟩
    · exact Or.inl (by omega)
    · exact Or.inl (by omega)
    · exact Or.inr h
  · rintro ⟨h, hbegin⟩
    refine ⟨⟨h, by omega⟩, ?_⟩
    by_cases hcra : slice.nalUnitType = 21
    · exact Or.inr (Or.inr ⟨hcra, hbegin.resolve_left (not_not.2 hcra)⟩)
    · omega

theorem compute_near (hcycle : Cycle (2 ^ sps.log2MaxPicOrderCntLsb))
    (hs : s.At (2 ^ sps.log2MaxPicOrderCntLsb) anchor first) (htyped : slice.Typed)
    (hnear : if slice.Begins first then 0 ≤ count ∧ count < 2 ^ sps.log2MaxPicOrderCntLsb
      else NearCount (2 ^ sps.log2MaxPicOrderCntLsb) anchor count)
    (hcount : Fits 32 count) (hlsb : (slice.slicePicOrderCntLsb : Int) = count % 2 ^ sps.log2MaxPicOrderCntLsb) :
    (s.compute sps slice).2.picOrderCnt = count ∧
      (s.compute sps slice).1.At (2 ^ sps.log2MaxPicOrderCntLsb) (if slice.IsAnchor then count else anchor) false := by
  have hmsb : (if slice.isIrap = true ∧ (slice.isIdr = true ∨
      (h265NalBlaWLp ≤ slice.nalUnitType ∧ slice.nalUnitType ≤ h265NalBlaNLp) ∨
      slice.nalUnitType = h265NalCra ∧ (¬ s.started = true ∨ s.afterEndOfSequence = true)) then 0
      else pocMsb (2 ^ sps.log2MaxPicOrderCntLsb) s.prevPocMsb s.prevPocLsb slice.slicePicOrderCntLsb) =
        count - count % 2 ^ sps.log2MaxPicOrderCntLsb := by
    simp only [begins_iff htyped hs.first_eq]
    split_ifs with hbegins
    · rw [if_pos hbegins] at hnear
      rw [Int.emod_eq_of_lt hnear.1 hnear.2, Int.sub_self]
    · rw [if_neg hbegins] at hnear
      rw [hs.msb, hs.lsb, hlsb]
      exact pocMsb_near hcycle hcount hnear
  unfold compute
  dsimp only
  rw [hmsb, hlsb, Int.sub_add_cancel]
  refine ⟨saturate_of_fits hcount, ?_⟩
  by_cases hanchor : slice.IsAnchor
  · rw [if_pos ((isAnchor_iff htyped.defined).2 hanchor), if_pos hanchor]
    exact ⟨rfl, rfl, by simp⟩
  · rw [if_neg fun h => hanchor ((isAnchor_iff htyped.defined).1 h), if_neg hanchor]
    exact ⟨hs.msb, hs.lsb, by simp⟩

theorem run_counts (hcycle : Cycle (2 ^ sps.log2MaxPicOrderCntLsb)) (events : List H265Counted) (anchor : Int) (first : Bool)
    {s : H265PocState} (hs : s.At (2 ^ sps.log2MaxPicOrderCntLsb) anchor first)
    (h : CountedH265 (2 ^ sps.log2MaxPicOrderCntLsb) anchor first events) :
    run sps s (events.map H265Counted.event) = (events.filterMap id).map Prod.fst := by
  induction events generalizing s anchor first with
  | nil => rfl
  | cons event events ih =>
    cases event with
    | none =>
      have hs' : s.endOfSequence.At (2 ^ sps.log2MaxPicOrderCntLsb) anchor true :=
        ⟨hs.msb, hs.lsb, iff_of_true (Or.inr rfl) rfl⟩
      exact ih anchor true hs' h
    | some picture =>
      obtain ⟨htyped, hnear, hcount, hlsb, hrest⟩ := h
      obtain ⟨hreturned, hs'⟩ := compute_near hcycle hs htyped hnear hcount hlsb
      rw [List.map_cons, H265Counted.event, run, hreturned, ih _ _ hs' hrest]
      rfl

end H265PocState

end Glass2Glass.Poc
