import Glass2Glass.Lib.Saturating

/-!
# Picture order counts

`H264PocState` and `H265PocState` of `g2g-plugins/src/poc.rs`. The numbers of the source are signed words, and what
would leave them is cut off (`saturate`).
-/

namespace Glass2Glass.Poc

open Saturating

structure H264PocContext where
  log2MaxFrameNum : Nat
  picOrderCntType : Nat
  log2MaxPicOrderCntLsb : Nat
  offsetForNonRefPic : Int
  offsetForTopToBottomField : Int
  offsetsForRefFrame : List Int

structure H264SlicePoc where
  frameNum : Nat
  fieldPicFlag : Bool
  bottomFieldFlag : Bool
  isIdr : Bool
  nalRefIdc : Nat
  picOrderCntLsb : Nat
  deltaPicOrderCntBottom : Int
  deltaPicOrderCnt : Int × Int

/-- What is carried from picture to picture. -/
structure H264PocState where
  prevPocMsb : Int
  prevPocLsb : Int
  prevFrameNum : Int
  prevFrameNumOffset : Int

def clampPoc (value : Int) : Int := saturate 32 value

/-- A frame presents at the earlier of its two counts, a field at its own. -/
def pickField (top bottom : Int) (slice : H264SlicePoc) : Int :=
  clampPoc (if ¬ slice.fieldPicFlag then min top bottom else if slice.bottomFieldFlag then bottom else top)

/-- The upper part of a count, from its lower part and the previous count. -/
def pocMsb (maxLsb prevPocMsb prevPocLsb lsb : Int) : Int :=
  if lsb < prevPocLsb ∧ prevPocLsb - lsb ≥ maxLsb / 2 then saturate 32 (prevPocMsb + maxLsb)
  else if lsb > prevPocLsb ∧ lsb - prevPocLsb > maxLsb / 2 then saturate 32 (prevPocMsb - maxLsb)
  else prevPocMsb

namespace H264PocState

def default : H264PocState := ⟨0, 0, 0, 0⟩

variable (s : H264PocState) (sps : H264PocContext) (slice : H264SlicePoc)

/-- The count is coded by its lower part, and the upper part comes from the last reference picture. -/
def pocType0 : H264PocState × Int :=
  let s := if slice.isIdr then { s with prevPocMsb := 0, prevPocLsb := 0 } else s
  let maxLsb : Int := 2 ^ sps.log2MaxPicOrderCntLsb
  let lsb : Int := slice.picOrderCntLsb
  let pocMsb := pocMsb maxLsb s.prevPocMsb s.prevPocLsb lsb
  let top := pocMsb + lsb
  let bottom := top + slice.deltaPicOrderCntBottom
  (if slice.nalRefIdc ≠ 0 then { s with prevPocMsb := pocMsb, prevPocLsb := lsb } else s, pickField top bottom slice)

def frameNumOffset : Int :=
  if slice.isIdr then 0
  else if s.prevFrameNum > slice.frameNum then saturate 64 (s.prevFrameNumOffset + 2 ^ sps.log2MaxFrameNum)
  else s.prevFrameNumOffset

def advanceFrameNum (s : H264PocState) (slice : H264SlicePoc) (frameNumOffset : Int) : H264PocState :=
  { s with prevFrameNumOffset := clampPoc frameNumOffset, prevFrameNum := clampPoc slice.frameNum }

/-- The count follows a cycle of offsets, which the number of the frame selects. -/
def pocType1 : H264PocState × Int :=
  let offsets := sps.offsetsForRefFrame
  let frameNumOffset := s.frameNumOffset sps slice
  let absFrameNum := if offsets = [] then 0 else saturate 64 (frameNumOffset + slice.frameNum)
  let absFrameNum := if slice.nalRefIdc = 0 ∧ absFrameNum > 0 then absFrameNum - 1 else absFrameNum
  let expected :=
    if absFrameNum > 0 then
      let cycleLength : Int := offsets.length
      let cycleSum := offsets.foldl (fun a o => saturate 64 (a + o)) 0
      let cycles := (absFrameNum - 1) / cycleLength
      let inCycle := ((absFrameNum - 1) % cycleLength).toNat
      (offsets.take (inCycle + 1)).foldl (fun a o => saturate 64 (a + o)) (saturate 64 (cycles * cycleSum))
    else 0
  let expected := if slice.nalRefIdc = 0 then saturate 64 (expected + sps.offsetForNonRefPic) else expected
  let top := saturate 64 (expected + slice.deltaPicOrderCnt.1)
  let bottom := saturate 64 (saturate 64 (top + sps.offsetForTopToBottomField) + slice.deltaPicOrderCnt.2)
  (s.advanceFrameNum slice frameNumOffset, pickField top bottom slice)

/-- Pictures are shown in the order they are coded. -/
def pocType2 : H264PocState × Int :=
  let frameNumOffset := s.frameNumOffset sps slice
  let poc :=
    if slice.isIdr then 0
    else
      let doubled := saturate 64 (saturate 64 (frameNumOffset + slice.frameNum) * 2)
      if slice.nalRefIdc = 0 then saturate 64 (doubled - 1) else doubled
  (s.advanceFrameNum slice frameNumOffset, clampPoc poc)

def compute : H264PocState × Int :=
  match sps.picOrderCntType with
  | 0 => s.pocType0 sps slice
  | 1 => s.pocType1 sps slice
  | _ => s.pocType2 sps slice

/-- The counts of pictures, one after another. -/
def run (sps : H264PocContext) (s : H264PocState) : List H264SlicePoc → List Int
  | [] => []
  | slice :: slices => (s.compute sps slice).2 :: run sps (s.compute sps slice).1 slices

end H264PocState

/-! ## H.265 -/

structure H265PocContext where
  log2MaxPicOrderCntLsb : Nat

structure H265SlicePoc where
  nalUnitType : Nat
  slicePicOrderCntLsb : Nat
  isIrap : Bool
  isIdr : Bool
  temporalId : Nat

def h265NalRadlR : Nat := 7
def h265NalRaslR : Nat := 9
def h265NalBlaWLp : Nat := 16
def h265NalBlaNLp : Nat := 18
def h265NalCra : Nat := 21

def h265NalIsReference (nalUnitType : Nat) : Bool :=
  if nalUnitType ≥ 16 then nalUnitType ≤ 23 else nalUnitType % 2 = 1

/-- A picture that later counts are held against. -/
def h265IsPrevTid0Candidate (slice : H265SlicePoc) : Bool :=
  let leading := slice.nalUnitType = h265NalRadlR ∨ slice.nalUnitType = h265NalRaslR
  slice.temporalId = 0 ∧ h265NalIsReference slice.nalUnitType ∧ ¬ leading

structure H265PictureOrder where
  picOrderCnt : Int
  noRaslOutputFlag : Bool

structure H265PocState where
  prevPocMsb : Int
  prevPocLsb : Int
  started : Bool
  afterEndOfSequence : Bool

namespace H265PocState

def default : H265PocState := ⟨0, 0, false, false⟩

def endOfSequence (s : H265PocState) : H265PocState := { s with afterEndOfSequence := true }

def compute (s : H265PocState) (sps : H265PocContext) (slice : H265SlicePoc) : H265PocState × H265PictureOrder :=
  let isBla := h265NalBlaWLp ≤ slice.nalUnitType ∧ slice.nalUnitType ≤ h265NalBlaNLp
  let firstInSequence := ¬ s.started ∨ s.afterEndOfSequence
  let noRaslOutputFlag := slice.isIdr ∨ isBla ∨ slice.nalUnitType = h265NalCra ∧ firstInSequence
  let maxLsb : Int := 2 ^ sps.log2MaxPicOrderCntLsb
  let lsb : Int := slice.slicePicOrderCntLsb
  let pocMsb := if slice.isIrap ∧ noRaslOutputFlag then 0 else pocMsb maxLsb s.prevPocMsb s.prevPocLsb lsb
  let poc := pocMsb + lsb
  let s := { s with started := true, afterEndOfSequence := false }
  (if h265IsPrevTid0Candidate slice then { s with prevPocMsb := pocMsb, prevPocLsb := lsb } else s,
    { picOrderCnt := clampPoc poc, noRaslOutputFlag })

end H265PocState

/-- What the state is given: a picture, or the end of a coded video sequence. -/
inductive H265Event where
  | picture (slice : H265SlicePoc)
  | endOfSequence

/-- The counts of pictures, one after another. -/
def H265PocState.run (sps : H265PocContext) (s : H265PocState) : List H265Event → List Int
  | [] => []
  | .endOfSequence :: events => run sps s.endOfSequence events
  | .picture slice :: events => (s.compute sps slice).2.picOrderCnt :: run sps (s.compute sps slice).1 events

end Glass2Glass.Poc
