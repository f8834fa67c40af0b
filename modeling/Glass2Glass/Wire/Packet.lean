import Glass2Glass.Lib.Loop
import Glass2Glass.Wire.Caps
import Glass2Glass.Wire.Meta

/-!
# Packets on the wire

`encodePacket` and `decodePacket`. A caps packet comes back without its alignments, and not at all
when it nests batches. A frame in system memory comes back exactly when none of its metadata entries
has a class-name table or a list too long for its count; metadata is compared as a set, since a set is
read back in the order of the format.
-/

namespace Glass2Glass

/-- Where a frame's bytes live. -/
inductive MemoryDomain where
  /-- Plain bytes. -/
  | system (data : List UInt8)
  /-- A strided view of shared bytes, given by the dense bytes it materializes to. -/
  | systemView (materialized : List UInt8)
  /-- Memory of a device or another process. -/
  | device
  deriving DecidableEq

/-- When a frame is presented, decoded, captured and received. -/
structure FrameTiming where
  /-- Presentation time. -/
  ptsNs : UInt64
  /-- Decode time. -/
  dtsNs : UInt64
  durationNs : UInt64
  captureNs : UInt64
  arrivalNs : UInt64
  /-- Whether the frame decodes on its own. -/
  keyframe : Bool
  deriving DecidableEq

structure Frame where
  domain : MemoryDomain
  /-- The time stamps. -/
  timing : FrameTiming
  sequence : UInt64
  metaSet : FrameMetaSet
  deriving DecidableEq

structure Segment where
  rate : F64
  appliedRate : F64
  /-- Running time of the start. -/
  base : UInt64
  /-- Earliest valid time stamp. -/
  start : UInt64
  /-- Latest valid time stamp, if there is one. -/
  stop : Option UInt64
  /-- Stream time of the start. -/
  time : Int64
  position : UInt64
  keyUnitsOnly : Bool
  deriving DecidableEq

/-- What travels along a link. -/
inductive PipelinePacket where
  | capsChanged (caps : Caps)
  | dataFrame (frame : Frame)
  | eos
  | flush
  | segment (segment : Segment)
  | tick
  | overwrite (offset : UInt64) (frame : Frame)
  | spliceInfo (frame : Frame)
  deriving DecidableEq

namespace Wire

open Codec

/-! ## The codec -/

/-- The version of the format, its first byte. -/
def wireVersion : UInt8 := 3

/-- Write the time stamps. -/
def putTiming (t : FrameTiming) : List UInt8 :=
  putU64 t.ptsNs ++ (putU64 t.dtsNs ++ (putU64 t.durationNs ++ (putU64 t.captureNs ++
    (putU64 t.arrivalNs ++ putBool t.keyframe))))

def getTiming : Reader FrameTiming := do
  let ptsNs ← u64
  let dtsNs ← u64
  let durationNs ← u64
  let captureNs ← u64
  let arrivalNs ← u64
  let keyframe ← bool
  return ⟨ptsNs, dtsNs, durationNs, captureNs, arrivalNs, keyframe⟩

/-- Write an optional time stamp, a flag before it and nothing when it is absent. -/
def putStop : Option UInt64 → List UInt8
  | some v => putBool true ++ putU64 v
  | none => putBool false

/-- Read an optional time stamp. -/
def getStop : Reader (Option UInt64) := do
  let present ← bool
  if present then do
    let v ← u64
    return some v
  else return none

def putSegment (s : Segment) : List UInt8 :=
  putU64 s.rate ++ (putU64 s.appliedRate ++ (putU64 s.base ++ (putU64 s.start ++ (putStop s.stop ++
    (putI64 s.time ++ (putU64 s.position ++ putBool s.keyUnitsOnly))))))

def getSegment : Reader Segment := do
  let rate ← u64
  let appliedRate ← u64
  let base ← u64
  let start ← u64
  let stop ← getStop
  let time ← i64
  let position ← u64
  let keyUnitsOnly ← bool
  return ⟨rate, appliedRate, base, start, stop, time, position, keyUnitsOnly⟩

/-- Write a frame's bytes; device memory cannot leave the process. -/
def putDomain : MemoryDomain → Except WireError (List UInt8)
  | .system data => .ok (putU8 0 ++ putBytes data)
  | .systemView materialized => .ok (putU8 0 ++ putBytes materialized)
  | .device => .error .unsupportedDomain

/-- Read a frame's bytes, into system memory. -/
def getDomain : Reader MemoryDomain := do
  match ← u8 with
  | 0 => do
    let data ← bytes
    return .system data
  | _ => throw .badTag

def putFrame (f : Frame) : Except WireError (List UInt8) := do
  let domain ← putDomain f.domain
  return putTiming f.timing ++ (putU64 f.sequence ++ (domain ++ putMeta f.metaSet))

def getFrame : Reader Frame := do
  let timing ← getTiming
  let sequence ← u64
  let domain ← getDomain
  let metaSet ← getMeta
  return ⟨domain, timing, sequence, metaSet⟩

/-- Write the body of a packet behind its version. -/
def putPacket : PipelinePacket → Except WireError (List UInt8)
  | .capsChanged caps => .ok (putU8 0 ++ putCaps caps)
  | .dataFrame frame => do
    let body ← putFrame frame
    return putU8 1 ++ body
  | .overwrite offset frame => do
    let body ← putFrame frame
    return putU8 5 ++ (putU64 offset ++ body)
  | .spliceInfo frame => do
    let body ← putFrame frame
    return putU8 6 ++ body
  | .eos => .ok (putU8 2)
  | .flush => .ok (putU8 3)
  | .segment segment => .ok (putU8 4 ++ putSegment segment)
  | .tick => .error .badTag

def encodePacket (p : PipelinePacket) : Except WireError (List UInt8) := do
  let body ← putPacket p
  return putU8 wireVersion ++ body

/-- Read a packet behind its version. -/
def getPacket : Reader PipelinePacket := do
  match ← u8 with
  | 0 => do
    let caps ← getCaps
    return .capsChanged caps
  | 1 => do
    let frame ← getFrame
    return .dataFrame frame
  | 5 => do
    let offset ← u64
    let frame ← getFrame
    return .overwrite offset frame
  | 6 => do
    let frame ← getFrame
    return .spliceInfo frame
  | 2 => return .eos
  | 3 => return .flush
  | 4 => do
    let segment ← getSegment
    return .segment segment
  | _ => throw .badTag

/-- Read a packet; what follows it is ignored. -/
def readPacket : Reader PipelinePacket := do
  let version ← u8
  if version = wireVersion then getPacket else throw .badTag

/-- Reconstruct a packet from its bytes. -/
def decodePacket (input : List UInt8) : Except WireError PipelinePacket := do
  let (p, _) ← readPacket input
  return p

theorem decode_of_decodes {body : List UInt8} {q : PipelinePacket} (h : Decodes getPacket body q) :
    decodePacket (putU8 wireVersion ++ body) = .ok q := by
  have hread : Decodes readPacket (putU8 wireVersion ++ body) q := (decodes_u8 wireVersion).bind h
  have hall := hread []
  rw [List.append_nil] at hall
  rw [decodePacket, hall]
  rfl

theorem decode_of_refuses {body : List UInt8} {e : WireError} (h : Refuses getPacket body e) :
    decodePacket (putU8 wireVersion ++ body) = .error e := by
  have hread : Refuses readPacket (putU8 wireVersion ++ body) e := .after (decodes_u8 wireVersion) h
  have hall := hread []
  rw [List.append_nil] at hall
  rw [decodePacket, hall]
  rfl

/-! ## Caps packets -/

/-- Whether a batch is a stream of another. -/
def nestsBatch : Caps → Bool
  | .batch streams => streams.any fun s => !s.isLeaf
  | _ => false

/-- A caps packet comes back with the caps the wire carries, unless it nests batches. -/
theorem capsPacket_roundTrip (c : Caps)
    (hlen : ∀ streams, c = .batch streams → streams.length < 2 ^ 32) :
    (encodePacket (.capsChanged c) >>= decodePacket) =
      if nestsBatch c then .error .badTag else .ok (.capsChanged (carriedCaps c)) := by
  have hencode : encodePacket (.capsChanged c) = .ok (putU8 wireVersion ++ (putU8 0 ++ putCaps c)) :=
    rfl
  rw [hencode]
  show decodePacket _ = _
  split_ifs with hnested
  · obtain ⟨streams, rfl⟩ : ∃ streams, c = .batch streams := by
      cases c <;> simp_all [nestsBatch]
    have hbatch : ∃ s ∈ streams, s.isLeaf = false := by simpa [nestsBatch] using hnested
    refine decode_of_refuses (.after (decodes_u8 0) ?_)
    exact (refuses_getCaps (hlen streams rfl) hbatch).bind _
  · refine decode_of_decodes ((decodes_u8 0).bind ((decodes_getCaps ?_).map _))
    rintro streams rfl
    exact ⟨hlen streams rfl, by simpa [nestsBatch] using hnested⟩

/-- A compressed stream with the given alignment. -/
def h264Stream (alignment : BitstreamAlignment) : Caps :=
  .compressedVideo .h264 (.fixed 640) (.fixed 480) .any .UNKNOWN alignment

/-- A batch of one stream comes back without the stream's alignment. -/
theorem capsPacket_roundTrip_batch : (encodePacket (.capsChanged (.batch [h264Stream .accessUnit])) >>= decodePacket) =
      .ok (.capsChanged (.batch [h264Stream .unspecified])) :=
  capsPacket_roundTrip (.batch [h264Stream .accessUnit]) fun streams h => by
    obtain rfl := Caps.batch.inj h
    decide

/-- An alignment is lost, and a nested batch is refused. -/
theorem capsPacket_not_identity : (encodePacket (.capsChanged (h264Stream .accessUnit)) >>= decodePacket) =
        .ok (.capsChanged (h264Stream .unspecified)) ∧
      (.ok (.capsChanged (h264Stream .unspecified)) : Except WireError PipelinePacket) ≠
        .ok (.capsChanged (h264Stream .accessUnit)) ∧
      (encodePacket (.capsChanged (.batch [.batch []])) >>= decodePacket) = .error .badTag := by
  decide

/-! ## Frame and segment packets -/

def frameOf : PipelinePacket → Option Frame
  | .dataFrame frame => some frame
  | .overwrite _ frame => some frame
  | .spliceInfo frame => some frame
  | _ => none

/-- A frame in system memory whose byte strings and node indices fit 32-bit words. -/
def frameFits (f : Frame) : Prop :=
  (∃ data, f.domain = .system data ∧ data.length < 2 ^ 32) ∧ ∀ m ∈ f.metaSet.entries, fieldsFit m

/-- A segment, or a packet with a frame that fits. -/
def packetFits : PipelinePacket → Prop
  | .dataFrame frame | .overwrite _ frame | .spliceInfo frame => frameFits frame
  | .segment _ => True
  | _ => False

/-- Two frames that differ at most in the order of their metadata. -/
def sameFrame (a b : Frame) : Prop :=
  a.domain = b.domain ∧ a.timing = b.timing ∧ a.sequence = b.sequence ∧
    a.metaSet.entries.Perm b.metaSet.entries

/-- Two packets that differ at most in the order of a frame's metadata. -/
def samePacket : PipelinePacket → PipelinePacket → Prop
  | .dataFrame a, .dataFrame b => sameFrame a b
  | .overwrite offset a, .overwrite offset' b => offset = offset' ∧ sameFrame a b
  | .spliceInfo a, .spliceInfo b => sameFrame a b
  | p, q => p = q

/-- No metadata entry of a packet has a class-name table or a list too long for its count. -/
def metaCarried (p : PipelinePacket) : Prop :=
  ∀ frame, frameOf p = some frame → ∀ m ∈ frame.metaSet.entries, isCarried m

theorem decodes_getTiming (t : FrameTiming) : Decodes getTiming (putTiming t) t :=
  (decodes_u64 t.ptsNs).bind ((decodes_u64 t.dtsNs).bind ((decodes_u64 t.durationNs).bind
    ((decodes_u64 t.captureNs).bind ((decodes_u64 t.arrivalNs).bind ((decodes_bool t.keyframe).map _)))))

theorem decodes_getStop (v : Option UInt64) : Decodes getStop (putStop v) v := by
  cases v with
  | none => exact (decodes_bool false).last (.pure none)
  | some v => exact (decodes_bool true).bind ((decodes_u64 v).map _)

theorem decodes_getSegment (s : Segment) : Decodes getSegment (putSegment s) s :=
  (decodes_u64 s.rate).bind ((decodes_u64 s.appliedRate).bind ((decodes_u64 s.base).bind
    ((decodes_u64 s.start).bind ((decodes_getStop s.stop).bind ((decodes_i64 s.time).bind
      ((decodes_u64 s.position).bind ((decodes_bool s.keyUnitsOnly).map _)))))))

theorem decodes_getFrame {f : Frame} (hf : frameFits f) (hm : ∀ m ∈ f.metaSet.entries, isCarried m) :
    ∃ body f', putFrame f = .ok body ∧ Decodes getFrame body f' ∧ sameFrame f' f := by
  obtain ⟨⟨data, hdata, hlen⟩, hfields⟩ := hf
  obtain ⟨set, hset, hperm⟩ := decodes_getMeta fun m hmem => ⟨hfields m hmem, hm m hmem⟩
  have hdomain : Decodes getDomain (putU8 0 ++ putBytes data) (.system data) :=
    (decodes_u8 0).bind ((decodes_bytes hlen).map _)
  have hput : putFrame f = .ok (putTiming f.timing ++ (putU64 f.sequence ++
      ((putU8 0 ++ putBytes data) ++ putMeta f.metaSet))) := by
    rw [putFrame, hdata]
    rfl
  refine ⟨_, ⟨.system data, f.timing, f.sequence, set⟩, hput, ?_, hdata.symm, rfl, rfl, hperm⟩
  exact (decodes_getTiming f.timing).bind ((decodes_u64 f.sequence).bind (hdomain.bind (hset.map _)))

theorem yields_getPacket : Yields getPacket metaCarried := by
  have hframe : Yields getFrame fun f => ∀ m ∈ f.metaSet.entries, isCarried m :=
    .skip _ fun _ => .skip _ fun _ => .skip _ fun _ => yields_getMeta.bind fun _ h => .pure h
  refine .skip u8 fun tag => ?_
  split
  · exact .skip _ fun _ => .pure (by simp [metaCarried, frameOf])
  · exact hframe.bind fun f h => .pure (by simpa [metaCarried, frameOf] using h)
  · exact .skip _ fun _ => hframe.bind fun f h => .pure (by simpa [metaCarried, frameOf] using h)
  · exact hframe.bind fun f h => .pure (by simpa [metaCarried, frameOf] using h)
  · exact .pure (by simp [metaCarried, frameOf])
  · exact .pure (by simp [metaCarried, frameOf])
  · exact .skip _ fun _ => .pure (by simp [metaCarried, frameOf])
  · exact .throw _

theorem metaCarried_of_decode {input : List UInt8} {q : PipelinePacket}
    (h : decodePacket input = .ok q) : metaCarried q := by
  have hread : Yields readPacket metaCarried := by
    refine .skip u8 fun version => ?_
    split_ifs
    · exact yields_getPacket
    · exact .throw _
  obtain ⟨⟨p, rest⟩, hp, hq⟩ := Loop.bind_eq_ok.1 h
  obtain rfl := Except.ok.inj hq
  exact hread input p rest hp

theorem frameOf_of_samePacket {p q : PipelinePacket} (h : samePacket q p) {f : Frame} (hf : frameOf p = some f) :
    ∃ f', frameOf q = some f' ∧ f'.metaSet.entries.Perm f.metaSet.entries := by
  unfold samePacket at h
  split at h
  · obtain rfl := Option.some.inj hf
    exact ⟨_, rfl, h.2.2.2⟩
  · obtain rfl := Option.some.inj hf
    exact ⟨_, rfl, h.2.2.2.2⟩
  · obtain rfl := Option.some.inj hf
    exact ⟨_, rfl, h.2.2.2⟩
  · exact ⟨f, h ▸ hf, List.Perm.refl _⟩

/-- A frame packet that fits, or a segment, comes back as it was exactly when no metadata entry has a
class-name table or a list too long for its count. -/
theorem framePacket_roundTrip_iff (p : PipelinePacket) (hp : packetFits p) :
    (∃ q, (encodePacket p >>= decodePacket) = .ok q ∧ samePacket q p) ↔ metaCarried p := by
  constructor
  · -- Whatever is decoded is carried, so what comes back as it was is.
    rintro ⟨q, hq, hsame⟩ f hf m hm
    obtain ⟨bytes, -, hdecode⟩ := Loop.bind_eq_ok.1 hq
    obtain ⟨f', hf', hperm⟩ := frameOf_of_samePacket hsame hf
    exact metaCarried_of_decode hdecode f' hf' m (hperm.mem_iff.2 hm)
  · intro hm
    suffices h : ∃ body q, putPacket p = .ok body ∧ Decodes getPacket body q ∧ samePacket q p by
      obtain ⟨body, q, hput, hdecodes, hsame⟩ := h
      refine ⟨q, ?_, hsame⟩
      rw [encodePacket, hput]
      exact decode_of_decodes hdecodes
    cases p with
    | dataFrame frame =>
      obtain ⟨body, f', hput, hdecodes, hsame⟩ := decodes_getFrame hp (hm frame rfl)
      exact ⟨putU8 1 ++ body, .dataFrame f', by rw [putPacket, hput]; rfl,
        (decodes_u8 1).bind (hdecodes.map _), hsame⟩
    | overwrite offset frame =>
      obtain ⟨body, f', hput, hdecodes, hsame⟩ := decodes_getFrame hp (hm frame rfl)
      exact ⟨putU8 5 ++ (putU64 offset ++ body), .overwrite offset f', by rw [putPacket, hput]; rfl,
        (decodes_u8 5).bind ((decodes_u64 offset).bind (hdecodes.map _)), rfl, hsame⟩
    | spliceInfo frame =>
      obtain ⟨body, f', hput, hdecodes, hsame⟩ := decodes_getFrame hp (hm frame rfl)
      exact ⟨putU8 6 ++ body, .spliceInfo f', by rw [putPacket, hput]; rfl,
        (decodes_u8 6).bind (hdecodes.map _), hsame⟩
    | segment segment =>
      exact ⟨putU8 4 ++ putSegment segment, .segment segment, rfl,
        (decodes_u8 4).bind ((decodes_getSegment segment).map _), rfl⟩
    | capsChanged caps => exact hp.elim
    | eos => exact hp.elim
    | flush => exact hp.elim
    | tick => exact hp.elim

/-- A frame of two bytes with one detection and the given class names. -/
def detectionFrame (classNames : Option (List String)) : Frame where
  domain := .system [1, 2]
  timing := ⟨0, 0, 0, 0, 0, true⟩
  sequence := 7
  metaSet := ⟨[.wallClock 5, .analytics ⟨[.classification 12 0], [⟨0, 0, .contains⟩], classNames⟩],
    by simp [FrameMeta.kind]⟩

/-- A detection without class names comes back. -/
theorem detectionFrame_roundTrip : ∃ q, (encodePacket (.dataFrame (detectionFrame none)) >>= decodePacket) = .ok q ∧
      samePacket q (.dataFrame (detectionFrame none)) := by
  refine (framePacket_roundTrip_iff (.dataFrame (detectionFrame none)) ?_).2 ?_
  · refine ⟨⟨[1, 2], rfl, by decide⟩, ?_⟩
    simp [detectionFrame, fieldsFit, maskFits]
  · intro frame hframe
    obtain rfl := Option.some.inj hframe
    simp [detectionFrame, isCarried, keypointsFit]

/-- The class names of a detection are lost. -/
theorem detectionFrame_classNames_lost :
    ∃ q, (encodePacket (.dataFrame (detectionFrame (some ["person"]))) >>= decodePacket) = .ok q ∧
      ¬ samePacket q (.dataFrame (detectionFrame (some ["person"]))) := by
  refine ⟨.dataFrame ⟨.system [1, 2], ⟨0, 0, 0, 0, 0, true⟩, 7,
    ⟨[.analytics ⟨[.classification 12 0], [⟨0, 0, .contains⟩], none⟩, .wallClock 5], by decide⟩⟩,
    by decide, ?_⟩
  rintro ⟨-, -, -, hperm⟩
  revert hperm
  decide

end Wire

end Glass2Glass
