import Glass2Glass.Flv.Demuxer

/-!
# The FLV muxer

The muxer (`FlvMuxer` in `g2g-plugins/src/flv.rs`) writes the file header, a script tag and the configurations ahead of
the first tag, and then a tag for each access unit. What it writes in a run is a file of tags (`FlvMuxer.run_eq`).
-/

namespace Glass2Glass.Flv

open Words List

/-! ## The script tag -/

def amf0Number : UInt8 := 0x00

def amf0String : UInt8 := 0x02

def amf0EcmaArray : UInt8 := 0x08

def amf0ObjectEnd : UInt8 := 0x09

def durationKey : List UInt8 := [0x64, 0x75, 0x72, 0x61, 0x74, 0x69, 0x6f, 0x6e]

def onMetaDataName : List UInt8 := [0x6f, 0x6e, 0x4d, 0x65, 0x74, 0x61, 0x44, 0x61, 0x74, 0x61]

def writeAmf0String (s : List UInt8) : List UInt8 := [amf0String] ++ beBytes 2 s.length ++ s

/-- The body of the script tag, from the keys and values of the text tags, and where its duration is. -/
def onMetadataBody (textTags : List (List UInt8 × List UInt8)) : List UInt8 × Nat :=
  let head := writeAmf0String onMetaDataName ++ [amf0EcmaArray] ++ beBytes 4 (textTags.length + 1) ++
    beBytes 2 durationKey.length ++ durationKey ++ [amf0Number]
  let properties := textTags.flatMap fun property =>
    beBytes 2 property.1.length ++ property.1 ++ writeAmf0String property.2
  (head ++ List.replicate 8 0 ++ properties ++ beBytes 2 0 ++ [amf0ObjectEnd], head.length)

/-! ## The muxer -/

structure FlvMuxer where
  tags : List (List UInt8 × List UInt8)
  video : Option FlvCodec
  audio : Option FlvCodec
  videoConfig : List UInt8
  audioConfig : List UInt8
  audioFlags : UInt8
  headerWritten : Bool
  durationAt : Option Nat

namespace FlvMuxer

def newAv (video : Option FlvCodec) (videoConfig : List UInt8) (audio : Option FlvCodec) (audioConfig : List UInt8) :
    FlvMuxer where
  tags := []
  video
  audio
  videoConfig
  audioConfig
  audioFlags := audio.elim 0 fun codec => audioTagFlags codec 2 44100
  headerWritten := false
  durationAt := none

def new (codec : FlvCodec) : FlvMuxer :=
  newAv (if codec.track = .video then some codec else none) [] (if codec.track = .audio then some codec else none) []

/-- The file header, the script tag and the configurations, once. -/
def writeHeader (m : FlvMuxer) : FlvMuxer × List UInt8 :=
  if m.headerWritten then (m, [])
  else
    let flags := (if m.video.isSome then flvFlagVideo else 0) ||| (if m.audio.isSome then flvFlagAudio else 0)
    let header := putFileHeader flags
    let script := onMetadataBody m.tags
    let videoTag :=
      if m.video = some .h264 ∧ m.videoConfig ≠ [] then
        emitTag tagVideo 0 [[0x17, 0x00, 0x00, 0x00, 0x00], m.videoConfig]
      else []
    let audioTag :=
      if m.audio = some .aac ∧ m.audioConfig ≠ [] then emitTag tagAudio 0 [[m.audioFlags, 0x00], m.audioConfig]
      else []
    ({ m with headerWritten := true, durationAt := some (header.length + tagHeaderLen + script.2) },
      header ++ emitTag tagScript 0 [script.1] ++ videoTag ++ audioTag)

def videoFirst (codec : FlvCodec) (keyframe : Bool) : UInt8 :=
  let frameType : UInt8 := if keyframe then 1 else 2
  (frameType <<< 4) ||| codec.tagId

/-- What is ahead of a video access unit: the first byte, and for H.264 the packet type and the offset. -/
def videoPrefix (codec : FlvCodec) (ctsMs : Int) (keyframe : Bool) : List UInt8 :=
  if codec = .h264 then
    let cts := (max (-(2 ^ 23)) (min ctsMs (2 ^ 23 - 1)) % 2 ^ 24).toNat
    [videoFirst codec keyframe, 0x01] ++ beBytes 3 cts
  else [videoFirst codec keyframe]

def pushVideo (m : FlvMuxer) (au : List UInt8) (dtsMs : Nat) (ctsMs : Int) (keyframe : Bool) : FlvMuxer × List UInt8 :=
  let written := m.writeHeader
  let codec := m.video.getD .h264
  (written.1, written.2 ++ emitTag tagVideo dtsMs [videoPrefix codec ctsMs keyframe, au])

def audioPrefix (m : FlvMuxer) : List UInt8 := if m.audio = some .aac then [m.audioFlags, 0x01] else [m.audioFlags]

def pushAudio (m : FlvMuxer) (au : List UInt8) (ptsMs : Nat) : FlvMuxer × List UInt8 :=
  let written := m.writeHeader
  (written.1, written.2 ++ emitTag tagAudio ptsMs [m.audioPrefix, au])

end FlvMuxer

/-! ## Runs -/

/-- An access unit for the muxer. -/
inductive Push where
  | video (au : List UInt8) (dtsMs : Nat) (ctsMs : Int) (keyframe : Bool)
  | audio (au : List UInt8) (ptsMs : Nat)

namespace FlvMuxer

def push (m : FlvMuxer) : Push → FlvMuxer × List UInt8
  | .video au dtsMs ctsMs keyframe => m.pushVideo au dtsMs ctsMs keyframe
  | .audio au ptsMs => m.pushAudio au ptsMs

/-- The bytes of a run, one after the other. -/
def run (m : FlvMuxer) : List Push → List UInt8
  | [] => []
  | p :: ps => (m.push p).2 ++ (m.push p).1.run ps

/-! ## The file of a run -/

end FlvMuxer

/-- A tag to be written: its type, its timestamp and its body. -/
structure Written where
  tagType : UInt8
  timestampMs : Nat
  body : List UInt8

namespace Written

def bytes (w : Written) : List UInt8 := putTagHeader w.tagType w.timestampMs w.body.length ++ w.body

/-- The tags of a file, each with its size behind it. -/
def file (ws : List Written) : List UInt8 :=
  ws.flatMap fun w => w.bytes ++ beBytes 4 (tagHeaderLen + w.body.length)

def Fits (w : Written) : Prop := w.timestampMs < 2 ^ 32 ∧ w.body.length < 2 ^ 24

end Written

namespace FlvMuxer

variable {m : FlvMuxer}

/-- The tags ahead of the first access unit. -/
def leading (m : FlvMuxer) : List Written :=
  let videoTag : List Written :=
    if m.video = some .h264 ∧ m.videoConfig ≠ [] then
      [{ tagType := tagVideo, timestampMs := 0, body := [0x17, 0x00, 0x00, 0x00, 0x00] ++ m.videoConfig }]
    else []
  let audioTag : List Written :=
    if m.audio = some .aac ∧ m.audioConfig ≠ [] then
      [{ tagType := tagAudio, timestampMs := 0, body := [m.audioFlags, 0x00] ++ m.audioConfig }]
    else []
  [{ tagType := tagScript, timestampMs := 0, body := (onMetadataBody m.tags).1 }] ++ videoTag ++ audioTag

/-- The tag of an access unit. -/
def written (m : FlvMuxer) : Push → Written
  | .video au dtsMs ctsMs keyframe =>
    { tagType := tagVideo, timestampMs := dtsMs, body := videoPrefix (m.video.getD .h264) ctsMs keyframe ++ au }
  | .audio au ptsMs => { tagType := tagAudio, timestampMs := ptsMs, body := m.audioPrefix ++ au }

def fileFlags (m : FlvMuxer) : UInt8 :=
  (if m.video.isSome then flvFlagVideo else 0) ||| (if m.audio.isSome then flvFlagAudio else 0)

theorem emitTag_eq (tagType : UInt8) (ptsMs : Nat) (parts : List (List UInt8)) : emitTag tagType ptsMs parts =
      Written.file [{ tagType, timestampMs := ptsMs, body := parts.flatten }] := by
  unfold emitTag Written.file Written.bytes
  simp only [flatMap_cons, flatMap_nil, append_nil]

theorem file_append (a b : List Written) : Written.file (a ++ b) = Written.file a ++ Written.file b :=
  flatMap_append

theorem file_cons (w : Written) (ws : List Written) : Written.file (w :: ws) = Written.file [w] ++ Written.file ws :=
  file_append [w] ws

theorem emitTag_two (tagType : UInt8) (ptsMs : Nat) (head body : List UInt8) :
    emitTag tagType ptsMs [head, body] = Written.file [{ tagType, timestampMs := ptsMs, body := head ++ body }] := by
  rw [emitTag_eq, flatten_cons, flatten_singleton]

theorem file_ite {P : Prop} [Decidable P] (w : Written) :
    Written.file (if P then [w] else []) = if P then Written.file [w] else [] := by
  split_ifs
  · rfl
  · rfl

theorem writeHeader_first (h : m.headerWritten = false) :
    m.writeHeader.2 = putFileHeader m.fileFlags ++ Written.file m.leading := by
  have hnot : ¬ m.headerWritten = true := by
    rw [h]
    exact Bool.false_ne_true
  unfold writeHeader leading
  rw [if_neg hnot]
  dsimp only
  rw [file_append, file_append, file_ite, file_ite, emitTag_two, emitTag_two, emitTag_eq, flatten_singleton,
    append_assoc, append_assoc, append_assoc]
  rfl

theorem writeHeader_later (h : m.headerWritten = true) : m.writeHeader = (m, []) := by
  unfold writeHeader
  rw [if_pos h]

theorem writeHeader_spec (m : FlvMuxer) : m.writeHeader.1.headerWritten = true ∧ m.writeHeader.1.video = m.video ∧
    m.writeHeader.1.audio = m.audio ∧ m.writeHeader.1.audioFlags = m.audioFlags := by
  unfold writeHeader
  by_cases h : m.headerWritten = true
  · rw [if_pos h]
    exact ⟨h, rfl, rfl, rfl⟩
  · rw [if_neg h]
    exact ⟨rfl, rfl, rfl, rfl⟩

theorem written_congr {m m' : FlvMuxer} (hvideo : m'.video = m.video) (haudio : m'.audio = m.audio)
    (hflags : m'.audioFlags = m.audioFlags) : m'.written = m.written := by
  funext p
  unfold written audioPrefix
  rw [hvideo, haudio, hflags]

theorem push_eq (m : FlvMuxer) (p : Push) :
    m.push p = (m.writeHeader.1, m.writeHeader.2 ++ Written.file [m.written p]) := by
  cases p with
  | video au dtsMs ctsMs keyframe =>
    unfold push pushVideo
    dsimp only
    rw [emitTag_two]
    rfl
  | audio au ptsMs =>
    unfold push pushAudio
    dsimp only
    rw [emitTag_two]
    rfl

theorem run_later (h : m.headerWritten = true) (ps : List Push) : m.run ps = Written.file (ps.map m.written) := by
  induction ps generalizing m with
  | nil => rfl
  | cons p ps ih =>
    have hpush := push_eq m p
    rw [writeHeader_later h] at hpush
    unfold run
    rw [hpush, ih h, map_cons, file_cons (m.written p) (ps.map m.written)]
    rfl

theorem run_eq (h : m.headerWritten = false) {ps : List Push} (hps : ps ≠ []) :
    m.run ps = putFileHeader m.fileFlags ++ Written.file (m.leading ++ ps.map m.written) := by
  cases ps with
  | nil => exact absurd rfl hps
  | cons p ps =>
    obtain ⟨hdone, hvideo, haudio, hflags⟩ := writeHeader_spec m
    unfold run
    rw [push_eq, run_later hdone, writeHeader_first h, written_congr hvideo haudio hflags, map_cons, file_append,
      file_cons (m.written p) (ps.map m.written)]
    simp only [append_assoc]

end FlvMuxer

end Glass2Glass.Flv
