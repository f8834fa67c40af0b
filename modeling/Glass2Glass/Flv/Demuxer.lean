import Glass2Glass.Flv.Tag
import Glass2Glass.Lib.Resume

/-!
# The FLV demuxer

The demuxer (`FlvDemuxer` in `g2g-plugins/src/flv.rs`) reads the file header once and then every whole tag. It works tag
by tag (`FlvDemuxer.parse_reaches`), so the pieces in which a file arrives do not matter (`FlvDemuxer.pieces_eq`).
-/

namespace Glass2Glass.Flv

open Words List Option

/-- An access unit, with its codec and its times. -/
structure FlvUnit where
  codec : FlvCodec
  data : List UInt8
  ptsMs : Nat
  dtsMs : Nat
  keyframe : Bool

/-- The decoder configuration of a tag that carries one. -/
def sequenceHeader (tagType : UInt8) (body : List UInt8) : Option (FlvTrack × List UInt8) := do
  if tagType = tagVideo then
    let first : UInt8 ← body[0]?
    if first &&& 0x0F = videoCodecAvc then
      let packetType : UInt8 ← body[1]?
      if packetType = 0 then
        if body.length < 5 then none else some (.video, body.drop 5)
      else none
    else none
  else if tagType = tagAudio then
    let first : UInt8 ← body[0]?
    if first >>> 4 = soundFormatAac then
      let packetType : UInt8 ← body[1]?
      if packetType = 0 then
        if body.length < 2 then none else some (.audio, body.drop 2)
      else none
    else none
  else none

/-- A number of 24 bits with a sign. -/
def signed24 (v : Nat) : Int := if v < 2 ^ 23 then v else v - 2 ^ 24

/-- The codec of a tag, and whether a decoder can start there. -/
def tagCodec (tagType first : UInt8) : Option (FlvCodec × Bool) :=
  if tagType = tagVideo then (FlvCodec.fromVideoId (first &&& 0x0F)).map fun codec => (codec, first >>> 4 = 1)
  else if tagType = tagAudio then (FlvCodec.fromSoundFormat (first >>> 4)).map fun codec => (codec, true)
  else none

/-- The presentation time: only H.264 has an offset, and the sum is clamped. -/
def tagPts (codec : FlvCodec) (timestamp : Nat) (body : List UInt8) : Option Nat :=
  if codec = .h264 then
    if body.length < 5 then none
    else some (max 0 (min (timestamp + signed24 (beNat (slice body 2 3))) (2 ^ 32 - 1))).toNat
  else some timestamp

/-- The access unit of a tag, if it has one that can be read. -/
def parseTag (tagType : UInt8) (timestamp : Nat) (body : List UInt8) : Option FlvUnit := do
  let first : UInt8 ← body[0]?
  let (codec, keyframe) ← tagCodec tagType first
  if (codec = .h264 ∨ codec = .aac) ∧ body[1]? ≠ some 1 then none
  else if (codec = .vp6 ∨ codec = .vp6Alpha) ∧ body.length < 2 then none
  else
    let ptsMs ← tagPts codec timestamp body
    if body.length < 1 + payloadOffset codec then none
    else some { codec, data := body.drop (1 + payloadOffset codec), ptsMs, dtsMs := timestamp, keyframe }

structure FlvDemuxer where
  buf : List UInt8
  headerDone : Bool
  units : List FlvUnit
  metadata : Option (List UInt8)
  videoConfig : Option (List UInt8)
  audioConfig : Option (List UInt8)
  audioParams : Option (Nat × Nat)

/-- What one run of the parser found. -/
structure Found where
  units : List FlvUnit
  metadata : Option (List UInt8)
  videoConfig : Option (List UInt8)
  audioConfig : Option (List UInt8)
  audioParams : Option (Nat × Nat)

def Found.nothing : Found where
  units := []
  metadata := none
  videoConfig := none
  audioConfig := none
  audioParams := none

/-- One tag. The parameters of the audio are those of the first audio tag. -/
def Found.tag (known : Option (Nat × Nat)) (f : Found) (tag : FlvTagHeader) (body : List UInt8) : Found :=
  if tag.tagType = tagScript ∧ f.metadata = none then { f with metadata := some body }
  else
    match sequenceHeader tag.tagType body with
    | some (.video, config) => { f with videoConfig := some config }
    | some (.audio, config) => { f with audioConfig := some config }
    | none =>
      match parseTag tag.tagType tag.timestampMs body with
      | some unit =>
        { f with
          units := f.units ++ [unit]
          audioParams :=
            if f.audioParams = none ∧ known = none then audioTagParams unit.codec (body.getD 0 0) else f.audioParams }
      | none => f

/-- Every whole tag from a place on, and where the last one ends. -/
def parseTags (known : Option (Nat × Nat)) (buf : List UInt8) : Nat → Nat → Found → Found × Nat
  | 0, pos, f => (f, pos)
  | fuel + 1, pos, f =>
    match tagAt buf pos with
    | none => (f, pos)
    | some (tag, bodyStart, bodyEnd) =>
      parseTags known buf fuel bodyEnd (f.tag known tag (slice buf bodyStart (bodyEnd - bodyStart)))

namespace FlvDemuxer

def new : FlvDemuxer where
  buf := []
  headerDone := false
  units := []
  metadata := none
  videoConfig := none
  audioConfig := none
  audioParams := none

section

variable (d : FlvDemuxer)

/-- Add what was found to what is known. -/
def merge (f : Found) : FlvDemuxer :=
  { d with
    units := d.units ++ f.units
    metadata := d.metadata.or f.metadata
    videoConfig := f.videoConfig.or d.videoConfig
    audioConfig := f.audioConfig.or d.audioConfig
    audioParams := d.audioParams.or f.audioParams }

def parseFrom (pos : Nat) : FlvDemuxer :=
  let (found, pos) := parseTags d.audioParams d.buf (d.buf.length + 1) pos .nothing
  { d.merge found with buf := d.buf.drop pos }

/-- Parse the header, once, and the tags that are there. Without the signature the bytes are dropped. -/
def parse : FlvDemuxer :=
  if d.headerDone then d.parseFrom 0
  else if d.buf.length < flvHeaderMin then d
  else if d.buf.take 3 ≠ flvSignature then { d with buf := [] }
  else
    match fileHeaderLen d.buf with
    | none => d
    | some dataOffset => parseFrom { d with headerDone := true } dataOffset

def append (data : List UInt8) : FlvDemuxer := { d with buf := d.buf ++ data }

def pushData (data : List UInt8) : FlvDemuxer := (d.append data).parse

def takeUnits : List FlvUnit × FlvDemuxer := (d.units, { d with units := [] })

/-! ## Tag by tag -/

def tag (d : FlvDemuxer) (tag : FlvTagHeader) (body : List UInt8) : FlvDemuxer :=
  d.merge (Found.nothing.tag d.audioParams tag body)

/-- The header, or the next tag. -/
def step : Option FlvDemuxer :=
  if d.headerDone then
    (tagAt d.buf 0).map fun found =>
      { d.tag found.1 (slice d.buf found.2.1 (found.2.2 - found.2.1)) with buf := d.buf.drop found.2.2 }
  else if d.buf.length < flvHeaderMin then none
  else if d.buf.take 3 ≠ flvSignature then some { d with buf := [] }
  else (fileHeaderLen d.buf).map fun dataOffset => { d with headerDone := true, buf := d.buf.drop dataOffset }

end

/-! ## The run and the steps -/

variable {d d' : FlvDemuxer} {f : Found} {buf body : List UInt8} {pos fuel : Nat} {t : FlvTagHeader}

theorem script_only {timestamp : Nat} : sequenceHeader tagScript body = none ∧ parseTag tagScript timestamp body = none := by
  constructor
  · rfl
  · unfold parseTag
    cases body[0]? <;> rfl

theorem tag_script_first {known : Option (Nat × Nat)} (hscript : t.tagType = tagScript) (hmetadata : f.metadata = none) :
    f.tag known t body = { f with metadata := some body } := if_pos ⟨hscript, hmetadata⟩

theorem tag_script_later {known : Option (Nat × Nat)} {script : List UInt8} (hscript : t.tagType = tagScript)
    (hmetadata : f.metadata = some script) : f.tag known t body = f := by
  obtain ⟨hheader, hunit⟩ := @script_only body t.timestampMs
  unfold Found.tag
  rw [if_neg fun hboth => some_ne_none _ (hmetadata.symm.trans hboth.2), hscript, hheader, hunit]

theorem merge_tag : d.merge (f.tag d.audioParams t body) = (d.merge f).tag t body := by
  unfold tag
  by_cases hscript : t.tagType = tagScript
  · rw [@tag_script_first .nothing _ _ _ hscript rfl]
    cases hknown : f.metadata with
    | none =>
      rw [tag_script_first hscript hknown]
      unfold merge Found.nothing
      simp only [hknown, or_none, append_nil, none_or]
    | some script =>
      rw [tag_script_later hscript hknown]
      have hkept : (d.metadata.or (some script)).or (some body) = d.metadata.or (some script) := by
        cases d.metadata <;> rfl
      unfold merge Found.nothing
      simp only [hknown, or_none, append_nil, none_or, hkept]
  · unfold Found.tag
    rw [if_neg fun hboth => hscript hboth.1, if_neg fun hboth => hscript hboth.1]
    cases sequenceHeader t.tagType body with
    | some header =>
      obtain ⟨track, config⟩ := header
      cases track <;>
        · unfold merge Found.nothing
          simp only [or_none, append_nil, none_or, some_or]
    | none =>
      cases parseTag t.tagType t.timestampMs body with
      | none =>
        unfold merge Found.nothing
        simp only [or_none, append_nil, none_or]
      | some unit =>
        unfold merge Found.nothing
        have hparams : d.audioParams.or (if f.audioParams = none ∧ d.audioParams = none then
              audioTagParams unit.codec (body.getD 0 0) else f.audioParams) =
            (d.audioParams.or f.audioParams).or (if (none : Option (Nat × Nat)) = none ∧
              d.audioParams.or f.audioParams = none then
              audioTagParams unit.codec (body.getD 0 0) else none) := by
          cases d.audioParams <;> cases f.audioParams <;> simp
        simp only [or_none, none_or, append_assoc, nil_append, hparams]

theorem parseTags_reaches (hdone : d.headerDone = true) (hpos : pos ≤ buf.length) (hfuel : buf.length < pos + fuel) :
    Resume.Reaches step { d.merge f with buf := buf.drop pos }
      { d.merge (parseTags d.audioParams buf fuel pos f).1 with
        buf := buf.drop (parseTags d.audioParams buf fuel pos f).2 } := by
  induction fuel generalizing pos f with
  | zero => omega
  | succ fuel ih =>
    have hstep : step { d.merge f with buf := buf.drop pos } = (tagAt (buf.drop pos) 0).map fun found =>
        { (d.merge f).tag found.1 (slice (buf.drop pos) found.2.1 (found.2.2 - found.2.1)) with
          buf := (buf.drop pos).drop found.2.2 } := if_pos hdone
    rw [tagAt_drop hpos, Option.map_map] at hstep
    unfold parseTags
    cases hfound : tagAt buf pos with
    | none =>
      rw [hfound] at hstep
      exact .waits hstep
    | some found =>
      obtain ⟨t, bodyStart, bodyEnd⟩ := found
      obtain ⟨hstart, hle, hend⟩ := tagAt_bounds hfound
      rw [hfound, map_some] at hstep
      dsimp only [Function.comp_apply] at hstep
      have hbody : slice (buf.drop pos) (bodyStart - pos) (bodyEnd - pos - (bodyStart - pos)) =
          slice buf bodyStart (bodyEnd - bodyStart) := by
        rw [slice_drop]
        congr 1 <;> omega
      have hrest : (buf.drop pos).drop (bodyEnd - pos) = buf.drop bodyEnd := by
        rw [drop_drop]
        congr 1
        omega
      rw [hbody, hrest, ← merge_tag] at hstep
      exact .step hstep (ih hend (by omega))

theorem parseFrom_reaches (hdone : d.headerDone = true) (hpos : pos ≤ d.buf.length) :
    Resume.Reaches step { d with buf := d.buf.drop pos } (d.parseFrom pos) := by
  have hfuel : d.buf.length < pos + (d.buf.length + 1) := by omega
  have hreaches := @parseTags_reaches d .nothing d.buf pos _ hdone hpos hfuel
  have hnothing : d.merge .nothing = d := by
    unfold merge Found.nothing
    simp only [or_none, append_nil, none_or]
  rw [hnothing] at hreaches
  exact hreaches

theorem fileHeaderLen_le {len : Nat} (h : fileHeaderLen buf = some len) : len ≤ buf.length := by
  unfold fileHeaderLen at h
  dsimp only at h
  split_ifs at h with hmin hlen
  cases h
  omega

theorem step_header {len : Nat} (hdone : d.headerDone = false) (hsignature : d.buf.take 3 = flvSignature)
    (hlen : fileHeaderLen d.buf = some len) : step d = some { d with headerDone := true, buf := d.buf.drop len } := by
  have hnot : ¬ d.headerDone = true := by
    rw [hdone]
    exact Bool.false_ne_true
  have hmin : ¬ d.buf.length < flvHeaderMin := fun hshort => by
    unfold fileHeaderLen at hlen
    rw [if_pos hshort] at hlen
    cases hlen
  unfold step
  rw [if_neg hnot, if_neg hmin, if_neg (not_not.2 hsignature), hlen, map_some]

theorem parse_reaches (d : FlvDemuxer) : Resume.Reaches step d d.parse := by
  by_cases hdone : d.headerDone = true
  · have hreaches := parseFrom_reaches hdone (Nat.zero_le _)
    unfold parse
    rw [if_pos hdone]
    exact hreaches
  · have hstep : step d = if d.buf.length < flvHeaderMin then none
        else if d.buf.take 3 ≠ flvSignature then some { d with buf := [] }
        else (fileHeaderLen d.buf).map fun dataOffset =>
          { d with headerDone := true, buf := d.buf.drop dataOffset } := if_neg hdone
    unfold parse
    split_ifs with hmin hsignature
    · rw [if_pos hmin] at hstep
      exact .waits hstep
    · rw [if_neg hmin, if_pos hsignature] at hstep
      refine .step hstep (.waits ?_)
      unfold step
      rw [if_neg hdone]
      exact if_pos (Nat.zero_lt_succ 8)
    · rw [if_neg hmin, if_neg hsignature] at hstep
      cases hlen : fileHeaderLen d.buf with
      | none =>
        rw [hlen] at hstep
        exact .waits hstep
      | some len =>
        rw [hlen] at hstep
        have hreaches := @parseFrom_reaches { d with headerDone := true } len rfl (fileHeaderLen_le hlen)
        exact .step hstep hreaches

/-! ## Pieces of a file -/

/-- The header was read, or the bytes that wait have the signature. -/
def Signed (d : FlvDemuxer) : Prop := d.headerDone = true ∨ d.buf.take 3 = flvSignature

theorem fileHeaderLen_append {len : Nat} (h : fileHeaderLen buf = some len) (more : List UInt8) :
    fileHeaderLen (buf ++ more) = some len := by
  unfold fileHeaderLen flvDataOffsetAt flvHeaderMin at h ⊢
  dsimp only at h ⊢
  split_ifs at h with hmin hlen
  rw [slice_append_of_le (by omega), length_append, if_neg (by omega), if_neg (by omega)]
  exact h

/-- A step with the bytes so far is the step with more bytes. -/
theorem resumable : Resume.Resumable step append Signed := by
  refine Resume.resumable_of_append (fun d => ?_) (fun d a b => ?_) fun {d d'} hstep more hsigned => ?_
  · show { d with buf := d.buf ++ [] } = d
    rw [append_nil]
  · show { d with buf := d.buf ++ a ++ b } = { d with buf := d.buf ++ (a ++ b) }
    rw [append_assoc]
  · unfold step at hstep
    by_cases hdone : d.headerDone = true
    · rw [if_pos hdone] at hstep
      obtain ⟨⟨t, bodyStart, bodyEnd⟩, hfound, rfl⟩ := Option.map_eq_some_iff.1 hstep
      obtain ⟨-, hle, hend⟩ := tagAt_bounds hfound
      refine ⟨Or.inl hdone, ?_⟩
      have happend : step (d.append more) = (tagAt (d.buf ++ more) 0).map fun found =>
          { d.tag found.1 (slice (d.buf ++ more) found.2.1 (found.2.2 - found.2.1)) with
            buf := (d.buf ++ more).drop found.2.2 } := if_pos hdone
      rw [happend, tagAt_append hfound, map_some]
      dsimp only
      rw [slice_append_of_le (by omega), drop_append_of_le_length hend]
      rfl
    · rw [if_neg hdone] at hstep
      have hwhole : (d.buf ++ more).take 3 = flvSignature := by
        rcases hsigned with hyes | htake
        · exact absurd hyes hdone
        · exact htake
      split_ifs at hstep with hmin hsignature
      · -- Bytes without the signature are not the start of a file.
        have htake : d.buf.take 3 = flvSignature := by
          rw [← hwhole, take_append_of_le_length]
          unfold flvHeaderMin at hmin
          omega
        exact absurd htake hsignature
      · obtain ⟨len, hlen, rfl⟩ := Option.map_eq_some_iff.1 hstep
        refine ⟨Or.inl rfl, ?_⟩
        have happend : step (d.append more) = if (d.buf ++ more).length < flvHeaderMin then none
            else if (d.buf ++ more).take 3 ≠ flvSignature then some { d with buf := [] }
            else (fileHeaderLen (d.buf ++ more)).map fun dataOffset =>
              { d with headerDone := true, buf := (d.buf ++ more).drop dataOffset } := if_neg hdone
        have hmin' : ¬(d.buf ++ more).length < flvHeaderMin := by
          rw [length_append]
          omega
        rw [happend, if_neg hmin', if_neg (not_not.2 hwhole), fileHeaderLen_append hlen, map_some,
          drop_append_of_le_length (fileHeaderLen_le hlen)]
        rfl

theorem new_waits : step new = none := rfl

theorem pieces_eq {pieces : List (List UInt8)} (hsigned : pieces.flatten.take 3 = flvSignature) :
    pieces.foldl pushData new = new.pushData pieces.flatten := by
  have hpieces := Resume.reaches_pieces resumable (fun d piece => parse_reaches (d.append piece)) new_waits pieces
    (Or.inr hsigned)
  exact hpieces.unique (parse_reaches _)

/-! ## Units that are taken out -/

/-- A piece arrives, or the units so far are taken. -/
inductive Feed where
  | push (piece : List UInt8)
  | take

/-- What was taken, and the demuxer. -/
def feed : List FlvUnit × FlvDemuxer → Feed → List FlvUnit × FlvDemuxer
  | (taken, d), .push piece => (taken, d.pushData piece)
  | (taken, d), .take => (taken ++ d.takeUnits.1, d.takeUnits.2)

def Feed.piece : Feed → Option (List UInt8)
  | .push piece => some piece
  | .take => none

variable (s : List FlvUnit × FlvDemuxer)

/-- A demuxer that was never asked for its units. -/
def untaken : FlvDemuxer := { s.2 with units := s.1 ++ s.2.units }

theorem pushData_units (d : FlvDemuxer) (taken : List FlvUnit) (piece : List UInt8) :
    pushData { d with units := taken ++ d.units } piece =
      { d.pushData piece with units := taken ++ (d.pushData piece).units } := by
  unfold pushData parse append parseFrom merge
  split_ifs
  · dsimp only
    rw [append_assoc]
  · rfl
  · rfl
  · cases fileHeaderLen (d.buf ++ piece) with
    | none => rfl
    | some len =>
      dsimp only
      rw [append_assoc]

theorem untaken_push (piece : List UInt8) :
    untaken (feed s (.push piece)) = (untaken s).pushData piece := (pushData_units s.2 s.1 piece).symm

theorem untaken_take : untaken (feed s .take) = untaken s := by
  unfold untaken feed takeUnits
  simp only [append_nil]

theorem untaken_run (ops : List Feed) (s : List FlvUnit × FlvDemuxer) :
    untaken (ops.foldl feed s) = (ops.filterMap Feed.piece).foldl pushData (untaken s) := by
  induction ops generalizing s with
  | nil => rfl
  | cons op ops ih =>
    rw [foldl_cons, ih]
    cases op with
    | push piece =>
      have hpiece : Feed.piece (.push piece) = some piece := rfl
      rw [untaken_push, filterMap_cons_some hpiece, foldl_cons]
    | take =>
      have htake : Feed.piece .take = none := rfl
      rw [untaken_take, filterMap_cons_none htake]

end FlvDemuxer

end Glass2Glass.Flv
