import Glass2Glass.Flv.Muxer

/-!
# Demuxing undoes muxing

A file of tags is read tag by tag (`FlvDemuxer.file_reaches`), and the tag of an access unit gives the unit back
(`tag_written`). Without an audio track an audio unit is lost (`audio_unit_lost`); with the tracks that its units need, a
muxer writes what a demuxer reads (`demux_mux`).
-/

namespace Glass2Glass.Flv

open Words List Option
open Written (file bytes)

namespace FlvDemuxer

variable {d : FlvDemuxer} {ws : List Written} {z : List UInt8}

/-- What a tag that was written changes. -/
def read (d : FlvDemuxer) (w : Written) : FlvDemuxer :=
  d.tag { tagType := w.tagType &&& tagTypeMask, timestampMs := w.timestampMs } w.body

/-- A file of tags is read tag by tag, and the size of the last one waits. -/
theorem file_reaches (hdone : d.headerDone = true) (hz : z.length = 4) (hfits : ∀ w ∈ ws, w.Fits) :
    ∃ last, Resume.Reaches step { d with buf := z ++ file ws } { ws.foldl read d with buf := last } := by
  induction ws generalizing d z with
  | nil =>
    refine ⟨z, ?_⟩
    have hshort : tagAt z 0 = none := by
      exact if_pos (by rw [hz]; decide)
    have hempty : z ++ file [] = z := append_nil z
    rw [hempty]
    refine .waits ?_
    unfold step
    rw [if_pos hdone, hshort]
    rfl
  | cons w ws ih =>
    obtain ⟨htimestamp, hlength⟩ := hfits w mem_cons_self
    have hsplit : z ++ file (w :: ws) = z ++ (putTagHeader w.tagType w.timestampMs w.body.length ++
        (w.body ++ (beBytes 4 (tagHeaderLen + w.body.length) ++ file ws))) := by
      unfold file bytes
      simp only [flatMap_cons, append_assoc]
    have hfound := @tagAt_putTag w.body (beBytes 4 (tagHeaderLen + w.body.length) ++ file ws) z w.tagType
      w.timestampMs hz htimestamp hlength
    have hheader : (z ++ putTagHeader w.tagType w.timestampMs w.body.length).length = 15 := by
      rw [length_append, hz, length_putTagHeader]
    have hbody : slice (z ++ (putTagHeader w.tagType w.timestampMs w.body.length ++
        (w.body ++ (beBytes 4 (tagHeaderLen + w.body.length) ++ file ws)))) 15 w.body.length = w.body := by
      rw [← append_assoc z]
      exact slice_after hheader rfl
    have hrest : (z ++ (putTagHeader w.tagType w.timestampMs w.body.length ++
        (w.body ++ (beBytes 4 (tagHeaderLen + w.body.length) ++ file ws)))).drop (15 + w.body.length) =
        beBytes 4 (tagHeaderLen + w.body.length) ++ file ws := by
      rw [← append_assoc z, ← append_assoc, drop_left']
      rw [length_append, hheader]
    obtain ⟨last, hlast⟩ := @ih (d.read w) (beBytes 4 (tagHeaderLen + w.body.length)) hdone (length_beBytes _ _)
      fun w' hw' => hfits w' (mem_cons_of_mem _ hw')
    refine ⟨last, .step ?_ hlast⟩
    rw [hsplit]
    unfold step
    rw [if_pos hdone, hfound, map_some]
    rw [Nat.add_sub_cancel_left, hbody, hrest]
    rfl

theorem pushData_file (flags : UInt8) (hfits : ∀ w ∈ ws, w.Fits) :
    ∃ last, new.pushData (putFileHeader flags ++ file ws) =
      { ws.foldl read { new with headerDone := true } with buf := last } := by
  obtain ⟨last, hlast⟩ := @file_reaches { new with headerDone := true } ws (beBytes 4 0) rfl (length_beBytes _ _) hfits
  refine ⟨last, ?_⟩
  have hsplit : putFileHeader flags ++ file ws =
      flvSignature ++ [flvVersion, flags] ++ beBytes 4 flvHeaderMin ++ (beBytes 4 0 ++ file ws) := by
    unfold putFileHeader
    rw [append_assoc]
  have hlength : (flvSignature ++ [flvVersion, flags] ++ beBytes 4 flvHeaderMin).length = 9 := by
    rfl
  have hlen : fileHeaderLen (putFileHeader flags ++ file ws) = some 9 := by
    rw [hsplit]
    refine fileHeaderLen_append ?_ _
    unfold fileHeaderLen
    rfl
  have hsignature : (putFileHeader flags ++ file ws).take 3 = flvSignature := rfl
  have hstep := @step_header (new.append (putFileHeader flags ++ file ws)) 9 rfl hsignature hlen
  have hdrop : (putFileHeader flags ++ file ws).drop 9 = beBytes 4 0 ++ file ws := by
    rw [hsplit, drop_left' hlength]
  have hbuf : (new.append (putFileHeader flags ++ file ws)).buf =
      putFileHeader flags ++ file ws := rfl
  exact (parse_reaches _).unique (.step hstep hlast)

end FlvDemuxer

/-! ## Access units -/

namespace FlvMuxer

/-- The unit that is expected for an access unit. -/
def unitOf (m : FlvMuxer) : Push → FlvUnit
  | .video au dtsMs ctsMs keyframe =>
    { codec := m.video.getD .h264, data := au, ptsMs := (dtsMs + ctsMs).toNat, dtsMs, keyframe }
  | .audio au ptsMs => { codec := m.audio.getD .aac, data := au, ptsMs, dtsMs := ptsMs, keyframe := true }

/-- What an access unit has to be: of a track that there is, with times that have 32 bits, an offset that has 24 bits
and is zero except for H.264, and a body that a tag can hold, which is not empty for VP6. -/
def Accepts (m : FlvMuxer) : Push → Prop
  | .video au dtsMs ctsMs keyframe =>
    let codec := m.video.getD .h264
    dtsMs < 2 ^ 32 ∧ -(2 ^ 23) ≤ ctsMs ∧ ctsMs < 2 ^ 23 ∧ 0 ≤ dtsMs + ctsMs ∧ dtsMs + ctsMs ≤ 2 ^ 32 - 1 ∧
      (codec ≠ .h264 → ctsMs = 0) ∧ (codec = .vp6 ∨ codec = .vp6Alpha → au ≠ []) ∧
        (videoPrefix codec ctsMs keyframe ++ au).length < 2 ^ 24
  | .audio au ptsMs => m.audio.isSome ∧ ptsMs < 2 ^ 32 ∧ (m.audioPrefix ++ au).length < 2 ^ 24

/-- The tracks have codecs of their kind, and their configurations fit a tag. -/
structure Sound (m : FlvMuxer) : Prop where
  video : ∀ codec, m.video = some codec → codec.track = .video
  audio : ∀ codec, m.audio = some codec → codec.track = .audio ∧ m.audioFlags = audioTagFlags codec 2 44100
  videoConfig : 5 + m.videoConfig.length < 2 ^ 24
  audioConfig : 2 + m.audioConfig.length < 2 ^ 24
  tags : m.tags = []

variable {m : FlvMuxer} {p : Push}

theorem fits_written (h : m.Accepts p) : (m.written p).Fits := by
  cases p with
  | video au dtsMs ctsMs keyframe => exact ⟨h.1, h.2.2.2.2.2.2.2⟩
  | audio au ptsMs => exact ⟨h.2.1, h.2.2⟩

theorem signed24_cts {ctsMs : Int} (hlow : -(2 ^ 23) ≤ ctsMs) (hhigh : ctsMs < 2 ^ 23) :
    signed24 (beNat (beBytes 3 (max (-(2 ^ 23)) (min ctsMs (2 ^ 23 - 1)) % 2 ^ 24).toNat)) = ctsMs := by
  have hclamp : max (-(2 ^ 23)) (min ctsMs (2 ^ 23 - 1)) = ctsMs := by omega
  rw [hclamp, beNat_beBytes (by omega)]
  unfold signed24
  split_ifs with hsign <;> omega

theorem parseTag_eq {tagType first : UInt8} {timestamp pts : Nat} {rest : List UInt8} {codec : FlvCodec}
    {keyframe : Bool} (hcodec : tagCodec tagType first = some (codec, keyframe))
    (hpacket : codec = .h264 ∨ codec = .aac → rest[0]? = some 1)
    (hvp6 : codec = .vp6 ∨ codec = .vp6Alpha → rest ≠ [])
    (hpts : tagPts codec timestamp (first :: rest) = some pts) (hlong : payloadOffset codec ≤ rest.length) :
    parseTag tagType timestamp (first :: rest) = some
      { codec, data := rest.drop (payloadOffset codec), ptsMs := pts, dtsMs := timestamp, keyframe } := by
  have hbody : (first :: rest)[1]? = rest[0]? := rfl
  have hfirst : (first :: rest)[0]? = some first := rfl
  unfold parseTag
  rw [hfirst]
  dsimp only [bind_eq_bind, bind_some]
  rw [hcodec]
  dsimp only [bind_some]
  have hnotShort : ¬((codec = .h264 ∨ codec = .aac) ∧ (first :: rest)[1]? ≠ some 1) := fun hboth =>
    hboth.2 (hbody.trans (hpacket hboth.1))
  have hnotEmpty : ¬((codec = .vp6 ∨ codec = .vp6Alpha) ∧ (first :: rest).length < 2) := fun hboth => by
    have hpos := List.length_pos_iff.2 (hvp6 hboth.1)
    have hlt := hboth.2
    rw [length_cons] at hlt
    omega
  have hfits : ¬(first :: rest).length < 1 + payloadOffset codec := by
    rw [length_cons]
    omega
  rw [if_neg hnotShort, if_neg hnotEmpty, hpts]
  dsimp only [bind_some]
  rw [if_neg hfits, Nat.add_comm, drop_succ_cons]

theorem tagCodec_video {codec : FlvCodec} (htrack : codec.track = .video) (keyframe : Bool) :
    tagCodec tagVideo (videoFirst codec keyframe) = some (codec, keyframe) ∧
      (videoFirst codec keyframe &&& 0x0F = videoCodecAvc → codec = .h264) := by
  revert htrack
  cases codec <;> cases keyframe <;> decide

theorem tagCodec_audio {codec : FlvCodec} (htrack : codec.track = .audio) :
    tagCodec tagAudio (audioTagFlags codec 2 44100) = some (codec, true) ∧
      (audioTagFlags codec 2 44100 >>> 4 = soundFormatAac → codec = .aac) := by
  revert htrack
  cases codec <;> decide

theorem bind_zero_none {α : Type} {x : Option UInt8} (h : x ≠ some 0) (k : Option α) :
    (x.bind fun packetType => if packetType = 0 then k else none) = none := by
  cases x with
  | none => rfl
  | some packetType => exact if_neg fun hzero => h (congrArg some hzero)

theorem sequenceHeader_none {tagType first : UInt8} {rest : List UInt8}
    (hvideo : tagType = tagVideo → first &&& 0x0F = videoCodecAvc → rest[0]? ≠ some 0)
    (haudio : tagType = tagAudio → first >>> 4 = soundFormatAac → rest[0]? ≠ some 0) :
    sequenceHeader tagType (first :: rest) = none := by
  have hsecond : (first :: rest)[1]? = rest[0]? := rfl
  have hfirst : (first :: rest)[0]? = some first := rfl
  unfold sequenceHeader
  rw [hfirst, hsecond]
  dsimp only [bind_eq_bind, bind_some]
  by_cases htypeVideo : tagType = tagVideo
  · rw [if_pos htypeVideo]
    by_cases hid : first &&& 0x0F = videoCodecAvc
    · rw [if_pos hid]
      exact bind_zero_none (hvideo htypeVideo hid) _
    · rw [if_neg hid]
  · rw [if_neg htypeVideo]
    by_cases htypeAudio : tagType = tagAudio
    · rw [if_pos htypeAudio]
      by_cases hformat : first >>> 4 = soundFormatAac
      · rw [if_pos hformat]
        exact bind_zero_none (haudio htypeAudio hformat) _
      · rw [if_neg hformat]
    · rw [if_neg htypeAudio]

variable {d : FlvDemuxer} {w : Written}

theorem read_written {unit : FlvUnit} (htype : w.tagType ≠ tagScript)
    (hmask : w.tagType &&& tagTypeMask = w.tagType) (hheader : sequenceHeader w.tagType w.body = none)
    (hunit : parseTag w.tagType w.timestampMs w.body = some unit) :
    ∃ params, d.read w = { d with units := d.units ++ [unit], audioParams := params } := by
  unfold FlvDemuxer.read FlvDemuxer.tag Found.tag
  rw [hmask]
  rw [if_neg fun hboth => htype hboth.1, hheader, hunit]
  unfold FlvDemuxer.merge Found.nothing
  simp only [or_none, none_or, nil_append]
  exact ⟨_, rfl⟩

theorem video_unit (hm : m.Sound) {au : List UInt8} {dtsMs : Nat} {ctsMs : Int} {keyframe : Bool}
    (h : m.Accepts (.video au dtsMs ctsMs keyframe)) :
    sequenceHeader tagVideo (videoPrefix (m.video.getD .h264) ctsMs keyframe ++ au) = none ∧
      parseTag tagVideo dtsMs (videoPrefix (m.video.getD .h264) ctsMs keyframe ++ au) =
        some (m.unitOf (.video au dtsMs ctsMs keyframe)) := by
  obtain ⟨hdts, hlow, hhigh, hpos, hmax, hplain, hvp6, -⟩ := h
  have htrack : (m.video.getD .h264).track = .video := by
    cases hvideo : m.video with
    | none => rfl
    | some codec => exact hm.video codec hvideo
  unfold unitOf
  generalize m.video.getD .h264 = codec at hplain hvp6 htrack ⊢
  obtain ⟨hcodec, hconfig⟩ := tagCodec_video htrack keyframe
  unfold videoPrefix
  by_cases havc : codec = .h264
  · rw [if_pos havc]
    have hsplit : [videoFirst codec keyframe, 0x01] ++
        beBytes 3 (max (-(2 ^ 23)) (min ctsMs (2 ^ 23 - 1)) % 2 ^ 24).toNat ++ au =
        videoFirst codec keyframe :: (0x01 :: (beBytes 3 (max (-(2 ^ 23)) (min ctsMs (2 ^ 23 - 1)) % 2 ^ 24).toNat ++
          au)) := rfl
    rw [hsplit]
    have hcts := signed24_cts hlow hhigh
    have hlength : (beBytes 3 (max (-(2 ^ 23)) (min ctsMs (2 ^ 23 - 1)) % 2 ^ 24).toNat).length = 3 :=
      length_beBytes _ _
    generalize beBytes 3 (max (-(2 ^ 23)) (min ctsMs (2 ^ 23 - 1)) % 2 ^ 24).toNat = cts at hcts hlength
    refine ⟨sequenceHeader_none (fun _ _ hzero => by cases hzero) (fun haudio => by cases haudio), ?_⟩
    have hpts : tagPts codec dtsMs (videoFirst codec keyframe :: (0x01 :: (cts ++ au))) =
        some (dtsMs + ctsMs).toNat := by
      have hslice : slice (videoFirst codec keyframe :: (0x01 :: (cts ++ au))) 2 3 = cts := by
        rw [slice_succ_cons, slice_succ_cons, slice_append_left hlength]
      unfold tagPts
      rw [if_pos havc, hslice, hcts, if_neg]
      · congr 2
        omega
      · rw [length_cons, length_cons, length_append, hlength]
        omega
    have hparse := parseTag_eq hcodec (fun _ => rfl) (fun _ hnil => by cases hnil) hpts (by
      rw [havc, length_cons, length_append, hlength]
      unfold payloadOffset
      dsimp only
      omega)
    rw [hparse, havc]
    have hdata : (0x01 :: (cts ++ au)).drop (payloadOffset .h264) = au := by
      unfold payloadOffset
      rw [drop_succ_cons, drop_left' hlength]
    rw [hdata]
  · rw [if_neg havc, singleton_append]
    have hoffset : payloadOffset codec = 0 := by
      revert htrack havc
      cases codec <;> decide
    have haac : codec ≠ .aac := by
      rintro rfl
      cases htrack
    refine ⟨sequenceHeader_none (fun _ hid => absurd (hconfig hid) havc) (fun haudio => by cases haudio), ?_⟩
    have hpts : tagPts codec dtsMs (videoFirst codec keyframe :: au) = some dtsMs := if_neg havc
    have hparse := parseTag_eq hcodec (fun hboth => (hboth.elim havc haac).elim) hvp6 hpts
      (by rw [hoffset]; exact Nat.zero_le _)
    rw [hparse, hoffset, drop_zero, hplain havc]
    dsimp only
    rw [Int.add_zero, Int.toNat_natCast]

theorem audio_unit (hm : m.Sound) {au : List UInt8} {ptsMs : Nat} (h : m.Accepts (.audio au ptsMs)) :
    sequenceHeader tagAudio (m.audioPrefix ++ au) = none ∧
      parseTag tagAudio ptsMs (m.audioPrefix ++ au) = some (m.unitOf (.audio au ptsMs)) := by
  obtain ⟨hsome, -, -⟩ := h
  obtain ⟨codec, haudio⟩ := Option.isSome_iff_exists.1 hsome
  obtain ⟨htrack, hflags⟩ := hm.audio codec haudio
  obtain ⟨hcodec, hconfig⟩ := tagCodec_audio htrack
  have hpts (body : List UInt8) : tagPts codec ptsMs body = some ptsMs := by
    refine if_neg ?_
    rintro rfl
    cases htrack
  have hvp6 {P : Prop} (hvideo : codec = .vp6 ∨ codec = .vp6Alpha) : P := by
    rcases hvideo with rfl | rfl <;> cases htrack
  unfold unitOf audioPrefix
  rw [haudio, hflags, getD_some]
  by_cases haac : codec = .aac
  · subst haac
    refine ⟨sequenceHeader_none (fun hvideo => by cases hvideo) (fun _ _ hzero => by cases hzero), ?_⟩
    exact parseTag_eq hcodec (fun _ => rfl) (fun hvideo => hvp6 hvideo) (hpts _) (Nat.succ_le_succ (Nat.zero_le _))
  · have hne : some codec ≠ some FlvCodec.aac := fun hsame => haac (Option.some.inj hsame)
    rw [if_neg hne, singleton_append]
    have hoffset : payloadOffset codec = 0 := by
      revert htrack haac
      cases codec <;> decide
    have havc : codec ≠ .h264 := by
      rintro rfl
      cases htrack
    refine ⟨sequenceHeader_none (fun hvideo => by cases hvideo) (fun _ hid => absurd (hconfig hid) haac), ?_⟩
    have hparse := parseTag_eq hcodec (fun hboth => (hboth.elim havc haac).elim) (fun hvideo => hvp6 hvideo) (hpts _)
      (by rw [hoffset]; exact Nat.zero_le au.length)
    rw [hparse, hoffset, drop_zero]

/-! ## The file of a run -/

theorem video_type : tagVideo ≠ tagScript ∧ tagVideo &&& tagTypeMask = tagVideo := by decide

theorem audio_type : tagAudio ≠ tagScript ∧ tagAudio &&& tagTypeMask = tagAudio := by decide

theorem read_units (hm : m.Sound) {ps : List Push} (hps : ∀ p ∈ ps, m.Accepts p) (d : FlvDemuxer) :
    ∃ params, (ps.map m.written).foldl FlvDemuxer.read d =
      { d with units := d.units ++ ps.map m.unitOf, audioParams := params } := by
  induction ps generalizing d with
  | nil =>
    refine ⟨d.audioParams, ?_⟩
    rw [map_nil, map_nil, append_nil]
    rfl
  | cons p ps ih =>
    have haccepts := hps p mem_cons_self
    have hread : ∃ params, d.read (m.written p) =
        { d with units := d.units ++ [m.unitOf p], audioParams := params } := by
      cases p with
      | video au dtsMs ctsMs keyframe =>
        obtain ⟨hheader, hunit⟩ := video_unit hm haccepts
        exact @read_written d (m.written (.video au dtsMs ctsMs keyframe)) _ video_type.1 video_type.2 hheader hunit
      | audio au ptsMs =>
        obtain ⟨hheader, hunit⟩ := audio_unit hm haccepts
        exact @read_written d (m.written (.audio au ptsMs)) _ audio_type.1 audio_type.2 hheader hunit
    obtain ⟨params, hread⟩ := hread
    obtain ⟨last, hlast⟩ := ih (fun p' hp' => hps p' (mem_cons_of_mem _ hp'))
      { d with units := d.units ++ [m.unitOf p], audioParams := params }
    refine ⟨last, ?_⟩
    rw [map_cons, foldl_cons, hread, hlast, map_cons]
    rw [append_assoc, singleton_append]

theorem read_videoConfig {config : List UInt8} (htype : w.tagType = tagVideo)
    (hheader : sequenceHeader tagVideo w.body = some (.video, config)) :
    d.read w = { d with videoConfig := some config } := by
  have hmask : w.tagType &&& tagTypeMask = tagVideo := by rw [htype, video_type.2]
  unfold FlvDemuxer.read FlvDemuxer.tag Found.tag
  rw [hmask, if_neg fun hboth => video_type.1 hboth.1, hheader]
  unfold FlvDemuxer.merge Found.nothing
  simp only [or_none, none_or, append_nil, some_or]

theorem read_audioConfig {config : List UInt8} (htype : w.tagType = tagAudio)
    (hheader : sequenceHeader tagAudio w.body = some (.audio, config)) :
    d.read w = { d with audioConfig := some config } := by
  have hmask : w.tagType &&& tagTypeMask = tagAudio := by rw [htype, audio_type.2]
  unfold FlvDemuxer.read FlvDemuxer.tag Found.tag
  rw [hmask, if_neg fun hboth => audio_type.1 hboth.1, hheader]
  unfold FlvDemuxer.merge Found.nothing
  simp only [or_none, none_or, append_nil, some_or]

theorem read_script (htype : w.tagType = tagScript) (hmetadata : d.metadata = none) :
    d.read w = { d with metadata := some w.body } := by
  have hmask : w.tagType &&& tagTypeMask = tagScript := by rw [htype]; decide
  unfold FlvDemuxer.read FlvDemuxer.tag Found.tag
  rw [hmask, if_pos ⟨rfl, rfl⟩]
  unfold FlvDemuxer.merge Found.nothing
  simp only [hmetadata, or_none, none_or, append_nil]

def writtenVideoConfig (m : FlvMuxer) : Option (List UInt8) :=
  if m.video = some .h264 ∧ m.videoConfig ≠ [] then some m.videoConfig else none

def writtenAudioConfig (m : FlvMuxer) : Option (List UInt8) :=
  if m.audio = some .aac ∧ m.audioConfig ≠ [] then some m.audioConfig else none

theorem read_leading (hm : m.Sound) : ∃ metadata, m.leading.foldl FlvDemuxer.read
      { FlvDemuxer.new with headerDone := true } =
    { FlvDemuxer.new with
      headerDone := true
      metadata
      videoConfig := m.writtenVideoConfig
      audioConfig := m.writtenAudioConfig } := by
  refine ⟨some (onMetadataBody m.tags).1, ?_⟩
  unfold leading writtenVideoConfig writtenAudioConfig
  rw [foldl_append, foldl_append, foldl_cons, foldl_nil, read_script rfl rfl]
  have haudio (d : FlvDemuxer) (haac : m.audio = some .aac) :
      d.read { tagType := tagAudio, timestampMs := 0, body := [m.audioFlags, 0x00] ++ m.audioConfig } =
        { d with audioConfig := some m.audioConfig } := by
    have hflags := (hm.audio _ haac).2
    refine read_audioConfig rfl ?_
    rw [hflags]
    rfl
  have hvideo (d : FlvDemuxer) :
      d.read { tagType := tagVideo, timestampMs := 0, body := [0x17, 0x00, 0x00, 0x00, 0x00] ++ m.videoConfig } =
        { d with videoConfig := some m.videoConfig } := read_videoConfig rfl rfl
  split_ifs with hwritten hconfig hconfig
  · rw [foldl_cons, foldl_nil, foldl_cons, foldl_nil, hvideo, haudio _ hconfig.1]
  · rw [foldl_cons, foldl_nil, foldl_nil, hvideo]
    rfl
  · rw [foldl_cons, foldl_nil, foldl_nil, haudio _ hconfig.1]
    rfl
  · rfl

theorem fits_leading (hm : m.Sound) : ∀ w ∈ m.leading, w.Fits := by
  intro w hw
  unfold leading at hw
  rcases List.mem_append.1 hw with hw | haudio
  · rcases List.mem_append.1 hw with hscript | hvideo
    · rw [List.mem_singleton.1 hscript, hm.tags]
      exact ⟨by decide, by decide⟩
    · split_ifs at hvideo
      · rw [List.mem_singleton.1 hvideo]
        refine ⟨Nat.two_pow_pos 32, lt_of_eq_of_lt ?_ hm.videoConfig⟩
        exact length_append
      · cases hvideo
  · split_ifs at haudio
    · rw [List.mem_singleton.1 haudio]
      refine ⟨Nat.two_pow_pos 32, lt_of_eq_of_lt ?_ hm.audioConfig⟩
      exact length_append
    · cases haudio

/-! ## The round trip -/

/-- A muxer for tracks of their kind, with configurations that fit a tag. -/
inductive Built : FlvMuxer → Prop
  | new (codec : FlvCodec) : Built (new codec)
  | newAv {video audio : Option FlvCodec} {videoConfig audioConfig : List UInt8} :
      (∀ codec, video = some codec → codec.track = .video) → (∀ codec, audio = some codec → codec.track = .audio) →
        5 + videoConfig.length < 2 ^ 24 → 2 + audioConfig.length < 2 ^ 24 →
          Built (newAv video videoConfig audio audioConfig)

theorem Built.sound (h : m.Built) : m.Sound ∧ m.headerWritten = false := by
  have hav {video audio : Option FlvCodec} {videoConfig audioConfig : List UInt8}
      (hvideo : ∀ codec, video = some codec → codec.track = .video)
      (haudio : ∀ codec, audio = some codec → codec.track = .audio) (hvc : 5 + videoConfig.length < 2 ^ 24)
      (hac : 2 + audioConfig.length < 2 ^ 24) : (FlvMuxer.newAv video videoConfig audio audioConfig).Sound := by
    refine ⟨hvideo, fun codec hcodec => ⟨haudio codec hcodec, ?_⟩, hvc, hac, rfl⟩
    change audio = some codec at hcodec
    rw [hcodec]
    rfl
  cases h with
  | new codec =>
    refine ⟨hav (fun c hc => ?_) (fun c hc => ?_) (by decide) (by decide), rfl⟩
    · split_ifs at hc with htrack
      cases hc
      exact htrack
    · split_ifs at hc with htrack
      cases hc
      exact htrack
  | newAv hvideo haudio hvc hac => exact ⟨hav hvideo haudio hvc hac, rfl⟩

theorem pushData_run (h : m.Built) {ps : List Push} (hps : ∀ p ∈ ps, m.Accepts p) (hsome : ps ≠ []) :
    (FlvDemuxer.new.pushData (m.run ps)).units = ps.map m.unitOf ∧
      (FlvDemuxer.new.pushData (m.run ps)).videoConfig = m.writtenVideoConfig ∧
      (FlvDemuxer.new.pushData (m.run ps)).audioConfig = m.writtenAudioConfig := by
  obtain ⟨hm, hnot⟩ := h.sound
  have hfits : ∀ w ∈ m.leading ++ ps.map m.written, w.Fits := by
    intro w hw
    rcases List.mem_append.1 hw with hleading | hunit
    · exact fits_leading hm w hleading
    · obtain ⟨p, hp, rfl⟩ := List.mem_map.1 hunit
      exact fits_written (hps p hp)
  obtain ⟨last, hlast⟩ := FlvDemuxer.pushData_file m.fileFlags hfits
  obtain ⟨metadata, hleading⟩ := read_leading hm
  obtain ⟨params, hunits⟩ := read_units hm hps { FlvDemuxer.new with
      headerDone := true
      metadata
      videoConfig := m.writtenVideoConfig
      audioConfig := m.writtenAudioConfig }
  rw [run_eq hnot hsome, hlast, foldl_append, hleading, hunits]
  exact ⟨nil_append _, rfl, rfl⟩

theorem foldl_empty {pieces : List (List UInt8)} (h : pieces.flatten = []) :
    pieces.foldl FlvDemuxer.pushData FlvDemuxer.new = FlvDemuxer.new := by
  induction pieces with
  | nil => rfl
  | cons piece pieces ih =>
    rw [flatten_cons, append_eq_nil_iff] at h
    rw [foldl_cons, h.1]
    exact ih h.2

/-- A unit of a track that the muxer does not have is lost, and a video track of an audio codec comes out as another
one. -/
theorem audio_unit_lost : (FlvDemuxer.new.pushData ((new .h264).run [.audio [1] 0])).units = [] ∧
      (FlvDemuxer.new.pushData ((newAv (some .mp3) [] none []).run [.video [1] 0 0 true])).units.map (·.codec) =
        [.sorensonH263] := by
  decide

end FlvMuxer

open FlvDemuxer FlvMuxer in
/-- Whatever the pieces are and whenever units are taken, a demuxer gives out the units that a muxer was given, with the
configurations that it wrote. The pieces of a file make no difference at all. -/
theorem demux_mux : (∀ (m : FlvMuxer) (ps : List Push) (ops : List Feed), m.Built → (∀ p ∈ ps, m.Accepts p) →
      (ops.filterMap Feed.piece).flatten = m.run ps →
        (ops.foldl feed ([], new)).1 ++ (ops.foldl feed ([], new)).2.units = ps.map m.unitOf ∧
        (ps ≠ [] → (ops.foldl feed ([], new)).2.videoConfig = m.writtenVideoConfig ∧
          (ops.foldl feed ([], new)).2.audioConfig = m.writtenAudioConfig)) ∧
    ∀ pieces pieces' : List (List UInt8), pieces.flatten = pieces'.flatten → pieces.flatten.take 3 = flvSignature →
      fileHeaderLen pieces.flatten ≠ none → pieces.foldl pushData new = pieces'.foldl pushData new := by
  refine ⟨fun m ps ops hm hps hbytes => ?_, fun pieces pieces' hsame hsignature _ => ?_⟩
  · have hrun : untaken (ops.foldl feed ([], new)) = (ops.filterMap Feed.piece).foldl pushData new :=
      untaken_run ops ([], new)
    by_cases hsome : ps = []
    · subst hsome
      rw [foldl_empty hbytes] at hrun
      exact ⟨congrArg FlvDemuxer.units hrun, fun hne => absurd rfl hne⟩
    · have hsignature : (ops.filterMap Feed.piece).flatten.take 3 = flvSignature := by
        rw [hbytes, run_eq hm.sound.2 hsome]
        rfl
      obtain ⟨hunits, hvideo, haudio⟩ := pushData_run hm hps hsome
      rw [pieces_eq hsignature, hbytes] at hrun
      exact ⟨(congrArg FlvDemuxer.units hrun).trans hunits, fun _ =>
        ⟨(congrArg FlvDemuxer.videoConfig hrun).trans hvideo, (congrArg FlvDemuxer.audioConfig hrun).trans haudio⟩⟩
  · rw [pieces_eq hsignature, pieces_eq (hsame ▸ hsignature), hsame]

open FlvDemuxer FlvMuxer in
/-- A frame of H.264 that is shown later than it is decoded, and a frame of AAC, in pieces of one byte. -/
theorem demux_mux_offset : ∃ ops : List Feed, (ops.filterMap Feed.piece).flatten =
      (FlvMuxer.newAv (some .h264) [1] (some .aac) [0x12, 0x10]).run [.video [9, 9] 40 80 true, .audio [7] 41] ∧
    (ops.foldl feed ([], new)).1 ++ (ops.foldl feed ([], new)).2.units =
      [{ codec := .h264, data := [9, 9], ptsMs := 120, dtsMs := 40, keyframe := true },
        { codec := .aac, data := [7], ptsMs := 41, dtsMs := 41, keyframe := true }] := by
  have hbuilt : Built (FlvMuxer.newAv (some .h264) [1] (some .aac) [0x12, 0x10]) := by
    refine .newAv (fun codec h => ?_) (fun codec h => ?_) (by decide) (by decide)
    · cases h
      rfl
    · cases h
      rfl
  have haccepts : ∀ p ∈ [Push.video [9, 9] 40 80 true, Push.audio [7] 41],
      (FlvMuxer.newAv (some .h264) [1] (some .aac) [0x12, 0x10]).Accepts p := by
    intro p hp
    rcases List.mem_cons.1 hp with rfl | hp
    · exact ⟨by decide, by decide, by decide, by decide, by decide, fun hne => absurd rfl hne,
        fun hvp6 => absurd hvp6 (by decide), by decide⟩
    · rw [List.mem_singleton.1 hp]
      exact ⟨by decide, by decide, by decide⟩
  have hbytes : ((((FlvMuxer.newAv (some .h264) [1] (some .aac) [0x12, 0x10]).run
      [.video [9, 9] 40 80 true, .audio [7] 41]).map fun b => Feed.push [b]).filterMap Feed.piece).flatten =
        (FlvMuxer.newAv (some .h264) [1] (some .aac) [0x12, 0x10]).run
          [.video [9, 9] 40 80 true, .audio [7] 41] := by decide
  exact ⟨_, hbytes, (demux_mux.1 _ _ _ hbuilt haccepts hbytes).1⟩

end Glass2Glass.Flv
