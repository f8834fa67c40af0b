import Glass2Glass.Gst.Tag

/-!
# Descriptions that parse back

Which caps the parser reads back from their own description. Two media types are printed that the
parser does not know, and a MOV tag is printed without escaping what separates fields, trims or
closes a string. `fromGstString_toGstString_iff` states that everything else is read back.
-/

namespace Glass2Glass.Gst

open Text List
open Option (join_some bind_eq_bind bind_some map_some)

/-! ## The caps and their fields -/

/-- The container tag of a codec that is known by its tag only. -/
def videoTag : VideoCodec → Option CodecTag
  | .tagged tag => some tag
  | _ => none

/-- The container tag of an audio format that is known by its tag only. -/
def audioTag : AudioFormat → Option CodecTag
  | .tagged tag => some tag
  | _ => none

def videoFields (codec : VideoCodec) (width height : Dim) (framerate : Rate)
    (colorimetry : Colorimetry) (alignment : BitstreamAlignment) : FieldTexts :=
  [("variant", (proResVariant codec).map fun v => (proResGstName v).toList),
    ("width", dimGstValue width), ("height", dimGstValue height),
    ("framerate", rateGstValue framerate), ("colorimetry", colorimetryToGstString colorimetry),
    ("alignment", (alignmentGstName alignment).map String.toList)]

def rawFields (format : RawVideoFormat) (width height : Dim) (framerate : Rate)
    (interlace : Interlace) (colorimetry : Colorimetry) : FieldTexts :=
  [("format", some (rawGstName format).toList), ("width", dimGstValue width),
    ("height", dimGstValue height), ("framerate", rateGstValue framerate),
    ("interlace-mode", if interlace = .interleaved then some "interleaved".toList else none),
    ("colorimetry", colorimetryToGstString colorimetry)]

def audioFields (format : AudioFormat) (channels : UInt8) (sampleRate : UInt32)
    (channelLayout : ChannelLayout) : FieldTexts :=
  [("format", (audioGstMediaType format).2.map String.toList),
    ("channels", if channels ≠ 0 then some (decimal channels.toNat) else none),
    ("rate", if sampleRate ≠ ANY_SAMPLE_RATE ∧ sampleRate ≠ 0 then
      some (decimal sampleRate.toNat) else none),
    ("channel-mask", channelMaskValue channelLayout)]

theorem toGstString_compressedVideo (codec : VideoCodec) (w h : Dim) (r : Rate) (cl : Colorimetry)
    (al : BitstreamAlignment) : toGstString (.compressedVideo codec w h r cl al) =
      printFields (codecGstMediaType codec) (videoFields codec w h r cl al) := by
  rfl

variable (f : RawVideoFormat) (w h : Dim) (r : Rate)

theorem toGstString_rawVideo (i : Interlace) (cl : Colorimetry) : toGstString (.rawVideo f w h r i cl) =
      printFields "video/x-raw".toList (rawFields f w h r i cl) := by
  rfl

theorem toGstString_audio (f : AudioFormat) (ch : UInt8) (sr : UInt32) (l : ChannelLayout) :
    toGstString (.audio f ch sr l) = printFields (audioGstMediaType f).1 (audioFields f ch sr l) := by
  rfl

theorem fieldOk_of_declared {fields : FieldTexts} (keys : List String)
    (hkeys : fields.map Prod.fst = keys) (hnames : ∀ k ∈ keys, Word k.toList ∧ '=' ∉ k.toList)
    (hvalues : ∀ f ∈ fields, ∀ v, f.2 = some v → IsValue v) : ∀ f ∈ declared fields, FieldOk f := by
  intro f hf
  obtain ⟨entry, hentry, hsome⟩ := List.mem_filterMap.1 hf
  obtain ⟨v, hv, rfl⟩ := Option.map_eq_some_iff.1 hsome
  have hname := hnames entry.1 (hkeys ▸ mem_map_of_mem hentry)
  have hvalue := hvalues entry hentry v hv
  exact ⟨⟨hname.1, hname.2, hvalue.scan⟩, hvalue⟩

theorem fieldOk_videoFields (codec : VideoCodec) (w h : Dim) (r : Rate) (cl : Colorimetry)
    (al : BitstreamAlignment) : ∀ f ∈ declared (videoFields codec w h r cl al), FieldOk f := by
  have hvariants : ∀ v : ProResVariant, Word (proResGstName v).toList := by
    intro v
    cases v <;> decide
  have halignments : ∀ al name, alignmentGstName al = some name → Word name.toList := by
    intro al name h
    cases al <;> cases h <;> decide
  refine fieldOk_of_declared ["variant", "width", "height", "framerate", "colorimetry", "alignment"]
    rfl (by decide) ?_
  simp only [videoFields, forall_mem_cons, not_mem_nil, false_imp_iff, implies_true, and_true, Option.map_eq_some_iff]
  refine ⟨?_, fun _ => isValue_dimGstValue, fun _ => isValue_dimGstValue,
    fun _ => isValue_rateGstValue, fun _ h => .inl (word_colorimetryToGstString h), ?_⟩
  · rintro _ ⟨v, -, rfl⟩
    exact .inl (hvariants v)
  · rintro _ ⟨name, hname, rfl⟩
    exact .inl (halignments al name hname)

theorem fieldOk_rawFields (i : Interlace) (cl : Colorimetry) : ∀ e ∈ declared (rawFields f w h r i cl), FieldOk e := by
  have hformats : ∀ f : RawVideoFormat, Word (rawGstName f).toList := by
    intro f
    cases f <;> decide
  refine fieldOk_of_declared ["format", "width", "height", "framerate", "interlace-mode", "colorimetry"]
    rfl (by decide) ?_
  simp only [rawFields, forall_mem_cons, not_mem_nil, false_imp_iff, implies_true,
    and_true, Option.ite_none_right_eq_some, Option.some.injEq]
  refine ⟨?_, fun _ => isValue_dimGstValue, fun _ => isValue_dimGstValue,
    fun _ => isValue_rateGstValue, ?_, fun _ h => .inl (word_colorimetryToGstString h)⟩
  · rintro _ rfl
    exact .inl (hformats f)
  · rintro _ ⟨-, rfl⟩
    exact .inl (by decide)

theorem fieldOk_audioFields (f : AudioFormat) (ch : UInt8) (sr : UInt32) (l : ChannelLayout) :
    ∀ e ∈ declared (audioFields f ch sr l), FieldOk e := by
  have hformats : ∀ f name, (audioGstMediaType f).2 = some name → Word name.toList := by
    intro f name h
    cases f <;> cases h <;> decide
  refine fieldOk_of_declared ["format", "channels", "rate", "channel-mask"] rfl (by decide) ?_
  simp only [audioFields, forall_mem_cons, not_mem_nil, false_imp_iff, implies_true,
    and_true, Option.ite_none_right_eq_some, Option.some.injEq, Option.map_eq_some_iff]
  refine ⟨?_, ?_, ?_, fun _ h => .inl (word_channelMaskValue h)⟩
  · rintro _ ⟨name, hname, rfl⟩
    exact .inl (hformats f name hname)
  · rintro _ ⟨-, rfl⟩
    exact .inl (word_decimal _)
  · rintro _ ⟨-, rfl⟩
    exact .inl (word_decimal _)

/-! ## Reading the fields -/

theorem compressedSet_videoFields (printed codec : VideoCodec) (w h : Dim) (r : Rate)
    (cl : Colorimetry) (al : BitstreamAlignment) : compressedSet (readFields (videoFields printed w h r cl al)) codec =
      some (.one (.compressedVideo codec w h r cl al)) := by
  have hnodup : ((videoFields printed w h r cl al).map Prod.fst).Nodup := by
    show ["variant", "width", "height", "framerate", "colorimetry", "alignment"].Nodup
    decide
  have halignment : expandAlignment (((alignmentGstName al).map String.toList).map parseFieldVal) =
      some al := by
    cases al <;> decide
  simp only [compressedSet, fieldOf_readFields hnodup]
  simp only [videoFields, lookup_cons, String.reduceBEq, join_some, expandDim_dimGstValue,
    expandRate_rateGstValue, expandColorimetry_toGstString, halignment, bind_eq_bind,
    bind_some]
  rfl

theorem rawVideoSet_rawFields {i : Interlace} (hi : i ≠ .progressive) (cl : Colorimetry) :
    rawVideoSet (readFields (rawFields f w h r i cl)) = some (.one (.rawVideo f w h r i cl)) := by
  have hnodup : ((rawFields f w h r i cl).map Prod.fst).Nodup := by
    show ["format", "width", "height", "framerate", "interlace-mode", "colorimetry"].Nodup
    decide
  have hformat : expandRawFormat ((some (rawGstName f).toList).map parseFieldVal) = some [f] := by
    have hword : Word (rawGstName f).toList := by cases f <;> decide
    rw [map_some, hword.parseFieldVal, expandRawFormat, expand, parseRawFormat_rawGstName, map_some]
  have hinterlace : expandInterlace ((if i = .interleaved then some "interleaved".toList else none).map parseFieldVal) =
      some i := by
    cases i with
    | progressive => exact absurd rfl hi
    | any => rfl
    | interleaved => decide
  simp only [rawVideoSet, fieldOf_readFields hnodup]
  simp only [rawFields, lookup_cons, String.reduceBEq, join_some, hformat,
    expandDim_dimGstValue, expandRate_rateGstValue, hinterlace, expandColorimetry_toGstString,
    bind_eq_bind, bind_some]
  rfl

theorem expandU8_channels (ch : UInt8) :
    expandU8 ANY_CHANNELS ((if ch ≠ 0 then some (decimal ch.toNat) else none).map parseFieldVal) =
      some [ch] := by
  split_ifs with h
  · rw [map_some, (word_decimal _).parseFieldVal, expandU8, expand, parseU8,
      parseBelow_decimal ch.toNat_lt, map_some, map_some, UInt8.ofNat_toNat]
  · obtain rfl := not_not.1 h
    rfl

theorem expandU32_rate (sr : UInt32) : expandU32 ANY_SAMPLE_RATE
    ((if sr ≠ ANY_SAMPLE_RATE ∧ sr ≠ 0 then some (decimal sr.toNat) else none).map parseFieldVal) =
      some [sr] := by
  split_ifs with h
  · rw [map_some, (word_decimal _).parseFieldVal, expandU32, expand, parseU32_decimal, map_some]
  · obtain rfl : sr = 0 := by
      by_contra hne
      exact h ⟨hne, hne⟩
    rfl

theorem audioSet_audioFields (printed format : AudioFormat) (ch : UInt8) (sr : UInt32)
    (l : ChannelLayout) : audioSet (readFields (audioFields printed ch sr l)) [format] =
      some (.one (.audio format ch sr l)) := by
  have hnodup : ((audioFields printed ch sr l).map Prod.fst).Nodup := by
    show ["format", "channels", "rate", "channel-mask"].Nodup
    decide
  simp only [audioSet, fieldOf_readFields hnodup]
  simp only [audioFields, lookup_cons, String.reduceBEq, join_some,
    expandChannelMask_value, expandU8_channels, expandU32_rate, bind_eq_bind,
    bind_some]
  rfl

theorem proResSet_videoFields (v : ProResVariant) (w h : Dim) (r : Rate) (cl : Colorimetry) (al : BitstreamAlignment) :
    proResSet (readFields (videoFields (.proRes v) w h r cl al)) =
      some (.one (.compressedVideo (.proRes v) w h r cl al)) := by
  have hnodup : ((videoFields (.proRes v) w h r cl al).map Prod.fst).Nodup := by
    show ["variant", "width", "height", "framerate", "colorimetry", "alignment"].Nodup
    decide
  have hvariant : expandVariant ((some (proResGstName v).toList).map parseFieldVal) = some [v] := by
    have hword : Word (proResGstName v).toList := by cases v <;> decide
    rw [map_some, hword.parseFieldVal, expandVariant, expand, proResFromGstName_proResGstName, map_some]
  have hfield : fieldOf (readFields (videoFields (.proRes v) w h r cl al)) "variant" =
      (some (proResGstName v).toList).map parseFieldVal := by
    rw [fieldOf_readFields hnodup]
    rfl
  simp only [proResSet, hfield, hvariant, bind_eq_bind, bind_some, mapM_cons,
    mapM_nil, compressedSet_videoFields]
  rfl

theorem rawAudioSet_audioFields {f : AudioFormat} {name : String} (hf : pcmGstFormat f = some name)
    (hmedia : (audioGstMediaType f).2 = some name) (nested : List Char → Option CapsSet)
    (ch : UInt8) (sr : UInt32) (l : ChannelLayout) :
    MediaType.rawAudio.capsSet nested (readFields (audioFields f ch sr l)) = some (.one (.audio f ch sr l)) := by
  have hnodup : ((audioFields f ch sr l).map Prod.fst).Nodup := by
    show ["format", "channels", "rate", "channel-mask"].Nodup
    decide
  have hword : Word name.toList := by
    cases f <;> cases hmedia <;> decide
  have hfield : fieldOf (readFields (audioFields f ch sr l)) "format" = some (.one name.toList) := by
    rw [fieldOf_readFields hnodup, audioFields, lookup_cons_self, hmedia, map_some,
      join_some, map_some, hword.parseFieldVal]
  have hformat : expandAudioFormat (some (.one name.toList)) = some [f] := by
    rw [expandAudioFormat, expand, parseAudioFormat_pcmGstFormat hf, map_some]
  rw [MediaType.capsSet, hfield, hformat]
  exact audioSet_audioFields f f ch sr l

/-! ## Media types without a tag -/

/-- What the parser takes the media type of a codec for. -/
def codecMediaType : VideoCodec → MediaType
  | .proRes _ => .proRes
  | codec => .compressed codec

/-- What the parser takes the media type of an audio format for. -/
def audioMediaType (f : AudioFormat) : MediaType := if isPcm f then .rawAudio else .audio f

/-- A media type that is one untrimmed part, names no tag and is in the parser's table as `t`. -/
def mediaReads (media : List Char) (t : MediaType) : Bool :=
  scan .top media == some .top && trim media == media && isUntagged media && named mediaTypes media == some t

theorem fromGstString_printFields {media : List Char} {t : MediaType} (h : mediaReads media t)
    {fields : FieldTexts} (hfields : ∀ f ∈ declared fields, FieldCloses f) :
    fromGstString (printFields media fields) = t.capsSet fromGstString (readFields fields) := by
  simp only [mediaReads, Bool.and_eq_true, beq_iff_eq] at h
  obtain ⟨⟨⟨hscan, htrim⟩, htag⟩, hnamed⟩ := h
  rw [fromGstString_eq, fromDescription_printFields _ hscan (fun _ => rfl) hfields, htrim,
    describedSet_of_isUntagged htag, hnamed, bind_some]

theorem mediaReads_codec {codec : VideoCodec} (htag : videoTag codec = none)
    (hjpegXs : codec ≠ .jpegXs) (hmpeg4 : codec ≠ .mpeg4Part2) (hmpeg2 : codec ≠ .mpeg2) :
    mediaReads (codecGstMediaType codec) (codecMediaType codec) := by
  have hall : ∀ codec ∈ [.h264, .h265, .av1, .vp8, .vp9, .mjpeg, .png, .webP,
      .sorensonH263, .vp6 false, .vp6 true, .vc1, .pnm, .vp6Plain, .theora, .proRes .proxy, .dnxHd],
      mediaReads (codecGstMediaType codec) (codecMediaType codec) := by decide
  cases codec with
  | tagged tag => cases htag
  | jpegXs => exact absurd rfl hjpegXs
  | mpeg4Part2 => exact absurd rfl hmpeg4
  | mpeg2 => exact absurd rfl hmpeg2
  | vp6 alpha => cases alpha <;> exact hall _ (by decide)
  | proRes v => exact hall (.proRes .proxy) (by decide)
  | _ => exact hall _ (by decide)

theorem mediaReads_audio {f : AudioFormat} (htag : audioTag f = none) (hmp2 : f ≠ .mp2)
    (hmp3 : f ≠ .mp3) : mediaReads (audioGstMediaType f).1 (audioMediaType f) := by
  have hall : ∀ f ∈ [.aac, .opus, .ac3, .speex, .flac, .vorbis, .pcmS16Le, .pcmF32Le,
      .pcmS24Le, .pcmS32Le, .pcmU8, .mulaw, .alaw, .imaAdpcm],
      mediaReads (audioGstMediaType f).1 (audioMediaType f) := by decide
  cases f with
  | tagged tag => cases htag
  | mp2 => exact absurd rfl hmp2
  | mp3 => exact absurd rfl hmp3
  | _ => exact hall _ (by decide)

theorem fromGstString_untaggedVideo {codec : VideoCodec} (htag : videoTag codec = none)
    (hjpegXs : codec ≠ .jpegXs) (hmpeg4 : codec ≠ .mpeg4Part2) (hmpeg2 : codec ≠ .mpeg2)
    (w h : Dim) (r : Rate) (cl : Colorimetry) (al : BitstreamAlignment) :
    fromGstString (toGstString (.compressedVideo codec w h r cl al)) =
      some (.one (.compressedVideo codec w h r cl al)) := by
  rw [toGstString_compressedVideo, fromGstString_printFields (mediaReads_codec htag hjpegXs hmpeg4 hmpeg2)
      fun f hf => (fieldOk_videoFields codec w h r cl al f hf).toFieldCloses]
  cases codec with
  | proRes v => exact proResSet_videoFields v w h r cl al
  | _ => exact compressedSet_videoFields _ _ w h r cl al

theorem fromGstString_untaggedAudio {f : AudioFormat} (htag : audioTag f = none) (hmp2 : f ≠ .mp2)
    (hmp3 : f ≠ .mp3) (ch : UInt8) (sr : UInt32) (l : ChannelLayout) :
    fromGstString (toGstString (.audio f ch sr l)) = some (.one (.audio f ch sr l)) := by
  rw [toGstString_audio, fromGstString_printFields (mediaReads_audio htag hmp2 hmp3)
    fun e he => (fieldOk_audioFields f ch sr l e he).toFieldCloses, audioMediaType]
  split_ifs with hpcm
  · obtain ⟨name, hname, hmedia⟩ : ∃ name, pcmGstFormat f = some name ∧
        (audioGstMediaType f).2 = some name := by
      cases f <;> first | exact ⟨_, rfl, rfl⟩ | simp [isPcm] at hpcm
    exact rawAudioSet_audioFields hname hmedia _ ch sr l
  · exact audioSet_audioFields f f ch sr l

theorem fromGstString_rawVideo {i : Interlace} (hi : i ≠ .progressive) (cl : Colorimetry) :
    fromGstString (toGstString (.rawVideo f w h r i cl)) = some (.one (.rawVideo f w h r i cl)) := by
  have hmedia : mediaReads "video/x-raw".toList .rawVideo := by decide
  rw [toGstString_rawVideo, fromGstString_printFields hmedia
    fun e he => (fieldOk_rawFields f w h r i cl e he).toFieldCloses]
  exact rawVideoSet_rawFields f w h r hi cl

/-! ## Tags -/

variable (tag : CodecTag)

/-- A container tag that is read back: every RIFF tag, and the MOV tags of `movReads`. -/
def tagReads (followed : Bool) : Bool :=
  match tag.tagNamespace with
  | .riff => true
  | .mov => movReads tag.tag followed

theorem printFields_riff (kind : StreamKind) (tag : UInt32) (fields : FieldTexts) :
    printFields (taggedGstMediaType kind ⟨.riff, tag⟩) fields =
      printFields (riffMedia kind) ((riffTagField kind, some (decimal tag.toNat)) :: fields) := by
  have hpush : taggedGstMediaType kind ⟨.riff, tag⟩ =
      pushField (riffMedia kind) (riffTagField kind) (some (decimal tag.toNat)) := by
    simp only [taggedGstMediaType, pushField, riffMedia, append_assoc, cons_append]
  rw [hpush]
  rfl

theorem taggedGstMediaType_mov (kind : StreamKind) (tag : UInt32) :
    taggedGstMediaType kind ⟨.mov, tag⟩ = movMedia kind (fourcc tag) := by
  simp only [taggedGstMediaType, movMedia, append_assoc, cons_append]

/-- A tag is read back with the fields after it. -/
theorem fromGstString_tagged {kind : StreamKind} {tag : CodecTag} {fields : FieldTexts}
    (h : tagReads tag (!(declared fields).isEmpty)) (hfields : ∀ f ∈ declared fields, FieldCloses f) :
    ∃ read, fromGstString (printFields (taggedGstMediaType kind tag) fields) = taggedSet kind read tag ∧
      ∀ key, key ≠ riffTagField kind → fieldOf read key = fieldOf (readFields fields) key := by
  obtain ⟨_ | _, tag⟩ := tag
  · have hword : Word (riffTagField kind).toList := by cases kind <;> decide
    have hequals : '=' ∉ (riffTagField kind).toList := by cases kind <;> decide
    have hvalue := word_decimal tag.toNat
    have hall : ∀ f ∈ declared ((riffTagField kind, some (decimal tag.toNat)) :: fields),
        FieldCloses f := List.forall_mem_cons.2 ⟨⟨hword, hequals, hvalue.scan _⟩, hfields⟩
    have hscan : scan .top (riffMedia kind) = some .top := by cases kind <;> decide
    have htrim : trim (riffMedia kind) = riffMedia kind := by cases kind <;> decide
    have hread : readFields ((riffTagField kind, some (decimal tag.toNat)) :: fields) =
        ((riffTagField kind).toList, parseFieldVal (decimal tag.toNat)) :: readFields fields := rfl
    refine ⟨readFields ((riffTagField kind, some (decimal tag.toNat)) :: fields), ?_, ?_⟩
    · rw [printFields_riff, fromGstString_eq, fromDescription_printFields _ hscan (fun _ => rfl) hall,
        htrim, describedSet_riffMedia]
      rw [hread, hvalue.parseFieldVal]
      simp [fieldOf]
    · intro key hkey
      have hne : ¬ (riffTagField kind).toList = key.toList := fun heq =>
        hkey (String.toList_injective heq).symm
      simp [hread, fieldOf, hne]
  · refine ⟨readFields fields, ?_, fun _ _ => rfl⟩
    rw [taggedGstMediaType_mov, fromGstString_eq, fromDescription_movMedia h hfields]

theorem tagReads_of_fromGstString {kind : StreamKind} {tag : CodecTag} {fields : FieldTexts} {s : CapsSet}
    (hread : fromGstString (printFields (taggedGstMediaType kind tag) fields) = some s)
    (htag : ∀ read tag', taggedSet kind read tag' = some s → tag' = tag) :
    tagReads tag (!(declared fields).isEmpty) := by
  obtain ⟨_ | _, tag⟩ := tag
  · rfl
  · rw [taggedGstMediaType_mov, fromGstString_eq, printFields_eq] at hread
    have hrest : ∀ fs : List (String × List Char), ((fs.flatMap fun f => ',' :: fieldText f) = [] ∨
          ∃ r, (fs.flatMap fun f => ',' :: fieldText f) = ',' :: r) ∧
        (fs.flatMap fun f => ',' :: fieldText f).isEmpty = fs.isEmpty := by
      intro fs
      cases fs with
      | nil => exact ⟨.inl rfl, rfl⟩
      | cons f fs => exact ⟨.inr ⟨_, rfl⟩, rfl⟩
    obtain ⟨hshape, hempty⟩ := hrest (declared fields)
    have hreads := movReads_of_fromDescription hshape hread fun read tag' hset =>
      congrArg CodecTag.tag (htag read ⟨.mov, tag'⟩ hset)
    rwa [hempty] at hreads

theorem compressedSet_congr {a b : Fields} (codec : VideoCodec)
    (h : ∀ key ∈ ["width", "height", "framerate", "colorimetry", "alignment"],
      fieldOf a key = fieldOf b key) : compressedSet a codec = compressedSet b codec := by
  simp only [forall_mem_cons, not_mem_nil, false_imp_iff, implies_true, and_true] at h
  obtain ⟨hw, hh, hr, hcl, hal⟩ := h
  rw [compressedSet, compressedSet, hw, hh, hr, hcl, hal]

theorem audioSet_congr {a b : Fields} (formats : List AudioFormat)
    (h : ∀ key ∈ ["channel-mask", "channels", "rate"], fieldOf a key = fieldOf b key) :
    audioSet a formats = audioSet b formats := by
  simp only [forall_mem_cons, not_mem_nil, false_imp_iff, implies_true, and_true] at h
  obtain ⟨hmask, hch, hsr⟩ := h
  rw [audioSet, audioSet, hmask, hch, hsr]

theorem codec_of_mem_compressedSet {fields : Fields} {codec codec' : VideoCodec} {w h : Dim}
    {r : Rate} {cl : Colorimetry} {al : BitstreamAlignment}
    (hset : compressedSet fields codec = some (.one (.compressedVideo codec' w h r cl al))) : codec = codec' := by
  simp only [compressedSet, bind_eq_bind, Option.bind_eq_some_iff] at hset
  obtain ⟨ws, -, hs, -, rs, -, cl', -, al', -, heq⟩ := hset
  have hmem := congrArg CapsSet.alternatives (Option.some.inj heq)
  have hin : Caps.compressedVideo codec' w h r cl al ∈ [Caps.compressedVideo codec' w h r cl al] :=
    mem_singleton_self _
  rw [show [Caps.compressedVideo codec' w h r cl al] = _ from hmem.symm] at hin
  simp only [mem_flatMap, List.mem_map, Caps.compressedVideo.injEq] at hin
  obtain ⟨_, -, _, -, _, -, heq, -⟩ := hin
  exact heq

theorem format_of_mem_audioSet {fields : Fields} {f f' : AudioFormat} {ch : UInt8} {sr : UInt32}
    {l : ChannelLayout} (hset : audioSet fields [f] = some (.one (.audio f' ch sr l))) : f = f' := by
  simp only [audioSet, bind_eq_bind, Option.bind_eq_some_iff] at hset
  obtain ⟨l', -, chs, -, srs, -, heq⟩ := hset
  have hmem := congrArg CapsSet.alternatives (Option.some.inj heq)
  have hin : Caps.audio f' ch sr l ∈ [Caps.audio f' ch sr l] := mem_singleton_self _
  rw [show [Caps.audio f' ch sr l] = _ from hmem.symm] at hin
  simp only [mem_flatMap, List.mem_map, mem_singleton, Caps.audio.injEq] at hin
  obtain ⟨_, rfl, _, -, _, -, heq, -⟩ := hin
  exact heq

/-! ## Which caps are read back -/

/-- Caps that the description of no other caps is shared with by design: two pairs of codecs and two
byte streams share a media type with another one, a declared progressive scan is printed as the
undeclared one, and a tensor has no media type. -/
def leafOwnDescription : Caps → Bool
  | .rawVideo _ _ _ _ interlace _ => interlace != .progressive
  | .compressedVideo codec .. => codec != .mpeg4Part2 && codec != .mpeg2
  | .audio format .. => format != .mp2 && format != .mp3
  | .byteStream encoding => encoding != .isoBmff && encoding != .mpegPs
  | .text _ | .subPicture _ | .closedCaption _ | .klv | .onvifMetadata => true
  | .tensor .. | .batch _ => false

/-- Caps with a description of their own: also a batch of one or more of these, not nested. -/
def ownDescription : Caps → Bool
  | .batch streams => !streams.isEmpty && streams.all leafOwnDescription
  | c => leafOwnDescription c

/-- Caps other than a batch that are read back: the parser knows their media type, and a container
tag survives the fields declared after it. -/
def leafReads : Caps → Bool
  | .compressedVideo codec w h r cl al => codec != .jpegXs && (videoTag codec).all fun tag =>
      tagReads tag (w != .any || h != .any || r != .any || cl != .UNKNOWN || al != .unspecified)
  | .audio format ch sr l => (audioTag format).all fun tag =>
      tagReads tag (ch != 0 || sr != 0 || l != .UNSPECIFIED)
  | .closedCaption _ => false
  | _ => true

theorem isEmpty_declared (fields : FieldTexts) : (declared fields).isEmpty = fields.all fun f => f.2.isNone := by
  induction fields with
  | nil => rfl
  | cons f fields ih =>
    obtain ⟨key, value⟩ := f
    cases value with
    | none => exact ih
    | some v => rfl

variable (w h : Dim) (r : Rate) (cl : Colorimetry) (al : BitstreamAlignment)

theorem isEmpty_declared_videoFields : (!(declared (videoFields (.tagged tag) w h r cl al)).isEmpty) =
      (w != .any || h != .any || r != .any || cl != .UNKNOWN || al != .unspecified) := by
  have hdim : ∀ d : Dim, (dimGstValue d).isNone = (d == .any) := by
    intro d
    cases d <;> rfl
  have hrate : ∀ r : Rate, (rateGstValue r).isNone = (r == .any) := by
    intro r
    cases r <;> rfl
  have hcl : (colorimetryToGstString cl).isNone = (cl == .UNKNOWN) := by
    rw [Bool.eq_iff_iff, Option.isNone_iff_eq_none, beq_iff_eq]
    refine ⟨eq_UNKNOWN_of_colorimetryToGstString, ?_⟩
    rintro rfl
    rfl
  have hal : ((alignmentGstName al).map String.toList).isNone = (al == .unspecified) := by
    cases al <;> rfl
  rw [isEmpty_declared]
  simp only [videoFields, proResVariant, all_cons, all_nil, hdim, hrate, hcl, hal]
  simp [bne, Bool.or_assoc]

theorem isEmpty_declared_audioFields (ch : UInt8) (sr : UInt32) (l : ChannelLayout) :
    (!(declared (audioFields (.tagged tag) ch sr l)).isEmpty) =
      (ch != 0 || sr != 0 || l != .UNSPECIFIED) := by
  have hch : (if ch ≠ 0 then some (decimal ch.toNat) else none).isNone = (ch == 0) := by
    by_cases h : ch = 0 <;> simp [h]
  have hsr : (if sr ≠ ANY_SAMPLE_RATE ∧ sr ≠ 0 then some (decimal sr.toNat) else none).isNone =
      (sr == 0) := by
    by_cases h : sr = 0 <;> simp [h, ANY_SAMPLE_RATE]
  have hl : (channelMaskValue l).isNone = (l == .UNSPECIFIED) := by
    rw [Bool.eq_iff_iff, beq_iff_eq, ← ChannelLayout.isUnspecified_iff, channelMaskValue]
    split_ifs with h <;> simp [h]
  have hformat : (audioGstMediaType (.tagged tag)).2 = none := rfl
  rw [isEmpty_declared]
  simp only [audioFields, hformat, all_cons, all_nil, hch, hsr, hl]
  simp [bne, Bool.or_assoc]

theorem fromGstString_taggedVideo_iff : fromGstString (toGstString (.compressedVideo (.tagged tag) w h r cl al)) =
        some (.one (.compressedVideo (.tagged tag) w h r cl al)) ↔
      tagReads tag (w != .any || h != .any || r != .any || cl != .UNKNOWN || al != .unspecified) := by
  have hmedia : codecGstMediaType (.tagged tag) = taggedGstMediaType .video tag := rfl
  rw [toGstString_compressedVideo, hmedia, ← isEmpty_declared_videoFields tag w h r cl al]
  constructor
  · intro hread
    refine tagReads_of_fromGstString hread fun read tag' hset => ?_
    exact VideoCodec.tagged.inj (codec_of_mem_compressedSet hset)
  · intro htag
    obtain ⟨read, heq, hfields⟩ :=
      @fromGstString_tagged .video _ _ htag
        fun f hf => (fieldOk_videoFields _ w h r cl al f hf).toFieldCloses
    rw [heq, taggedSet, compressedSet_congr _ fun key hkey => hfields key ?_, compressedSet_videoFields]
    revert key
    decide

theorem fromGstString_taggedAudio_iff (ch : UInt8) (sr : UInt32) (l : ChannelLayout) :
    fromGstString (toGstString (.audio (.tagged tag) ch sr l)) = some (.one (.audio (.tagged tag) ch sr l)) ↔
      tagReads tag (ch != 0 || sr != 0 || l != .UNSPECIFIED) := by
  have hmedia : (audioGstMediaType (.tagged tag)).1 = taggedGstMediaType .audio tag := rfl
  rw [toGstString_audio, hmedia, ← isEmpty_declared_audioFields tag ch sr l]
  constructor
  · intro hread
    refine tagReads_of_fromGstString hread fun read tag' hset => ?_
    exact AudioFormat.tagged.inj (format_of_mem_audioSet hset)
  · intro htag
    obtain ⟨read, heq, hfields⟩ :=
      @fromGstString_tagged .audio _ _ htag
        fun f hf => (fieldOk_audioFields _ ch sr l f hf).toFieldCloses
    rw [heq, taggedSet, audioSet_congr _ fun key hkey => hfields key ?_, audioSet_audioFields]
    revert key
    decide

/-- The caps without fields whose media type the parser knows are read back. -/
theorem fromGstString_fieldless : (∀ e : ByteStreamEncoding, e ≠ .isoBmff → e ≠ .mpegPs →
      fromGstString (toGstString (.byteStream e)) = some (.one (.byteStream e))) ∧
    (∀ f : TextFormat, fromGstString (toGstString (.text f)) = some (.one (.text f))) ∧ (∀ f : SubPictureFormat,
      fromGstString (toGstString (.subPicture f)) = some (.one (.subPicture f))) ∧
    fromGstString (toGstString .klv) = some (.one .klv) ∧
    fromGstString (toGstString .onvifMetadata) = some (.one .onvifMetadata) := by
  have hall : ∀ c ∈ [.byteStream .mpegTs, .byteStream .matroska, .byteStream .ogg,
      .byteStream .flv, .byteStream .mp4, .byteStream .ivf, .byteStream .wav, .byteStream .aiff,
      .byteStream .au, .byteStream .avi, .byteStream .y4m, .byteStream .multipart,
      .byteStream .raw, .byteStream .rtp, .byteStream .srtp, .byteStream .rtcp,
      .byteStream .srtcp, .byteStream .dtls, .byteStream .iv8, .text .srt, .text .webVtt,
      .text .ssa, .text .ttml, .text .teletext, .subPicture .vobSub, .subPicture .dvbSub,
      .subPicture .pgs, .klv, .onvifMetadata], mediaReads (toGstString c) (.caps c) := by
    decide
  have hread : ∀ {c}, mediaReads (toGstString c) (.caps c) →
      fromGstString (toGstString c) = some (.one c) := fun h =>
    @fromGstString_printFields _ _ h [] (by simp [declared])
  have hplain : ∀ f ∈ [.utf8, .pangoMarkup],
      fromGstString (toGstString (.text f)) = some (.one (.text f)) := by decide
  refine ⟨fun e hiso hps => ?_, fun f => ?_, fun f => ?_, ?_, ?_⟩
  · cases e <;>
      first | exact absurd rfl hiso | exact absurd rfl hps | exact hread (hall _ (by simp))
  · cases f with
    | utf8 | pangoMarkup => exact hplain _ (by decide)
    | _ => exact hread (hall _ (by simp))
  · cases f <;> exact hread (hall _ (by simp))
  · exact hread (hall _ (by simp))
  · exact hread (hall _ (by simp))

theorem fromGstString_closedCaption (f : ClosedCaptionFormat) :
    fromGstString (toGstString (.closedCaption f)) = none := by
  have hall : ∀ f ∈ [.cea608, .cea608Raw, .cea608S334, .cea708, .cea708Cdp],
      fromGstString (toGstString (.closedCaption f)) = none := by decide
  exact hall f (by cases f <;> decide)

theorem fromGstString_jpegXs : fromGstString (toGstString (.compressedVideo .jpegXs w h r cl al)) = none := by
  have hscan : scan .top (codecGstMediaType .jpegXs) = some .top := by decide
  have htrim : trim (codecGstMediaType .jpegXs) = codecGstMediaType .jpegXs := by decide
  have htag : isUntagged (codecGstMediaType .jpegXs) := by decide
  have hnamed : named mediaTypes (codecGstMediaType .jpegXs) = none := by decide
  rw [toGstString_compressedVideo, fromGstString_eq, fromDescription_printFields _ hscan
    (fun _ => rfl) (fun f hf => (fieldOk_videoFields _ w h r cl al f hf).toFieldCloses), htrim,
    describedSet_of_isUntagged htag, hnamed, Option.bind_none]

/-- Caps other than a batch are read back exactly when `leafReads` says so. -/
theorem fromGstString_leaf_iff {c : Caps} (hown : leafOwnDescription c) :
    fromGstString (toGstString c) = some (.one c) ↔ leafReads c := by
  obtain ⟨hbytes, htext, hsubPicture, hklv, honvif⟩ := fromGstString_fieldless
  cases c with
  | rawVideo f w h r i cl =>
    have hi : i ≠ .progressive := by simpa [leafOwnDescription] using hown
    exact iff_of_true (fromGstString_rawVideo f w h r hi cl) rfl
  | compressedVideo codec w h r cl al =>
    simp only [leafOwnDescription, Bool.and_eq_true, bne_iff_ne, ne_eq] at hown
    cases htag : videoTag codec with
    | some tag =>
      obtain rfl : codec = .tagged tag := by
        cases codec <;> simp_all [videoTag]
      rw [fromGstString_taggedVideo_iff]
      simp [leafReads, videoTag]
    | none =>
      by_cases hjpegXs : codec = .jpegXs
      · subst hjpegXs
        refine iff_of_false ?_ (by simp [leafReads])
        rw [fromGstString_jpegXs]
        exact (Option.some_ne_none _).symm
      · refine iff_of_true (fromGstString_untaggedVideo htag hjpegXs hown.1 hown.2 w h r cl al) ?_
        simp [leafReads, htag, hjpegXs]
  | audio f ch sr l =>
    simp only [leafOwnDescription, Bool.and_eq_true, bne_iff_ne, ne_eq] at hown
    cases htag : audioTag f with
    | some tag =>
      obtain rfl : f = .tagged tag := by
        cases f <;> simp_all [audioTag]
      rw [fromGstString_taggedAudio_iff]
      simp [leafReads, audioTag]
    | none =>
      refine iff_of_true (fromGstString_untaggedAudio htag hown.1 hown.2 ch sr l) ?_
      simp [leafReads, htag]
  | byteStream e =>
    simp only [leafOwnDescription, Bool.and_eq_true, bne_iff_ne, ne_eq] at hown
    exact iff_of_true (hbytes e hown.1 hown.2) rfl
  | text f => exact iff_of_true (htext f) rfl
  | subPicture f => exact iff_of_true (hsubPicture f) rfl
  | klv => exact iff_of_true hklv rfl
  | onvifMetadata => exact iff_of_true honvif rfl
  | closedCaption f =>
    refine iff_of_false ?_ (by simp [leafReads])
    rw [fromGstString_closedCaption]
    exact (Option.some_ne_none _).symm
  | tensor d s l | batch streams => simp [leafOwnDescription] at hown

end Glass2Glass.Gst
