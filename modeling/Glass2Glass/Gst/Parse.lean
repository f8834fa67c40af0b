import Glass2Glass.Caps.Set
import Glass2Glass.Gst.Print

/-!
# Parsing caps

`CapsSet::from_gst_string` (`caps_parse.rs`). A description is split at its top-level commas into a
media type and fields, each field value is a scalar, a range or a list, and the media type says which
fields are read. A list expands to alternatives. The streams of a batch are descriptions of their own,
so the parser calls itself on shorter texts.
-/

namespace Glass2Glass.Gst

open Text Option

/-! ## Field values -/

/-- The value of a field: a scalar, a `[min,max]` range or a list of alternatives. -/
inductive FieldVal where
  | one (s : List Char)
  | range (lo hi : List Char)
  | list (xs : List (List Char))

/-- The text between an opening and a closing character. -/
def enclosed (opening closing : Char) (s : List Char) : Option (List Char) :=
  (s.dropPrefix? [opening]).bind fun rest => rest.dropSuffix? [closing]

def listOrOne (v : List Char) : FieldVal :=
  match enclosed '\x7b' '\x7d' v with
  | some inner => .list (((splitTopCommas inner).map trim).filter fun s => !s.isEmpty)
  | none => .one v

/-- The value of a field; a third element of a range is ignored. -/
def parseFieldVal (v : List Char) : FieldVal :=
  let v := trim v
  match (enclosed '[' ']' v).map splitTopCommas with
  | some (lo :: hi :: _) => .range (trim lo) (trim hi)
  | _ => listOrOne v

/-- The alternatives a field stands for: those of an absent field, one for a scalar, one for each
element of a list, and for a range what the field makes of it. -/
def expand {α : Type} (absent : List α) (one : List Char → Option α)
    (range : List Char → List Char → Option α) : Option FieldVal → Option (List α)
  | none => some absent
  | some (.one s) => (one s).map ([·])
  | some (.range lo hi) => (range lo hi).map ([·])
  | some (.list xs) => xs.mapM one

/-- The value of a field that takes a scalar only, `absent` when the field is missing. -/
def expandScalar {α : Type} (absent : α) (one : List Char → Option α) : Option FieldVal → Option α
  | none => some absent
  | some (.one s) => one s
  | some _ => none

/-- `str::parse::<u32>`. -/
def parseU32 (s : List Char) : Option UInt32 := (parseBelow 10 (2 ^ 32) s).map UInt32.ofNat

/-- A rate as a Q16 number, rounded down. -/
def framerateQ16FromFraction (num den : UInt32) : Option UInt32 :=
  if den.toNat = 0 then none
  else
    let q16 := num.toNat * 2 ^ 16 / den.toNat
    if q16 < 2 ^ 32 then some (UInt32.ofNat q16) else none

/-- The Q16 number of a `num/den` or a whole rate. -/
def rateQ16 (s : List Char) : Option UInt32 := do
  let fraction := (splitOnce '/' (trim s)).getD (s, ['1'])
  framerateQ16FromFraction (← parseU32 (trim fraction.1)) (← parseU32 (trim fraction.2))

def parseRate (s : List Char) : Option Rate := (rateQ16 s).map .fixed

/-- The alternatives of a dimension. -/
def expandDim : Option FieldVal → Option (List Dim) :=
  expand [.any] (fun s => (parseU32 s).map .fixed) fun lo hi => do
    return .range (← parseU32 lo) (← parseU32 hi)

def expandRate : Option FieldVal → Option (List Rate) :=
  expand [.any] parseRate fun lo hi => do return .range (← rateQ16 lo) (← rateQ16 hi)

/-- The pixel layouts a description without a `format=` covers. -/
def RAW_VIDEO_FORMATS : List RawVideoFormat := [.nv12, .i420, .rgba8, .bgra8, .yuyv]

/-- The sample formats a description without a `format=` covers. -/
def rawAudioFormats : List AudioFormat := PCM_FORMATS.map Prod.fst

/-- The text formats a description without a `format=` covers. -/
def TEXT_FORMATS : List TextFormat := [.utf8, .pangoMarkup]

/-- The alternatives of a pixel layout. -/
def expandRawFormat : Option FieldVal → Option (List RawVideoFormat) :=
  expand RAW_VIDEO_FORMATS parseRawFormat fun _ _ => none

def expandTextFormat : Option FieldVal → Option (List TextFormat) :=
  expand TEXT_FORMATS parseTextFormat fun _ _ => none

/-- The alternatives of a sample format. -/
def expandAudioFormat : Option FieldVal → Option (List AudioFormat) :=
  expand rawAudioFormats parseAudioFormat fun _ _ => none

/-- The alternatives of a channel count. -/
def expandU8 (absent : UInt8) : Option FieldVal → Option (List UInt8) :=
  expand [absent] (fun s => (parseU8 s).map UInt8.ofNat) fun _ _ => none

/-- The alternatives of a sample rate. -/
def expandU32 (absent : UInt32) : Option FieldVal → Option (List UInt32) :=
  expand [absent] parseU32 fun _ _ => none

/-- The alternatives of a ProRes profile. -/
def expandVariant : Option FieldVal → Option (List ProResVariant) :=
  expand ProResVariant.ALL proResFromGstName fun _ _ => none

def expandColorimetry : Option FieldVal → Option Colorimetry :=
  expandScalar .UNKNOWN colorimetryFromGstString

def expandAlignment : Option FieldVal → Option BitstreamAlignment :=
  expandScalar .unspecified (named [("au", .accessUnit), ("nal", .nal)])

/-- A scan structure. -/
def expandInterlace : Option FieldVal → Option Interlace :=
  expandScalar .any (named [("progressive", .progressive), ("interleaved", .interleaved)])

/-- A `channel-mask`, in hexadecimal or decimal, with gst's type in front or without. -/
def parseChannelMask (s : List Char) : Option ChannelLayout := do
  let v := trim s
  let v := trim ((v.dropPrefix? "(bitmask)".toList).getD v)
  let mask ← match (v.dropPrefix? "0x".toList).or (v.dropPrefix? "0X".toList) with
    | some hex => parseBelow 16 (2 ^ 64) hex
    | none => parseBelow 10 (2 ^ 64) v
  fromGstMask (UInt64.ofNat mask)

def expandChannelMask : Option FieldVal → Option ChannelLayout :=
  expandScalar .UNSPECIFIED parseChannelMask

/-! ## Media types -/

abbrev Fields := List (List Char × FieldVal)

/-- The first field of a name. -/
def fieldOf (fields : Fields) (key : String) : Option FieldVal :=
  (fields.find? fun entry => entry.1 == key.toList).map Prod.snd

/-- The fields of the parts after the media type; an empty part is skipped, one without an equals
sign refuses the description. -/
def parseFields (parts : List (List Char)) : Option Fields := do
  let pairs ← (parts.filter fun p => !(trim p).isEmpty).mapM (splitOnce '=')
  return pairs.map fun p => (trim p.1, parseFieldVal p.2)

def compressedSet (fields : Fields) (codec : VideoCodec) : Option CapsSet := do
  let widths ← expandDim (fieldOf fields "width")
  let heights ← expandDim (fieldOf fields "height")
  let rates ← expandRate (fieldOf fields "framerate")
  let colorimetry ← expandColorimetry (fieldOf fields "colorimetry")
  let alignment ← expandAlignment (fieldOf fields "alignment")
  return ⟨widths.flatMap fun w => heights.flatMap fun h => rates.map fun r =>
    .compressedVideo codec w h r colorimetry alignment⟩

def audioSet (fields : Fields) (formats : List AudioFormat) : Option CapsSet := do
  let channelLayout ← expandChannelMask (fieldOf fields "channel-mask")
  let channels ← expandU8 ANY_CHANNELS (fieldOf fields "channels")
  let rates ← expandU32 ANY_SAMPLE_RATE (fieldOf fields "rate")
  return ⟨formats.flatMap fun f => channels.flatMap fun ch => rates.map fun sr =>
    .audio f ch sr channelLayout⟩

def rawVideoSet (fields : Fields) : Option CapsSet := do
  let formats ← expandRawFormat (fieldOf fields "format")
  let widths ← expandDim (fieldOf fields "width")
  let heights ← expandDim (fieldOf fields "height")
  let rates ← expandRate (fieldOf fields "framerate")
  let interlace ← expandInterlace (fieldOf fields "interlace-mode")
  let colorimetry ← expandColorimetry (fieldOf fields "colorimetry")
  return ⟨formats.flatMap fun f => widths.flatMap fun w => heights.flatMap fun h =>
    rates.map fun r => .rawVideo f w h r interlace colorimetry⟩

/-- ProRes video; without a `variant=` every profile. -/
def proResSet (fields : Fields) : Option CapsSet := do
  let variants ← expandVariant (fieldOf fields "variant")
  let sets ← variants.mapM fun v => compressedSet fields (.proRes v)
  return ⟨sets.flatMap CapsSet.alternatives⟩

inductive MediaType where
  | rawVideo
  | rawAudio
  | rawText
  | proRes
  | compressed (codec : VideoCodec)
  | audio (format : AudioFormat)
  | caps (c : Caps)
  | batch
  deriving DecidableEq

/-- The media types the parser knows. -/
def mediaTypes : List (String × MediaType) :=
  [("video/x-raw", .rawVideo), ("audio/x-raw", .rawAudio),
    ("video/x-h264", .compressed .h264), ("video/x-h265", .compressed .h265),
    ("video/x-vp8", .compressed .vp8), ("video/x-vp9", .compressed .vp9),
    ("video/x-av1", .compressed .av1), ("image/jpeg", .compressed .mjpeg),
    ("image/png", .compressed .png), ("image/webp", .compressed .webP),
    ("image/x-portable-anymap", .compressed .pnm), ("image/x-portable-bitmap", .compressed .pnm),
    ("image/x-portable-graymap", .compressed .pnm), ("image/x-portable-pixmap", .compressed .pnm),
    ("video/x-wmv", .compressed .vc1), ("video/x-flash-video", .compressed .sorensonH263),
    ("video/x-vp6-flash", .compressed (.vp6 false)), ("video/x-vp6-alpha", .compressed (.vp6 true)),
    ("video/x-vp6", .compressed .vp6Plain), ("video/x-theora", .compressed .theora),
    ("video/x-prores", .proRes), ("video/x-dnxhd", .compressed .dnxHd),
    ("audio/x-speex", .audio .speex), ("audio/x-opus", .audio .opus), ("audio/x-ac3", .audio .ac3),
    ("audio/x-flac", .audio .flac), ("audio/x-mulaw", .audio .mulaw),
    ("audio/x-alaw", .audio .alaw), ("audio/x-adpcm", .audio .imaAdpcm),
    ("audio/x-vorbis", .audio .vorbis), ("audio/mpeg", .audio .aac), ("text/x-raw", .rawText),
    ("application/x-subtitle", .caps (.text .srt)),
    ("application/x-subtitle-vtt", .caps (.text .webVtt)),
    ("application/x-ssa", .caps (.text .ssa)), ("application/ttml+xml", .caps (.text .ttml)),
    ("private/teletext", .caps (.text .teletext)), ("meta/x-klv", .caps .klv),
    ("application/x-onvif-metadata", .caps .onvifMetadata),
    ("video/mpegts", .caps (.byteStream .mpegTs)),
    ("video/x-matroska", .caps (.byteStream .matroska)),
    ("video/webm", .caps (.byteStream .matroska)), ("application/ogg", .caps (.byteStream .ogg)),
    ("video/x-flv", .caps (.byteStream .flv)), ("video/quicktime", .caps (.byteStream .mp4)),
    ("video/x-cmaf", .caps (.byteStream .isoBmff)), ("video/x-ivf", .caps (.byteStream .ivf)),
    ("video/mpeg-ps", .caps (.byteStream .mpegPs)), ("audio/x-wav", .caps (.byteStream .wav)),
    ("audio/x-aiff", .caps (.byteStream .aiff)), ("audio/x-au", .caps (.byteStream .au)),
    ("video/x-msvideo", .caps (.byteStream .avi)),
    ("application/x-yuv4mpeg", .caps (.byteStream .y4m)),
    ("multipart/x-mixed-replace", .caps (.byteStream .multipart)),
    ("application/octet-stream", .caps (.byteStream .raw)),
    ("application/x-rtp", .caps (.byteStream .rtp)),
    ("application/x-srtp", .caps (.byteStream .srtp)),
    ("application/x-rtcp", .caps (.byteStream .rtcp)),
    ("application/x-srtcp", .caps (.byteStream .srtcp)),
    ("application/x-dtls", .caps (.byteStream .dtls)), ("video/x-iv8", .caps (.byteStream .iv8)),
    ("subpicture/x-dvd", .caps (.subPicture .vobSub)),
    ("subpicture/x-dvb", .caps (.subPicture .dvbSub)),
    ("subpicture/x-pgs", .caps (.subPicture .pgs)), ("multistream/x-analytics-batch", .batch)]

/-- The kind of stream a media type starts with, for a tagged codec. -/
def streamKind : List Char → Option StreamKind :=
  named [("video", .video), ("audio", .audio)]

def asBytes (s : List Char) : List UInt8 := s.flatMap String.utf8EncodeChar

/-- The codec a container tag names. -/
def taggedCodec (media : List Char) (fields : Fields) : Option (StreamKind × CodecTag) := do
  let (kind, subtype) ← splitOnce '/' media
  match subtype.dropPrefix? MOV_UNKNOWN_SUBTYPE_PREFIX.toList with
  | some fourcc =>
    if (asBytes fourcc).length = 4 then
      return (← streamKind kind, ⟨.mov, UInt32.ofNat (Codec.leNat (asBytes fourcc))⟩)
    else none
  | none =>
    if subtype = RIFF_UNKNOWN_SUBTYPE.toList then
      let kind ← streamKind kind
      match fieldOf fields (riffTagField kind) with
      | some (.one value) =>
        return (kind, ⟨.riff, ← parseU32 (trim ((value.dropPrefix? "(int)".toList).getD value))⟩)
      | _ => none
    else none

/-! ## Batches -/

/-- How many combinations of stream alternatives a set of batches may hold. -/
def MAX_BATCH_ALTERNATIVES : Nat := 256

/-- One stream more: every batch so far with every alternative of the stream. -/
def extendBatches (batches : List (List Caps)) (alternatives : List Caps) : Option (List (List Caps)) :=
  if batches.length * alternatives.length > MAX_BATCH_ALTERNATIVES then none
  else some (batches.flatMap fun streams => alternatives.map fun c => streams ++ [c])

/-- The batches of the combinations of stream alternatives, `none` past the limit. -/
def batchAlternatives (streams : List (List Caps)) : Option (List Caps) := do
  let batches ← streams.foldlM extendBatches [[]]
  return batches.map .batch

variable (nested : List Char → Option CapsSet)

/-- The batches of quoted descriptions in angle brackets, each read by `nested`. -/
def batchSet (streams : List Char) : Option CapsSet := do
  let inner ← enclosed '<' '>' streams
  let texts := ((splitTopCommas inner).map trim).filter fun s => !s.isEmpty
  let sets ← texts.mapM fun stream => (enclosed quote quote stream).bind nested
  return ⟨← batchAlternatives (sets.map CapsSet.alternatives)⟩

/-! ## Descriptions -/

def MediaType.capsSet (fields : Fields) : MediaType → Option CapsSet
  | .rawVideo => rawVideoSet fields
  | .rawAudio => do audioSet fields (← expandAudioFormat (fieldOf fields "format"))
  | .rawText => do return ⟨(← expandTextFormat (fieldOf fields "format")).map .text⟩
  | .proRes => proResSet fields
  | .compressed codec => compressedSet fields codec
  | .audio format => audioSet fields [format]
  | .caps c => some (.one c)
  | .batch =>
    match fieldOf fields "streams" with
    | some (.one streams) => batchSet nested streams
    | _ => none

def describedSet (media : List Char) (fields : Fields) : Option CapsSet :=
  match taggedCodec media fields with
  | some (.video, tag) => compressedSet fields (.tagged tag)
  | some (.audio, tag) => audioSet fields [.tagged tag]
  | none => (named mediaTypes media).bind (MediaType.capsSet nested fields)

/-- Parse a description whose nested descriptions are read by `nested`. -/
def fromDescription (desc : List Char) : Option CapsSet :=
  match splitTopCommas desc with
  | [] => none
  | media :: parts => (parseFields parts).bind (describedSet nested (trim media))

/-- Parse a description with at most `depth` descriptions nested in one another. -/
def fromNested : Nat → List Char → Option CapsSet
  | 0, _ => none
  | depth + 1, desc => fromDescription (fromNested depth) desc

/-- Parse a caps description. A nested description is shorter than the one it stands in, so the
depth is never used up (`fromGstString_eq`). -/
def fromGstString (desc : List Char) : Option CapsSet := fromNested (desc.length + 1) desc

/-! ## Nested descriptions are shorter -/

theorem length_lt_of_enclosed {opening closing : Char} {s inner : List Char}
    (h : enclosed opening closing s = some inner) : inner.length < s.length := by
  simp only [enclosed, bind_eq_some_iff, List.dropPrefix?_eq_some_iff, List.dropSuffix?_eq_some_iff, beq_iff_eq] at h
  obtain ⟨rest, ⟨_, rfl, rfl⟩, _, rfl, rfl⟩ := h
  simp only [List.length_append, List.length_singleton]
  omega

theorem eq_trim_of_parseFieldVal {v s : List Char} (h : parseFieldVal v = .one s) : s = trim v := by
  simp only [parseFieldVal, listOrOne] at h
  split at h
  · simp at h
  · split at h
    · simp at h
    · exact (FieldVal.one.inj h).symm

theorem length_lt_of_fieldOf {parts : List (List Char)} {fields : Fields} {key : String}
    {s : List Char} {n : Nat} (hparts : ∀ p ∈ parts, p.length ≤ n)
    (hfields : parseFields parts = some fields) (h : fieldOf fields key = some (.one s)) : s.length < n := by
  simp only [parseFields, bind_eq_bind, bind_eq_some_iff] at hfields
  obtain ⟨pairs, hpairs, hmap⟩ := hfields
  obtain rfl := Option.some.inj hmap
  simp only [fieldOf, map_eq_some_iff] at h
  obtain ⟨entry, hfind, hval⟩ := h
  obtain ⟨pair, hpair, rfl⟩ := List.mem_map.1 (List.mem_of_find?_eq_some hfind)
  obtain ⟨part, hpart, hsplit⟩ := mem_of_mapM_eq_some hpairs hpair
  have hvalue := length_lt_of_splitOnce hsplit
  have hle := hparts part (List.mem_of_mem_filter hpart)
  have htrim : s.length ≤ pair.2.length := by
    rw [eq_trim_of_parseFieldVal hval]
    exact length_trim_le _
  omega

theorem batchSet_congr {f g : List Char → Option CapsSet} {streams : List Char}
    (h : ∀ s, s.length < streams.length → f s = g s) : batchSet f streams = batchSet g streams := by
  unfold batchSet
  cases hinner : enclosed '<' '>' streams with
  | none => rfl
  | some inner =>
    have hread : ∀ stream ∈ ((splitTopCommas inner).map trim).filter fun s => !s.isEmpty,
        (enclosed quote quote stream).bind f = (enclosed quote quote stream).bind g := by
      intro stream hstream
      obtain ⟨part, hpart, rfl⟩ := List.mem_map.1 (List.mem_of_mem_filter hstream)
      have hlen := length_le_of_mem_splitFrom hpart
      have htrim := length_trim_le part
      have hinner := length_lt_of_enclosed hinner
      refine Option.bind_congr fun text htext => h text ?_
      have := length_lt_of_enclosed htext
      omega
    simp only [bind_eq_bind, bind_some]
    rw [mapM_congr hread]

theorem fromDescription_congr {f g : List Char → Option CapsSet} {desc : List Char}
    (h : ∀ s, s.length < desc.length → f s = g s) : fromDescription f desc = fromDescription g desc := by
  unfold fromDescription
  split
  · rfl
  · rename_i media parts hparts
    refine Option.bind_congr fun fields hfields => ?_
    unfold describedSet
    split
    · rfl
    · rfl
    · refine Option.bind_congr fun mediaType _ => ?_
      cases mediaType with
      | batch =>
        simp only [MediaType.capsSet]
        split
        · rename_i streams hstreams
          have hlen : ∀ p ∈ parts, p.length ≤ desc.length := fun p hp =>
            length_le_of_mem_splitFrom (hparts ▸ List.mem_cons_of_mem media hp)
          have hlt := length_lt_of_fieldOf hlen hfields hstreams
          exact batchSet_congr fun s hs => h s (hs.trans hlt)
        · rfl
      | _ => rfl

theorem fromNested_congr {m n : Nat} {desc : List Char} (hm : desc.length < m)
    (hn : desc.length < n) : fromNested m desc = fromNested n desc := by
  induction m generalizing n desc with
  | zero => omega
  | succ m ih =>
    cases n with
    | zero => omega
    | succ n =>
      exact fromDescription_congr fun s hs => ih (by omega) (by omega)

theorem fromGstString_eq (desc : List Char) : fromGstString desc = fromDescription fromGstString desc :=
  fromDescription_congr fun _ hs => fromNested_congr hs (Nat.lt_succ_self _)

end Glass2Glass.Gst
