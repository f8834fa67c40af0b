import Glass2Glass.Lib.PartialMeet

/-!
# The fields of a caps description

The scalar vocabularies of `caps.rs` and `channels.rs`, and the overlap of each ranged or
wildcard-carrying field. A `Dim` or `Rate` overlaps as the interval of its bounds, with the two
canonical spellings `Any` (the full span) and `Fixed` (equal bounds). Every other negotiable field is
a flat order whose wildcard is the value that means "not declared". The lemmas at the end of each
section place the field among the partial meets of `PartialMeet`.
-/

namespace Glass2Glass

open PartialMeet

/-- The order of 32-bit words, by their values. -/
instance uint32LinearOrder : LinearOrder UInt32 where
  le_refl := UInt32.le_refl
  le_trans _ _ _ := UInt32.le_trans
  lt_iff_le_not_ge a b := by
    simp only [UInt32.lt_iff_toNat_lt, UInt32.le_iff_toNat_le]
    omega
  le_antisymm _ _ := UInt32.le_antisymm
  le_total := UInt32.le_total
  toDecidableLE := inferInstance

/-! ## Ranged fields -/

/-- Overlap two inclusive `[min, max]` bounds, `none` when disjoint. -/
def intersectRange (a b : UInt32 × UInt32) : Option (UInt32 × UInt32) :=
  let lo := max a.1 b.1
  let hi := min a.2 b.2
  if lo ≤ hi then some (lo, hi) else none

def u32Max : UInt32 := 0xFFFFFFFF

/-- A constraint on one 32-bit field. `Dim` and `Rate` of the source have the same three forms and the
same functions, so both are this type. -/
inductive Span where
  | any
  | range (min max : UInt32)
  | fixed (v : UInt32)
  deriving DecidableEq

/-- A dimension constraint. -/
abbrev Dim := Span

/-- A framerate constraint, in Q16 fixed-point frames per second. -/
abbrev Rate := Span

namespace Span

/-- The inclusive bounds of a constraint. -/
def bounds : Span → UInt32 × UInt32
  | any => (0, u32Max)
  | range lo hi => (lo, hi)
  | fixed v => (v, v)

/-- The constraint with the given bounds; the full span is unconstrained. -/
def fromBounds (b : UInt32 × UInt32) : Span :=
  if b.1 = b.2 then fixed b.1 else if b = (0, u32Max) then any else range b.1 b.2

/-- Intersect two constraints. -/
def intersect (a b : Span) : Option Span := (intersectRange a.bounds b.bounds).map fromBounds

/-- Whether the constraint names one value. -/
def isFixed : Span → Bool
  | fixed _ => true
  | _ => false

/-- Collapse to a single value: a range picks its minimum, `any` and an inverted range pick none. -/
def fixate : Span → Option Span
  | fixed v => some (fixed v)
  | range lo hi => if lo ≤ hi then some (fixed lo) else none
  | any => none

/-- A range takes the value nearest to a preferred fixed one. -/
def nearestTo : Span → Span → Span
  | range lo hi, fixed value => if lo ≤ hi then fixed (max lo (min value hi)) else range lo hi
  | d, _ => d

theorem bounds_fromBounds (b : UInt32 × UInt32) : (fromBounds b).bounds = b := by
  obtain ⟨lo, hi⟩ := b
  unfold fromBounds
  split_ifs with h1 h2
  · simp only [bounds, Prod.mk.injEq, true_and]
    exact h1
  · exact h2.symm
  · rfl

theorem intersect_lawful : Lawful intersect := fun a =>
  .retract bounds fromBounds (fun _ _ => rfl) (fun _ _ z _ => bounds_fromBounds z) (interval_lawful a.bounds)

theorem isPoint_of_isFixed {d : Span} (hd : d.isFixed) : IsPoint intersect d := by
  cases d with
  | fixed v =>
    exact .retract bounds fromBounds (fun _ _ => rfl) (interval_isPoint v) (by simp [bounds, fromBounds])
  | any | range lo hi => simp [isFixed] at hd

/-- A range whose bounds are the wrong way round, the empty set. -/
def isInverted : Span → Bool
  | range lo hi => hi < lo
  | _ => false

theorem intersect_eq_none_of_isInverted {a : Span} (ha : a.isInverted) (b : Span) : a.intersect b = none := by
  cases a with
  | any | fixed v => simp [isInverted] at ha
  | range lo hi =>
    have hlt : hi < lo := by simpa [isInverted] using ha
    have hempty : ¬ max lo b.bounds.1 ≤ min hi b.bounds.2 := by
      intro hle
      exact absurd ((le_max_left _ _).trans (hle.trans (min_le_left _ _))) (not_le.2 hlt)
    have hb : (range lo hi).bounds = (lo, hi) := rfl
    simp only [intersect, intersectRange, hb, if_neg hempty, Option.map_none]

theorem contains_fixed {a : Span} {v : UInt32} (hlo : a.bounds.1 ≤ v) (hhi : v ≤ a.bounds.2) :
    Contains intersect a (fixed v) := by
  have hb : (fixed v).bounds = (v, v) := rfl
  simp [Contains, intersect, intersectRange, hb, hlo, hhi, fromBounds]

theorem contains_any {d : Span} (hd : d.isFixed) : Contains intersect any d := by
  cases d with
  | fixed v =>
    refine contains_fixed (UInt32.le_iff_toNat_le.2 (Nat.zero_le _)) (UInt32.le_iff_toNat_le.2 ?_)
    have := v.toNat_lt
    show v.toNat ≤ 2 ^ 32 - 1
    omega
  | any | range lo hi => simp [isFixed] at hd

end Span

/-! ## Scalar vocabularies -/

/-- The two tag namespaces an unmodelled codec is named in. -/
inductive TagNamespace where
  | riff
  | mov
  deriving DecidableEq

/-- A codec named only by its container tag. -/
structure CodecTag where
  /-- Which container's vocabulary the tag belongs to. -/
  tagNamespace : TagNamespace
  tag : UInt32
  deriving DecidableEq

/-- The profiles of the ProRes codec. -/
inductive ProResVariant where
  | proxy
  | lt
  | standard
  | hq
  | fourFourFourFour
  | fourFourFourFourXq
  deriving DecidableEq

inductive VideoCodec where
  | h264
  | h265
  | av1
  | vp8
  | vp9
  | mjpeg
  | png
  | webP
  | mpeg4Part2
  | mpeg2
  | sorensonH263
  | vp6 (alpha : Bool)
  | jpegXs
  | vc1
  | pnm
  | vp6Plain
  | theora
  | proRes (variant : ProResVariant)
  | dnxHd
  | tagged (tag : CodecTag)
  deriving DecidableEq

/-- Container and elementary byte streams. -/
inductive ByteStreamEncoding where
  | mpegTs
  | matroska
  | ogg
  | flv
  | isoBmff
  | mp4
  | ivf
  | mpegPs
  | wav
  | aiff
  | au
  | avi
  | y4m
  | multipart
  | raw
  | rtp
  | srtp
  | rtcp
  | srtcp
  | dtls
  | iv8
  deriving DecidableEq

/-- Timed-text syntaxes. -/
inductive TextFormat where
  | utf8
  | pangoMarkup
  | srt
  | webVtt
  | ssa
  | ttml
  | teletext
  deriving DecidableEq

/-- Raw closed-caption carriages. -/
inductive ClosedCaptionFormat where
  | cea608
  | cea608Raw
  | cea608S334
  | cea708
  | cea708Cdp
  deriving DecidableEq

/-- Coded bitmap-subtitle formats. -/
inductive SubPictureFormat where
  | vobSub
  | dvbSub
  | pgs
  deriving DecidableEq

/-- Raw pixel layouts. -/
inductive RawVideoFormat where
  | nv12
  | i420
  | rgba8
  | bgra8
  | rgb8
  | yuyv
  | i420p10
  | i420p12
  | i422
  | i422p10
  | i422p12
  | i444
  | i444p10
  | i444p12
  | p010
  | a420
  | uyvy
  | a444p12
  | v210
  | r210
  | gbr10Le
  | gray8
  | bgr8
  | bgrx8
  | argb8
  deriving DecidableEq

/-- Audio sample formats and audio codecs. -/
inductive AudioFormat where
  | aac
  | opus
  | mp2
  | ac3
  | mp3
  | speex
  | flac
  | vorbis
  | pcmS16Le
  | pcmF32Le
  | pcmS24Le
  | pcmS32Le
  | pcmU8
  | mulaw
  | alaw
  | imaAdpcm
  | tagged (tag : CodecTag)
  deriving DecidableEq

inductive TensorDType where
  | f16
  | f32
  | i8
  | u8
  deriving DecidableEq

/-- The most dimensions a tensor shape can have. -/
def maxTensorRank : Nat := 6

/-- A tensor shape: between one and `maxTensorRank` dimensions. -/
structure TensorShape where
  /-- The dimensions in use, outermost first. -/
  dims : List UInt32
  /-- A shape has a dimension. -/
  rank_pos : 1 ≤ dims.length
  /-- A shape fits the inline array of the source. -/
  rank_le : dims.length ≤ maxTensorRank
  deriving DecidableEq

/-- A shape from its dimensions, `none` when their number is out of range. -/
def TensorShape.fromSlice (dims : List UInt32) : Option TensorShape :=
  if h : 1 ≤ dims.length ∧ dims.length ≤ maxTensorRank then some ⟨dims, h.1, h.2⟩ else none

inductive TensorLayout where
  | nchw
  | nhwc
  deriving DecidableEq

/-- The raw PCM sample formats, the only ones with a sample rate to fixate. -/
def isPcm : AudioFormat → Bool
  | .pcmS16Le | .pcmF32Le | .pcmS24Le | .pcmS32Le | .pcmU8 => true
  | _ => false

/-! ## Fields with a wildcard -/

/-- Scan structure of raw video; `any` reads as progressive unless declared. -/
inductive Interlace where
  | any
  | progressive
  | interleaved
  deriving DecidableEq

/-- Intersect two scan constraints. -/
def Interlace.intersect : Interlace → Interlace → Option Interlace
  | .any, x => some x
  | x, .any => some x
  | a, b => if a = b then some a else none

/-- What one buffer of a compressed stream holds; `unspecified` when the producer does not know. -/
inductive BitstreamAlignment where
  | unspecified
  | accessUnit
  | nal
  deriving DecidableEq

def BitstreamAlignment.intersect : BitstreamAlignment → BitstreamAlignment → Option BitstreamAlignment
  | .unspecified, x => some x
  | x, .unspecified => some x
  | a, b => if a = b then some a else none

/-- YUV to RGB matrix coefficients. -/
inductive MatrixCoefficients where
  | unknown
  | identity
  | bt601
  | bt709
  | bt2020Ncl
  deriving DecidableEq

inductive TransferCharacteristics where
  | unknown
  | srgb
  | bt601
  | bt709
  | bt2020
  | pq
  | hlg
  deriving DecidableEq

inductive ColorPrimaries where
  | unknown
  | bt709
  | bt470bg
  | smpte170m
  | bt2020
  deriving DecidableEq

/-- Sample value range. -/
inductive ColorRange where
  | unknown
  | limited
  | full
  deriving DecidableEq

/-- How samples map to colour; each field has its own wildcard `unknown`. -/
structure Colorimetry where
  /-- Sample value range. -/
  range : ColorRange
  /-- YUV to RGB matrix. -/
  matrix : MatrixCoefficients
  transfer : TransferCharacteristics
  primaries : ColorPrimaries
  deriving DecidableEq

namespace Colorimetry

/-- The colorimetry of a stream that declares none. -/
def UNKNOWN : Colorimetry := ⟨.unknown, .unknown, .unknown, .unknown⟩

def field {α : Type} [DecidableEq α] (a b unknown : α) : Option α :=
  if a = unknown then some b else if b = unknown ∨ a = b then some a else none

/-- Intersect two colour descriptions field by field. -/
def intersect (a b : Colorimetry) : Option Colorimetry := do
  let range ← field a.range b.range .unknown
  let matrix ← field a.matrix b.matrix .unknown
  let transfer ← field a.transfer b.transfer .unknown
  let primaries ← field a.primaries b.primaries .unknown
  return ⟨range, matrix, transfer, primaries⟩

end Colorimetry

/-- The bits of the eleven speaker positions. -/
def knownChannelMask : UInt16 := 0x7FF

/-- A set of speaker positions, one bit each; no bit outside the known positions can be set. -/
structure ChannelLayout where
  /-- The positions, position `i` of `ChannelPosition::ALL` as bit `i`. -/
  mask : UInt16
  /-- Only known positions are set. -/
  known : mask &&& knownChannelMask = mask
  deriving DecidableEq

namespace ChannelLayout

/-- The layout of a producer that does not know its speakers. -/
def UNSPECIFIED : ChannelLayout := ⟨0, by decide⟩

/-- Front left and front right. -/
def STEREO : ChannelLayout := ⟨0b11, by decide⟩

/-- Whether no position is declared. -/
def isUnspecified (l : ChannelLayout) : Bool := l.mask == 0

/-- The layout of a mask; unknown bits are dropped. -/
def fromMask (mask : UInt16) : ChannelLayout :=
  ⟨mask &&& knownChannelMask, by rw [UInt16.and_assoc, UInt16.and_self]⟩

def intersect (a b : ChannelLayout) : Option ChannelLayout :=
  if a.isUnspecified then some b
  else if b.isUnspecified || a.mask == b.mask then some a
  else none

end ChannelLayout

/-- The "any rate" wildcard of an audio sample rate. -/
def ANY_SAMPLE_RATE : UInt32 := 0

/-- The "any channels" wildcard of an audio channel count. -/
def ANY_CHANNELS : UInt8 := 0

/-- The channel count an "any channels" PCM stream fixates to. -/
def FIXATE_CHANNELS_PLACEHOLDER : UInt8 := 2

/-- Intersect two audio sample rates. -/
def intersectSampleRate (a b : UInt32) : Option UInt32 :=
  if a = ANY_SAMPLE_RATE then some b
  else if b = ANY_SAMPLE_RATE then some a
  else if a = b then some a else none

/-- Intersect two audio channel counts. -/
def intersectChannels (a b : UInt8) : Option UInt8 :=
  if a = ANY_CHANNELS then some b
  else if b = ANY_CHANNELS then some a
  else if a = b then some a else none

/-! ## The wildcard fields are flat meets -/

theorem Interlace.intersect_eq : Interlace.intersect = flat .any := by
  funext a b
  cases a <;> cases b <;> decide

theorem BitstreamAlignment.intersect_eq : BitstreamAlignment.intersect = flat .unspecified := by
  funext a b
  cases a <;> cases b <;> decide

theorem Interlace.intersect_lawful : Lawful Interlace.intersect :=
  Interlace.intersect_eq ▸ flat_lawful _

theorem BitstreamAlignment.intersect_lawful : Lawful BitstreamAlignment.intersect :=
  BitstreamAlignment.intersect_eq ▸ flat_lawful _

theorem Interlace.intersect_self (i : Interlace) : i.intersect i = some i := by
  cases i <;> decide

theorem BitstreamAlignment.intersect_self (al : BitstreamAlignment) : al.intersect al = some al := by
  cases al <;> decide

theorem intersectSampleRate_eq : intersectSampleRate = flat ANY_SAMPLE_RATE := by
  funext a b
  unfold intersectSampleRate flat
  split_ifs <;> grind

theorem intersectChannels_eq : intersectChannels = flat ANY_CHANNELS := by
  funext a b
  unfold intersectChannels flat
  split_ifs <;> grind

theorem intersectSampleRate_lawful : Lawful intersectSampleRate :=
  intersectSampleRate_eq ▸ flat_lawful _

theorem intersectChannels_lawful : Lawful intersectChannels := intersectChannels_eq ▸ flat_lawful _

namespace ChannelLayout

theorem isUnspecified_iff (l : ChannelLayout) : l.isUnspecified = true ↔ l = UNSPECIFIED := by
  cases l
  simp [isUnspecified, UNSPECIFIED]

theorem intersect_eq : intersect = flat UNSPECIFIED := by
  funext a b
  have hmask : (a.mask == b.mask) = true ↔ a = b := by
    cases a
    cases b
    simp
  simp only [intersect, flat, Bool.or_eq_true, isUnspecified_iff, hmask]

theorem intersect_lawful : Lawful intersect := intersect_eq ▸ flat_lawful _

theorem intersect_self (l : ChannelLayout) : l.intersect l = some l := by
  rw [intersect_eq, flat_self]

theorem contains_unspecified (l : ChannelLayout) : Contains intersect UNSPECIFIED l :=
  intersect_eq ▸ flat_contains_top _ l

end ChannelLayout

theorem BitstreamAlignment.contains_unspecified (al : BitstreamAlignment) :
    Contains BitstreamAlignment.intersect .unspecified al :=
  BitstreamAlignment.intersect_eq ▸ flat_contains_top _ al

theorem Interlace.contains_any (i : Interlace) : Contains Interlace.intersect .any i :=
  Interlace.intersect_eq ▸ flat_contains_top _ i

namespace Colorimetry

variable (c : Colorimetry)

/-- A colour description as the tuple of its fields. -/
def fields : ColorRange × MatrixCoefficients × TransferCharacteristics × ColorPrimaries :=
  (c.range, c.matrix, c.transfer, c.primaries)

/-- The colour description with the given fields. -/
def ofFields (f : ColorRange × MatrixCoefficients × TransferCharacteristics × ColorPrimaries) : Colorimetry :=
  ⟨f.1, f.2.1, f.2.2.1, f.2.2.2⟩

def fieldsMeet := prodMeet (flat ColorRange.unknown) (prodMeet (flat MatrixCoefficients.unknown)
  (prodMeet (flat TransferCharacteristics.unknown) (flat ColorPrimaries.unknown)))

theorem intersect_eq (a b : Colorimetry) : intersect a b = (fieldsMeet a.fields b.fields).map ofFields := by
  have hfield : ∀ {α : Type} [DecidableEq α] (x y u : α), field x y u = flat u x y := fun _ _ _ => rfl
  simp only [intersect, fieldsMeet, prodMeet, fields, hfield, Option.bind_eq_bind]
  rcases flat ColorRange.unknown a.range b.range with _ | r <;>
  rcases flat MatrixCoefficients.unknown a.matrix b.matrix with _ | m <;>
  rcases flat TransferCharacteristics.unknown a.transfer b.transfer with _ | t <;>
  rcases flat ColorPrimaries.unknown a.primaries b.primaries with _ | p <;> rfl

theorem intersect_lawful : Lawful intersect := fun _ =>
  .retract fields ofFields intersect_eq (fun _ _ _ _ => rfl)
    (.prod (flat_lawful _ _) (.prod (flat_lawful _ _) (.prod (flat_lawful _ _) (flat_lawful _ _))))

theorem intersect_self : c.intersect c = some c := by
  have hfield : ∀ {α : Type} [DecidableEq α] (x u : α), field x x u = some x := by
    intro α _ x u
    by_cases h : x = u <;> simp [field, h]
  simp [intersect, hfield]

theorem contains_unknown : Contains intersect UNKNOWN c := by
  simp [Contains, intersect, UNKNOWN, field]

/-- A colour description declares all four of its fields. -/
def declared : Bool :=
  c.range != .unknown && c.matrix != .unknown && c.transfer != .unknown && c.primaries != .unknown

theorem isPoint_of_declared {c : Colorimetry} (h : c.declared) : IsPoint intersect c := by
  simp only [declared, Bool.and_eq_true, bne_iff_ne, ne_eq] at h
  obtain ⟨⟨⟨hr, hm⟩, ht⟩, hp⟩ := h
  exact .retract fields ofFields intersect_eq (.prod (flat_isPoint hr) (.prod (flat_isPoint hm)
      (.prod (flat_isPoint ht) (flat_isPoint hp)))) rfl

end Colorimetry

end Glass2Glass
