import Glass2Glass.Wire.Basic

/-!
# Caps on the wire

The caps codec: one byte tables for every vocabulary, then the fields, then the variants. Encoding
leaves a compressed stream's alignment out, and decoding refuses a batch inside a batch. What is left
of the round trip is `decodes_getCaps` and `getCaps_nested`.
-/

namespace Glass2Glass.Wire

open Codec

/-! ## One byte per value -/

def videoCodecTagged : UInt8 := 25

def audioFormatTagged : UInt8 := 16

/-- The byte of a codec; all tagged codecs share one. -/
def videoCodecToU8 : VideoCodec → UInt8
  | .h264 => 0
  | .h265 => 1
  | .av1 => 2
  | .vp8 => 3
  | .vp9 => 4
  | .mjpeg => 5
  | .mpeg4Part2 => 6
  | .jpegXs => 7
  | .sorensonH263 => 8
  | .vp6 false => 9
  | .vp6 true => 10
  | .mpeg2 => 11
  | .png => 12
  | .webP => 13
  | .vc1 => 14
  | .pnm => 15
  | .vp6Plain => 16
  | .theora => 17
  | .proRes .proxy => 18
  | .proRes .lt => 19
  | .proRes .standard => 20
  | .proRes .hq => 21
  | .proRes .fourFourFourFour => 22
  | .proRes .fourFourFourFourXq => 23
  | .dnxHd => 24
  | .tagged _ => videoCodecTagged

def videoCodecFromU8 : UInt8 → Except WireError VideoCodec
  | 0 => .ok .h264
  | 1 => .ok .h265
  | 2 => .ok .av1
  | 3 => .ok .vp8
  | 4 => .ok .vp9
  | 5 => .ok .mjpeg
  | 6 => .ok .mpeg4Part2
  | 7 => .ok .jpegXs
  | 8 => .ok .sorensonH263
  | 9 => .ok (.vp6 false)
  | 10 => .ok (.vp6 true)
  | 11 => .ok .mpeg2
  | 12 => .ok .png
  | 13 => .ok .webP
  | 14 => .ok .vc1
  | 15 => .ok .pnm
  | 16 => .ok .vp6Plain
  | 17 => .ok .theora
  | 18 => .ok (.proRes .proxy)
  | 19 => .ok (.proRes .lt)
  | 20 => .ok (.proRes .standard)
  | 21 => .ok (.proRes .hq)
  | 22 => .ok (.proRes .fourFourFourFour)
  | 23 => .ok (.proRes .fourFourFourFourXq)
  | 24 => .ok .dnxHd
  | _ => .error .badTag

/-- The byte of a pixel layout. -/
def rawFormatToU8 : RawVideoFormat → UInt8
  | .nv12 => 0
  | .i420 => 1
  | .rgba8 => 2
  | .bgra8 => 3
  | .yuyv => 4
  | .i420p10 => 5
  | .i420p12 => 6
  | .i422 => 7
  | .i422p10 => 8
  | .i422p12 => 9
  | .i444 => 10
  | .i444p10 => 11
  | .i444p12 => 12
  | .p010 => 13
  | .rgb8 => 14
  | .a420 => 15
  | .uyvy => 16
  | .a444p12 => 17
  | .v210 => 18
  | .r210 => 19
  | .gbr10Le => 20
  | .gray8 => 21
  | .bgr8 => 22
  | .bgrx8 => 23
  | .argb8 => 24

/-- The pixel layout of a byte. -/
def rawFormatFromU8 : UInt8 → Except WireError RawVideoFormat
  | 0 => .ok .nv12
  | 1 => .ok .i420
  | 2 => .ok .rgba8
  | 3 => .ok .bgra8
  | 4 => .ok .yuyv
  | 5 => .ok .i420p10
  | 6 => .ok .i420p12
  | 7 => .ok .i422
  | 8 => .ok .i422p10
  | 9 => .ok .i422p12
  | 10 => .ok .i444
  | 11 => .ok .i444p10
  | 12 => .ok .i444p12
  | 13 => .ok .p010
  | 14 => .ok .rgb8
  | 15 => .ok .a420
  | 16 => .ok .uyvy
  | 17 => .ok .a444p12
  | 18 => .ok .v210
  | 19 => .ok .r210
  | 20 => .ok .gbr10Le
  | 21 => .ok .gray8
  | 22 => .ok .bgr8
  | 23 => .ok .bgrx8
  | 24 => .ok .argb8
  | _ => .error .badTag

/-- The byte of an audio format; all tagged formats share one. -/
def audioFormatToU8 : AudioFormat → UInt8
  | .aac => 0
  | .opus => 1
  | .pcmS16Le => 2
  | .pcmF32Le => 3
  | .pcmS24Le => 4
  | .mulaw => 5
  | .alaw => 6
  | .imaAdpcm => 7
  | .mp2 => 8
  | .ac3 => 9
  | .flac => 10
  | .vorbis => 11
  | .mp3 => 12
  | .speex => 13
  | .pcmS32Le => 14
  | .pcmU8 => 15
  | .tagged _ => audioFormatTagged

def audioFormatFromU8 : UInt8 → Except WireError AudioFormat
  | 0 => .ok .aac
  | 1 => .ok .opus
  | 2 => .ok .pcmS16Le
  | 3 => .ok .pcmF32Le
  | 4 => .ok .pcmS24Le
  | 5 => .ok .mulaw
  | 6 => .ok .alaw
  | 7 => .ok .imaAdpcm
  | 8 => .ok .mp2
  | 9 => .ok .ac3
  | 10 => .ok .flac
  | 11 => .ok .vorbis
  | 12 => .ok .mp3
  | 13 => .ok .speex
  | 14 => .ok .pcmS32Le
  | 15 => .ok .pcmU8
  | _ => .error .badTag

def bytestreamToU8 : ByteStreamEncoding → UInt8
  | .mpegTs => 0
  | .matroska => 1
  | .ogg => 2
  | .flv => 3
  | .isoBmff => 4
  | .mp4 => 5
  | .ivf => 6
  | .mpegPs => 7
  | .wav => 8
  | .aiff => 18
  | .au => 19
  | .avi => 9
  | .y4m => 10
  | .multipart => 11
  | .raw => 12
  | .rtp => 13
  | .srtp => 14
  | .rtcp => 15
  | .srtcp => 16
  | .dtls => 17
  | .iv8 => 20

def bytestreamFromU8 : UInt8 → Except WireError ByteStreamEncoding
  | 0 => .ok .mpegTs
  | 1 => .ok .matroska
  | 2 => .ok .ogg
  | 3 => .ok .flv
  | 4 => .ok .isoBmff
  | 5 => .ok .mp4
  | 6 => .ok .ivf
  | 7 => .ok .mpegPs
  | 8 => .ok .wav
  | 9 => .ok .avi
  | 18 => .ok .aiff
  | 19 => .ok .au
  | 10 => .ok .y4m
  | 11 => .ok .multipart
  | 12 => .ok .raw
  | 13 => .ok .rtp
  | 14 => .ok .srtp
  | 15 => .ok .rtcp
  | 16 => .ok .srtcp
  | 17 => .ok .dtls
  | 20 => .ok .iv8
  | _ => .error .badTag

/-- The byte of a text syntax. -/
def textFormatToU8 : TextFormat → UInt8
  | .utf8 => 0
  | .pangoMarkup => 1
  | .srt => 2
  | .webVtt => 3
  | .ssa => 4
  | .ttml => 5
  | .teletext => 6

/-- The text syntax of a byte. -/
def textFormatFromU8 : UInt8 → Except WireError TextFormat
  | 0 => .ok .utf8
  | 1 => .ok .pangoMarkup
  | 2 => .ok .srt
  | 3 => .ok .webVtt
  | 4 => .ok .ssa
  | 5 => .ok .ttml
  | 6 => .ok .teletext
  | _ => .error .badTag

/-- The byte of a caption carriage. -/
def ccFormatToU8 : ClosedCaptionFormat → UInt8
  | .cea608 => 0
  | .cea708 => 1
  | .cea608Raw => 2
  | .cea608S334 => 3
  | .cea708Cdp => 4

/-- The caption carriage of a byte. -/
def ccFormatFromU8 : UInt8 → Except WireError ClosedCaptionFormat
  | 0 => .ok .cea608
  | 1 => .ok .cea708
  | 2 => .ok .cea608Raw
  | 3 => .ok .cea608S334
  | 4 => .ok .cea708Cdp
  | _ => .error .badTag

/-- The byte of a bitmap-subtitle format. -/
def subpictureFormatToU8 : SubPictureFormat → UInt8
  | .vobSub => 0
  | .dvbSub => 1
  | .pgs => 2

/-- The bitmap-subtitle format of a byte. -/
def subpictureFormatFromU8 : UInt8 → Except WireError SubPictureFormat
  | 0 => .ok .vobSub
  | 1 => .ok .dvbSub
  | 2 => .ok .pgs
  | _ => .error .badTag

/-- The byte of a tensor element type. -/
def dtypeToU8 : TensorDType → UInt8
  | .f16 => 0
  | .f32 => 1
  | .i8 => 2
  | .u8 => 3

/-- The tensor element type of a byte. -/
def dtypeFromU8 : UInt8 → Except WireError TensorDType
  | 0 => .ok .f16
  | 1 => .ok .f32
  | 2 => .ok .i8
  | 3 => .ok .u8
  | _ => .error .badTag

def layoutToU8 : TensorLayout → UInt8
  | .nchw => 0
  | .nhwc => 1

def layoutFromU8 : UInt8 → Except WireError TensorLayout
  | 0 => .ok .nchw
  | 1 => .ok .nhwc
  | _ => .error .badTag

/-- The byte of a scan structure. -/
def interlaceToU8 : Interlace → UInt8
  | .any => 0
  | .progressive => 1
  | .interleaved => 2

/-- The scan structure of a byte. -/
def interlaceFromU8 : UInt8 → Except WireError Interlace
  | 0 => .ok .any
  | 1 => .ok .progressive
  | 2 => .ok .interleaved
  | _ => .error .badTag

/-- The byte of a sample range. -/
def colorRangeToU8 : ColorRange → UInt8
  | .unknown => 0
  | .limited => 1
  | .full => 2

/-- The sample range of a byte. -/
def colorRangeFromU8 : UInt8 → Except WireError ColorRange
  | 0 => .ok .unknown
  | 1 => .ok .limited
  | 2 => .ok .full
  | _ => .error .badTag

/-- The byte of a colour matrix. -/
def matrixToU8 : MatrixCoefficients → UInt8
  | .unknown => 0
  | .identity => 1
  | .bt601 => 2
  | .bt709 => 3
  | .bt2020Ncl => 4

/-- The colour matrix of a byte. -/
def matrixFromU8 : UInt8 → Except WireError MatrixCoefficients
  | 0 => .ok .unknown
  | 1 => .ok .identity
  | 2 => .ok .bt601
  | 3 => .ok .bt709
  | 4 => .ok .bt2020Ncl
  | _ => .error .badTag

/-- The byte of a transfer function. -/
def transferToU8 : TransferCharacteristics → UInt8
  | .unknown => 0
  | .srgb => 1
  | .bt601 => 2
  | .bt709 => 3
  | .bt2020 => 4
  | .pq => 5
  | .hlg => 6

/-- The transfer function of a byte. -/
def transferFromU8 : UInt8 → Except WireError TransferCharacteristics
  | 0 => .ok .unknown
  | 1 => .ok .srgb
  | 2 => .ok .bt601
  | 3 => .ok .bt709
  | 4 => .ok .bt2020
  | 5 => .ok .pq
  | 6 => .ok .hlg
  | _ => .error .badTag

/-- The byte of a set of primaries. -/
def primariesToU8 : ColorPrimaries → UInt8
  | .unknown => 0
  | .bt709 => 1
  | .bt470bg => 2
  | .smpte170m => 3
  | .bt2020 => 4

def primariesFromU8 : UInt8 → Except WireError ColorPrimaries
  | 0 => .ok .unknown
  | 1 => .ok .bt709
  | 2 => .ok .bt470bg
  | 3 => .ok .smpte170m
  | 4 => .ok .bt2020
  | _ => .error .badTag

/-! ## Fields -/

/-- The byte of a tag's namespace. -/
def tagNamespaceToU8 : TagNamespace → UInt8
  | .riff => 0
  | .mov => 1

def tagNamespaceFromU8 : UInt8 → Except WireError TagNamespace
  | 0 => .ok .riff
  | 1 => .ok .mov
  | _ => .error .badTag

/-- Write a container tag. -/
def putCodecTag (t : CodecTag) : List UInt8 := putU8 (tagNamespaceToU8 t.tagNamespace) ++ putU32 t.tag

def getCodecTag : Reader CodecTag := do
  let tagNamespace ← tagged tagNamespaceFromU8
  let tag ← u32
  return ⟨tagNamespace, tag⟩

/-- Write a codec, a tagged one with its tag. -/
def putVideoCodec (codec : VideoCodec) : List UInt8 :=
  putU8 (videoCodecToU8 codec) ++ match codec with
    | .tagged tag => putCodecTag tag
    | _ => []

def getVideoCodec : Reader VideoCodec := do
  let v ← u8
  if v = videoCodecTagged then do
    let tag ← getCodecTag
    return .tagged tag
  else StateT.lift (videoCodecFromU8 v)

/-- Write an audio format, a tagged one with its tag. -/
def putAudioFormat (format : AudioFormat) : List UInt8 :=
  putU8 (audioFormatToU8 format) ++ match format with
    | .tagged tag => putCodecTag tag
    | _ => []

def getAudioFormat : Reader AudioFormat := do
  let v ← u8
  if v = audioFormatTagged then do
    let tag ← getCodecTag
    return .tagged tag
  else StateT.lift (audioFormatFromU8 v)

/-- Write a dimension or a rate. -/
def putDim : Span → List UInt8
  | .any => putU8 0
  | .range min max => putU8 1 ++ (putU32 min ++ putU32 max)
  | .fixed v => putU8 2 ++ putU32 v

/-- Read a dimension or a rate. -/
def getDim : Reader Span := do
  match ← u8 with
  | 0 => return .any
  | 1 => do
    let min ← u32
    let max ← u32
    return .range min max
  | 2 => do
    let v ← u32
    return .fixed v
  | _ => throw .badTag

/-- Write the colour description. -/
def putColorimetry (c : Colorimetry) : List UInt8 :=
  putU8 (colorRangeToU8 c.range) ++ (putU8 (matrixToU8 c.matrix) ++
    (putU8 (transferToU8 c.transfer) ++ putU8 (primariesToU8 c.primaries)))

def getColorimetry : Reader Colorimetry := do
  let range ← tagged colorRangeFromU8
  let matrix ← tagged matrixFromU8
  let transfer ← tagged transferFromU8
  let primaries ← tagged primariesFromU8
  return ⟨range, matrix, transfer, primaries⟩

theorem decodes_getCodecTag (t : CodecTag) : Decodes getCodecTag (putCodecTag t) t := by
  obtain ⟨tagNamespace, tag⟩ := t
  refine (decodes_tagged (a := tagNamespace) ?_).bind ((decodes_u32 tag).map _)
  cases tagNamespace <;> rfl

theorem decodes_getVideoCodec (codec : VideoCodec) : Decodes getVideoCodec (putVideoCodec codec) codec := by
  refine (decodes_u8 (videoCodecToU8 codec)).bind ?_
  cases codec with
  | tagged tag => exact (decodes_getCodecTag tag).map VideoCodec.tagged
  | vp6 alpha => cases alpha <;> exact .lift rfl
  | proRes variant => cases variant <;> exact .lift rfl
  | _ => exact .lift rfl

theorem decodes_getAudioFormat (format : AudioFormat) : Decodes getAudioFormat (putAudioFormat format) format := by
  refine (decodes_u8 (audioFormatToU8 format)).bind ?_
  cases format with
  | tagged tag => exact (decodes_getCodecTag tag).map AudioFormat.tagged
  | _ => exact .lift rfl

theorem decodes_getDim (d : Span) : Decodes getDim (putDim d) d := by
  cases d with
  | any => exact (decodes_u8 0).bind (.pure Span.any)
  | range lo hi => exact (decodes_u8 1).bind ((decodes_u32 lo).bind ((decodes_u32 hi).map _))
  | fixed v => exact (decodes_u8 2).bind ((decodes_u32 v).map _)

theorem decodes_getColorimetry (c : Colorimetry) : Decodes getColorimetry (putColorimetry c) c := by
  obtain ⟨range, matrix, transfer, primaries⟩ := c
  refine (decodes_tagged (a := range) ?_).bind ((decodes_tagged (a := matrix) ?_).bind
    ((decodes_tagged (a := transfer) ?_).bind ((decodes_tagged (a := primaries) ?_).map _)))
  · cases range <;> rfl
  · cases matrix <;> rfl
  · cases transfer <;> rfl
  · cases primaries <;> rfl

/-! ## Variants -/

mutual

/-- Write a caps; the alignment of a compressed stream is left out. -/
def putCaps : Caps → List UInt8
  | .compressedVideo codec width height framerate colorimetry _ =>
    putU8 0 ++ (putVideoCodec codec ++ (putDim width ++ (putDim height ++ (putDim framerate ++
      putColorimetry colorimetry))))
  | .rawVideo format width height framerate interlace colorimetry =>
    putU8 1 ++ (putU8 (rawFormatToU8 format) ++ (putDim width ++ (putDim height ++
      (putDim framerate ++ (putU8 (interlaceToU8 interlace) ++ putColorimetry colorimetry)))))
  | .audio format channels sampleRate channelLayout =>
    putU8 2 ++ (putAudioFormat format ++ (putU8 channels ++ (putU32 sampleRate ++ putU16 channelLayout.mask)))
  | .tensor dtype shape layout =>
    putU8 3 ++ (putU8 (dtypeToU8 dtype) ++ (putU32 (len32 shape.dims.length) ++
      (shape.dims.flatMap putU32 ++ putU8 (layoutToU8 layout))))
  | .byteStream encoding => putU8 4 ++ putU8 (bytestreamToU8 encoding)
  | .text format => putU8 5 ++ putU8 (textFormatToU8 format)
  | .klv => putU8 6
  | .closedCaption format => putU8 7 ++ putU8 (ccFormatToU8 format)
  | .subPicture format => putU8 8 ++ putU8 (subpictureFormatToU8 format)
  | .onvifMetadata => putU8 9
  | .batch streams => putU8 10 ++ (putU32 (len32 streams.length) ++ putStreams streams)

/-- Write the streams of a batch one after another. -/
def putStreams : List Caps → List UInt8
  | [] => []
  | stream :: streams => putCaps stream ++ putStreams streams

end

/-- Read a tensor's fields. The rank is checked before its dimensions are read. -/
def getTensor : Reader Caps := do
  let dtype ← tagged dtypeFromU8
  let n ← u32
  if n.toNat ≤ maxTensorRank then do
    let dims ← times u32 n.toNat
    let layout ← tagged layoutFromU8
    match TensorShape.fromSlice dims with
    | some shape => return .tensor dtype shape layout
    | none => throw .badTag
  else throw .badTag

/-- Read the fields of a variant that is no batch. -/
def getLeaf : UInt8 → Reader Caps
  | 0 => do
    let codec ← getVideoCodec
    let width ← getDim
    let height ← getDim
    let framerate ← getDim
    let colorimetry ← getColorimetry
    return .compressedVideo codec width height framerate colorimetry .unspecified
  | 1 => do
    let format ← tagged rawFormatFromU8
    let width ← getDim
    let height ← getDim
    let framerate ← getDim
    let interlace ← tagged interlaceFromU8
    let colorimetry ← getColorimetry
    return .rawVideo format width height framerate interlace colorimetry
  | 2 => do
    let format ← getAudioFormat
    let channels ← u8
    let sampleRate ← u32
    let mask ← u16
    return .audio format channels sampleRate (ChannelLayout.fromMask mask)
  | 3 => getTensor
  | 4 => do
    let encoding ← tagged bytestreamFromU8
    return .byteStream encoding
  | 5 => do
    let format ← tagged textFormatFromU8
    return .text format
  | 6 => return .klv
  | 7 => do
    let format ← tagged ccFormatFromU8
    return .closedCaption format
  | 8 => do
    let format ← tagged subpictureFormatFromU8
    return .subPicture format
  | 9 => return .onvifMetadata
  | _ => throw .badTag

/-- Read one stream of a batch. A stream that starts like a batch is refused, so that what is read
here never recurses. -/
def getStream : Reader Caps := fun input =>
  if input.head? = some 10 then .error .badTag else (u8 >>= getLeaf) input

def getCaps : Reader Caps := do
  let tag ← u8
  if tag = 10 then do
    let count ← u32
    let streams ← times getStream count.toNat
    return .batch streams
  else getLeaf tag

/-! ## The round trip -/

/-- A caps without the alignment the wire does not carry. -/
def dropAlignment : Caps → Caps
  | .compressedVideo codec width height framerate colorimetry _ =>
    .compressedVideo codec width height framerate colorimetry .unspecified
  | c => c

/-- What the far side of a link makes of a caps. -/
def carriedCaps : Caps → Caps
  | .batch streams => .batch (streams.map dropAlignment)
  | c => dropAlignment c

theorem putStreams_eq (streams : List Caps) : putStreams streams = streams.flatMap putCaps := by
  induction streams with
  | nil => rw [putStreams, List.flatMap_nil]
  | cons stream streams ih => rw [putStreams, ih, List.flatMap_cons]

theorem decodes_getTensor (dtype : TensorDType) (shape : TensorShape) (layout : TensorLayout) :
    Decodes getTensor (putU8 (dtypeToU8 dtype) ++ (putU32 (len32 shape.dims.length) ++
      (shape.dims.flatMap putU32 ++ putU8 (layoutToU8 layout)))) (.tensor dtype shape layout) := by
  have hrank : shape.dims.length ≤ maxTensorRank := shape.rank_le
  have hlen : (len32 shape.dims.length).toNat = shape.dims.length :=
    toNat_len32 (hrank.trans_lt (by decide))
  have hshape : TensorShape.fromSlice shape.dims = some shape :=
    dif_pos ⟨shape.rank_pos, shape.rank_le⟩
  refine (decodes_tagged (a := dtype) (by cases dtype <;> rfl)).bind ((decodes_u32 _).bind ?_)
  simp only [hlen, hrank, if_true]
  refine (Decodes.times fun d _ => decodes_u32 d).bind ?_
  have hback : layoutFromU8 (layoutToU8 layout) = .ok layout := by cases layout <;> rfl
  simp only [hshape]
  exact (decodes_tagged hback).map fun layout => Caps.tensor dtype shape layout

/-- A variant that is no batch is recovered but for its alignment. -/
theorem decodes_getLeaf {c : Caps} (hc : c.isLeaf) : Decodes (u8 >>= getLeaf) (putCaps c) (dropAlignment c) := by
  cases c with
  | compressedVideo codec width height framerate colorimetry alignment =>
    exact (decodes_u8 0).bind ((decodes_getVideoCodec codec).bind ((decodes_getDim width).bind
      ((decodes_getDim height).bind ((decodes_getDim framerate).bind ((decodes_getColorimetry colorimetry).map _)))))
  | rawVideo format width height framerate interlace colorimetry =>
    refine (decodes_u8 1).bind ((decodes_tagged (a := format) ?_).bind ((decodes_getDim width).bind
      ((decodes_getDim height).bind ((decodes_getDim framerate).bind
        ((decodes_tagged (a := interlace) ?_).bind ((decodes_getColorimetry colorimetry).map _))))))
    · cases format <;> rfl
    · cases interlace <;> rfl
  | audio format channels sampleRate channelLayout =>
    have hmask : ChannelLayout.fromMask channelLayout.mask = channelLayout := by
      obtain ⟨mask, known⟩ := channelLayout
      simp only [ChannelLayout.fromMask, known]
    have haudio := (decodes_u8 2).bind (k := getLeaf) ((decodes_getAudioFormat format).bind
      ((decodes_u8 channels).bind ((decodes_u32 sampleRate).bind ((decodes_u16 channelLayout.mask).map _))))
    rwa [hmask] at haudio
  | tensor dtype shape layout => exact (decodes_u8 3).bind (decodes_getTensor dtype shape layout)
  | byteStream encoding =>
    refine (decodes_u8 4).bind ((decodes_tagged (a := encoding) ?_).map _)
    cases encoding <;> rfl
  | text format =>
    refine (decodes_u8 5).bind ((decodes_tagged (a := format) ?_).map _)
    cases format <;> rfl
  | klv => exact (decodes_u8 6).bind (.pure _)
  | closedCaption format =>
    refine (decodes_u8 7).bind ((decodes_tagged (a := format) ?_).map _)
    cases format <;> rfl
  | subPicture format =>
    refine (decodes_u8 8).bind ((decodes_tagged (a := format) ?_).map _)
    cases format <;> rfl
  | onvifMetadata => exact (decodes_u8 9).bind (.pure _)
  | batch streams => simp [Caps.isLeaf] at hc

theorem head?_putCaps (c : Caps) (rest : List UInt8) : (putCaps c ++ rest).head? = some 10 ↔ c.isLeaf = false := by
  cases c <;> simp [putCaps, putU8, Caps.isLeaf]

theorem decodes_getStream {c : Caps} (hc : c.isLeaf) : Decodes getStream (putCaps c) (dropAlignment c) := by
  intro rest
  have hhead : ¬ (putCaps c ++ rest).head? = some 10 := by
    rw [head?_putCaps, hc]
    decide
  rw [getStream, if_neg hhead]
  exact decodes_getLeaf hc rest

theorem refuses_getStream {c : Caps} (hc : c.isLeaf = false) : Refuses getStream (putCaps c) .badTag := by
  intro rest
  rw [getStream, if_pos ((head?_putCaps c rest).2 hc)]

theorem getCaps_of_head {input : List UInt8} (h : ¬ input.head? = some 10) :
    getCaps input = (u8 >>= getLeaf) input := by
  cases input with
  | nil => rfl
  | cons tag input =>
    have htag : ¬ tag = 10 := by simpa using h
    show (if tag = 10 then _ else getLeaf tag : Reader Caps) input = getLeaf tag input
    rw [if_neg htag]

theorem decodes_getCaps {c : Caps} (hc : ∀ streams, c = .batch streams →
    streams.length < 2 ^ 32 ∧ ∀ s ∈ streams, s.isLeaf) : Decodes getCaps (putCaps c) (carriedCaps c) := by
  cases hleaf : c.isLeaf with
  | true =>
    intro rest
    have hhead : ¬ (putCaps c ++ rest).head? = some 10 := by
      rw [head?_putCaps, hleaf]
      decide
    have hcarried : carriedCaps c = dropAlignment c := by
      cases c <;> simp_all [carriedCaps, Caps.isLeaf]
    rw [getCaps_of_head hhead, hcarried]
    exact decodes_getLeaf hleaf rest
  | false =>
    obtain ⟨streams, rfl⟩ : ∃ streams, c = .batch streams := by
      cases c <;> simp_all [Caps.isLeaf]
    obtain ⟨hlen, hstreams⟩ := hc streams rfl
    rw [putCaps, putStreams_eq, carriedCaps]
    refine (decodes_u8 10).bind ((decodes_u32 (len32 streams.length)).bind ?_)
    rw [toNat_len32 hlen]
    exact (Decodes.timesMap fun s hs => decodes_getStream (hstreams s hs)).map Caps.batch

theorem refuses_getCaps {streams : List Caps} (hlen : streams.length < 2 ^ 32)
    (hnested : ∃ s ∈ streams, s.isLeaf = false) : Refuses getCaps (putCaps (.batch streams)) .badTag := by
  -- The streams before the first batch are read, and the batch is refused.
  obtain ⟨pre, s, post, rfl, hs, hpre⟩ : ∃ pre s post, streams = pre ++ s :: post ∧
      s.isLeaf = false ∧ ∀ c ∈ pre, c.isLeaf := by
    obtain ⟨s, hfind⟩ : ∃ s, streams.find? (fun c => !c.isLeaf) = some s :=
      Option.isSome_iff_exists.1 (List.find?_isSome.2 (by simpa using hnested))
    obtain ⟨hs, pre, post, rfl, hpre⟩ := List.find?_eq_some_iff_append.1 hfind
    exact ⟨pre, s, post, rfl, by simpa using hs, by simpa using hpre⟩
  rw [putCaps, putStreams_eq]
  refine .after (decodes_u8 10) (.after (decodes_u32 _) ?_)
  rw [toNat_len32 hlen]
  exact (Refuses.times (fun c hc => decodes_getStream (hpre c hc)) (refuses_getStream hs)).bind _

end Glass2Glass.Wire
