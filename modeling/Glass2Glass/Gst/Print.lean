import Glass2Glass.Gst.Names
import Glass2Glass.Gst.Split
import Glass2Glass.Lib.Codec

/-!
# Printing caps

`Caps::to_gst_string` (`caps.rs`) with the media-type tables and the helpers that append a field. A
description is a media type followed by `,key=value` for every field that is declared, and a batch
quotes the descriptions of its streams inside angle brackets. Nothing is escaped.
-/

namespace Glass2Glass.Gst

/-! ## Media types -/

/-- The media type of a text syntax, with its `format=` where it has one. -/
def textFormatGstMediaType : TextFormat → List Char
  | .utf8 => "text/x-raw,format=utf8".toList
  | .pangoMarkup => "text/x-raw,format=pango-markup".toList
  | .srt => "application/x-subtitle".toList
  | .webVtt => "application/x-subtitle-vtt".toList
  | .ssa => "application/x-ssa".toList
  | .ttml => "application/ttml+xml".toList
  | .teletext => "private/teletext".toList

def ccFormatGstMediaType : ClosedCaptionFormat → List Char
  | .cea608 => "closedcaption/x-cea-608,format=cc_data".toList
  | .cea608Raw => "closedcaption/x-cea-608,format=raw".toList
  | .cea608S334 => "closedcaption/x-cea-608,format=s334-1a".toList
  | .cea708 => "closedcaption/x-cea-708,format=cc_data".toList
  | .cea708Cdp => "closedcaption/x-cea-708,format=cdp".toList

/-- The media type of a bitmap-subtitle format. -/
def subpictureGstMediaType : SubPictureFormat → List Char
  | .vobSub => "subpicture/x-dvd".toList
  | .dvbSub => "subpicture/x-dvb".toList
  | .pgs => "subpicture/x-pgs".toList

def bytestreamGstMediaType : ByteStreamEncoding → List Char
  | .mpegTs => "video/mpegts".toList
  | .matroska => "video/x-matroska".toList
  | .ogg => "application/ogg".toList
  | .flv => "video/x-flv".toList
  | .isoBmff => "video/quicktime".toList
  | .mp4 => "video/quicktime".toList
  | .ivf => "video/x-ivf".toList
  | .mpegPs => "video/mpeg".toList
  | .wav => "audio/x-wav".toList
  | .aiff => "audio/x-aiff".toList
  | .au => "audio/x-au".toList
  | .avi => "video/x-msvideo".toList
  | .y4m => "application/x-yuv4mpeg".toList
  | .multipart => "multipart/x-mixed-replace".toList
  | .raw => "application/octet-stream".toList
  | .rtp => "application/x-rtp".toList
  | .srtp => "application/x-srtp".toList
  | .rtcp => "application/x-rtcp".toList
  | .srtcp => "application/x-srtcp".toList
  | .dtls => "application/x-dtls".toList
  | .iv8 => "video/x-iv8".toList

/-- The two kinds of stream a tagged codec can have. -/
inductive StreamKind where
  | video
  | audio
  deriving DecidableEq

/-- The first part of a media type. -/
def StreamKind.name : StreamKind → String
  | .video => "video"
  | .audio => "audio"

/-- The subtype of a RIFF tag without a codec. -/
def RIFF_UNKNOWN_SUBTYPE : String := "x-avi-unknown"

def riffTagField : StreamKind → String
  | .video => "fourcc"
  | .audio => "codec_id"

/-- What a MOV tag follows in its subtype. -/
def MOV_UNKNOWN_SUBTYPE_PREFIX : String := "x-gst-fourcc-"

/-- The bytes of a tag as characters, `char::from` of each byte. -/
def fourcc (tag : UInt32) : List Char :=
  (Codec.leBytes 4 tag.toNat).map fun b => Char.ofNat b.toNat

def taggedGstMediaType (kind : StreamKind) (tag : CodecTag) : List Char :=
  match tag.tagNamespace with
  | .riff => kind.name.toList ++ '/' :: RIFF_UNKNOWN_SUBTYPE.toList ++ ',' ::
      (riffTagField kind).toList ++ '=' :: decimal tag.tag.toNat
  | .mov => kind.name.toList ++ '/' :: MOV_UNKNOWN_SUBTYPE_PREFIX.toList ++ fourcc tag.tag

def codecGstMediaType : VideoCodec → List Char
  | .h264 => "video/x-h264".toList
  | .h265 => "video/x-h265".toList
  | .av1 => "video/x-av1".toList
  | .vp8 => "video/x-vp8".toList
  | .vp9 => "video/x-vp9".toList
  | .mjpeg => "image/jpeg".toList
  | .png => "image/png".toList
  | .webP => "image/webp".toList
  | .mpeg4Part2 => "video/mpeg".toList
  | .mpeg2 => "video/mpeg".toList
  | .jpegXs => "image/x-jxsc".toList
  | .sorensonH263 => "video/x-flash-video".toList
  | .vp6 false => "video/x-vp6-flash".toList
  | .vp6 true => "video/x-vp6-alpha".toList
  | .vp6Plain => "video/x-vp6".toList
  | .theora => "video/x-theora".toList
  | .proRes _ => "video/x-prores".toList
  | .dnxHd => "video/x-dnxhd".toList
  | .vc1 => "video/x-wmv".toList
  | .pnm => "image/x-portable-anymap".toList
  | .tagged tag => taggedGstMediaType .video tag

/-- The media type of an audio format, with its `format=` when it is raw. -/
def audioGstMediaType : AudioFormat → List Char × Option String
  | .aac => ("audio/mpeg".toList, none)
  | .opus => ("audio/x-opus".toList, none)
  | .mp2 => ("audio/mpeg".toList, none)
  | .mp3 => ("audio/mpeg".toList, none)
  | .speex => ("audio/x-speex".toList, none)
  | .ac3 => ("audio/x-ac3".toList, none)
  | .flac => ("audio/x-flac".toList, none)
  | .vorbis => ("audio/x-vorbis".toList, none)
  | .pcmS16Le => ("audio/x-raw".toList, pcmGstFormat .pcmS16Le)
  | .pcmF32Le => ("audio/x-raw".toList, pcmGstFormat .pcmF32Le)
  | .pcmS24Le => ("audio/x-raw".toList, pcmGstFormat .pcmS24Le)
  | .pcmS32Le => ("audio/x-raw".toList, pcmGstFormat .pcmS32Le)
  | .pcmU8 => ("audio/x-raw".toList, pcmGstFormat .pcmU8)
  | .mulaw => ("audio/x-mulaw".toList, none)
  | .alaw => ("audio/x-alaw".toList, none)
  | .imaAdpcm => ("audio/x-adpcm".toList, none)
  | .tagged tag => (taggedGstMediaType .audio tag, none)

/-! ## Fields -/

variable (s : List Char)

/-- Append `,key=value` for a value that is declared. -/
def pushField (key : String) (value : Option (List Char)) : List Char :=
  match value with
  | some v => s ++ ',' :: (key.toList ++ '=' :: v)
  | none => s

/-- The value of a dimension, none for a wildcard. -/
def dimGstValue : Dim → Option (List Char)
  | .any => none
  | .fixed v => some (decimal v.toNat)
  | .range lo hi => some ('[' :: (decimal lo.toNat ++ ',' :: (decimal hi.toNat ++ [']'])))

/-- A Q16 rate as a fraction: `fps/1` for a whole rate, else `q16/65536`. -/
def q16Fraction (q16 : UInt32) : List Char :=
  if q16 % 65536 = 0 then decimal (q16 >>> 16).toNat ++ "/1".toList
  else decimal q16.toNat ++ "/65536".toList

def rateGstValue : Rate → Option (List Char)
  | .any => none
  | .fixed q16 => some (q16Fraction q16)
  | .range lo hi => some ('[' :: (q16Fraction lo ++ ',' :: (q16Fraction hi ++ [']'])))

/-- Append a dimension. -/
def pushDim (key : String) (d : Dim) : List Char := pushField s key (dimGstValue d)

def pushRate (r : Rate) : List Char := pushField s "framerate" (rateGstValue r)

def pushColorimetry (c : Colorimetry) : List Char :=
  pushField s "colorimetry" (colorimetryToGstString c)

/-- A number as sixteen hexadecimal digits. -/
def hex16 (n : Nat) : List Char :=
  List.replicate (16 - (Nat.toDigits 16 n).length) '0' ++ Nat.toDigits 16 n

def channelMaskValue (l : ChannelLayout) : Option (List Char) :=
  if l.isUnspecified then none else some ("(bitmask)0x".toList ++ hex16 (toGstMask l).toNat)

def pushChannelMask (l : ChannelLayout) : List Char :=
  pushField s "channel-mask" (channelMaskValue l)

/-! ## Descriptions -/

/-- The `Debug` form of a tensor element type. -/
def dtypeDebug : TensorDType → String
  | .f16 => "F16"
  | .f32 => "F32"
  | .i8 => "I8"
  | .u8 => "U8"

def tensorLayoutDebug : TensorLayout → String
  | .nchw => "Nchw"
  | .nhwc => "Nhwc"

def shapeDebug (shape : TensorShape) : List Char :=
  "TensorShape([".toList ++ (", ".toList).intercalate (shape.dims.map fun d => decimal d.toNat) ++ "])".toList

def proResVariant : VideoCodec → Option ProResVariant
  | .proRes variant => some variant
  | _ => none

def rawVideoGstString (format : RawVideoFormat) (width height : Dim) (framerate : Rate)
    (interlace : Interlace) (colorimetry : Colorimetry) : List Char :=
  let s := pushField "video/x-raw".toList "format" (some (rawGstName format).toList)
  let s := pushDim s "width" width
  let s := pushDim s "height" height
  let s := pushRate s framerate
  -- progressive is the default of an absent field, so only interleaved prints
  let s := pushField s "interlace-mode" (if interlace = .interleaved then some "interleaved".toList else none)
  pushColorimetry s colorimetry

def compressedVideoGstString (codec : VideoCodec) (width height : Dim) (framerate : Rate)
    (colorimetry : Colorimetry) (alignment : BitstreamAlignment) : List Char :=
  let s := codecGstMediaType codec
  let s := pushField s "variant" ((proResVariant codec).map fun v => (proResGstName v).toList)
  let s := pushDim s "width" width
  let s := pushDim s "height" height
  let s := pushRate s framerate
  let s := pushColorimetry s colorimetry
  pushField s "alignment" ((alignmentGstName alignment).map String.toList)

def audioGstString (format : AudioFormat) (channels : UInt8) (sampleRate : UInt32)
    (channelLayout : ChannelLayout) : List Char :=
  let s := (audioGstMediaType format).1
  let s := pushField s "format" ((audioGstMediaType format).2.map String.toList)
  let s := pushField s "channels" (if channels ≠ 0 then some (decimal channels.toNat) else none)
  let s := pushField s "rate" (if sampleRate ≠ ANY_SAMPLE_RATE ∧ sampleRate ≠ 0 then
    some (decimal sampleRate.toNat) else none)
  pushChannelMask s channelLayout

/-- The description of a tensor, which has no media type of gst. -/
def tensorGstString (dtype : TensorDType) (shape : TensorShape) (layout : TensorLayout) : List Char :=
  "tensor/x-raw,dtype=".toList ++ (dtypeDebug dtype).toList ++ ",layout=".toList ++
    (tensorLayoutDebug layout).toList ++ ",shape=".toList ++ shapeDebug shape

def klvMediaType : List Char := "meta/x-klv".toList

def onvifMediaType : List Char := "application/x-onvif-metadata".toList

def batchOpening : List Char := "multistream/x-analytics-batch,streams=<".toList

mutual

/-- Render caps as a description. -/
def toGstString : Caps → List Char
  | .rawVideo format width height framerate interlace colorimetry =>
    rawVideoGstString format width height framerate interlace colorimetry
  | .compressedVideo codec width height framerate colorimetry alignment =>
    compressedVideoGstString codec width height framerate colorimetry alignment
  | .audio format channels sampleRate channelLayout =>
    audioGstString format channels sampleRate channelLayout
  | .tensor dtype shape layout => tensorGstString dtype shape layout
  | .byteStream encoding => bytestreamGstMediaType encoding
  | .text format => textFormatGstMediaType format
  | .klv => klvMediaType
  | .onvifMetadata => onvifMediaType
  | .closedCaption format => ccFormatGstMediaType format
  | .subPicture format => subpictureGstMediaType format
  | .batch streams => batchOpening ++ (quotedStreams true streams ++ ['>'])

/-- The quoted descriptions of streams, with a comma before every one but the first. -/
def quotedStreams (first : Bool) : List Caps → List Char
  | [] => []
  | c :: cs => (if first then [] else [',']) ++ (quote :: (toGstString c ++ [quote])) ++
      quotedStreams false cs

end

end Glass2Glass.Gst
