import Glass2Glass.Lib.Words

/-!
# FLV codecs and tags

An FLV file is a header and tags, each with its size behind it, which is the size before the next tag
(`g2g-plugins/src/flv.rs`). A tag that is written is found again (`tagAt_putTag`), and what is found does not depend on
what follows (`tagAt_append`).
-/

namespace Glass2Glass.Flv

open Words List

/-! ## Codecs -/

def tagAudio : UInt8 := 8

def tagVideo : UInt8 := 9

def tagScript : UInt8 := 18

def videoCodecAvc : UInt8 := 7

def soundFormatAac : UInt8 := 10

inductive FlvTrack where
  | video
  | audio
  deriving DecidableEq

inductive FlvCodec where
  | sorensonH263
  | vp6
  | vp6Alpha
  | h264
  | mp3
  | aac
  | speex
  deriving DecidableEq

namespace FlvCodec

def track : FlvCodec → FlvTrack
  | sorensonH263 => .video
  | vp6 => .video
  | vp6Alpha => .video
  | h264 => .video
  | mp3 => .audio
  | aac => .audio
  | speex => .audio

/-- What the first byte of a tag says of the codec. -/
def tagId : FlvCodec → UInt8
  | sorensonH263 => 2
  | vp6 => 4
  | vp6Alpha => 5
  | h264 => videoCodecAvc
  | mp3 => 2
  | aac => soundFormatAac
  | speex => 11

def fromVideoId (id : UInt8) : Option FlvCodec :=
  if id = 2 then some sorensonH263
  else if id = 4 then some vp6
  else if id = 5 then some vp6Alpha
  else if id = videoCodecAvc then some h264
  else none

def fromSoundFormat (format : UInt8) : Option FlvCodec :=
  if format = 2 ∨ format = 14 then some mp3
  else if format = soundFormatAac then some aac
  else if format = 11 then some speex
  else none

end FlvCodec

/-- The bytes between the first byte of a tag and the access unit. -/
def payloadOffset : FlvCodec → Nat
  | .h264 => 4
  | .aac => 1
  | _ => 0

/-- The channels and the rate that the first byte of an audio tag declares. -/
def audioTagParams (codec : FlvCodec) (first : UInt8) : Option (Nat × Nat) :=
  let channels := if first &&& 0x01 = 1 then 2 else 1
  let rate := 44100 >>> (3 - ((first >>> 2) &&& 0x03).toNat)
  match codec with
  | .mp3 => if first >>> 4 = 14 then some (channels, 8000) else some (channels, rate)
  | .speex => some (1, 16000)
  | _ => none

/-- The largest rate that can be declared and is not above the real one. -/
def rateBits (sampleRate : Nat) : UInt8 :=
  (([3, 2, 1, 0] : List Nat).find? fun b => 44100 >>> (3 - b) ≤ sampleRate).elim 0 UInt8.ofNat

/-- The first byte of an audio tag. -/
def audioTagFlags (codec : FlvCodec) (channels sampleRate : Nat) : UInt8 :=
  let rate : UInt8 := match codec with
    | .aac => 3
    | .speex => 1
    | _ => rateBits sampleRate
  let stereo : UInt8 := match codec with
    | .aac => 1
    | .speex => 0
    | _ => if 2 ≤ channels then 1 else 0
  (codec.tagId <<< 4) ||| (rate <<< 2) ||| 0x02 ||| stereo

/-! ## The file header -/

def flvHeaderMin : Nat := 9

def tagHeaderLen : Nat := 11

def prevTagSizeLen : Nat := 4

def flvFlagVideo : UInt8 := 0x01

def flvFlagAudio : UInt8 := 0x04

def flvSignature : List UInt8 := [0x46, 0x4c, 0x56]

def flvVersion : UInt8 := 1

def flvDataOffsetAt : Nat := 5

def tagTypeMask : UInt8 := 0x1F

/-- The file header, and the size of the tag before the first one. -/
def putFileHeader (flags : UInt8) : List UInt8 :=
  flvSignature ++ [flvVersion, flags] ++ beBytes 4 flvHeaderMin ++ beBytes 4 0

def fileHeaderLen (buf : List UInt8) : Option Nat :=
  if buf.length < flvHeaderMin then none
  else
    let offset := beNat (slice buf flvDataOffsetAt (flvHeaderMin - flvDataOffsetAt))
    let len := max offset flvHeaderMin
    if buf.length < len then none else some len

/-! ## Tags -/

structure FlvTagHeader where
  tagType : UInt8
  timestampMs : Nat

/-- The tag whose preceding size is at `pos`: its header, and where its body starts and ends. -/
def tagAt (buf : List UInt8) (pos : Nat) : Option (FlvTagHeader × Nat × Nat) :=
  let headerAt := pos + prevTagSizeLen
  let bodyStart := headerAt + tagHeaderLen
  if buf.length < bodyStart then none
  else
    let header := slice buf headerAt tagHeaderLen
    let dataSize := beNat (slice header 1 3)
    let timestampMs := (byteAt header 7).toNat <<< 24 ||| beNat (slice header 4 3)
    let bodyEnd := bodyStart + dataSize
    if buf.length < bodyEnd then none
    else some ({ tagType := byteAt header 0 &&& tagTypeMask, timestampMs }, bodyStart, bodyEnd)

def putTagHeader (tagType : UInt8) (timestampMs bodyLen : Nat) : List UInt8 :=
  [tagType] ++ beBytes 3 bodyLen ++ beBytes 3 (timestampMs &&& 0x00FFFFFF) ++
    [UInt8.ofNat (timestampMs >>> 24)] ++ beBytes 3 0

/-- A tag whose body is the parts in order, and its size. -/
def emitTag (tagType : UInt8) (ptsMs : Nat) (parts : List (List UInt8)) : List UInt8 :=
  let bodyLen := parts.flatten.length
  putTagHeader tagType ptsMs bodyLen ++ parts.flatten ++ beBytes 4 (tagHeaderLen + bodyLen)

/-! ## What is written is found -/

variable {buf body rest z : List UInt8} {pos bodyStart bodyEnd : Nat} {tag : FlvTagHeader}

theorem tagAt_append (h : tagAt buf pos = some (tag, bodyStart, bodyEnd)) (more : List UInt8) :
    tagAt (buf ++ more) pos = some (tag, bodyStart, bodyEnd) := by
  unfold tagAt tagHeaderLen prevTagSizeLen at h ⊢
  dsimp only at h ⊢
  split_ifs at h with hshort hbody
  rw [slice_append_of_le (by omega), length_append, if_neg (by omega), if_neg (by omega)]
  exact h

theorem tagAt_bounds (h : tagAt buf pos = some (tag, bodyStart, bodyEnd)) :
    bodyStart = pos + 15 ∧ bodyStart ≤ bodyEnd ∧ bodyEnd ≤ buf.length := by
  unfold tagAt tagHeaderLen prevTagSizeLen at h
  dsimp only at h
  split_ifs at h with hshort hbody
  cases h
  omega

theorem tagAt_drop (hpos : pos ≤ buf.length) :
    tagAt (buf.drop pos) 0 = (tagAt buf pos).map fun found => (found.1, found.2.1 - pos, found.2.2 - pos) := by
  unfold tagAt tagHeaderLen prevTagSizeLen
  dsimp only
  rw [slice_drop, length_drop, Nat.zero_add]
  generalize beNat (slice (slice buf (pos + 4) 11) 1 3) = size
  by_cases hshort : buf.length < pos + 4 + 11
  · rw [if_pos hshort, if_pos (by omega)]
    rfl
  · rw [if_neg hshort, if_neg (by omega)]
    by_cases hbody : buf.length < pos + 4 + 11 + size
    · rw [if_pos hbody, if_pos (by omega)]
      rfl
    · rw [if_neg hbody, if_neg (by omega), Option.map_some]
      have hstart : pos + 4 + 11 - pos = 4 + 11 := by omega
      have hend : pos + 4 + 11 + size - pos = 4 + 11 + size := by omega
      rw [hstart, hend]

theorem length_putTagHeader (tagType : UInt8) (timestampMs bodyLen : Nat) :
    (putTagHeader tagType timestampMs bodyLen).length = 11 := by
  unfold putTagHeader
  simp only [length_append, length_beBytes, length_cons, length_nil]

theorem timestamp_parts {timestampMs : Nat} (h : timestampMs < 2 ^ 32) :
    (UInt8.ofNat (timestampMs >>> 24)).toNat <<< 24 ||| beNat (beBytes 3 (timestampMs &&& 0x00FFFFFF)) =
      timestampMs := by
  have hlow : timestampMs &&& 0x00FFFFFF = timestampMs % 2 ^ 24 := Nat.and_two_pow_sub_one_eq_mod timestampMs 24
  have hhigh : (UInt8.ofNat (timestampMs >>> 24)).toNat = timestampMs / 2 ^ 24 := by
    rw [UInt8.toNat_ofNat', Nat.shiftRight_eq_div_pow]
    exact Nat.mod_eq_of_lt (by omega)
  have hlt : timestampMs % 2 ^ 24 < 2 ^ 24 := Nat.mod_lt _ (by decide)
  rw [hlow, hhigh, beNat_beBytes (by omega), ← Nat.shiftLeft_add_eq_or_of_lt hlt, Nat.shiftLeft_eq]
  omega

theorem tagAt_putTag {tagType : UInt8} {timestampMs : Nat} (hz : z.length = 4) (htimestamp : timestampMs < 2 ^ 32)
    (hbody : body.length < 2 ^ 24) : tagAt (z ++ (putTagHeader tagType timestampMs body.length ++ (body ++ rest))) 0 =
      some ({ tagType := tagType &&& tagTypeMask, timestampMs }, 15, 15 + body.length) := by
  have hheader := length_putTagHeader tagType timestampMs body.length
  have hlength : (z ++ (putTagHeader tagType timestampMs body.length ++ (body ++ rest))).length =
      15 + body.length + rest.length := by
    rw [length_append, length_append, length_append, hz, hheader]
    omega
  unfold tagAt tagHeaderLen prevTagSizeLen
  dsimp only
  rw [Nat.zero_add, hlength, if_neg (by omega), slice_after hz hheader]
  have hsize : slice (putTagHeader tagType timestampMs body.length) 1 3 = beBytes 3 body.length := by
    unfold putTagHeader
    rw [append_assoc, append_assoc, append_assoc]
    exact slice_after rfl (length_beBytes _ _)
  have hlow : slice (putTagHeader tagType timestampMs body.length) 4 3 = beBytes 3 (timestampMs &&& 0x00FFFFFF) := by
    unfold putTagHeader
    rw [append_assoc, append_assoc]
    exact slice_after rfl (length_beBytes _ _)
  have hhigh : byteAt (putTagHeader tagType timestampMs body.length) 7 = UInt8.ofNat (timestampMs >>> 24) := rfl
  have htype : byteAt (putTagHeader tagType timestampMs body.length) 0 = tagType := rfl
  rw [hsize, hlow, hhigh, htype, beNat_beBytes (by omega), if_neg (by omega), timestamp_parts htimestamp]

end Glass2Glass.Flv
