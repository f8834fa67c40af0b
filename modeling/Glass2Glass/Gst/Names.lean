import Glass2Glass.Caps.Basic
import Glass2Glass.Lib.Text
import Mathlib.Algebra.Group.Nat.Defs

/-!
# The names of caps fields in a description

The spellings of field values in a GStreamer caps description that both the printer (`caps.rs`) and
the parser (`caps_parse.rs`) know: pixel and sample formats, ProRes profiles, colorimetry and channel
masks. Each section ends with the lemma that the parser reads the printed spelling back.
-/

namespace Glass2Glass.Gst

open Text List

def eqIgnoreAsciiCase (a b : List Char) : Bool := a.map Char.toLower == b.map Char.toLower

/-! ## Formats -/

/-- The `format=` name of a pixel layout. -/
def rawGstName : RawVideoFormat → String
  | .nv12 => "NV12"
  | .i420 => "I420"
  | .rgba8 => "RGBA"
  | .bgra8 => "BGRA"
  | .rgb8 => "RGB"
  | .yuyv => "YUY2"
  | .i420p10 => "I420_10LE"
  | .i420p12 => "I420_12LE"
  | .i422 => "Y42B"
  | .i422p10 => "I422_10LE"
  | .i422p12 => "I422_12LE"
  | .i444 => "Y444"
  | .i444p10 => "Y444_10LE"
  | .i444p12 => "Y444_12LE"
  | .p010 => "P010_10LE"
  | .a420 => "A420"
  | .uyvy => "UYVY"
  | .a444p12 => "A444_12LE"
  | .v210 => "v210"
  | .r210 => "r210"
  | .gbr10Le => "GBR_10LE"
  | .gray8 => "GRAY8"
  | .bgr8 => "BGR"
  | .bgrx8 => "BGRx"
  | .argb8 => "ARGB"

/-- The lower-case spellings of the pixel layouts, in the parser's order. -/
def rawFormatNames : List (String × RawVideoFormat) :=
  [("rgba", .rgba8), ("rgb", .rgb8), ("bgra", .bgra8), ("nv12", .nv12), ("i420", .i420),
    ("yuyv", .yuyv), ("yuy2", .yuyv), ("i420_10le", .i420p10), ("i420_12le", .i420p12),
    ("y42b", .i422), ("i422_10le", .i422p10), ("i422_12le", .i422p12), ("y444", .i444),
    ("y444_10le", .i444p10), ("y444_12le", .i444p12), ("p010_10le", .p010), ("p010", .p010),
    ("a420", .a420), ("uyvy", .uyvy), ("a444_12le", .a444p12), ("v210", .v210), ("r210", .r210),
    ("gbr_10le", .gbr10Le), ("gray8", .gray8), ("bgr", .bgr8), ("bgrx", .bgrx8), ("argb", .argb8)]

/-- The value a text has in a table of names. -/
def named {α : Type} (table : List (String × α)) (s : List Char) : Option α :=
  (table.find? fun entry => entry.1 == String.ofList s).map Prod.snd

/-- The pixel layout of a `format=`, in any case. -/
def parseRawFormat (s : List Char) : Option RawVideoFormat :=
  named rawFormatNames (s.map Char.toLower)

/-- The `format=` of a `text/x-raw`, in any case. -/
def parseTextFormat (s : List Char) : Option TextFormat :=
  named [("utf8", .utf8), ("pango-markup", .pangoMarkup)] (s.map Char.toLower)

/-- The raw PCM sample formats with the `format=` of each. -/
def PCM_FORMATS : List (AudioFormat × String) :=
  [(.pcmS16Le, "S16LE"), (.pcmF32Le, "F32LE"), (.pcmS24Le, "S24LE"), (.pcmS32Le, "S32LE"), (.pcmU8, "U8")]

/-- The `format=` of a raw PCM format, `none` for an encoded one. -/
def pcmGstFormat (f : AudioFormat) : Option String :=
  (PCM_FORMATS.find? fun entry => entry.1 == f).map Prod.snd

/-- The raw PCM format a `format=` names, in any case. -/
def pcmFromGstFormat (name : List Char) : Option AudioFormat :=
  (PCM_FORMATS.find? fun entry => eqIgnoreAsciiCase entry.2.toList name).map Prod.fst

/-- The `format=` of an `audio/x-raw`. -/
def parseAudioFormat (s : List Char) : Option AudioFormat := pcmFromGstFormat (trim s)

def ProResVariant.ALL : List ProResVariant :=
  [.proxy, .lt, .standard, .hq, .fourFourFourFour, .fourFourFourFourXq]

/-- The `variant=` of a ProRes profile. -/
def proResGstName : ProResVariant → String
  | .proxy => "proxy"
  | .lt => "lt"
  | .standard => "standard"
  | .hq => "hq"
  | .fourFourFourFour => "4444"
  | .fourFourFourFourXq => "4444xq"

/-- The ProRes profile a `variant=` names. -/
def proResFromGstName (name : List Char) : Option ProResVariant :=
  ProResVariant.ALL.find? fun variant => (proResGstName variant).toList == name

/-- The `alignment=` of a compressed stream, `none` when it is not declared. -/
def alignmentGstName : BitstreamAlignment → Option String
  | .unspecified => none
  | .accessUnit => some "au"
  | .nal => some "nal"

theorem parseRawFormat_rawGstName (f : RawVideoFormat) : parseRawFormat (rawGstName f).toList = some f := by
  cases f <;> decide

theorem parseAudioFormat_pcmGstFormat {f : AudioFormat} {name : String}
    (h : pcmGstFormat f = some name) : parseAudioFormat name.toList = some f := by
  simp only [pcmGstFormat, Option.map_eq_some_iff] at h
  obtain ⟨entry, hfind, rfl⟩ := h
  have hread : ∀ entry ∈ PCM_FORMATS, parseAudioFormat entry.2.toList = some entry.1 := by decide
  obtain rfl : entry.1 = f := by simpa using List.find?_some hfind
  exact hread entry (List.mem_of_find?_eq_some hfind)

theorem proResFromGstName_proResGstName (v : ProResVariant) : proResFromGstName (proResGstName v).toList = some v := by
  cases v <;> decide

/-! ## Colorimetry -/

def GST_PRESETS : List (String × Colorimetry) :=
  [("bt709", ⟨.limited, .bt709, .bt709, .bt709⟩), ("bt601", ⟨.limited, .bt601, .bt601, .smpte170m⟩),
    ("bt2020", ⟨.limited, .bt2020Ncl, .bt2020, .bt2020⟩),
    ("bt2100-pq", ⟨.limited, .bt2020Ncl, .pq, .bt2020⟩),
    ("bt2100-hlg", ⟨.limited, .bt2020Ncl, .hlg, .bt2020⟩),
    ("sRGB", ⟨.full, .identity, .srgb, .bt709⟩)]

/-- The number of a sample range in the four-part form. -/
def gstRangeNum : ColorRange → Nat
  | .unknown => 0
  | .full => 1
  | .limited => 2

def gstRangeFromNum : Nat → Option ColorRange
  | 0 => some .unknown
  | 1 => some .full
  | 2 => some .limited
  | _ => none

/-- The number of a matrix in the four-part form. -/
def gstMatrixNum : MatrixCoefficients → Nat
  | .unknown => 0
  | .identity => 1
  | .bt709 => 3
  | .bt601 => 4
  | .bt2020Ncl => 6

def gstMatrixFromNum : Nat → Option MatrixCoefficients
  | 0 => some .unknown
  | 1 => some .identity
  | 3 => some .bt709
  | 4 => some .bt601
  | 6 => some .bt2020Ncl
  | _ => none

/-- The number of a transfer function in the four-part form. -/
def gstTransferNum : TransferCharacteristics → Nat
  | .unknown => 0
  | .bt709 => 5
  | .srgb => 7
  | .bt2020 => 11
  | .pq => 14
  | .hlg => 15
  | .bt601 => 16

/-- The transfer function of a number; both bit depths of BT.2020 are one. -/
def gstTransferFromNum : Nat → Option TransferCharacteristics
  | 0 => some .unknown
  | 5 => some .bt709
  | 7 => some .srgb
  | 11 => some .bt2020
  | 13 => some .bt2020
  | 14 => some .pq
  | 15 => some .hlg
  | 16 => some .bt601
  | _ => none

/-- The number of colour primaries in the four-part form. -/
def gstPrimariesNum : ColorPrimaries → Nat
  | .unknown => 0
  | .bt709 => 1
  | .bt470bg => 3
  | .smpte170m => 4
  | .bt2020 => 7

def gstPrimariesFromNum : Nat → Option ColorPrimaries
  | 0 => some .unknown
  | 1 => some .bt709
  | 3 => some .bt470bg
  | 4 => some .smpte170m
  | 7 => some .bt2020
  | _ => none

def decimal (n : Nat) : List Char := Nat.toDigits 10 n

/-- The four-part form of a colorimetry. -/
def colorimetryNumbers (c : Colorimetry) : List Char :=
  decimal (gstRangeNum c.range) ++ ':' :: (decimal (gstMatrixNum c.matrix) ++
    ':' :: (decimal (gstTransferNum c.transfer) ++ ':' :: decimal (gstPrimariesNum c.primaries)))

/-- The `colorimetry=` value: none when nothing is known, a preset's name where one matches, else
the four-part form. -/
def colorimetryToGstString (c : Colorimetry) : Option (List Char) :=
  if c = .UNKNOWN then none
  else
    match GST_PRESETS.find? fun entry => entry.2 == c with
    | some (name, _) => some name.toList
    | none => some (colorimetryNumbers c)

/-- A number that fits a byte, `str::parse::<u8>`. -/
def parseU8 (s : List Char) : Option Nat := parseBelow 10 (2 ^ 8) s

def colorimetryFromGstString (s : List Char) : Option Colorimetry :=
  let s := trim s
  match GST_PRESETS.find? fun entry => eqIgnoreAsciiCase s entry.1.toList with
  | some (_, preset) => some preset
  | none =>
    match s.splitOn ':' with
    | [range, matrix, transfer, primaries] => do
      let range ← gstRangeFromNum (← parseU8 range)
      let matrix ← gstMatrixFromNum (← parseU8 matrix)
      let transfer ← gstTransferFromNum (← parseU8 transfer)
      let primaries ← gstPrimariesFromNum (← parseU8 primaries)
      return ⟨range, matrix, transfer, primaries⟩
    | _ => none

theorem forall_decimal {P : Char → Prop} (h : ∀ d < 10, P (Nat.digitChar d)) (n : Nat) : ∀ c ∈ decimal n, P c := by
  intro c hc
  obtain ⟨d, hd, rfl⟩ := mem_toDigits (by decide) hc
  exact h d hd

theorem parseBelow_decimal {bound n : Nat} (h : n < bound) : parseBelow 10 bound (decimal n) = some n :=
  parseBelow_toDigits (by decide) (by decide) 0 h

theorem splitOn_colons {a b c d : List Char} (ha : ':' ∉ a) (hb : ':' ∉ b) (hc : ':' ∉ c)
    (hd : ':' ∉ d) : (a ++ ':' :: (b ++ ':' :: (c ++ ':' :: d))).splitOn ':' = [a, b, c, d] := by
  rw [splitOn_append_cons_self_of_not_mem ha, splitOn_append_cons_self_of_not_mem hb,
    splitOn_append_cons_self_of_not_mem hc, splitOn_eq_singleton hd]

theorem forall_colorimetryNumbers {P : Char → Prop} (hcolon : P ':')
    (h : ∀ d < 10, P (Nat.digitChar d)) (c : Colorimetry) : ∀ x ∈ colorimetryNumbers c, P x := by
  simp only [colorimetryNumbers, forall_mem_append, forall_mem_cons]
  exact ⟨forall_decimal h _, hcolon, forall_decimal h _, hcolon, forall_decimal h _, hcolon, forall_decimal h _⟩

theorem find_preset_colorimetryNumbers (c : Colorimetry) :
    GST_PRESETS.find? (fun entry => eqIgnoreAsciiCase (colorimetryNumbers c) entry.1.toList) = none := by
  have hcolon : ∀ entry ∈ GST_PRESETS, ':' ∉ entry.1.toList.map Char.toLower := by decide
  have hmem : ':' ∈ (colorimetryNumbers c).map Char.toLower :=
    List.mem_map.2 ⟨':', by simp [colorimetryNumbers], by decide⟩
  rw [List.find?_eq_none]
  intro entry hentry heq
  rw [eqIgnoreAsciiCase, beq_iff_eq] at heq
  exact hcolon entry hentry (heq ▸ hmem)

theorem colorimetryFromGstString_numbers (c : Colorimetry) :
    colorimetryFromGstString (colorimetryNumbers c) = some c := by
  have htight : Tight (colorimetryNumbers c) :=
    tight_of_forall (forall_colorimetryNumbers (by decide) (by decide) c)
  have hdigits : ∀ n, ':' ∉ decimal n := fun n h =>
    @forall_decimal (· ≠ ':') (by decide) n ':' h rfl
  have hr : gstRangeNum c.range < 2 ^ 8 := by cases c.range <;> decide
  have hm : gstMatrixNum c.matrix < 2 ^ 8 := by cases c.matrix <;> decide
  have ht : gstTransferNum c.transfer < 2 ^ 8 := by cases c.transfer <;> decide
  have hp : gstPrimariesNum c.primaries < 2 ^ 8 := by cases c.primaries <;> decide
  have hr' : gstRangeFromNum (gstRangeNum c.range) = some c.range := by cases c.range <;> rfl
  have hm' : gstMatrixFromNum (gstMatrixNum c.matrix) = some c.matrix := by cases c.matrix <;> rfl
  have ht' : gstTransferFromNum (gstTransferNum c.transfer) = some c.transfer := by
    cases c.transfer <;> rfl
  have hp' : gstPrimariesFromNum (gstPrimariesNum c.primaries) = some c.primaries := by
    cases c.primaries <;> rfl
  simp only [colorimetryFromGstString, trim_of_tight htight, find_preset_colorimetryNumbers]
  rw [colorimetryNumbers, splitOn_colons (hdigits _) (hdigits _) (hdigits _) (hdigits _)]
  simp only [parseU8, parseBelow_decimal hr, parseBelow_decimal hm, parseBelow_decimal ht,
    parseBelow_decimal hp, Option.bind_eq_bind, Option.bind_some, hr', hm', ht', hp']
  rfl

theorem colorimetryFromGstString_toGstString {c : Colorimetry} {v : List Char}
    (h : colorimetryToGstString c = some v) : colorimetryFromGstString v = some c := by
  rw [colorimetryToGstString] at h
  split_ifs at h
  split at h
  · rename_i name preset hfind
    have hread : ∀ entry ∈ GST_PRESETS,
        colorimetryFromGstString entry.1.toList = some entry.2 := by decide
    obtain rfl := Option.some.inj h
    obtain rfl : preset = c := by simpa using List.find?_some hfind
    exact hread (name, preset) (List.mem_of_find?_eq_some hfind)
  · obtain rfl := Option.some.inj h
    exact colorimetryFromGstString_numbers c

theorem eq_UNKNOWN_of_colorimetryToGstString {c : Colorimetry}
    (h : colorimetryToGstString c = none) : c = .UNKNOWN := by
  rw [colorimetryToGstString] at h
  split_ifs at h with hc
  · exact hc
  · split at h <;> simp at h

/-! ## Channel masks -/

inductive ChannelPosition where
  | fl
  | fr
  | fc
  | lfe
  | bl
  | br
  | flc
  | frc
  | bc
  | sl
  | sr
  deriving DecidableEq

namespace ChannelPosition

/-- Every position, in mask-bit order. -/
def ALL : List ChannelPosition := [fl, fr, fc, lfe, bl, br, flc, frc, bc, sl, sr]

/-- The mask bit of a position. -/
def index : ChannelPosition → Nat
  | fl => 0
  | fr => 1
  | fc => 2
  | lfe => 3
  | bl => 4
  | br => 5
  | flc => 6
  | frc => 7
  | bc => 8
  | sl => 9
  | sr => 10

def bit (p : ChannelPosition) : UInt16 := 1 <<< UInt16.ofNat p.index

/-- The bit of a position in a `channel-mask`, where bit 9 is a second LFE. -/
def gstBit : ChannelPosition → Nat
  | sl => 10
  | sr => 11
  | other => other.index

def fromGstBit : Nat → Option ChannelPosition
  | 0 => some fl
  | 1 => some fr
  | 2 => some fc
  | 3 => some lfe
  | 4 => some bl
  | 5 => some br
  | 6 => some flc
  | 7 => some frc
  | 8 => some bc
  | 10 => some sl
  | 11 => some sr
  | _ => none

theorem mem_ALL (p : ChannelPosition) : p ∈ ALL := by
  cases p <;> decide

theorem bit_and_bit (p q : ChannelPosition) : p.bit &&& q.bit = if p = q then q.bit else 0 := by
  cases p <;> cases q <;> decide

end ChannelPosition

open ChannelPosition

theorem or_and_distrib₁₆ (a b c : UInt16) : (a ||| b) &&& c = (a &&& c) ||| (b &&& c) :=
  UInt16.toBitVec_inj.1 BitVec.and_or_distrib_right

theorem or_and_distrib₆₄ (a b c : UInt64) : (a ||| b) &&& c = (a &&& c) ||| (b &&& c) :=
  UInt64.toBitVec_inj.1 BitVec.and_or_distrib_right

variable (l : ChannelLayout)

def hasPosition (p : ChannelPosition) : Bool := l.mask &&& p.bit != 0

/-- The positions of a layout, in interleave order. -/
def positions : List ChannelPosition := ALL.filter (hasPosition l)

def gstMaskBit (bit : Nat) : UInt64 := 1 <<< UInt64.ofNat bit

def toGstMask : UInt64 :=
  ((positions l).map fun p => gstMaskBit p.gstBit).foldl (· ||| ·) 0

def insertPosition (p : ChannelPosition) : ChannelLayout :=
  ⟨l.mask ||| p.bit, by
    have hp : p.bit &&& knownChannelMask = p.bit := by cases p <;> decide
    rw [or_and_distrib₁₆, l.known, hp]⟩

/-- One bit of a `channel-mask` added to the layout read so far. -/
def addGstBit (mask : UInt64) (layout : ChannelLayout) (bit : Nat) : Option ChannelLayout :=
  if mask &&& gstMaskBit bit = 0 then some layout
  else (fromGstBit bit).map (insertPosition layout)

/-- The layout of a `channel-mask`, `none` when it has a bit of no position. -/
def fromGstMask (mask : UInt64) : Option ChannelLayout :=
  (List.range 64).foldlM (addGstBit mask) .UNSPECIFIED

theorem gstMaskBit_and (p : ChannelPosition) {bit : Nat} (h : bit < 64) :
    (gstMaskBit p.gstBit &&& gstMaskBit bit = 0) ↔ fromGstBit bit ≠ some p := by
  have hall : ∀ bit < 64, ∀ p ∈ ALL,
      (gstMaskBit p.gstBit &&& gstMaskBit bit = 0) ↔ fromGstBit bit ≠ some p := by decide
  exact hall bit h p (mem_ALL p)

theorem foldl_or_and {ps : List ChannelPosition} {bit : Nat} (h : bit < 64) (mask : UInt64) :
    ((ps.map fun p => gstMaskBit p.gstBit).foldl (· ||| ·) mask &&& gstMaskBit bit = 0) ↔
      mask &&& gstMaskBit bit = 0 ∧ ∀ p ∈ ps, fromGstBit bit ≠ some p := by
  induction ps generalizing mask with
  | nil => simp
  | cons p ps ih =>
    rw [map_cons, foldl_cons, ih, or_and_distrib₆₄, UInt64.or_eq_zero_iff,
      gstMaskBit_and p h, forall_mem_cons, and_assoc]

theorem toGstMask_and {bit : Nat} (h : bit < 64) :
    (toGstMask l &&& gstMaskBit bit = 0) ↔ ∀ p, fromGstBit bit = some p → hasPosition l p = false := by
  rw [toGstMask, foldl_or_and h]
  simp only [UInt64.zero_and, true_and, positions, List.mem_filter, mem_ALL]
  grind

theorem hasPosition_insertPosition (p q : ChannelPosition) :
    hasPosition (insertPosition l p) q = (hasPosition l q || p == q) := by
  have hq : q.bit ≠ 0 := by cases q <;> decide
  simp only [hasPosition, insertPosition, or_and_distrib₁₆, bit_and_bit]
  by_cases h : p = q <;> simp [h, hq, UInt16.or_eq_zero_iff, bne, beq_eq_false_iff_ne]


theorem hasPosition_foldl (ps : List ChannelPosition) (l : ChannelLayout) (q : ChannelPosition) :
    hasPosition (ps.foldl insertPosition l) q = (hasPosition l q || decide (q ∈ ps)) := by
  induction ps generalizing l with
  | nil => simp
  | cons p ps ih =>
    rw [foldl_cons, ih, hasPosition_insertPosition]
    by_cases h : p = q
    · simp [h]
    · simp [beq_eq_false_iff_ne.2 h, Ne.symm h]

theorem mask_and_bit (mask : UInt16) (p : ChannelPosition) :
    mask &&& p.bit = if mask &&& p.bit ≠ 0 then p.bit else 0 := by
  have hbit : p.bit.toBitVec = BitVec.twoPow 16 p.index := by cases p <;> decide
  have hand : mask &&& p.bit = if mask.toBitVec.getLsbD p.index then p.bit else 0 := by
    refine UInt16.toBitVec_inj.1 ?_
    rw [UInt16.toBitVec_and, hbit, BitVec.and_twoPow]
    split_ifs
    · exact hbit.symm
    · rfl
  rw [hand]
  split_ifs with h hp hzero <;> simp_all

theorem ext_hasPosition {a b : ChannelLayout} (h : ∀ p, hasPosition a p = hasPosition b p) : a = b := by
  have hand : ∀ p : ChannelPosition, a.mask &&& p.bit = b.mask &&& p.bit := by
    intro p
    have hp : a.mask &&& p.bit ≠ 0 ↔ b.mask &&& p.bit ≠ 0 := by
      rw [← bne_iff_ne, ← bne_iff_ne]
      exact Bool.eq_iff_iff.1 (h p)
    rw [mask_and_bit a.mask, mask_and_bit b.mask, if_congr hp rfl rfl]
  have hknown : knownChannelMask = ALL.foldr (fun p m => p.bit ||| m) 0 := by decide
  have hdistrib : ∀ ps : List ChannelPosition, a.mask &&& ps.foldr (fun p m => p.bit ||| m) 0 =
      b.mask &&& ps.foldr (fun p m => p.bit ||| m) 0 := by
    intro ps
    induction ps with
    | nil => simp
    | cons p ps ih =>
      have hleft : ∀ x y z : UInt16, x &&& (y ||| z) = (x &&& y) ||| (x &&& z) :=
        fun x y z => UInt16.toBitVec_inj.1 BitVec.and_or_distrib_left
      rw [foldr_cons, hleft, hleft, hand, ih]
  have hmask : a.mask = b.mask := by
    rw [← a.known, ← b.known, hknown, hdistrib]
  cases a
  cases b
  cases hmask
  rfl

theorem foldl_insertPosition_positions : (positions l).foldl insertPosition .UNSPECIFIED = l := by
  refine ext_hasPosition fun p => ?_
  have hnone : hasPosition .UNSPECIFIED p = false := by cases p <;> decide
  rw [hasPosition_foldl, hnone, Bool.false_or, positions]
  simp [List.mem_filter, mem_ALL]

theorem foldlM_addGstBit {bits : List Nat} (hlt : ∀ bit ∈ bits, bit < 64)
    (layout : ChannelLayout) : bits.foldlM (addGstBit (toGstMask l)) layout =
      some (((bits.filterMap fromGstBit).filter (hasPosition l)).foldl insertPosition layout) := by
  induction bits generalizing layout with
  | nil => rfl
  | cons bit bits ih =>
    have hbit := toGstMask_and l (hlt bit mem_cons_self)
    have ih := ih fun b hb => hlt b (mem_cons_of_mem bit hb)
    rw [foldlM_cons, addGstBit]
    cases hp : fromGstBit bit with
    | none =>
      rw [if_pos (hbit.2 (by simp [hp])), filterMap_cons_none hp]
      exact ih layout
    | some p =>
      rw [filterMap_cons_some hp]
      cases hhas : hasPosition l p with
      | false =>
        rw [if_pos (hbit.2 (by simp [hp, hhas])), filter_cons_of_neg (by simp [hhas])]
        exact ih layout
      | true =>
        have hne : ¬ toGstMask l &&& gstMaskBit bit = 0 := by simp [hbit, hp, hhas]
        rw [if_neg hne, filter_cons_of_pos hhas, foldl_cons]
        exact ih _

theorem fromGstMask_toGstMask : fromGstMask (toGstMask l) = some l := by
  have hall : (List.range 64).filterMap fromGstBit = ALL := by decide
  rw [fromGstMask, foldlM_addGstBit l (fun bit h => List.mem_range.1 h), hall]
  exact congrArg some (foldl_insertPosition_positions l)

end Glass2Glass.Gst
