import Glass2Glass.Gst.Parse

/-!
# Printed fields are read back

The printer appends fields one after another, the parser splits, trims and looks them up by name. For
a description put together from a media type and fields whose values are words or ranges of words,
`fromDescription_printFields` says what the parser sees: the media type and the declared fields, each
with the value that was printed. The lemmas after it read the values of every kind of field back.
-/

namespace Glass2Glass.Gst

open Text Option

/-! ## Words and values -/

def isWord (c : Char) : Bool := isPlain c && !isWhitespace c

def Word (s : List Char) : Prop := ∀ c ∈ s, isWord c

instance (s : List Char) : Decidable (Word s) := List.decidableBAll _ s

theorem Word.append {a b : List Char} (ha : Word a) (hb : Word b) : Word (a ++ b) :=
  List.forall_mem_append.2 ⟨ha, hb⟩

variable {s : List Char}

theorem Word.plain (h : Word s) : ∀ c ∈ s, isPlain c := fun c hc =>
  (Bool.and_eq_true_iff.1 (h c hc)).1

theorem Word.tight (h : Word s) : Tight s :=
  tight_of_forall fun c hc => by
    have := (Bool.and_eq_true_iff.1 (h c hc)).2
    simpa using this

theorem Word.scan (h : Word s) (st : Scan) : scan st s = some st :=
  scan_of_plain h.plain st

theorem Word.notMem (h : Word s) {c : Char} (hc : isWord c = false) : c ∉ s :=
  fun hmem => by simp [h c hmem] at hc

theorem word_decimal (n : Nat) : Word (decimal n) := forall_decimal (by decide) n

def rangeText (lo hi : List Char) : List Char := '[' :: (lo ++ ',' :: (hi ++ [']']))

/-- The values the printer writes: words and ranges of words. -/
def IsValue (v : List Char) : Prop := Word v ∨ ∃ lo hi, Word lo ∧ Word hi ∧ v = rangeText lo hi

theorem scan_rangeText {lo hi : List Char} (hlo : Word lo) (hhi : Word hi) :
    scan .top (rangeText lo hi) = some .top := by
  have hopen : scan .top ['['] = some ⟨1, false⟩ := by decide
  have hcomma : scan ⟨1, false⟩ [','] = some ⟨1, false⟩ := by decide
  have hclose : scan ⟨1, false⟩ [']'] = some .top := by decide
  show scan .top (['['] ++ (lo ++ ([','] ++ (hi ++ [']'])))) = some .top
  exact scan_append_of hopen (scan_append_of (hlo.scan _) (scan_append_of hcomma (scan_append_of (hhi.scan _) hclose)))

variable {v : List Char}

theorem IsValue.scan (h : IsValue v) : scan .top v = some .top := by
  rcases h with h | ⟨lo, hi, hlo, hhi, rfl⟩
  · exact h.scan _
  · exact scan_rangeText hlo hhi

theorem IsValue.quote_notMem (h : IsValue v) : quote ∉ v := by
  have hquote : isWord quote = false := by decide
  rcases h with h | ⟨lo, hi, hlo, hhi, rfl⟩
  · exact h.notMem hquote
  · have hbracket : quote ≠ '[' ∧ quote ≠ ',' ∧ quote ≠ ']' := by decide
    simp [rangeText, hbracket, hlo.notMem hquote, hhi.notMem hquote]

theorem enclosed_eq_none {opening closing : Char}
    (h : ∀ c, s.head? = some c → c ≠ opening) : enclosed opening closing s = none := by
  cases s with
  | nil => rfl
  | cons c s =>
    have hc : (c == opening) = false := beq_eq_false_iff_ne.2 (h c rfl)
    simp [enclosed, List.dropPrefix?, hc]

theorem enclosed_append (opening closing : Char) (s : List Char) :
    enclosed opening closing (opening :: (s ++ [closing])) = some s := by
  have hsuffix : (s ++ [closing]).dropSuffix? [closing] = some s :=
    List.dropSuffix?_eq_some_iff.2 ⟨[closing], rfl, by simp⟩
  simp [enclosed, List.dropPrefix?, hsuffix]

theorem parseFieldVal_of_head (htight : Tight s)
    (h : ∀ c, s.head? = some c → c ≠ '[' ∧ c ≠ '\x7b') : parseFieldVal s = .one s := by
  simp only [parseFieldVal, listOrOne, trim_of_tight htight,
    enclosed_eq_none fun c hc => (h c hc).1, enclosed_eq_none fun c hc => (h c hc).2,
    map_none]

theorem Word.parseFieldVal (h : Word s) : parseFieldVal s = .one s := by
  refine parseFieldVal_of_head h.tight fun c hc => ?_
  have hword := h c (List.mem_of_mem_head? hc)
  constructor <;> rintro rfl <;> exact absurd hword (by decide)

theorem parseFieldVal_rangeText {lo hi : List Char} (hlo : Word lo) (hhi : Word hi) :
    parseFieldVal (rangeText lo hi) = .range lo hi := by
  have htight : Tight (rangeText lo hi) := by
    constructor
    · intro c hc
      obtain rfl : '[' = c := Option.some.inj hc
      decide
    · intro c hc
      have hlast : (rangeText lo hi).getLast? = some ']' := by simp [rangeText, List.getLast?_cons]
      obtain rfl : ']' = c := Option.some.inj (hlast.symm.trans hc)
      decide
  have hinner : enclosed '[' ']' (rangeText lo hi) = some (lo ++ ',' :: hi) := by
    have happend := enclosed_append '[' ']' (lo ++ ',' :: hi)
    rwa [List.append_assoc, List.cons_append] at happend
  have hsplit : splitTopCommas (lo ++ ',' :: hi) = [lo, hi] := by
    rw [splitTopCommas_append_comma (hlo.scan _), splitTopCommas, splitFrom_of_scan (hhi.scan _)]
  simp only [parseFieldVal, trim_of_tight htight, hinner, map_some, hsplit,
    trim_of_tight hlo.tight, trim_of_tight hhi.tight]

/-! ## Fields -/

/-- Fields in the order they are printed, each with its value when it is declared. -/
abbrev FieldTexts := List (String × Option (List Char))

/-- A media type with fields appended. -/
def printFields (media : List Char) (fields : FieldTexts) : List Char :=
  fields.foldl (fun s f => pushField s f.1 f.2) media

def declared (fields : FieldTexts) : List (String × List Char) :=
  fields.filterMap fun f => f.2.map fun v => (f.1, v)

def fieldText (f : String × List Char) : List Char := f.1.toList ++ '=' :: f.2

def readFields (fields : FieldTexts) : Fields :=
  (declared fields).map fun f => (f.1.toList, parseFieldVal f.2)

theorem printFields_eq (media : List Char) (fields : FieldTexts) :
    printFields media fields = media ++ (declared fields).flatMap fun f => ',' :: fieldText f := by
  induction fields generalizing media with
  | nil => simp [printFields, declared]
  | cons f fields ih =>
    obtain ⟨key, value⟩ := f
    have hcons : printFields media ((key, value) :: fields) =
        printFields (pushField media key value) fields := rfl
    rw [hcons, ih]
    cases value with
    | none => rfl
    | some v => simp [pushField, declared, fieldText]

/-- A field whose name is a word without an equals sign and whose value closes what it opens. -/
structure FieldCloses (f : String × List Char) : Prop where
  key : Word f.1.toList
  /-- The name has no equals sign. -/
  equals : '=' ∉ f.1.toList
  /-- The value leaves the splitter where it was. -/
  closes : scan .top f.2 = some .top

/-- A field as the printer writes it outside batches. -/
structure FieldOk (f : String × List Char) : Prop extends FieldCloses f where
  /-- The value is a word or a range. -/
  value : IsValue f.2

theorem FieldCloses.scan {f : String × List Char} (h : FieldCloses f) : scan .top (fieldText f) = some .top := by
  have hequals : Gst.scan .top ['='] = some .top := by decide
  exact scan_append_of (h.key.scan _) (scan_append_of hequals h.closes)

theorem FieldOk.quote_notMem {f : String × List Char} (h : FieldOk f) : quote ∉ fieldText f := by
  have hequals : quote ≠ '=' := by decide
  simp [fieldText, hequals, h.key.notMem (c := quote) (by decide), h.value.quote_notMem]

theorem splitTopCommas_flatMap {a : List Char} {st : Scan} (ha : scan .top a = some st)
    {fs : List (String × List Char)} (hst : fs ≠ [] → st = .top) (hfs : ∀ f ∈ fs, FieldCloses f) :
    splitTopCommas (a ++ fs.flatMap fun f => ',' :: fieldText f) = a :: fs.map fieldText := by
  induction fs generalizing a st with
  | nil => simp [splitTopCommas, splitFrom_of_scan ha]
  | cons f fs ih =>
    obtain rfl := hst (by simp)
    rw [List.forall_mem_cons] at hfs
    rw [List.flatMap_cons, List.cons_append, splitTopCommas_append_comma ha,
      ih hfs.1.scan (fun _ => rfl) hfs.2, List.map_cons]

theorem parseFields_map {fs : List (String × List Char)} (hfs : ∀ f ∈ fs, FieldCloses f) :
    parseFields (fs.map fieldText) = some (fs.map fun f => (f.1.toList, parseFieldVal f.2)) := by
  have hnonempty : (fs.map fieldText).filter (fun p => !(trim p).isEmpty) = fs.map fieldText := by
    rw [List.filter_eq_self]
    intro p hp
    obtain ⟨f, -, rfl⟩ := List.mem_map.1 hp
    have hequals : '=' ∈ trim (fieldText f) := mem_trim (by decide) (by simp [fieldText])
    cases htrim : trim (fieldText f) with
    | nil => simp [htrim] at hequals
    | cons c s => rfl
  have hsplit : (fs.map fieldText).mapM (splitOnce '=') = some (fs.map fun f => (f.1.toList, f.2)) := by
    rw [mapM_eq_some_iff, List.forall₂_map_left_iff, List.forall₂_map_right_iff, List.forall₂_same]
    exact fun f hf => splitOnce_append (hfs f hf).equals f.2
  rw [parseFields, hnonempty, hsplit]
  simp only [bind_eq_bind, bind_some, List.map_map]
  refine congrArg some (List.map_congr_left fun f hf => ?_)
  simp only [Function.comp_apply, trim_of_tight (hfs f hf).key.tight]

theorem fromDescription_printFields (nested : List Char → Option CapsSet) {media : List Char}
    {st : Scan} {fields : FieldTexts} (hmedia : scan .top media = some st)
    (hst : declared fields ≠ [] → st = .top) (hfields : ∀ f ∈ declared fields, FieldCloses f) :
    fromDescription nested (printFields media fields) = describedSet nested (trim media) (readFields fields) := by
  rw [fromDescription, printFields_eq, splitTopCommas_flatMap hmedia hst hfields]
  simp only [parseFields_map hfields]
  rfl

theorem fieldOf_readFields {fields : FieldTexts} (h : (fields.map Prod.fst).Nodup) (key : String) :
    fieldOf (readFields fields) key = (fields.lookup key).join.map parseFieldVal := by
  induction fields with
  | nil => rfl
  | cons f fields ih =>
    obtain ⟨name, value⟩ := f
    obtain ⟨hname, hnodup⟩ := List.nodup_cons.1 h
    have ih := ih hnodup
    by_cases hkey : key = name
    · subst hkey
      -- the other fields have other names, so the lookup ends here in any case
      have hrest : fields.lookup key = none := by
        rw [List.lookup_eq_none_iff]
        intro f hf
        have hne : key ≠ f.1 := by
          rintro rfl
          exact hname (List.mem_map.2 ⟨f, hf, rfl⟩)
        simpa using hne
      cases value with
      | none =>
        rw [hrest] at ih
        simpa [readFields, declared] using ih
      | some v => simp [readFields, declared, fieldOf]
    · have hlookup : List.lookup key ((name, value) :: fields) = fields.lookup key := by
        simp [List.lookup_cons, beq_eq_false_iff_ne.2 hkey]
      have hlist : ¬ name.toList = key.toList := fun heq => hkey (String.toList_injective heq).symm
      rw [hlookup, ← ih]
      cases value with
      | none => rfl
      | some v => simp [readFields, declared, fieldOf, hlist]

/-! ## Values -/

theorem parseU32_decimal (v : UInt32) : parseU32 (decimal v.toNat) = some v := by
  rw [parseU32, parseBelow_decimal v.toNat_lt, map_some, UInt32.ofNat_toNat]

theorem isValue_dimGstValue {d : Dim} (h : dimGstValue d = some v) : IsValue v := by
  cases d with
  | any => simp [dimGstValue] at h
  | fixed n =>
    obtain rfl := Option.some.inj h
    exact Or.inl (word_decimal _)
  | range lo hi =>
    obtain rfl := Option.some.inj h
    exact Or.inr ⟨_, _, word_decimal _, word_decimal _, rfl⟩

theorem expandDim_dimGstValue (d : Dim) : expandDim ((dimGstValue d).map parseFieldVal) = some [d] := by
  cases d with
  | any => rfl
  | fixed n =>
    simp [dimGstValue, (word_decimal _).parseFieldVal, expandDim, expand, parseU32_decimal]
  | range lo hi =>
    have hrange := parseFieldVal_rangeText (word_decimal lo.toNat) (word_decimal hi.toNat)
    rw [rangeText] at hrange
    simp [dimGstValue, hrange, expandDim, expand, parseU32_decimal]

theorem word_q16Fraction (q16 : UInt32) : Word (q16Fraction q16) := by
  unfold q16Fraction
  split_ifs
  · exact (word_decimal _).append (by decide)
  · exact (word_decimal _).append (by decide)

theorem rateQ16_fraction (num den : UInt32) :
    rateQ16 (decimal num.toNat ++ '/' :: decimal den.toNat) = framerateQ16FromFraction num den := by
  have hslash : ∀ n, '/' ∉ decimal n := fun n h =>
    @forall_decimal (· ≠ '/') (by decide) n '/' h rfl
  have hword : Word (decimal num.toNat ++ '/' :: decimal den.toNat) :=
    (word_decimal _).append (List.forall_mem_cons.2 ⟨by decide, word_decimal _⟩)
  rw [rateQ16, trim_of_tight hword.tight, splitOnce_append (hslash _)]
  simp [trim_of_tight (word_decimal _).tight, parseU32_decimal]

theorem rateQ16_q16Fraction (q16 : UInt32) : rateQ16 (q16Fraction q16) = some q16 := by
  have hlt := q16.toNat_lt
  have hshift : (q16 >>> 16).toNat = q16.toNat / 65536 := by
    rw [UInt32.toNat_shiftRight, Nat.shiftRight_eq_div_pow]
    rfl
  unfold q16Fraction
  split_ifs with hwhole
  · have hmod : q16.toNat % 65536 = 0 := by
      have := congrArg UInt32.toNat hwhole
      simpa using this
    have hq16 : (q16 >>> 16).toNat * 2 ^ 16 / 1 = q16.toNat := by omega
    have hread := rateQ16_fraction (q16 >>> 16) 1
    rw [framerateQ16FromFraction, if_neg (by decide)] at hread
    simp only [show (1 : UInt32).toNat = 1 from rfl, hq16, if_pos hlt, UInt32.ofNat_toNat] at hread
    exact hread
  · have hq16 : q16.toNat * 2 ^ 16 / 65536 = q16.toNat := by omega
    have hread := rateQ16_fraction q16 65536
    rw [framerateQ16FromFraction, if_neg (by decide)] at hread
    simp only [show (65536 : UInt32).toNat = 65536 from rfl, hq16, if_pos hlt, UInt32.ofNat_toNat] at hread
    exact hread

theorem isValue_rateGstValue {r : Rate} (h : rateGstValue r = some v) : IsValue v := by
  cases r with
  | any => simp [rateGstValue] at h
  | fixed n =>
    obtain rfl := Option.some.inj h
    exact Or.inl (word_q16Fraction _)
  | range lo hi =>
    obtain rfl := Option.some.inj h
    exact Or.inr ⟨_, _, word_q16Fraction _, word_q16Fraction _, rfl⟩

theorem expandRate_rateGstValue (r : Rate) : expandRate ((rateGstValue r).map parseFieldVal) = some [r] := by
  cases r with
  | any => rfl
  | fixed n =>
    simp [rateGstValue, (word_q16Fraction _).parseFieldVal, expandRate, expand, parseRate, rateQ16_q16Fraction]
  | range lo hi =>
    have hrange := parseFieldVal_rangeText (word_q16Fraction lo) (word_q16Fraction hi)
    rw [rangeText] at hrange
    simp [rateGstValue, hrange, expandRate, expand, rateQ16_q16Fraction]

theorem word_colorimetryToGstString {c : Colorimetry} (h : colorimetryToGstString c = some v) : Word v := by
  rw [colorimetryToGstString] at h
  split_ifs at h
  split at h
  · rename_i name preset hfind
    have hnames : ∀ entry ∈ GST_PRESETS, Word entry.1.toList := by decide
    obtain rfl := Option.some.inj h
    exact hnames (name, preset) (List.mem_of_find?_eq_some hfind)
  · obtain rfl := Option.some.inj h
    exact forall_colorimetryNumbers (by decide) (by decide) c

theorem expandColorimetry_toGstString (c : Colorimetry) :
    expandColorimetry ((colorimetryToGstString c).map parseFieldVal) = some c := by
  cases h : colorimetryToGstString c with
  | none =>
    rw [eq_UNKNOWN_of_colorimetryToGstString h]
    rfl
  | some v =>
    rw [map_some, (word_colorimetryToGstString h).parseFieldVal]
    exact colorimetryFromGstString_toGstString h

theorem parseBelow_hex16 {n : Nat} (h : n < 2 ^ 64) : parseBelow 16 (2 ^ 64) (hex16 n) = some n :=
  parseBelow_toDigits (by decide) (by decide) _ h

theorem word_hex16 (n : Nat) : Word (hex16 n) := by
  refine Word.append (fun c hc => ?_) (forall_toDigits (by decide) (by decide) (by decide) n)
  rw [List.eq_of_mem_replicate hc]
  decide

theorem word_channelMaskValue {l : ChannelLayout} (h : channelMaskValue l = some v) : Word v := by
  rw [channelMaskValue] at h
  split_ifs at h
  obtain rfl := Option.some.inj h
  exact Word.append (by decide) (word_hex16 _)

theorem parseChannelMask_hex16 (mask : UInt64) :
    parseChannelMask ("(bitmask)0x".toList ++ hex16 mask.toNat) = fromGstMask mask := by
  have hword : Word ("0x".toList ++ hex16 mask.toNat) := Word.append (by decide) (word_hex16 _)
  have htype : Word ("(bitmask)".toList ++ ("0x".toList ++ hex16 mask.toNat)) :=
    Word.append (by decide) hword
  have happend : "(bitmask)0x".toList ++ hex16 mask.toNat =
      "(bitmask)".toList ++ ("0x".toList ++ hex16 mask.toNat) := rfl
  rw [happend, parseChannelMask]
  simp only [trim_of_tight htype.tight, List.dropPrefix?_append_of_beq _ (beq_self_eq_true _),
    getD_some, trim_of_tight hword.tight, some_or,
    parseBelow_hex16 mask.toNat_lt, bind_eq_bind, bind_some, UInt64.ofNat_toNat]

theorem expandChannelMask_value (l : ChannelLayout) :
    expandChannelMask ((channelMaskValue l).map parseFieldVal) = some l := by
  cases h : channelMaskValue l with
  | none =>
    rw [channelMaskValue] at h
    split_ifs at h with hl
    rw [(ChannelLayout.isUnspecified_iff l).1 hl]
    rfl
  | some v =>
    have hword := word_channelMaskValue h
    rw [map_some, hword.parseFieldVal]
    rw [channelMaskValue] at h
    split_ifs at h
    obtain rfl := Option.some.inj h
    rw [expandChannelMask, expandScalar, parseChannelMask_hex16, fromGstMask_toGstMask]

end Glass2Glass.Gst
