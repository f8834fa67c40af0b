import Glass2Glass.H264.AnnexB
import Glass2Glass.Lib.Words

/-!
# Framings of NAL units

Besides start codes, NAL units are framed by a length in front of each (`g2g-plugins/src/annexb.rs`). Both
framings give back the units they were made of; which of them a buffer has is guessed from its first
bytes, and a length from 256 to 511 is taken for a start code (`nalUnitsAny_iff`).
-/

namespace Glass2Glass.H264

open Words List
open UInt8 (ofNat)

/-! ## The code -/

/-- A buffer that starts with a start code is taken for Annex B. -/
def isAnnexB (data : List UInt8) : Bool := annexBStartCode.isPrefixOf data || startCodePrefix.isPrefixOf data

/-- The NAL units from a place on, each behind a length of `lenSize` bytes; one that is cut off ends them. Every
unit takes its length, so the fuel is the length of the data. -/
def avccNalsFrom : Nat → Nat → List UInt8 → Nat → List (List UInt8)
  | 0, _, _, _ => []
  | fuel + 1, lenSize, data, pos =>
    let start := pos + lenSize
    if start ≤ data.length then
      let last := start + beNat (slice data pos lenSize)
      if last ≤ data.length then slice data start (last - start) :: avccNalsFrom fuel lenSize data last else []
    else []

/-- The NAL units behind lengths of `lenSize` bytes; none for a width other than 1 to 4. -/
def lengthPrefixedNalUnits (data : List UInt8) (lenSize : Nat) : List (List UInt8) :=
  if 1 ≤ lenSize ∧ lenSize ≤ 4 then avccNalsFrom (data.length + 1) lenSize data 0 else []

/-- The width of a length where none is declared. -/
def avccLengthSize : Nat := 4

/-- The NAL units behind lengths of four bytes. -/
def avccNalUnits (data : List UInt8) : List (List UInt8) := avccNalsFrom (data.length + 1) avccLengthSize data 0

/-- The NAL units of either framing. -/
def nalUnitsAny (data : List UInt8) : List (List UInt8) := if isAnnexB data then nalUnits data else avccNalUnits data

/-- A sample: every unit behind its length. The length is cut to 32 bits. -/
def avccSample (nalus : List (List UInt8)) : List UInt8 :=
  (nalus.filter fun n => !n.isEmpty).flatMap fun n => beBytes 4 n.length ++ n

/-! ## Streams as start codes and units -/

variable {data a rest : List UInt8} {pos code first : Nat}

theorem nextStartCode_bytes (h : nextStartCode data pos = some (code, first)) :
    ∃ c : StartCode, pos ≤ code ∧ first = code + c.bytes.length ∧ first ≤ data.length ∧
      data.drop code = c.bytes ++ data.drop first := by
  obtain ⟨p, hle, hp, -, rfl, rfl⟩ := nextStartCode_eq_some_iff.1 h
  have hlt := hp.lt_length
  have hstarts : data.drop p = startCodePrefix ++ data.drop (p + 3) := by
    rw [List.drop_eq_getElem?_toList_append, hp.1, List.drop_eq_getElem?_toList_append, hp.2.1,
      List.drop_eq_getElem?_toList_append, hp.2.2]
    rfl
  split_ifs with hzero
  · obtain ⟨q, rfl⟩ : ∃ q, p = q + 1 := ⟨p - 1, by omega⟩
    refine ⟨.long, by omega, rfl, by omega, ?_⟩
    rw [Nat.add_sub_cancel] at hzero ⊢
    rw [List.drop_eq_getElem?_toList_append, hzero.2, hstarts]
    rfl
  · exact ⟨.short, hle, rfl, by omega, hstarts⟩

theorem nextStartCode_self (h : nextStartCode data pos = some (code, first)) :
    nextStartCode data code = some (code, first) := by
  obtain ⟨p, hle, hp, hfirst, rfl, hcode⟩ := nextStartCode_eq_some_iff.1 h
  refine nextStartCode_eq_some_iff.2 ⟨p, ?_, hp, fun q hq => hfirst q ?_, rfl, ?_⟩ <;> split_ifs at hcode with hzero
  · omega
  · omega
  · omega
  · omega
  · rw [if_pos ⟨by omega, hzero.2⟩]
    exact hcode
  · rw [if_neg (by omega)]
    exact hcode

theorem nextStartCode_length : nextStartCode data data.length = none :=
  nextStartCode_eq_none_iff.2 fun q hle hq => by
    have := hq.lt_length
    omega

theorem coded_nalUnitsFrom {fuel : Nat} (hfuel : data.length < pos + fuel)
    (h : nextStartCode data pos = some (code, first)) :
    ∃ units, units.map (·.2) = nalUnitsFrom fuel data pos ∧ data.drop code = coded units := by
  induction fuel generalizing pos code first with
  | zero =>
    obtain ⟨c, hle, hfirst, hlt, -⟩ := nextStartCode_bytes h
    omega
  | succ fuel ih =>
    obtain ⟨c, hle, hfirst, hlt, hdrop⟩ := nextStartCode_bytes h
    have hpos : 0 < c.bytes.length := by cases c <;> decide
    rw [nalUnitsFrom, h, hdrop]
    dsimp only
    rcases hnext : nextStartCode data first with _ | ⟨code', first'⟩
    · -- the last unit
      have hdone : nalUnitsFrom fuel data data.length = [] := by
        cases fuel with
        | zero => rfl
        | succ fuel => rw [nalUnitsFrom, nextStartCode_length]
      refine ⟨[(c, data.drop first)], ?_, ?_⟩
      · rw [hdone, take_of_length_le (by rw [length_drop])]
        rfl
      · rw [coded_cons, coded_nil, append_nil]
    · obtain ⟨-, hle', -, -, -⟩ := nextStartCode_bytes hnext
      obtain ⟨units, hunits, hcoded⟩ := ih (by omega) (nextStartCode_self hnext)
      refine ⟨(c, (data.drop first).take (code' - first)) :: units, ?_, ?_⟩
      · rw [map_cons, hunits]
      · have hrest : (data.drop first).drop (code' - first) = coded units := by
          rw [drop_drop, Nat.add_sub_of_le hle', hcoded]
        rw [coded_cons, ← hrest, take_append_drop]

theorem exists_coded (h : isAnnexB data = true) : ∃ units, units.map (·.2) = nalUnits data ∧ data = coded units := by
  have hstart : ∃ first, nextStartCode data 0 = some (0, first) := by
    unfold isAnnexB at h
    rw [Bool.or_eq_true, isPrefixOf_iff_prefix, isPrefixOf_iff_prefix] at h
    obtain ⟨rest, rfl⟩ | ⟨rest, rfl⟩ := h
    · exact ⟨_, nextStartCode_nil .long rest⟩
    · exact ⟨_, nextStartCode_nil .short rest⟩
  obtain ⟨first, hfirst⟩ := hstart
  exact coded_nalUnitsFrom (by omega) hfirst

/-! ## Lengths -/

/-- Units behind lengths of `lenSize` bytes. -/
def lengthPrefixed (lenSize : Nat) (units : List (List UInt8)) : List UInt8 :=
  units.flatMap fun u => beBytes lenSize u.length ++ u

theorem lengthPrefixed_cons (lenSize : Nat) (u : List UInt8) (units : List (List UInt8)) :
    lengthPrefixed lenSize (u :: units) = beBytes lenSize u.length ++ (u ++ lengthPrefixed lenSize units) := by
  unfold lengthPrefixed
  rw [flatMap_cons, append_assoc]

theorem drop_eq_slice_append (data : List UInt8) (pos count : Nat) :
    data.drop pos = slice data pos count ++ data.drop (pos + count) := by
  rw [slice, ← drop_drop, take_append_drop]

theorem avccNalsFrom_split (fuel lenSize : Nat) (hpos : pos ≤ data.length) :
    ∃ rest, data.drop pos = lengthPrefixed lenSize (avccNalsFrom fuel lenSize data pos) ++ rest ∧
      ∀ u ∈ avccNalsFrom fuel lenSize data pos, u.length < 256 ^ lenSize := by
  induction fuel generalizing pos with
  | zero => exact ⟨_, rfl, nofun⟩
  | succ fuel ih =>
    rw [avccNalsFrom]
    dsimp only
    split_ifs with hstart hlast
    · have hwidth : (slice data pos lenSize).length = lenSize := by
        rw [slice, length_take, length_drop]
        omega
      have hcount : (slice data (pos + lenSize) (pos + lenSize + beNat (slice data pos lenSize) -
          (pos + lenSize))).length = beNat (slice data pos lenSize) := by
        rw [slice, length_take, length_drop]
        omega
      obtain ⟨rest, hrest, hall⟩ := ih hlast
      have hfits := beNat_lt hwidth
      refine ⟨rest, ?_, List.forall_mem_cons.2 ⟨by omega, hall⟩⟩
      rw [lengthPrefixed_cons, hcount, beBytes_beNat hwidth, append_assoc, append_assoc, ← hrest,
        Nat.add_sub_cancel_left, ← drop_eq_slice_append, ← drop_eq_slice_append]
    · exact ⟨_, rfl, nofun⟩
    · exact ⟨_, rfl, nofun⟩

/-- Units whose lengths fit are read back. -/
theorem avccNalsFrom_lengthPrefixed {fuel lenSize : Nat} {units : List (List UInt8)} (hfuel : units.length < fuel)
    (hsize : 0 < lenSize) (hlen : ∀ u ∈ units, u.length < 256 ^ lenSize) :
    avccNalsFrom fuel lenSize (a ++ lengthPrefixed lenSize units) a.length = units := by
  induction units generalizing a fuel with
  | nil =>
    obtain ⟨fuel, rfl⟩ := Nat.exists_eq_succ_of_ne_zero (Nat.ne_zero_of_lt hfuel)
    have hend : (a ++ lengthPrefixed lenSize []).length = a.length := by
      rw [lengthPrefixed, flatMap_nil, append_nil]
    rw [avccNalsFrom]
    rw [if_neg (by omega)]
  | cons u units ih =>
    obtain ⟨fuel, rfl⟩ := Nat.exists_eq_succ_of_ne_zero (Nat.ne_zero_of_lt hfuel)
    have hu : u.length < 256 ^ lenSize := hlen u mem_cons_self
    have hwidth : (beBytes lenSize u.length).length = lenSize := length_beBytes _ _
    have hlength : slice (a ++ (beBytes lenSize u.length ++ (u ++ lengthPrefixed lenSize units))) a.length lenSize =
        beBytes lenSize u.length := slice_after rfl hwidth
    have hbytes : slice (a ++ (beBytes lenSize u.length ++ (u ++ lengthPrefixed lenSize units)))
        (a.length + lenSize) u.length = u := by
      rw [← append_assoc]
      exact slice_after (by rw [length_append, hwidth]) rfl
    have hrest : avccNalsFrom fuel lenSize ((a ++ (beBytes lenSize u.length ++ u)) ++ lengthPrefixed lenSize units)
        (a ++ (beBytes lenSize u.length ++ u)).length = units :=
      ih (Nat.lt_of_succ_lt_succ hfuel) fun v hv => hlen v (mem_cons_of_mem u hv)
    have hnext : (a ++ (beBytes lenSize u.length ++ u)).length = a.length + lenSize + u.length := by
      rw [length_append, length_append, hwidth]
      omega
    have hall : (a ++ (beBytes lenSize u.length ++ (u ++ lengthPrefixed lenSize units))).length =
        a.length + lenSize + u.length + (lengthPrefixed lenSize units).length := by
      simp only [length_append, hwidth]
      omega
    rw [hnext] at hrest
    simp only [append_assoc] at hrest
    rw [lengthPrefixed_cons, avccNalsFrom]
    rw [hlength, beNat_beBytes hu, hall, if_pos (by omega), if_pos (by omega), Nat.add_sub_cancel_left, hbytes, hrest]

theorem length_le_lengthPrefixed {lenSize : Nat} (hsize : 0 < lenSize) (units : List (List UInt8)) :
    units.length ≤ (lengthPrefixed lenSize units).length := by
  induction units with
  | nil => exact Nat.zero_le _
  | cons u units ih =>
    rw [lengthPrefixed_cons, length_append, length_append, length_beBytes, length_cons]
    omega

/-- A walk over all of the data reads back the units whose lengths fit, and units whose lengths do not fit are not
read back. -/
theorem avccNalsFrom_eq_iff {lenSize : Nat} (hsize : 0 < lenSize) (units : List (List UInt8)) :
    avccNalsFrom ((lengthPrefixed lenSize units).length + 1) lenSize (lengthPrefixed lenSize units) 0 = units ↔
      ∀ u ∈ units, u.length < 256 ^ lenSize := by
  constructor
  · intro h
    obtain ⟨-, -, hall⟩ := avccNalsFrom_split ((lengthPrefixed lenSize units).length + 1) lenSize
      (Nat.zero_le (lengthPrefixed lenSize units).length)
    rw [h] at hall
    exact hall
  · exact fun h => avccNalsFrom_lengthPrefixed (a := []) (Nat.lt_succ_of_le (length_le_lengthPrefixed hsize units)) hsize h

/-! ## Telling the framings apart -/

/-- Units behind four-byte start codes. -/
def startCoded (units : List (List UInt8)) : List UInt8 := coded (units.map fun u => (.long, u))

theorem startCoded_cons (u : List UInt8) (units : List (List UInt8)) :
    startCoded (u :: units) = annexBStartCode ++ (u ++ startCoded units) := coded_cons .long u _

variable {units : List (List UInt8)}

theorem separated_long (hnone : ∀ u ∈ units, ∀ p, ¬PrefixAt u p) :
    Separated (units.map fun u => (StartCode.long, u)) := by
  induction units with
  | nil => exact True.intro
  | cons u units ih =>
    have hrest := ih fun v hv => hnone v (mem_cons_of_mem u hv)
    cases units with
    | nil => exact hnone u mem_cons_self
    | cons v units => exact ⟨hnone u mem_cons_self, nofun, hrest⟩

theorem nalUnits_startCoded (hnone : ∀ u ∈ units, ∀ p, ¬PrefixAt u p) : nalUnits (startCoded units) = units := by
  rw [startCoded, nalUnits_coded (separated_long hnone), map_map]
  exact map_id _

theorem isAnnexB_startCoded (h : units ≠ []) : isAnnexB (startCoded units) = true := by
  obtain ⟨u, units, rfl⟩ := exists_cons_of_ne_nil h
  rfl

theorem beBytes_four (n : Nat) : beBytes 4 n =
    [ofNat (n / 256 ^ 3), ofNat (n / 256 ^ 2), ofNat (n / 256), ofNat n] := by
  rw [beBytes_succ, beBytes_succ, beBytes_succ, beBytes_succ, Nat.pow_one, Nat.pow_zero, Nat.div_one]
  rfl

theorem ofNat_eq_iff {n b : Nat} (hb : b < 256) : ofNat n = ofNat b ↔ n % 256 = b := by
  rw [← UInt8.toNat_inj, UInt8.toNat_ofNat', UInt8.toNat_ofNat', Nat.mod_eq_of_lt hb]

theorem beBytes_eq_annexBStartCode_iff (n : Nat) : beBytes 4 n = annexBStartCode ↔ n % 2 ^ 32 = 1 := by
  have hzero := fun n : Nat => ofNat_eq_iff (n := n) (b := 0) (by omega)
  have hone := fun n : Nat => ofNat_eq_iff (n := n) (b := 1) (by omega)
  have hcode : annexBStartCode = [ofNat 0, ofNat 0, ofNat 0, ofNat 1] := rfl
  rw [beBytes_four, hcode]
  simp only [List.cons.injEq, hzero, hone, and_true]
  omega

theorem isAnnexB_beBytes_iff (n : Nat) (rest : List UInt8) : isAnnexB (beBytes 4 n ++ rest) = true ↔
    n % 2 ^ 32 = 1 ∨ (256 ≤ n % 2 ^ 32 ∧ n % 2 ^ 32 ≤ 511) := by
  have hzero := fun n : Nat => ofNat_eq_iff (n := n) (b := 0) (by omega)
  have hone := fun n : Nat => ofNat_eq_iff (n := n) (b := 1) (by omega)
  have hcode : annexBStartCode = [ofNat 0, ofNat 0, ofNat 0, ofNat 1] := rfl
  have hshort : startCodePrefix = [ofNat 0, ofNat 0, ofNat 1] := rfl
  rw [beBytes_four, isAnnexB, hcode, hshort]
  simp only [cons_append, isPrefixOf_cons_cons, isPrefixOf_nil_left, Bool.and_true, Bool.or_eq_true,
    Bool.and_eq_true, beq_iff_eq, eq_comm (a := ofNat 0), eq_comm (a := ofNat 1), hzero, hone]
  omega

/-- Start-coded data of the same length as the length-prefixed form have four-byte start codes only, at least one
of them short otherwise. -/
theorem length_coded_le (units : List (StartCode × List UInt8)) :
    (coded units).length ≤ (lengthPrefixed 4 (units.map (·.2))).length ∧
      ((coded units).length = (lengthPrefixed 4 (units.map (·.2))).length → ∀ u ∈ units, u.1 = .long) := by
  induction units with
  | nil => exact ⟨le_refl _, fun _ => nofun⟩
  | cons u units ih =>
    obtain ⟨c, nal⟩ := u
    rw [coded_cons, map_cons, lengthPrefixed_cons]
    simp only [length_append, length_beBytes, forall_mem_cons]
    have hcode : c.bytes.length ≤ 4 ∧ (c.bytes.length = 4 → c = .long) := by cases c <;> decide
    constructor
    · omega
    · intro h
      exact ⟨hcode.2 (by omega), ih.2 (by omega)⟩

theorem beBytes_of_coded_eq {units : List (StartCode × List UInt8)}
    (h : coded units = lengthPrefixed 4 (units.map (·.2))) : ∀ u ∈ units, beBytes 4 u.2.length = annexBStartCode := by
  have hlong := (length_coded_le units).2 (congrArg List.length h)
  induction units with
  | nil => exact nofun
  | cons u units ih =>
    obtain ⟨c, nal⟩ := u
    obtain ⟨rfl, hrest⟩ := List.forall_mem_cons.1 hlong
    rw [coded_cons, map_cons, lengthPrefixed_cons] at h
    obtain ⟨hcode, h⟩ := append_inj h (length_beBytes 4 nal.length).symm
    exact List.forall_mem_cons.2 ⟨hcode.symm, ih (append_cancel_left h) hrest⟩

theorem lengthPrefixed_eq_startCoded (h : ∀ u ∈ units, beBytes 4 u.length = annexBStartCode) : lengthPrefixed 4 units = startCoded units := by
  induction units with
  | nil => rfl
  | cons u units ih =>
    rw [lengthPrefixed_cons, startCoded_cons, h u mem_cons_self, ih fun v hv => h v (mem_cons_of_mem u hv)]

theorem avccSample_eq {nalus : List (List UInt8)} (hne : ∀ u ∈ nalus, u ≠ []) :
    avccSample nalus = lengthPrefixed 4 nalus := by
  have hall : (nalus.filter fun n => !n.isEmpty) = nalus := by
    rw [filter_eq_self]
    intro u hu
    rw [Bool.not_eq_true', isEmpty_eq_false_iff]
    exact hne u hu
  rw [avccSample, hall]
  rfl

/-- The lengths of a sample tell its framing: all of them fit 32 bits and the first does not lie from 256 to 511; or,
past 32 bits, what is left of every length reads as a start code. -/
def lengthsTell (first : List UInt8) (units : List (List UInt8)) : Prop :=
  ((∀ u ∈ first :: units, u.length < 2 ^ 32) ∧ ¬(256 ≤ first.length ∧ first.length ≤ 511)) ∨
    (2 ^ 32 ≤ first.length ∧ ∀ u ∈ first :: units, u.length % 2 ^ 32 = 1)

section Sample

variable {head : List UInt8} {units : List (List UInt8)} (hne : ∀ u ∈ head :: units, u ≠ [])
  (hnone : ∀ u ∈ head :: units, ∀ p, ¬PrefixAt u p)
include hne hnone

/-- A sample of units without a start code, the first longer than one byte, gives them back exactly when its lengths
tell its framing. -/
theorem nalUnitsAny_avccSample_iff (hhead : 1 < head.length) :
    nalUnitsAny (avccSample (head :: units)) = head :: units ↔ lengthsTell head units := by
  have htaken := isAnnexB_beBytes_iff head.length (head ++ lengthPrefixed 4 units)
  rw [avccSample_eq hne, nalUnitsAny]
  unfold lengthsTell
  split_ifs with hannexB
  · have hbytes := htaken.1 hannexB
    constructor
    · -- The start codes found take as many bytes as the lengths do, so each of them is a length.
      intro h
      obtain ⟨pieces, hpieces, hdata⟩ := exists_coded hannexB
      rw [h] at hpieces
      rw [← hpieces] at hdata ⊢
      have hones := beBytes_of_coded_eq hdata.symm
      have hmod : ∀ u ∈ head :: units, u.length % 2 ^ 32 = 1 := by
        rw [← hpieces, forall_mem_map]
        exact fun u hu => (beBytes_eq_annexBStartCode_iff _).1 (hones u hu)
      have hfirst := hmod head mem_cons_self
      rw [hpieces]
      exact .inr ⟨by omega, hmod⟩
    · rintro (⟨hfits, hrange⟩ | ⟨-, hmod⟩)
      · have hfirst := hfits head mem_cons_self
        omega
      · have hones : ∀ u ∈ head :: units, beBytes 4 u.length = annexBStartCode := fun u hu =>
          (beBytes_eq_annexBStartCode_iff _).2 (hmod u hu)
        rw [lengthPrefixed_eq_startCoded hones, nalUnits_startCoded hnone]
  · have hbytes := fun h => hannexB (htaken.2 h)
    rw [avccNalUnits, avccLengthSize, avccNalsFrom_eq_iff (by omega)]
    have hpow : 256 ^ 4 = 2 ^ 32 := by norm_num
    constructor
    · intro h
      have hfirst := h head mem_cons_self
      exact .inl ⟨h, fun hrange => hbytes (.inr (by omega))⟩
    · rintro (⟨hfits, -⟩ | ⟨-, hmod⟩)
      · exact hfits
      · exact absurd (.inl (hmod head mem_cons_self)) hbytes

/-- So units without a start code, the first longer than one byte, are given back in both framings exactly when the
lengths of the sample tell its framing. -/
theorem nalUnitsAny_iff (hhead : 1 < head.length) : (nalUnitsAny (avccSample (head :: units)) = head :: units ∧
      nalUnitsAny (startCoded (head :: units)) = head :: units) ↔ lengthsTell head units := by
  have hcoded : nalUnitsAny (startCoded (head :: units)) = head :: units := by
    rw [nalUnitsAny, if_pos (isAnnexB_startCoded (cons_ne_nil _ _)), nalUnits_startCoded hnone]
  rw [and_iff_left hcoded]
  exact nalUnitsAny_avccSample_iff hne hnone hhead

end Sample

/-- A parameter set and a slice. -/
theorem nalUnitsAny_iff_two : (nalUnitsAny (avccSample [[0x67, 0x42], [0x65]]) = [[0x67, 0x42], [0x65]] ∧
      nalUnitsAny (startCoded [[0x67, 0x42], [0x65]]) = [[0x67, 0x42], [0x65]]) ↔ lengthsTell [0x67, 0x42] [[0x65]] := by
  have hnone : ∀ u ∈ [[0x67, 0x42], [0x65]], ∀ p, ¬PrefixAt u p := by
    intro u hu p h
    have hlt := h.lt_length
    have hshort : ∀ u ∈ ([[0x67, 0x42], [0x65]] : List (List UInt8)), u.length ≤ 2 := by decide
    have := hshort u hu
    omega
  exact nalUnitsAny_iff (by decide) hnone (by decide)

/-- One unit of 256 bytes: its length starts like a start code. -/
theorem nalUnitsAny_avccSample_ne :
    (∀ p, ¬PrefixAt (List.replicate 256 0x65) p) ∧ 1 < (List.replicate 256 (0x65 : UInt8)).length ∧
      nalUnitsAny (avccSample [List.replicate 256 0x65]) ≠ [List.replicate 256 0x65] := by
  have hnone : ∀ p, ¬PrefixAt (List.replicate 256 0x65) p := by
    intro p h
    have hzero := mem_of_getElem? h.1
    exact absurd (eq_of_mem_replicate hzero) (by decide)
  have hlength : (List.replicate 256 (0x65 : UInt8)).length = 256 := length_replicate
  refine ⟨hnone, by omega, fun h => ?_⟩
  have hne : ∀ u ∈ [List.replicate 256 (0x65 : UInt8)], u ≠ [] := by
    intro u hu
    rw [List.mem_singleton.1 hu, ← length_pos_iff]
    omega
  have htell := (nalUnitsAny_avccSample_iff hne (fun u hu => List.mem_singleton.1 hu ▸ hnone) (by omega)).1 h
  unfold lengthsTell at htell
  omega

end Glass2Glass.H264
