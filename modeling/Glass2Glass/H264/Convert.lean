import Glass2Glass.H264.Framing

/-!
# From lengths to start codes

`length_prefixed_to_annexb`, `is_avcc`, `avcc_to_annexb_in_place` and `split_annexb`
(`g2g-plugins/src/annexb.rs`). The copying conversion, the check and the conversion in place accept the same
buffers, those that units of some length behind their lengths make up; the two scanners for start codes find
the same units, up to an empty one at the end (`framings_agree`).
-/

namespace Glass2Glass.H264

open Words List

/-! ## The code -/

/-- The loop of `lengthPrefixedToAnnexB`: what is written, and how much of the data is behind. -/
def convertNals (lenSize : Nat) : List (List UInt8) → List UInt8 → Nat → Option (List UInt8 × Nat)
  | [], out, consumed => some (out, consumed)
  | nal :: nals, out, consumed =>
    if nal.isEmpty then none
    else convertNals lenSize nals (out ++ annexBStartCode ++ nal) (consumed + (lenSize + nal.length))

/-- Put a start code in place of every length; refused unless the lengths walk the data to their end, with no empty
unit. -/
def lengthPrefixedToAnnexB (data : List UInt8) (lenSize : Nat) : Option (List UInt8) :=
  if ¬(1 ≤ lenSize ∧ lenSize ≤ 4) then none
  else
    match convertNals lenSize (lengthPrefixedNalUnits data lenSize) [] 0 with
    | none => none
    | some (out, consumed) => if consumed = data.length then some out else none

/-- The loop of `isAvcc`: how much of the data is behind, unless there is an empty unit. -/
def walkNals : List (List UInt8) → Nat → Option Nat
  | [], consumed => some consumed
  | nal :: nals, consumed => if nal.isEmpty then none else walkNals nals (consumed + (avccLengthSize + nal.length))

/-- Whether the data walk as units behind four-byte lengths to their end. -/
def isAvcc (data : List UInt8) : Bool := walkNals (avccNalUnits data) 0 == some data.length

/-- A big-endian word of four bytes. -/
def beU32 (data : List UInt8) (place : Nat) : Option Nat :=
  if place + 4 ≤ data.length then some (beNat (slice data place 4)) else none

/-- The loop of `avccToAnnexBInPlace` from a place on. Every pass takes a length, so the fuel is the length of the
sample. -/
def inPlaceFrom : Nat → List UInt8 → Nat → Option (List UInt8)
  | 0, _, _ => none
  | fuel + 1, sample, place =>
    if place < sample.length then
      match beU32 sample place with
      | none => none
      | some nalLen =>
        if nalLen = 0 then none
        else
          let next := place + avccLengthSize + nalLen
          if sample.length < next then none
          else
            inPlaceFrom fuel (sample.take place ++ annexBStartCode ++ sample.drop (place + avccLengthSize)) next
    else some sample

/-- Put a start code in place of every four-byte length; what is refused may be partly rewritten. -/
def avccToAnnexBInPlace (sample : List UInt8) : Option (List UInt8) := inPlaceFrom (sample.length + 1) sample 0

/-- `splitAnnexB` from a place on, with the start of the unit it is in. -/
def splitAnnexBFrom (data : List UInt8) (i : Nat) (start : Option Nat) : List (List UInt8) :=
  if i + 2 < data.length then
    if data[i]? = some 0 ∧ data[i + 1]? = some 0 ∧ data[i + 2]? = some 1 then
      let codeStart := if 0 < i ∧ data[i - 1]? = some 0 then i - 1 else i
      (match start with
        | some s => [(data.drop s).take (codeStart - s)]
        | none => []) ++ splitAnnexBFrom data (i + 3) (some (i + 3))
    else splitAnnexBFrom data (i + 1) start
  else
    match start with
    | some s => if s < data.length then [data.drop s] else []
    | none => []
termination_by data.length - i

/-- The units of an Annex-B buffer, found with a window of three bytes. -/
def splitAnnexB (data : List UInt8) : List (List UInt8) := splitAnnexBFrom data 0 none

/-! ## What is converted -/

/-- Units that can stand behind lengths of `lenSize` bytes. -/
def areFramed (lenSize : Nat) (units : List (List UInt8)) : Prop := ∀ u ∈ units, u ≠ [] ∧ u.length < 256 ^ lenSize

variable {data a out : List UInt8} {units nals : List (List UInt8)} {lenSize : Nat}

theorem convertNals_eq_some_iff {consumed consumed' : Nat} : convertNals lenSize nals a consumed = some (out, consumed') ↔
    (∀ nal ∈ nals, nal ≠ []) ∧ out = a ++ startCoded nals ∧
      consumed' = consumed + (lengthPrefixed lenSize nals).length := by
  induction nals generalizing a consumed with
  | nil =>
    have hnone : startCoded [] = [] := rfl
    have hempty : lengthPrefixed lenSize [] = [] := rfl
    simp [convertNals, hnone, hempty, eq_comm]
  | cons nal nals ih =>
    rw [convertNals]
    by_cases hnal : nal = []
    · simp [hnal]
    · rw [if_neg (by simpa using hnal), ih, startCoded_cons, lengthPrefixed_cons, forall_mem_cons]
      simp only [length_append, length_beBytes, append_assoc, and_iff_right hnal, Nat.add_assoc]

theorem walkNals_eq_some_iff {consumed consumed' : Nat} : walkNals nals consumed = some consumed' ↔
    (∀ nal ∈ nals, nal ≠ []) ∧ consumed' = consumed + (lengthPrefixed avccLengthSize nals).length := by
  induction nals generalizing consumed with
  | nil =>
    have hempty : lengthPrefixed avccLengthSize [] = [] := rfl
    simp [walkNals, hempty, eq_comm]
  | cons nal nals ih =>
    rw [walkNals]
    by_cases hnal : nal = []
    · simp [hnal]
    · rw [if_neg (by simpa using hnal), ih, lengthPrefixed_cons, forall_mem_cons]
      simp only [length_append, length_beBytes, and_iff_right hnal, Nat.add_assoc]

theorem walk_iff (hsize : 0 < lenSize) : ((∀ nal ∈ avccNalsFrom (data.length + 1) lenSize data 0, nal ≠ []) ∧
      data.length = (lengthPrefixed lenSize (avccNalsFrom (data.length + 1) lenSize data 0)).length) ↔
    ∃ units, areFramed lenSize units ∧ data = lengthPrefixed lenSize units := by
  constructor
  · rintro ⟨hne, hlength⟩
    obtain ⟨rest, hrest, hfits⟩ := avccNalsFrom_split (data.length + 1) lenSize (Nat.zero_le data.length)
    rw [drop_zero] at hrest
    have hnil : rest = [] := by
      have hall := congrArg List.length hrest
      rw [length_append] at hall
      exact List.length_eq_zero_iff.1 (by omega)
    rw [hnil, append_nil] at hrest
    exact ⟨_, fun u hu => ⟨hne u hu, hfits u hu⟩, hrest⟩
  · rintro ⟨units, hframed, rfl⟩
    rw [(avccNalsFrom_eq_iff hsize units).2 fun u hu => (hframed u hu).2]
    exact ⟨fun u hu => (hframed u hu).1, rfl⟩

theorem avccNalsFrom_of_eq (hsize : 0 < lenSize) (hframed : areFramed lenSize units)
    (hdata : data = lengthPrefixed lenSize units) : avccNalsFrom (data.length + 1) lenSize data 0 = units := by
  rw [hdata]
  exact (avccNalsFrom_eq_iff hsize units).2 fun u hu => (hframed u hu).2

theorem lengthPrefixedToAnnexB_eq_some_iff (hsize : 1 ≤ lenSize ∧ lenSize ≤ 4) :
    lengthPrefixedToAnnexB data lenSize = some out ↔
      ∃ units, areFramed lenSize units ∧ data = lengthPrefixed lenSize units ∧ out = startCoded units := by
  unfold lengthPrefixedToAnnexB lengthPrefixedNalUnits
  rw [if_neg (not_not.2 hsize), if_pos hsize]
  constructor
  · intro h
    rcases hconvert : convertNals lenSize (avccNalsFrom (data.length + 1) lenSize data 0) [] 0 with _ | ⟨out', consumed⟩
    · rw [hconvert] at h
      cases h
    · rw [hconvert] at h
      dsimp only at h
      split_ifs at h with hall
      obtain rfl := Option.some.inj h
      obtain ⟨hne, hout, hconsumed⟩ := convertNals_eq_some_iff.1 hconvert
      obtain ⟨units, hframed, hdata⟩ := (walk_iff hsize.1).1 ⟨hne, (by omega : data.length = _)⟩
      rw [avccNalsFrom_of_eq hsize.1 hframed hdata] at hout
      exact ⟨units, hframed, hdata, hout⟩
  · rintro ⟨units, hframed, hdata, rfl⟩
    have hwalk := (walk_iff hsize.1).2 ⟨units, hframed, hdata⟩
    rw [convertNals_eq_some_iff.2 ⟨hwalk.1, rfl, rfl⟩]
    dsimp only
    rw [if_pos (by omega), avccNalsFrom_of_eq hsize.1 hframed hdata]
    rfl

theorem isAvcc_iff : isAvcc data = true ↔
    ∃ units, areFramed avccLengthSize units ∧ data = lengthPrefixed avccLengthSize units := by
  unfold isAvcc avccNalUnits
  rw [beq_iff_eq, walkNals_eq_some_iff, Nat.zero_add]
  exact walk_iff (by decide)

/-! ## In place -/

/-- Framed units are converted in place. -/
theorem inPlaceFrom_lengthPrefixed {fuel : Nat} (hfuel : units.length < fuel) (hframed : areFramed avccLengthSize units) :
    inPlaceFrom fuel (a ++ lengthPrefixed avccLengthSize units) a.length = some (a ++ startCoded units) := by
  induction units generalizing a fuel with
  | nil =>
    obtain ⟨fuel, rfl⟩ := Nat.exists_eq_succ_of_ne_zero (Nat.ne_zero_of_lt hfuel)
    have hempty : a ++ lengthPrefixed avccLengthSize [] = a := append_nil a
    rw [inPlaceFrom, hempty, if_neg (lt_irrefl _)]
    exact congrArg some (append_nil a).symm
  | cons u units ih =>
    obtain ⟨fuel, rfl⟩ := Nat.exists_eq_succ_of_ne_zero (Nat.ne_zero_of_lt hfuel)
    obtain ⟨⟨hne, hfits⟩, hrest⟩ := List.forall_mem_cons.1 hframed
    have hpos : 0 < u.length := List.length_pos_iff.2 hne
    have hwidth : (beBytes avccLengthSize u.length).length = 4 := length_beBytes _ _
    have hslice : slice (a ++ (beBytes avccLengthSize u.length ++ (u ++ lengthPrefixed avccLengthSize units))) a.length 4 =
        beBytes avccLengthSize u.length := slice_after rfl hwidth
    have hall : (a ++ (beBytes avccLengthSize u.length ++ (u ++ lengthPrefixed avccLengthSize units))).length =
        a.length + 4 + u.length + (lengthPrefixed avccLengthSize units).length := by
      simp only [length_append, hwidth]
      omega
    have hdrop : (a ++ (beBytes avccLengthSize u.length ++ (u ++ lengthPrefixed avccLengthSize units))).drop
        (a.length + avccLengthSize) = u ++ lengthPrefixed avccLengthSize units := by
      rw [← append_assoc]
      exact drop_left' (by rw [length_append, hwidth]; rfl)
    have hnext : (a ++ annexBStartCode ++ u).length = a.length + avccLengthSize + u.length := by
      rw [length_append, length_append]
      rfl
    have hlast := ih (a := a ++ annexBStartCode ++ u) (Nat.lt_of_succ_lt_succ hfuel) hrest
    rw [hnext] at hlast
    rw [lengthPrefixed_cons, inPlaceFrom, if_pos (by omega), beU32, if_pos (by omega), hslice, beNat_beBytes hfits]
    dsimp only
    rw [if_neg (by omega), if_neg (by rw [hall, avccLengthSize]; omega), hdrop, take_left, ← append_assoc, hlast,
      startCoded_cons]
    simp only [append_assoc]

/-- What is converted in place is framed units. -/
theorem exists_of_inPlaceFrom {fuel : Nat} {tail : List UInt8} (h : inPlaceFrom fuel (a ++ tail) a.length = some out) :
    ∃ units, areFramed avccLengthSize units ∧ tail = lengthPrefixed avccLengthSize units := by
  induction fuel generalizing a tail with
  | zero => cases h
  | succ fuel ih =>
    rw [inPlaceFrom] at h
    split_ifs at h with hlt
    · rcases hword : beU32 (a ++ tail) a.length with _ | nalLen
      · rw [hword] at h
        cases h
      · rw [hword] at h
        dsimp only at h
        split_ifs at h with hzero hpast
        unfold beU32 at hword
        split_ifs at hword with hroom
        obtain rfl := Option.some.inj hword
        rw [length_append] at hroom hpast
        obtain ⟨word, body, rfl, hword4⟩ : ∃ word body, tail = word ++ body ∧ word.length = 4 :=
          ⟨tail.take 4, tail.drop 4, (take_append_drop 4 tail).symm, by rw [length_take]; omega⟩
        rw [slice_after rfl hword4] at h hpast hzero
        rw [length_append, hword4, avccLengthSize] at hpast
        obtain ⟨u, rest, rfl, hu⟩ : ∃ u rest, body = u ++ rest ∧ u.length = beNat word :=
          ⟨body.take (beNat word), body.drop (beNat word), (take_append_drop _ body).symm, by rw [length_take]; omega⟩
        have hdrop : (a ++ (word ++ (u ++ rest))).drop (a.length + avccLengthSize) = u ++ rest := by
          rw [← append_assoc]
          exact drop_left' (by rw [length_append, hword4]; rfl)
        have hnext : (a ++ annexBStartCode ++ u).length = a.length + avccLengthSize + beNat word := by
          rw [length_append, length_append, hu]
          rfl
        rw [take_left, hdrop, ← append_assoc (a ++ annexBStartCode), ← hnext] at h
        obtain ⟨units, hframed, rfl⟩ := ih h
        have hne : u ≠ [] := by
          rw [← length_pos_iff]
          omega
        refine ⟨u :: units, List.forall_mem_cons.2 ⟨⟨hne, hu ▸ beNat_lt hword4⟩, hframed⟩, ?_⟩
        rw [lengthPrefixed_cons, hu, avccLengthSize, beBytes_beNat hword4]
    · have hnil : tail = [] := by
        rw [length_append] at hlt
        exact List.length_eq_zero_iff.1 (by omega)
      exact ⟨[], forall_mem_nil _, hnil⟩

theorem avccToAnnexBInPlace_eq (data : List UInt8) : avccToAnnexBInPlace data = lengthPrefixedToAnnexB data 4 := by
  have hconverted : ∀ units, areFramed avccLengthSize units → data = lengthPrefixed avccLengthSize units →
      avccToAnnexBInPlace data = some (startCoded units) := by
    rintro units hframed rfl
    have hsize : 0 < avccLengthSize := by decide
    have hfuel := Nat.lt_succ_of_le (length_le_lengthPrefixed hsize units)
    exact inPlaceFrom_lengthPrefixed (a := []) hfuel hframed
  have hcopied : ∀ out, lengthPrefixedToAnnexB data 4 = some out ↔ ∃ units, areFramed avccLengthSize units ∧
      data = lengthPrefixed avccLengthSize units ∧ out = startCoded units := fun out =>
    lengthPrefixedToAnnexB_eq_some_iff (by decide)
  ext out
  rw [hcopied]
  constructor
  · intro h
    obtain ⟨units, hframed, hdata⟩ := exists_of_inPlaceFrom (a := []) h
    exact ⟨units, hframed, hdata, Option.some.inj (h.symm.trans (hconverted units hframed hdata))⟩
  · rintro ⟨units, hframed, hdata, rfl⟩
    exact hconverted units hframed hdata

/-! ## Two scanners -/

/-- One list of units is the other, or the other and an empty unit at the end. -/
def UpToEmpty (units split : List (List UInt8)) : Prop := units = split ∨ units = split ++ [[]]

theorem UpToEmpty.cons {split : List (List UInt8)} (u : List UInt8) (h : UpToEmpty units split) :
    UpToEmpty (u :: units) (u :: split) := by
  rcases h with rfl | rfl
  · exact .inl rfl
  · exact .inr rfl

theorem nalUnitsFrom_succ {fuel pos code first : Nat} (h : nextStartCode data pos = some (code, first)) :
    nalUnitsFrom (fuel + 1) data pos =
      match nextStartCode data first with
      | some (code', _) => (data.drop first).take (code' - first) :: nalUnitsFrom fuel data code'
      | none => [data.drop first] := by
  rw [nalUnitsFrom, h]
  dsimp only
  rcases nextStartCode data first with _ | ⟨code', first'⟩
  · have hdone : nalUnitsFrom fuel data data.length = [] := by
      cases fuel with
      | zero => rfl
      | succ fuel => rw [nalUnitsFrom, nextStartCode_length]
    rw [hdone, take_of_length_le (by rw [length_drop])]
  · rfl

/-- With a unit open since `s` and no start code behind it so far, the window finds the units the iterator does. -/
theorem splitAnnexBFrom_open {i s fuel pos code : Nat} (hfuel : data.length < pos + fuel)
    (hcode : nextStartCode data pos = some (code, s)) (hle : s ≤ i) (hnone : ∀ q, s ≤ q → q < i → ¬PrefixAt data q) :
    UpToEmpty (nalUnitsFrom fuel data pos) (splitAnnexBFrom data i (some s)) := by
  induction hn : data.length - i using Nat.strong_induction_on generalizing i s fuel pos code with
  | _ n ih =>
    obtain ⟨c, hpos, hs, hlt, hbytes⟩ := nextStartCode_bytes hcode
    have hwidth : 3 ≤ c.bytes.length := by cases c <;> decide
    -- the byte before the unit is the one of its start code
    have hone : data[s - 1]? = some 1 := by
      obtain ⟨p, -, hp, -, rfl, -⟩ := nextStartCode_eq_some_iff.1 hcode
      exact hp.2.2
    obtain ⟨fuel, rfl⟩ : ∃ n, fuel = n + 1 := ⟨fuel - 1, by omega⟩
    rw [splitAnnexBFrom]
    by_cases hroom : i + 2 < data.length
    · rw [if_pos hroom]
      by_cases hstarts : data[i]? = some 0 ∧ data[i + 1]? = some 0 ∧ data[i + 2]? = some 1
      · -- the unit ends here, and the next one opens
        have hzero : (0 < i ∧ data[i - 1]? = some 0) ↔ (s < i ∧ data[i - 1]? = some 0) := by
          refine and_congr_left fun hzero => ⟨fun _ => ?_, fun _ => by omega⟩
          rcases Nat.lt_or_eq_of_le hle with hlt | rfl
          · exact hlt
          · rw [hone] at hzero
            exact absurd (Option.some.inj hzero) (by decide)
        have hnext : nextStartCode data s =
            some (if 0 < i ∧ data[i - 1]? = some 0 then i - 1 else i, i + 3) := by
          simp only [hzero]
          exact nextStartCode_eq_some_iff.2 ⟨i, hle, hstarts, hnone, rfl, rfl⟩
        obtain ⟨-, hle', -, -, -⟩ := nextStartCode_bytes hnext
        have hfuel : data.length < (if 0 < i ∧ data[i - 1]? = some 0 then i - 1 else i) + fuel := by omega
        have hrest := ih (data.length - (i + 3)) (by omega) hfuel (nextStartCode_self hnext)
          (le_refl (i + 3)) (fun q h h' => absurd h (by omega)) rfl
        rw [if_pos hstarts, nalUnitsFrom_succ hcode, hnext]
        exact hrest.cons _
      · rw [if_neg hstarts]
        refine ih (data.length - (i + 1)) (by omega) hfuel hcode (by omega) (fun q h h' => ?_) rfl
        rcases Nat.lt_or_eq_of_le (Nat.le_of_lt_succ h') with hlt | rfl
        · exact hnone q h hlt
        · exact hstarts
    · -- no start code follows
      have hend : nextStartCode data s = none := by
        refine nextStartCode_eq_none_iff.2 fun q h hq => ?_
        have := hq.lt_length
        exact hnone q h (by omega) hq
      rw [if_neg hroom, nalUnitsFrom_succ hcode, hend]
      split_ifs with hopen
      · exact .inl rfl
      · rw [drop_of_length_le (by omega)]
        exact .inr rfl

theorem splitAnnexBFrom_closed {i : Nat} (hnone : ∀ q < i, ¬PrefixAt data q) :
    UpToEmpty (nalUnits data) (splitAnnexBFrom data i none) := by
  induction hn : data.length - i using Nat.strong_induction_on generalizing i with
  | _ n ih =>
    rw [splitAnnexBFrom]
    by_cases hroom : i + 2 < data.length
    · rw [if_pos hroom]
      by_cases hstarts : data[i]? = some 0 ∧ data[i + 1]? = some 0 ∧ data[i + 2]? = some 1
      · rw [if_pos hstarts]
        have hfirst : nextStartCode data 0 = some (if 0 < i ∧ data[i - 1]? = some 0 then i - 1 else i, i + 3) :=
          nextStartCode_eq_some_iff.2 ⟨i, Nat.zero_le i, hstarts, fun q _ => hnone q, rfl, rfl⟩
        exact splitAnnexBFrom_open (by omega) hfirst (le_refl (i + 3)) fun q h h' => absurd h (by omega)
      · rw [if_neg hstarts]
        refine ih (data.length - (i + 1)) (by omega) (fun q h => ?_) rfl
        rcases Nat.lt_or_eq_of_le (Nat.le_of_lt_succ h) with hlt | rfl
        · exact hnone q hlt
        · exact hstarts
    · have hend : nextStartCode data 0 = none := by
        refine nextStartCode_eq_none_iff.2 fun q h hq => ?_
        have := hq.lt_length
        exact hnone q (by omega) hq
      rw [if_neg hroom, nalUnits, nalUnitsFrom, hend]
      exact .inl rfl

theorem not_prefixAt_of_mem {fuel pos : Nat} {u : List UInt8} (h : u ∈ nalUnitsFrom fuel data pos) (p : Nat) :
    ¬PrefixAt u p := by
  induction fuel generalizing pos with
  | zero => cases h
  | succ fuel ih =>
    rcases hcode : nextStartCode data pos with _ | ⟨code, first⟩
    · rw [nalUnitsFrom, hcode] at h
      cases h
    · rw [nalUnitsFrom_succ hcode] at h
      rcases hnext : nextStartCode data first with _ | ⟨code', first'⟩
      · rw [hnext] at h
        rw [List.mem_singleton.1 h]
        intro hp
        have hskip : ∀ k, (data.drop first)[k]? = data[first + k]? := fun k => List.getElem?_drop
        unfold PrefixAt at hp
        rw [hskip, hskip, hskip] at hp
        exact nextStartCode_eq_none_iff.1 hnext (first + p) (Nat.le_add_right _ _) hp
      · rw [hnext] at h
        rcases List.mem_cons.1 h with rfl | h
        · intro hp
          have hlt := hp.lt_length
          rw [length_take] at hlt
          have hskip : ∀ k < code' - first, ((data.drop first).take (code' - first))[k]? = data[first + k]? := by
            intro k hk
            rw [List.getElem?_take_of_lt hk, List.getElem?_drop]
          obtain ⟨q, hle, hq, hfirst, -, hq'⟩ := nextStartCode_eq_some_iff.1 hnext
          unfold PrefixAt at hp
          rw [hskip _ (by omega), hskip _ (by omega), hskip _ (by omega)] at hp
          refine hfirst (first + p) (Nat.le_add_right _ _) ?_ hp
          split_ifs at hq' <;> omega
        · exact ih h

/-! ## The framings agree -/

/-- Units behind lengths they fit are converted to a buffer that has just these units. The conversion in place and
the check accept what the copying conversion does. In every buffer, the window and the iterator find the same units,
up to an empty one at the end, and none of them holds a start code. -/
theorem framings_agree :
    (∀ lenSize units, 1 ≤ lenSize → lenSize ≤ 4 → areFramed lenSize units → (∀ u ∈ units, ∀ p, ¬PrefixAt u p) →
      ∃ out, lengthPrefixedToAnnexB (lengthPrefixed lenSize units) lenSize = some out ∧ nalUnits out = units) ∧
    (∀ data, avccToAnnexBInPlace data = lengthPrefixedToAnnexB data 4 ∧
      (isAvcc data = true ↔ (lengthPrefixedToAnnexB data 4).isSome = true)) ∧
    (∀ data, UpToEmpty (nalUnits data) (splitAnnexB data) ∧ ∀ u ∈ nalUnits data, ∀ p, ¬PrefixAt u p) := by
  refine ⟨fun lenSize units hlow hhigh hframed hnone => ?_, fun data => ⟨avccToAnnexBInPlace_eq data, ?_⟩, fun data => ?_⟩
  · have hconverted := (lengthPrefixedToAnnexB_eq_some_iff ⟨hlow, hhigh⟩).2 ⟨units, hframed, rfl, rfl⟩
    exact ⟨_, hconverted, nalUnits_startCoded hnone⟩
  · rw [isAvcc_iff, Option.isSome_iff_exists]
    constructor
    · rintro ⟨units, hframed, hdata⟩
      exact ⟨_, (lengthPrefixedToAnnexB_eq_some_iff (by decide)).2 ⟨units, hframed, hdata, rfl⟩⟩
    · rintro ⟨out, hout⟩
      obtain ⟨units, hframed, hdata, -⟩ := (lengthPrefixedToAnnexB_eq_some_iff (by decide)).1 hout
      exact ⟨units, hframed, hdata⟩
  · exact ⟨splitAnnexBFrom_closed nofun, fun u hu p => not_prefixAt_of_mem hu p⟩

/-- Two units, the first ending in a zero, behind lengths of two bytes. -/
theorem framings_agree_two : ∃ out, lengthPrefixedToAnnexB (lengthPrefixed 2 [[0x67, 0], [0x65]]) 2 = some out ∧
      nalUnits out = [[0x67, 0], [0x65]] := by
  have hframed : areFramed 2 [[0x67, 0], [0x65]] := by
    unfold areFramed
    decide
  have hshort : ∀ u ∈ ([[0x67, 0], [0x65]] : List (List UInt8)), u.length ≤ 2 := by decide
  refine framings_agree.1 2 _ (by decide) (by decide) hframed fun u hu p h => ?_
  have hlt := h.lt_length
  have := hshort u hu
  omega

end Glass2Glass.H264
