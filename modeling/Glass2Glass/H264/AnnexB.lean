import Mathlib.Data.List.Infix
import Mathlib.Tactic.IntervalCases

/-!
# Annex-B streams

`find_start_code_prefix`, `next_start_code` and `nal_units` (`g2g-plugins/src/annexb.rs`): the NAL units of a
byte stream that start codes separate, and that the iterator finds those a stream was made of
(`nalUnits_annexB`).
-/

namespace Glass2Glass.H264

/-- Two zeros and a one. -/
def startCodePrefix : List UInt8 := [0, 0, 1]

def annexBStartCode : List UInt8 := [0, 0, 0, 1]

/-- Where the first start code prefix at or after `start` stands: the first one behind two zeros. -/
def findStartCodePrefix (data : List UInt8) (start : Nat) : Option Nat :=
  let lastByteOffset := startCodePrefix.length - 1
  ((List.range' (start + lastByteOffset) (data.length - (start + lastByteOffset))).find? fun one =>
    data[one]? = some 1 ∧ data[one - 2]? = some 0 ∧ data[one - 1]? = some 0).map fun one => one - lastByteOffset

/-- Where the next start code stands, with the zero before its prefix if there is one, and where its NAL
unit starts. -/
def nextStartCode (data : List UInt8) (start : Nat) : Option (Nat × Nat) :=
  match findStartCodePrefix data start with
  | none => none
  | some code =>
    let payload := code + startCodePrefix.length
    if start < code ∧ data[code - 1]? = some 0 then some (code - 1, payload) else some (code, payload)

/-- The NAL units from a place on. Every unit takes its start code, so the fuel is the length. -/
def nalUnitsFrom : Nat → List UInt8 → Nat → List (List UInt8)
  | 0, _, _ => []
  | fuel + 1, data, pos =>
    match nextStartCode data pos with
    | none => []
    | some (_, first) =>
      let last := match nextStartCode data first with
        | some (code, _) => code
        | none => data.length
      (data.drop first).take (last - first) :: nalUnitsFrom fuel data last

/-- The NAL units of an Annex-B stream. -/
def nalUnits (data : List UInt8) : List (List UInt8) := nalUnitsFrom (data.length + 1) data 0

/-! ## Where start codes stand -/

/-- A start code prefix stands here. -/
def PrefixAt (data : List UInt8) (p : Nat) : Prop :=
  data[p]? = some 0 ∧ data[p + 1]? = some 0 ∧ data[p + 2]? = some 1

instance (data : List UInt8) (p : Nat) : Decidable (PrefixAt data p) :=
  inferInstanceAs (Decidable (_ ∧ _ ∧ _))

variable {data a b : List UInt8} {start p : Nat}

theorem PrefixAt.lt_length (h : PrefixAt data p) : p + 2 < data.length := by
  obtain ⟨hlt, -⟩ := List.getElem?_eq_some_iff.1 h.2.2
  exact hlt

theorem prefixAt_append : PrefixAt (a ++ b) (a.length + p) ↔ PrefixAt b p := by
  have hskip : ∀ k, (a ++ b)[a.length + k]? = b[k]? := fun k => by
    rw [List.getElem?_append_right (Nat.le_add_right _ _), Nat.add_sub_cancel_left]
  unfold PrefixAt
  rw [hskip, Nat.add_assoc, Nat.add_assoc, hskip, hskip]

theorem findStartCodePrefix_eq_some (hle : start ≤ p) (hp : PrefixAt data p)
    (hfirst : ∀ q, start ≤ q → q < p → ¬PrefixAt data q) : findStartCodePrefix data start = some p := by
  have hlt := hp.lt_length
  have hfind : ((List.range' (start + 2) (data.length - (start + 2))).find? fun one =>
      data[one]? = some 1 ∧ data[one - 2]? = some 0 ∧ data[one - 1]? = some 0) = some (p + 2) := by
    rw [List.find?_range'_eq_some]
    refine ⟨decide_eq_true ⟨hp.2.2, hp.1, hp.2.1⟩, List.mem_range'_1.2 ⟨by omega, by omega⟩, fun one hone hlt => ?_⟩
    rw [Bool.not_eq_true', decide_eq_false_iff_not]
    obtain ⟨q, rfl⟩ : ∃ q, one = q + 2 := ⟨one - 2, by omega⟩
    exact fun h => hfirst q (by omega) (by omega) ⟨h.2.1, h.2.2, h.1⟩
  exact congrArg (Option.map fun one => one - 2) hfind

theorem findStartCodePrefix_eq_none (hnone : ∀ q, start ≤ q → ¬PrefixAt data q) :
    findStartCodePrefix data start = none := by
  have hfind : ((List.range' (start + 2) (data.length - (start + 2))).find? fun one =>
      data[one]? = some 1 ∧ data[one - 2]? = some 0 ∧ data[one - 1]? = some 0) = none := by
    rw [List.find?_range'_eq_none]
    intro one hone _
    rw [Bool.not_eq_true', decide_eq_false_iff_not]
    obtain ⟨q, rfl⟩ : ∃ q, one = q + 2 := ⟨one - 2, by omega⟩
    exact fun h => hnone q (by omega) ⟨h.2.1, h.2.2, h.1⟩
  exact congrArg (Option.map fun one => one - 2) hfind

theorem findStartCodePrefix_eq_some_iff : findStartCodePrefix data start = some p ↔
    start ≤ p ∧ PrefixAt data p ∧ ∀ q, start ≤ q → q < p → ¬PrefixAt data q := by
  constructor
  · intro h
    by_cases hsome : ∃ q, start ≤ q ∧ PrefixAt data q
    · -- the first of them is what is found
      classical
      have hfirst := Nat.find_spec hsome
      have hmin : ∀ q, start ≤ q → q < Nat.find hsome → ¬PrefixAt data q := fun q hle hlt hq =>
        Nat.find_min hsome hlt ⟨hle, hq⟩
      rw [findStartCodePrefix_eq_some hfirst.1 hfirst.2 hmin] at h
      obtain rfl := Option.some.inj h
      exact ⟨hfirst.1, hfirst.2, hmin⟩
    · rw [findStartCodePrefix_eq_none fun q hle hq => hsome ⟨q, hle, hq⟩] at h
      cases h
  · exact fun h => findStartCodePrefix_eq_some h.1 h.2.1 h.2.2

theorem findStartCodePrefix_eq_none_iff : findStartCodePrefix data start = none ↔
    ∀ q, start ≤ q → ¬PrefixAt data q := by
  constructor
  · intro h q hle hq
    by_cases hfirst : ∃ p, findStartCodePrefix data start = some p
    · obtain ⟨p, hp⟩ := hfirst
      rw [h] at hp
      cases hp
    · classical
      have hsome : ∃ q, start ≤ q ∧ PrefixAt data q := ⟨q, hle, hq⟩
      refine hfirst ⟨Nat.find hsome, findStartCodePrefix_eq_some_iff.2 ⟨(Nat.find_spec hsome).1,
        (Nat.find_spec hsome).2, fun q hle hlt hq => Nat.find_min hsome hlt ⟨hle, hq⟩⟩⟩
  · exact findStartCodePrefix_eq_none

theorem nextStartCode_eq_some_iff {code first : Nat} : nextStartCode data start = some (code, first) ↔
    ∃ p, start ≤ p ∧ PrefixAt data p ∧ (∀ q, start ≤ q → q < p → ¬PrefixAt data q) ∧ first = p + 3 ∧
      code = if start < p ∧ data[p - 1]? = some 0 then p - 1 else p := by
  unfold nextStartCode
  constructor
  · intro h
    rcases hfind : findStartCodePrefix data start with _ | p
    · rw [hfind] at h
      cases h
    · rw [hfind] at h
      obtain ⟨hle, hp, hfirst⟩ := findStartCodePrefix_eq_some_iff.1 hfind
      refine ⟨p, hle, hp, hfirst, ?_⟩
      dsimp only at h
      split_ifs at h ⊢ with hzero <;> exact ⟨(congrArg Prod.snd (Option.some.inj h)).symm,
        (congrArg Prod.fst (Option.some.inj h)).symm⟩
  · rintro ⟨p, hle, hp, hfirst, rfl, rfl⟩
    rw [findStartCodePrefix_eq_some hle hp hfirst]
    dsimp only
    split_ifs <;> rfl

theorem nextStartCode_eq_none_iff : nextStartCode data start = none ↔ ∀ q, start ≤ q → ¬PrefixAt data q := by
  unfold nextStartCode
  rw [← findStartCodePrefix_eq_none_iff]
  rcases findStartCodePrefix data start with _ | p
  · simp
  · dsimp only
    split_ifs <;> simp

/-! ## Streams made of NAL units -/

/-- The start code of a NAL unit, with or without its first zero. -/
inductive StartCode where
  | short
  | long
  deriving DecidableEq

def StartCode.bytes : StartCode → List UInt8
  | short => startCodePrefix
  | long => annexBStartCode

/-- A NAL unit that is neither an aggregate nor a fragment and can stand in a stream. -/
structure Nal where
  bytes : List UInt8
  header : UInt8
  head : bytes.head? = some header
  type : 1 ≤ header &&& 0x1F ∧ header &&& 0x1F ≤ 23
  noStartCode : ∀ p, ¬PrefixAt bytes p
  last : bytes.getLast? ≠ some 0

theorem Nal.ne_nil (nal : Nal) : nal.bytes ≠ [] := by
  intro h
  have hhead := nal.head
  rw [h] at hhead
  cases hhead

def annexB (units : List (StartCode × Nal)) : List UInt8 := units.flatMap fun u => u.1.bytes ++ u.2.bytes

/-- Byte strings, each behind its start code. -/
def coded (units : List (StartCode × List UInt8)) : List UInt8 := units.flatMap fun u => u.1.bytes ++ u.2

@[simp] theorem coded_nil : coded [] = [] := rfl

theorem coded_cons (code : StartCode) (nal : List UInt8) (units : List (StartCode × List UInt8)) :
    coded ((code, nal) :: units) = code.bytes ++ (nal ++ coded units) := by
  unfold coded
  rw [List.flatMap_cons, List.append_assoc]

theorem annexB_eq_coded (units : List (StartCode × Nal)) :
    annexB units = coded (units.map fun u => (u.1, u.2.bytes)) := by
  unfold annexB coded
  rw [List.flatMap_map]

/-- Byte strings that can be told apart again: none holds a start code, and none that a short start code follows
ends in a zero. -/
def Separated : List (StartCode × List UInt8) → Prop
  | [] => True
  | [u] => ∀ p, ¬PrefixAt u.2 p
  | u :: v :: units => (∀ p, ¬PrefixAt u.2 p) ∧ (v.1 = .short → u.2.getLast? ≠ some 0) ∧ Separated (v :: units)

/-! ## The iterator finds them -/

section NextStartCode

variable {nal rest : List UInt8}

variable (code : StartCode)

theorem StartCode.zeros {k : Nat} (hk : k + 1 < code.bytes.length) : (code.bytes ++ rest)[k]? = some 0 := by
  cases code
  case short =>
    have hk' : k < 2 := Nat.lt_of_succ_lt_succ hk
    interval_cases k <;> rfl
  case long =>
    have hk' : k < 3 := Nat.lt_of_succ_lt_succ hk
    interval_cases k <;> rfl

theorem StartCode.prefixAt : PrefixAt (code.bytes ++ rest) (code.bytes.length - 3) := by
  cases code <;> exact ⟨rfl, rfl, rfl⟩

theorem not_prefixAt_before (hnone : ∀ p, ¬PrefixAt nal p) {p : Nat}
    (hp : p + 3 < nal.length + code.bytes.length) : ¬PrefixAt (nal ++ (code.bytes ++ rest)) p := by
  intro h
  rcases Nat.lt_or_ge (p + 2) nal.length with hlt | hge
  · -- the prefix would lie in the byte string
    refine hnone p ⟨?_, ?_, ?_⟩
    · exact (List.getElem?_append_left (by omega)).symm.trans h.1
    · exact (List.getElem?_append_left (by omega)).symm.trans h.2.1
    · exact (List.getElem?_append_left hlt).symm.trans h.2.2
  · -- its one would be a zero of the start code
    have hone := h.2.2
    rw [List.getElem?_append_right hge, code.zeros (by omega)] at hone
    exact absurd (Option.some.inj hone) (by decide)

/-- Behind bytes without a start code, which do not end in a zero when a short start code follows, the next start
code is the one that follows. -/
theorem nextStartCode_append (hnone : ∀ p, ¬PrefixAt nal p)
    (hlast : code = .short → nal.getLast? ≠ some 0) : nextStartCode (a ++ (nal ++ (code.bytes ++ rest))) a.length =
      some (a.length + nal.length, a.length + nal.length + code.bytes.length) := by
  have hlen : 3 ≤ code.bytes.length := by cases code <;> decide
  have hfind : findStartCodePrefix (a ++ (nal ++ (code.bytes ++ rest))) a.length =
      some (a.length + (nal.length + (code.bytes.length - 3))) := by
    apply findStartCodePrefix_eq_some (Nat.le_add_right _ _)
    · exact prefixAt_append.2 (prefixAt_append.2 code.prefixAt)
    · intro q hle hlt
      obtain ⟨p, rfl⟩ := Nat.exists_eq_add_of_le hle
      rw [prefixAt_append]
      exact not_prefixAt_before code hnone (by omega)
  unfold nextStartCode
  rw [hfind]
  dsimp only
  cases code
  case short =>
    rw [if_neg]
    · rfl
    · -- the byte before is the last one of the byte string
      rintro ⟨hlt, hzero⟩
      have hpos : 0 < nal.length := by
        change a.length < a.length + (nal.length + 0) at hlt
        omega
      change (a ++ (nal ++ _))[a.length + nal.length - 1]? = some 0 at hzero
      rw [Nat.add_sub_assoc hpos, List.getElem?_append_right (Nat.le_add_right _ _), Nat.add_sub_cancel_left,
        List.getElem?_append_left (by omega), ← List.getLast?_eq_getElem?] at hzero
      exact hlast rfl hzero
  case long =>
    rw [if_pos]
    · rfl
    · refine ⟨Nat.lt_add_of_pos_right (Nat.succ_pos _), ?_⟩
      change (a ++ (nal ++ _))[a.length + nal.length]? = some 0
      rw [List.getElem?_append_right (Nat.le_add_right _ _), Nat.add_sub_cancel_left,
        List.getElem?_append_right (Nat.le_refl _), Nat.sub_self]
      rfl

theorem nextStartCode_nil (rest : List UInt8) : nextStartCode (code.bytes ++ rest) 0 = some (0, code.bytes.length) := by
  have hnone : ∀ p, ¬PrefixAt [] p := fun p h => absurd h.lt_length (Nat.not_lt_zero (p + 2))
  have hnext : nextStartCode ([] ++ ([] ++ (code.bytes ++ rest))) ([] : List UInt8).length = _ :=
    nextStartCode_append code hnone fun _ => nofun
  simpa using hnext

theorem nextStartCode_last (hnone : ∀ p, ¬PrefixAt nal p) : nextStartCode (a ++ nal) a.length = none := by
  unfold nextStartCode
  rw [findStartCodePrefix_eq_none]
  intro q hle
  obtain ⟨p, rfl⟩ := Nat.exists_eq_add_of_le hle
  rw [prefixAt_append]
  exact hnone p

theorem Separated.tail {u : StartCode × List UInt8} {units : List (StartCode × List UInt8)}
    (h : Separated (u :: units)) : Separated units := by
  cases units with
  | nil => exact True.intro
  | cons v units => exact h.2.2

theorem nextStartCode_first {code : StartCode} {units : List (StartCode × List UInt8)}
    (h : Separated ((code, nal) :: units)) :
    (match nextStartCode (a ++ (nal ++ coded units)) a.length with
      | some (code, _) => code
      | none => (a ++ (nal ++ coded units)).length) = (a ++ nal).length := by
  rcases units with _ | ⟨⟨code', nal'⟩, units⟩
  · rw [coded_nil, List.append_nil, nextStartCode_last h]
  · rw [coded_cons, nextStartCode_append code' h.1 h.2.1]
    exact List.length_append.symm

end NextStartCode

theorem nalUnitsFrom_coded {fuel : Nat} {units : List (StartCode × List UInt8)} (hfuel : units.length < fuel)
    (hsep : Separated units) : nalUnitsFrom fuel (a ++ coded units) a.length = units.map (·.2) := by
  induction units generalizing a fuel with
  | nil =>
    obtain ⟨fuel, rfl⟩ := Nat.exists_eq_succ_of_ne_zero (Nat.ne_zero_of_lt hfuel)
    unfold nalUnitsFrom
    rw [coded_nil, nextStartCode_last fun p h => absurd h.lt_length (Nat.not_lt_zero _)]
    rfl
  | cons u units ih =>
    obtain ⟨fuel, rfl⟩ := Nat.exists_eq_succ_of_ne_zero (Nat.ne_zero_of_lt hfuel)
    obtain ⟨code, nal⟩ := u
    have hstart : nextStartCode (a ++ ([] ++ (code.bytes ++ (nal ++ coded units)))) a.length =
        some (a.length + 0, a.length + 0 + code.bytes.length) :=
      nextStartCode_append code (fun p h => absurd h.lt_length (Nat.not_lt_zero _)) fun _ => nofun
    have hsplit : a ++ coded ((code, nal) :: units) = (a ++ code.bytes) ++ (nal ++ coded units) := by
      rw [coded_cons, List.append_assoc]
    have hrest : nalUnitsFrom fuel (a ++ code.bytes ++ nal ++ coded units) (a ++ code.bytes ++ nal).length =
        units.map (·.2) := ih (Nat.lt_of_succ_lt_succ hfuel) hsep.tail
    have hlength : (a ++ code.bytes ++ nal).length - (a ++ code.bytes).length = nal.length := by
      rw [List.length_append, Nat.add_sub_cancel_left]
    -- where this byte string ends
    have hend := nextStartCode_first (a := a ++ code.bytes) hsep
    unfold nalUnitsFrom
    rw [List.nil_append, ← List.append_assoc, ← hsplit, Nat.add_zero] at hstart
    rw [hstart]
    dsimp only
    rw [← List.length_append, hsplit, hend, List.drop_left, hlength, List.take_left, List.map_cons, ← List.append_assoc,
      hrest]

theorem nalUnits_coded {units : List (StartCode × List UInt8)} (hsep : Separated units) :
    nalUnits (coded units) = units.map (·.2) := by
  have hlength : units.length ≤ (coded units).length := by
    clear hsep
    induction units with
    | nil => exact Nat.le_refl _
    | cons u units ih =>
      obtain ⟨code, nal⟩ := u
      have hpos : 0 < code.bytes.length := by cases code <;> decide
      rw [coded_cons, List.length_append, List.length_append, List.length_cons]
      omega
  exact nalUnitsFrom_coded (a := []) (Nat.lt_succ_of_le hlength) hsep

theorem separated_nals (units : List (StartCode × Nal)) : Separated (units.map fun u => (u.1, u.2.bytes)) := by
  induction units with
  | nil => exact True.intro
  | cons u units ih =>
    cases units with
    | nil => exact u.2.noStartCode
    | cons v units => exact ⟨u.2.noStartCode, fun _ => u.2.last, ih⟩

theorem nalUnits_annexB (units : List (StartCode × Nal)) : nalUnits (annexB units) = units.map fun u => u.2.bytes := by
  rw [annexB_eq_coded, nalUnits_coded (separated_nals units), List.map_map]
  rfl

end Glass2Glass.H264
