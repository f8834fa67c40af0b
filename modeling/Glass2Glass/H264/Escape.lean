import Mathlib.Data.List.Basic
import Mathlib.Order.Monotone.Basic

/-!
# Emulation prevention

`strip_emulation_prevention` and `add_emulation_prevention` (`g2g-plugins/src/annexb.rs`): stripping undoes
adding, and what is escaped has no two zeros before a byte below three. Of a byte string that is stripped, which
bytes go is a matter of the zeros before them (`isEscape`).
-/

namespace Glass2Glass.H264

open List

/-- The byte that keeps two zeros from being part of a start code. -/
def emulationPreventionByte : UInt8 := 3

/-- The loop of `stripEmulationPrevention`, with the zeros last seen. -/
def stripFrom : Nat → List UInt8 → List UInt8
  | _, [] => []
  | zeros, b :: ebsp =>
    if 2 ≤ zeros ∧ b = emulationPreventionByte then stripFrom 0 ebsp
    else b :: stripFrom (if b = 0 then zeros + 1 else 0) ebsp

/-- Remove the emulation prevention bytes. -/
def stripEmulationPrevention (ebsp : List UInt8) : List UInt8 := stripFrom 0 ebsp

/-- The loop of `addEmulationPrevention`, with the zeros last written. -/
def addFrom : Nat → List UInt8 → List UInt8
  | _, [] => []
  | zeros, b :: rbsp =>
    if 2 ≤ zeros ∧ b ≤ emulationPreventionByte then
      emulationPreventionByte :: b :: addFrom (if b = 0 then 1 else 0) rbsp
    else b :: addFrom (if b = 0 then zeros + 1 else 0) rbsp

/-- Insert an emulation prevention byte before every byte up to three that follows two zeros. -/
def addEmulationPrevention (rbsp : List UInt8) : List UInt8 := addFrom 0 rbsp

/-! ## Adding -/

theorem stripFrom_addFrom (zeros : Nat) (rbsp : List UInt8) : stripFrom zeros (addFrom zeros rbsp) = rbsp := by
  induction rbsp generalizing zeros with
  | nil => rfl
  | cons b rbsp ih =>
    have hlow : b = emulationPreventionByte → b ≤ emulationPreventionByte := by
      rintro rfl
      exact UInt8.le_refl _
    rw [addFrom]
    split_ifs with hescape hzero hzero
    · rw [stripFrom, if_pos ⟨hescape.1, rfl⟩, stripFrom, if_neg (by omega), if_pos hzero, ih]
    · rw [stripFrom, if_pos ⟨hescape.1, rfl⟩, stripFrom, if_neg (by omega), if_neg hzero, ih]
    · rw [stripFrom, if_neg fun h => hescape (h.imp_right hlow), if_pos hzero, ih]
    · rw [stripFrom, if_neg fun h => hescape (h.imp_right hlow), if_neg hzero, ih]

/-- With `zeros` zeros before it, a byte string has no two zeros before a byte below three. -/
def Guarded : Nat → List UInt8 → Prop
  | _, [] => True
  | zeros, b :: bytes => ¬(2 ≤ zeros ∧ b ≤ 2) ∧ Guarded (if b = 0 then zeros + 1 else 0) bytes

theorem guarded_addFrom (zeros : Nat) (rbsp : List UInt8) : Guarded zeros (addFrom zeros rbsp) := by
  have hthree : ¬emulationPreventionByte ≤ 2 := by decide
  have hnonzero : emulationPreventionByte ≠ 0 := by decide
  induction rbsp generalizing zeros with
  | nil => exact True.intro
  | cons b rbsp ih =>
    rw [addFrom]
    split_ifs with hescape hzero hzero
    · refine ⟨fun h => hthree h.2, ?_⟩
      rw [if_neg hnonzero]
      refine ⟨fun h => absurd h.1 (by decide), ?_⟩
      rw [if_pos hzero]
      exact ih 1
    · refine ⟨fun h => hthree h.2, ?_⟩
      rw [if_neg hnonzero]
      refine ⟨fun h => absurd h.1 (by decide), ?_⟩
      rw [if_neg hzero]
      exact ih 0
    · refine ⟨fun h => hescape ⟨h.1, UInt8.le_trans h.2 (by decide)⟩, ?_⟩
      rw [if_pos hzero]
      exact ih _
    · refine ⟨fun h => hescape ⟨h.1, UInt8.le_trans h.2 (by decide)⟩, ?_⟩
      rw [if_neg hzero]
      exact ih _

theorem Guarded.not_low {zeros : Nat} {bytes : List UInt8} (h : Guarded zeros bytes) {p : Nat} {b : UInt8}
    (hfirst : bytes[p]? = some 0) (hsecond : bytes[p + 1]? = some 0) (hthird : bytes[p + 2]? = some b) : ¬b ≤ 2 := by
  induction p generalizing zeros bytes with
  | zero =>
    obtain ⟨bytes, rfl⟩ : ∃ rest, bytes = 0 :: 0 :: b :: rest := by
      match bytes, hfirst, hsecond, hthird with
      | x :: y :: z :: rest, hfirst, hsecond, hthird =>
        obtain rfl := Option.some.inj hfirst
        obtain rfl := Option.some.inj hsecond
        obtain rfl := Option.some.inj hthird
        exact ⟨rest, rfl⟩
    obtain ⟨-, -, hlow, -⟩ := h
    rw [if_pos rfl, if_pos rfl] at hlow
    exact fun hb => hlow ⟨by omega, hb⟩
  | succ p ih =>
    cases bytes with
    | nil => cases hfirst
    | cons x bytes => exact ih h.2 hfirst hsecond hthird

/-! ## Stripping -/

/-- The zeros that the loop of `stripEmulationPrevention` counts behind a byte string. -/
def zerosAfter : Nat → List UInt8 → Nat
  | zeros, [] => zeros
  | zeros, b :: ebsp =>
    if 2 ≤ zeros ∧ b = emulationPreventionByte then zerosAfter 0 ebsp
    else zerosAfter (if b = 0 then zeros + 1 else 0) ebsp

theorem stripFrom_append (zeros : Nat) (a b : List UInt8) :
    stripFrom zeros (a ++ b) = stripFrom zeros a ++ stripFrom (zerosAfter zeros a) b := by
  induction a generalizing zeros with
  | nil => rfl
  | cons x a ih =>
    rw [cons_append, stripFrom, stripFrom, zerosAfter]
    split_ifs
    · rw [ih]
    · rw [ih, cons_append]
    · rw [ih, cons_append]

theorem zerosAfter_append (zeros : Nat) (a b : List UInt8) :
    zerosAfter zeros (a ++ b) = zerosAfter (zerosAfter zeros a) b := by
  induction a generalizing zeros with
  | nil => rfl
  | cons x a ih =>
    rw [cons_append, zerosAfter, zerosAfter]
    split_ifs <;> rw [ih]

section Positions

variable {e : List UInt8} {k i : Nat} {b : UInt8}

/-- The zeros before a place. -/
def zerosAt (e : List UInt8) (k : Nat) : Nat := zerosAfter 0 (e.take k)

/-- The bytes before a place that are kept. -/
def keptBefore (e : List UInt8) (k : Nat) : Nat := (stripEmulationPrevention (e.take k)).length

def isEscape (e : List UInt8) (k : Nat) : Prop := 2 ≤ zerosAt e k ∧ e[k]? = some emulationPreventionByte

instance (e : List UInt8) (k : Nat) : Decidable (isEscape e k) := inferInstanceAs (Decidable (_ ∧ _))

theorem take_succ_of_getElem? (h : e[k]? = some b) : e.take (k + 1) = e.take k ++ [b] := by
  rw [take_add_one, h]
  rfl

theorem at_succ_of_isEscape (h : isEscape e k) : zerosAt e (k + 1) = 0 ∧ keptBefore e (k + 1) = keptBefore e k := by
  unfold zerosAt keptBefore stripEmulationPrevention
  rw [take_succ_of_getElem? h.2, zerosAfter_append, stripFrom_append, zerosAfter, stripFrom, if_pos ⟨h.1, rfl⟩,
    if_pos ⟨h.1, rfl⟩, zerosAfter, stripFrom, append_nil]
  exact ⟨rfl, rfl⟩

theorem at_succ_of_not_isEscape (hb : e[k]? = some b) (h : ¬isEscape e k) :
    zerosAt e (k + 1) = (if b = 0 then zerosAt e k + 1 else 0) ∧ keptBefore e (k + 1) = keptBefore e k + 1 := by
  have hkept : ¬(2 ≤ zerosAt e k ∧ b = emulationPreventionByte) := fun hescape => h ⟨hescape.1, hescape.2 ▸ hb⟩
  unfold zerosAt at hkept ⊢
  unfold keptBefore stripEmulationPrevention
  rw [take_succ_of_getElem? hb, zerosAfter_append, stripFrom_append, zerosAfter, stripFrom, if_neg hkept,
    if_neg hkept, zerosAfter, stripFrom, length_append]
  exact ⟨rfl, rfl⟩

theorem getElem?_keptBefore (hb : e[k]? = some b) (h : ¬isEscape e k) :
    (stripEmulationPrevention e)[keptBefore e k]? = some b := by
  have hkept : ¬(2 ≤ zerosAt e k ∧ b = emulationPreventionByte) := fun hescape => h ⟨hescape.1, hescape.2 ▸ hb⟩
  have hsplit : e = e.take k ++ b :: e.drop (k + 1) := by
    obtain ⟨hlt, rfl⟩ := List.getElem?_eq_some_iff.1 hb
    rw [← drop_eq_getElem_cons hlt, take_append_drop]
  have hstrip : stripEmulationPrevention e = stripEmulationPrevention (e.take k) ++
      b :: stripFrom (if b = 0 then zerosAt e k + 1 else 0) (e.drop (k + 1)) := by
    have hall := stripFrom_append 0 (e.take k) (b :: e.drop (k + 1))
    rw [← hsplit, stripFrom] at hall
    exact hall.trans (congrArg _ (if_neg hkept))
  rw [hstrip, keptBefore, List.getElem?_append_right (le_refl _), Nat.sub_self]
  rfl

theorem keptBefore_length : keptBefore e e.length = (stripEmulationPrevention e).length := by
  rw [keptBefore, take_length]

theorem keptBefore_succ_le (k : Nat) : keptBefore e k ≤ keptBefore e (k + 1) := by
  rcases hb : e[k]? with _ | b
  · have hend := List.getElem?_eq_none_iff.1 hb
    rw [keptBefore, keptBefore, take_of_length_le hend, take_of_length_le (by omega)]
  · by_cases h : isEscape e k
    · exact (at_succ_of_isEscape h).2.ge
    · rw [(at_succ_of_not_isEscape hb h).2]
      exact Nat.le_succ _

theorem keptBefore_mono (h : i ≤ k) : keptBefore e i ≤ keptBefore e k := monotone_nat_of_le_succ keptBefore_succ_le h

end Positions

end Glass2Glass.H264
