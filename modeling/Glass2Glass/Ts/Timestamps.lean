import Glass2Glass.Lib.Cyclic
import Mathlib.Data.List.Chain

/-!
# Timestamps past the wrap

`extend_timestamp` and `TsDemuxer::extend_pes_timestamps` of `g2g-plugins/src/mpegts.rs`: the 33 bits of a timestamp are
placed in the cycle where they are near the last timestamp of their stream. What comes out of the demuxer for one PID is
what comes out of this PID's units alone (`extendAll_pid`).
-/

namespace Glass2Glass.Ts

open List

def pesTimestampCycle90khz : Nat := 2 ^ 33
def pesTimestampWrapTolerance90khz : Nat := 60 * 60 * 90000

/-- Within an hour. -/
def Near (a b : Nat) : Prop := a ≤ b + pesTimestampWrapTolerance90khz ∧ b ≤ a + pesTimestampWrapTolerance90khz

instance (a b : Nat) : Decidable (Near a b) := inferInstanceAs (Decidable (_ ∧ _))

def checkedAdd (a b : Nat) : Option Nat := if a + b < 2 ^ 64 then some (a + b) else none

def checkedSub (a b : Nat) : Option Nat := if b ≤ a then some (a - b) else none

/-- The value that is near the reference in its cycle, the next or the one before. If none is, the raw one. -/
def extendTimestamp (raw reference : Nat) : Nat :=
  let cycleStart := reference - reference % pesTimestampCycle90khz
  match checkedAdd cycleStart raw with
  | none => raw
  | some sameCycle =>
    let oneWrapAhead := checkedAdd sameCycle pesTimestampCycle90khz
    let oneWrapBehind := checkedSub sameCycle pesTimestampCycle90khz
    (([some sameCycle, oneWrapAhead, oneWrapBehind].filterMap id).find? fun candidate =>
      decide (Near candidate reference)).getD raw

abbrev LastTimestamps := List (Nat × Nat)

def LastTimestamps.of (last : LastTimestamps) (pid : Nat) : Option Nat := (last.find? fun known => known.1 == pid).map Prod.snd

def LastTimestamps.set (last : LastTimestamps) (pid latest : Nat) : LastTimestamps :=
  match last.findIdx? fun known => known.1 == pid with
  | some index => last.modify index fun known => (known.1, latest)
  | none => last ++ [(pid, latest)]

def extendPesTimestamps (last : LastTimestamps) (pid : Nat) (pts dts : Option Nat) :
    LastTimestamps × Option Nat × Option Nat :=
  let extend := fun raw =>
    match last.of pid with
    | none => raw
    | some reference => extendTimestamp raw reference
  let pts := pts.map extend
  let dts := dts.map extend
  match dts.or pts with
  | none => (last, pts, dts)
  | some latest => (last.set pid latest, pts, dts)

/-! ## One timestamp -/

section One

variable {raw reference w : Nat}

theorem Near.unique {a b : Nat} (ha : Near a reference) (hb : Near b reference)
    (h : a % pesTimestampCycle90khz = b % pesTimestampCycle90khz) : a = b := by
  unfold Near pesTimestampWrapTolerance90khz at ha hb
  have hcycle : pesTimestampCycle90khz = 2 ^ 33 := rfl
  exact Cyclic.eq_of_mod_eq (c := reference - 60 * 60 * 90000) (by omega) (by omega) (by omega) (by omega) h

theorem near_cases (hraw : raw < pesTimestampCycle90khz) (hw : w % pesTimestampCycle90khz = raw) (hnear : Near w reference) :
    w = reference - reference % pesTimestampCycle90khz + raw ∨
      w = reference - reference % pesTimestampCycle90khz + raw + pesTimestampCycle90khz ∨
      w + pesTimestampCycle90khz = reference - reference % pesTimestampCycle90khz + raw := by
  unfold Near pesTimestampWrapTolerance90khz at hnear
  unfold pesTimestampCycle90khz at *
  omega

theorem sameCycle_lt (hraw : raw < pesTimestampCycle90khz) (hreference : reference < 2 ^ 64) :
    reference - reference % pesTimestampCycle90khz + raw < 2 ^ 64 := by
  unfold pesTimestampCycle90khz at *
  omega

theorem mem_candidates {same x : Nat} :
    x ∈ ([some same, checkedAdd same pesTimestampCycle90khz, checkedSub same pesTimestampCycle90khz].filterMap id) ↔
      x = same ∨ (x = same + pesTimestampCycle90khz ∧ x < 2 ^ 64) ∨ x + pesTimestampCycle90khz = same := by
  have hahead : checkedAdd same pesTimestampCycle90khz = some x ↔ x = same + pesTimestampCycle90khz ∧ x < 2 ^ 64 := by
    unfold checkedAdd
    split_ifs with h
    · rw [Option.some.injEq]
      omega
    · exact iff_of_false id (by omega)
  have hbehind : checkedSub same pesTimestampCycle90khz = some x ↔ x + pesTimestampCycle90khz = same := by
    unfold checkedSub
    split_ifs with h
    · rw [Option.some.injEq]
      omega
    · exact iff_of_false id (by omega)
  rw [mem_filterMap]
  simp only [mem_cons, not_mem_nil, or_false, id_eq, exists_eq_right]
  rw [eq_comm (b := checkedAdd same pesTimestampCycle90khz), eq_comm (b := checkedSub same pesTimestampCycle90khz),
    hahead, hbehind, Option.some.injEq]

theorem extendTimestamp_near (hw64 : w < 2 ^ 64) (hreference : reference < 2 ^ 64) (hnear : Near w reference) :
    extendTimestamp (w % pesTimestampCycle90khz) reference = w := by
  have hraw : w % pesTimestampCycle90khz < pesTimestampCycle90khz := Nat.mod_lt _ (by decide)
  have hsame := sameCycle_lt hraw hreference
  unfold extendTimestamp
  dsimp only
  rw [checkedAdd, if_pos hsame]
  dsimp only
  generalize hcandidates : ([some (reference - reference % pesTimestampCycle90khz + w % pesTimestampCycle90khz), _, _] :
    List (Option Nat)).filterMap id = candidates
  have hmem : w ∈ candidates := by
    rw [← hcandidates, mem_candidates]
    rcases near_cases hraw rfl hnear with h | h | h
    · exact Or.inl h
    · exact Or.inr (Or.inl ⟨h, hw64⟩)
    · exact Or.inr (Or.inr h)
  cases hfind : candidates.find? fun candidate => decide (Near candidate reference) with
  | none => exact absurd (decide_eq_true hnear) (List.find?_eq_none.1 hfind w hmem)
  | some x =>
    have hx : Near x reference := by simpa using List.find?_some hfind
    have hxmem := List.mem_of_find?_eq_some hfind
    rw [← hcandidates, mem_candidates] at hxmem
    rw [Option.getD_some]
    refine Near.unique hx hnear ?_
    unfold pesTimestampCycle90khz at *
    omega

theorem extendTimestamp_far (hraw : raw < pesTimestampCycle90khz)
    (hfar : ∀ w < 2 ^ 64, w % pesTimestampCycle90khz = raw → ¬ Near w reference) : extendTimestamp raw reference = raw := by
  unfold extendTimestamp
  dsimp only
  cases hsame : checkedAdd (reference - reference % pesTimestampCycle90khz) raw with
  | none => rfl
  | some same =>
    dsimp only
    unfold checkedAdd at hsame
    split_ifs at hsame with hlt
    obtain rfl := Option.some.inj hsame
    rw [List.find?_eq_none.2 fun x hx => ?_, Option.getD_none]
    rw [mem_candidates] at hx
    rw [decide_eq_true_iff]
    unfold pesTimestampCycle90khz at *
    exact hfar x (by omega) (by omega)

end One

/-! ## The table -/

namespace LastTimestamps

variable {last : LastTimestamps} {pid other latest : Nat}

theorem of_cons (known : Nat × Nat) (last : LastTimestamps) (pid : Nat) :
    of (known :: last) pid = if known.1 = pid then some known.2 else of last pid := by
  unfold of
  rw [List.find?_cons]
  by_cases h : known.1 = pid
  · rw [if_pos h, beq_iff_eq.2 h, Option.map_some]
  · rw [if_neg h, beq_eq_false_iff_ne.2 h]

theorem set_cons (known : Nat × Nat) (last : LastTimestamps) (pid latest : Nat) :
    set (known :: last) pid latest = if known.1 = pid then (known.1, latest) :: last else known :: set last pid latest := by
  unfold set
  rw [List.findIdx?_cons]
  by_cases h : known.1 = pid
  · rw [if_pos (beq_iff_eq.2 h), if_pos h]
    rfl
  · rw [if_neg (fun heq => h (beq_iff_eq.1 heq)), if_neg h]
    cases last.findIdx? fun known => known.1 == pid <;> rfl

theorem of_set (last : LastTimestamps) (pid latest other : Nat) :
    (last.set pid latest).of other = if other = pid then some latest else last.of other := by
  induction last with
  | nil =>
    change of [(pid, latest)] other = _
    rw [of_cons]
    simp only [eq_comm]
  | cons known last ih =>
    rw [set_cons]
    by_cases h : known.1 = pid
    · rw [if_pos h, of_cons, of_cons, h]
      by_cases heq : other = pid
      · rw [if_pos heq.symm, if_pos heq]
      · rw [if_neg (Ne.symm heq), if_neg heq, if_neg (Ne.symm heq)]
    · rw [if_neg h, of_cons, of_cons, ih]
      by_cases heq : other = pid
      · rw [if_neg (heq ▸ h), if_pos heq, if_pos heq]
      · rw [if_neg heq, if_neg heq]

end LastTimestamps

/-! ## Units -/

/-- A unit with its true timestamps. -/
structure PesUnit where
  pid : Nat
  pts : Nat
  dts : Option Nat

namespace PesUnit

/-- The timestamp that the next unit is held against. -/
def reference (u : PesUnit) : Nat := u.dts.getD u.pts

def stamps (u : PesUnit) : List Nat := u.pts :: u.dts.toList

/-- The 33 bits of the timestamps. -/
def raw (u : PesUnit) : Option Nat × Option Nat :=
  (some (u.pts % pesTimestampCycle90khz), u.dts.map (· % pesTimestampCycle90khz))

theorem reference_mem (u : PesUnit) : u.reference ∈ u.stamps := by
  unfold reference stamps
  cases u.dts with
  | none => exact mem_cons_self
  | some d => exact mem_cons_of_mem _ mem_cons_self

end PesUnit

/-- The demuxer over units, whose timestamps it gets by their 33 bits. -/
def extendAll (last : LastTimestamps) : List PesUnit → List (Option Nat × Option Nat)
  | [] => []
  | u :: us =>
    let result := extendPesTimestamps last u.pid u.raw.1 u.raw.2
    result.2 :: extendAll result.1 us

/-- The timestamp of a unit, held against the last one of its PID. -/
def extendOne (reference : Option Nat) (t : Nat) : Nat :=
  match reference with
  | none => t % pesTimestampCycle90khz
  | some reference => extendTimestamp (t % pesTimestampCycle90khz) reference

/-- The units of one PID alone. -/
def extendStream (reference : Option Nat) : List PesUnit → List (Option Nat × Option Nat)
  | [] => []
  | u :: us => (some (extendOne reference u.pts), u.dts.map (extendOne reference)) ::
      extendStream (some (extendOne reference u.reference)) us

theorem extendPesTimestamps_raw (last : LastTimestamps) (u : PesUnit) : extendPesTimestamps last u.pid u.raw.1 u.raw.2 =
      (last.set u.pid (extendOne (last.of u.pid) u.reference),
        some (extendOne (last.of u.pid) u.pts), u.dts.map (extendOne (last.of u.pid))) := by
  unfold extendPesTimestamps PesUnit.raw PesUnit.reference
  cases last.of u.pid <;> cases u.dts <;> rfl

theorem extendAll_pid (last : LastTimestamps) (units : List PesUnit) (pid : Nat) :
    ((units.zip (extendAll last units)).filter fun pair => pair.1.pid = pid) =
      (units.filter fun u => u.pid = pid).zip (extendStream (last.of pid) (units.filter fun u => u.pid = pid)) := by
  induction units generalizing last with
  | nil => rfl
  | cons u us ih =>
    rw [extendAll, extendPesTimestamps_raw]
    rw [zip_cons_cons, filter_cons, filter_cons]
    by_cases hpid : u.pid = pid
    · rw [if_pos (decide_eq_true hpid), if_pos (decide_eq_true hpid), ih, LastTimestamps.of_set, if_pos hpid.symm, hpid]
      rfl
    · rw [if_neg (fun h => hpid (of_decide_eq_true h)), if_neg (fun h => hpid (of_decide_eq_true h)), ih,
        LastTimestamps.of_set, if_neg (Ne.symm hpid)]

end Glass2Glass.Ts
