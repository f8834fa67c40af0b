import Glass2Glass.Rtp.Sequence
import Mathlib.Algebra.Order.Group.Int

/-!
# Counters past any number of wraps

`RtpTimestampExtender` (`g2g-core/src/rtp.rs`), and what both extenders recover. The sender counts with
integers and a packet carries the low bits of one. Where each counter stands within half a period of the
highest before it, the extender hands out the counters themselves.
-/

namespace Glass2Glass.Rtp

/-- The highest extended timestamp so far. -/
structure RtpTimestampExtender where
  highest : Option Nat

namespace RtpTimestampExtender

def new : RtpTimestampExtender := { highest := none }

def extend (e : RtpTimestampExtender) (timestamp : Nat) : Nat × RtpTimestampExtender :=
  let extended := extendWrapping e.highest timestamp 32
  let highest :=
    match e.highest with
    | none => extended
    | some high => if extended > high then extended else high
  (extended, { highest := some highest })

end RtpTimestampExtender

/-- What a packet carries of a counter. -/
def carried (bits : Nat) (x : Int) : Nat := (x % 2 ^ bits).toNat

/-- Each counter is within half a period of the highest before it. -/
def Near (bits : Nat) (high : Int) : List Int → Prop
  | [] => True
  | x :: xs => high - 2 ^ (bits - 1) ≤ x ∧ x ≤ high + 2 ^ (bits - 1) - 1 ∧ x < 2 ^ 64 ∧ Near bits (max high x) xs

/-- The counters of a run: the first stands in the second period. -/
def Counts (bits : Nat) : List Int → Prop
  | [] => True
  | x :: xs => 2 ^ bits ≤ x ∧ x < 2 ^ (bits + 1) ∧ Near bits x xs

/-- The highest up to each counter, from a highest one on. -/
def maximaFrom (high : Int) : List Int → List Int
  | [] => []
  | x :: xs => max high x :: maximaFrom (max high x) xs

/-- The highest of the counters up to each of them. -/
def runningMax : List Int → List Int
  | [] => []
  | x :: xs => x :: maximaFrom x xs

/-- The numbers handed out for the values of a run, each with the state after it. -/
def outputs {σ : Type} (extend : σ → Nat → Nat × σ) (e : σ) : List Nat → List (Nat × σ)
  | [] => []
  | value :: values => extend e value :: outputs extend (extend e value).2 values

/-- A step back from a highest number stays above zero. -/
def BackwardFits (bits high : Nat) : Prop :=
  ∀ value, 2 ^ bits - (value + 2 ^ 64 - high) % 2 ^ 64 % 2 ^ bits ≤ high

/-- The outputs of a run over the counters `xs`: the counters, the highest of them, and room below it. -/
structure Recovers (bits : Nat) (xs maxima : List Int) (out : List (Nat × Option Nat)) : Prop where
  extended : out.map (fun r => (r.1 : Int)) = xs
  highest : out.map (fun r => r.2.map Nat.cast) = maxima.map some
  backward : ∀ r ∈ out, ∀ high, r.2 = some high → BackwardFits bits high

/-- What both extenders do to their highest number. -/
structure Extends {σ : Type} (bits : Nat) (extend : σ → Nat → Nat × σ) (highest : σ → Option Nat) : Prop where
  number : ∀ e value, (extend e value).1 = extendWrapping (highest e) value bits
  first : ∀ e value, highest e = none → highest (extend e value).2 = some (extend e value).1
  raise : ∀ e value high, highest e = some high → highest (extend e value).2 = some (max high (extend e value).1)

section

variable {bits high : Nat} {x : Int} {xs maxima : List Int} {σ : Type} {extend : σ → Nat → Nat × σ}
  {highest : σ → Option Nat} {e : σ}

theorem extendWrapping_near (hbits : bits = 16 ∨ bits = 32) (hle : 2 ^ bits ≤ high) (hhigh : high < 2 ^ 64)
    (hlow : high - 2 ^ (bits - 1) ≤ x) (hupp : x ≤ high + 2 ^ (bits - 1) - 1) (hx : x < 2 ^ 64) :
    (extendWrapping (some high) (carried bits x) bits : Int) = x := by
  unfold extendWrapping carried
  obtain rfl | rfl := hbits
  all_goals
    simp only [Nat.reduceSub] at hlow hupp ⊢
    split_ifs <;> omega

theorem extendWrapping_first (hbits : bits = 16 ∨ bits = 32) (hlow : 2 ^ bits ≤ x) (hupp : x < 2 ^ (bits + 1)) :
    (extendWrapping none (carried bits x) bits : Int) = x := by
  unfold extendWrapping carried
  obtain rfl | rfl := hbits
  all_goals
    simp only [Nat.reduceAdd] at hupp ⊢
    omega

theorem Recovers.cons {n : Nat} {r : Option Nat} {m : Int} {out : List (Nat × Option Nat)}
    (h : Recovers bits xs maxima out) (hn : (n : Int) = x) (hr : r = some high) (hm : (high : Int) = m)
    (hle : 2 ^ bits ≤ high) : Recovers bits (x :: xs) (m :: maxima) ((n, r) :: out) where
  extended := by rw [List.map_cons, h.extended, hn]
  highest := by rw [List.map_cons, h.highest, hr, Option.map_some, List.map_cons, ← hm]
  backward := by
    intro s hs high' hhigh'
    rcases List.mem_cons.1 hs with rfl | hs
    · obtain rfl := Option.some.inj (hr.symm.trans hhigh')
      exact fun _ => (Nat.sub_le _ _).trans hle
    · exact h.backward s hs high' hhigh'

theorem Extends.recovers_near (h : Extends bits extend highest) (hbits : bits = 16 ∨ bits = 32)
    (hnear : Near bits high xs) (he : highest e = some high) (hle : 2 ^ bits ≤ high) (hlt : high < 2 ^ 64) :
    Recovers bits xs (maximaFrom high xs)
      ((outputs extend e (xs.map (carried bits))).map fun r => (r.1, highest r.2)) := by
  induction xs generalizing e high with
  | nil => exact ⟨rfl, rfl, nofun⟩
  | cons x xs ih =>
    obtain ⟨hlow, hupp, hx, hnear⟩ := hnear
    have hext : ((extend e (carried bits x)).1 : Int) = x := by
      rw [h.number, he]
      exact extendWrapping_near hbits hle hlt hlow hupp hx
    have hmax : ((max high (extend e (carried bits x)).1 : Nat) : Int) = max (high : Int) x := by omega
    have hnext := h.raise e (carried bits x) high he
    have hroom := hle.trans (le_max_left high (extend e (carried bits x)).1)
    rw [← hmax] at hnear
    rw [maximaFrom, ← hmax]
    exact (ih hnear hnext hroom (by omega)).cons hext hnext rfl hroom

theorem Extends.recovers (h : Extends bits extend highest) (hbits : bits = 16 ∨ bits = 32) (hnone : highest e = none)
    (hxs : Counts bits xs) :
    Recovers bits xs (runningMax xs) ((outputs extend e (xs.map (carried bits))).map fun r => (r.1, highest r.2)) := by
  cases xs with
  | nil => exact ⟨rfl, rfl, nofun⟩
  | cons x xs =>
    obtain ⟨hlow, hupp, hnear⟩ := hxs
    have hext : ((extend e (carried bits x)).1 : Int) = x := by
      rw [h.number, hnone]
      exact extendWrapping_first hbits hlow hupp
    have hfirst := h.first e (carried bits x) hnone
    have hle : 2 ^ bits ≤ (extend e (carried bits x)).1 := by exact_mod_cast hext ▸ hlow
    have hlt : (extend e (carried bits x)).1 < 2 ^ 64 := by
      obtain rfl | rfl := hbits <;> omega
    rw [← hext] at hnear
    have hrest := h.recovers_near hbits hnear hfirst hle hlt
    rw [hext] at hrest
    exact hrest.cons hext hfirst hext hle

end

theorem RtpSequenceExtender.extends : Extends 16 RtpSequenceExtender.extend RtpSequenceExtender.highest where
  number _ _ := rfl
  first e value h := by simp [extend, h]
  raise e value high h := by
    unfold extend
    rw [h]
    dsimp only
    split_ifs with hgt
    · rw [max_eq_right (Nat.le_of_lt hgt)]
    · rw [max_eq_left (Nat.le_of_not_lt hgt)]

theorem RtpTimestampExtender.extends : Extends 32 RtpTimestampExtender.extend RtpTimestampExtender.highest where
  number _ _ := rfl
  first e value h := by simp [extend, h]
  raise e value high h := by
    unfold extend
    rw [h]
    dsimp only
    split_ifs with hgt
    · rw [max_eq_right (Nat.le_of_lt hgt)]
    · rw [max_eq_left (Nat.le_of_not_lt hgt)]

/-- Both extenders hand out the counters of a run, for any number of wraps and any order within half a period. -/
theorem counters_extended (xs : List Int) : (Counts 16 xs → Recovers 16 xs (runningMax xs)
      ((outputs RtpSequenceExtender.extend .new (xs.map (carried 16))).map fun r => (r.1, r.2.highest))) ∧
    (Counts 32 xs → Recovers 32 xs (runningMax xs)
      ((outputs RtpTimestampExtender.extend .new (xs.map (carried 32))).map fun r => (r.1, r.2.highest))) :=
  ⟨RtpSequenceExtender.extends.recovers (.inl rfl) rfl, RtpTimestampExtender.extends.recovers (.inr rfl) rfl⟩

/-- A run of sequence numbers and one of timestamps over a wrap, with a counter below the first. -/
theorem counters_extended_wrap : Recovers 16 [131071, 131080, 98313] [131071, 131080, 131080]
      [(131071, some 131071), (131080, some 131080), (98313, some 131080)] ∧
    Recovers 32 [8589934591, 8589934592] [8589934591, 8589934592]
      [(8589934591, some 8589934591), (8589934592, some 8589934592)] :=
  ⟨(counters_extended [131071, 131080, 98313]).1 (by simp [Counts, Near]),
    (counters_extended [8589934591, 8589934592]).2 (by simp [Counts, Near])⟩

end Glass2Glass.Rtp
