import Mathlib.Algebra.Group.Nat.Defs
import Mathlib.Tactic.Common

/-!
# Sequence numbers on a circle

The 31-bit sequence numbers of SRT and their comparisons across the wrap (`g2g-plugins/src/srt.rs`). All that is
said about positions on the circle is said by distances from one of them.
-/

namespace Glass2Glass.Srt

/-- How far `a` is past `b`. -/
def seqDistance (a b : Nat) : Nat := (a + 2 ^ 32 - b) % 2 ^ 32 % 2 ^ 31

/-- `a` is past `b`, by less than half of the circle. -/
def seqGt (a b : Nat) : Bool := seqDistance a b ≠ 0 && seqDistance a b < 2 ^ 30

def seqGe (a b : Nat) : Bool := a == b || seqGt a b

/-- The sequence number after another one. -/
def seqNext (a : Nat) : Nat := (a + 1) % 2 ^ 31

/-- The sequence number before another one. -/
def seqPrev (a : Nat) : Nat := (a + 2 ^ 32 - 1) % 2 ^ 32 % 2 ^ 31

variable {a b c k n : Nat}

theorem seqDistance_lt (a b : Nat) : seqDistance a b < 2 ^ 31 := Nat.mod_lt _ (by decide)

theorem seqNext_lt (a : Nat) : seqNext a < 2 ^ 31 := Nat.mod_lt _ (by decide)

theorem seqPrev_lt (a : Nat) : seqPrev a < 2 ^ 31 := Nat.mod_lt _ (by decide)

@[simp] theorem seqDistance_self (a : Nat) : seqDistance a a = 0 := by
  unfold seqDistance
  omega

theorem seqDistance_eq_zero (ha : a < 2 ^ 31) (hb : b < 2 ^ 31) : seqDistance a b = 0 ↔ a = b := by
  unfold seqDistance
  omega

theorem add_seqDistance (ha : a < 2 ^ 31) (hb : b < 2 ^ 31) : (b + seqDistance a b) % 2 ^ 31 = a := by
  unfold seqDistance
  omega

theorem eq_of_seqDistance_eq (ha : a < 2 ^ 31) (hb : b < 2 ^ 31) (hc : c < 2 ^ 31)
    (h : seqDistance a c = seqDistance b c) : a = b := by
  unfold seqDistance at h
  omega

theorem seqDistance_add (hb : b < 2 ^ 31) (hk : k < 2 ^ 31) : seqDistance ((b + k) % 2 ^ 31) b = k := by
  unfold seqDistance
  omega

theorem seqDistance_sub (ha : a < 2 ^ 31) (hb : b < 2 ^ 31) (hc : c < 2 ^ 31)
    (h : seqDistance b c ≤ seqDistance a c) : seqDistance a b = seqDistance a c - seqDistance b c := by
  unfold seqDistance at h ⊢
  omega

theorem seqDistance_wrap (ha : a < 2 ^ 31) (hb : b < 2 ^ 31) (hc : c < 2 ^ 31) (h : seqDistance a c < seqDistance b c) :
    seqDistance a b = 2 ^ 31 - (seqDistance b c - seqDistance a c) := by
  unfold seqDistance at h ⊢
  omega

theorem seqDistance_eq (ha : a < 2 ^ 31) (hb : b < 2 ^ 31) (hc : c < 2 ^ 31) :
    seqDistance a b = if seqDistance b c ≤ seqDistance a c then seqDistance a c - seqDistance b c
      else 2 ^ 31 - (seqDistance b c - seqDistance a c) := by
  split_ifs with h
  · exact seqDistance_sub ha hb hc h
  · exact seqDistance_wrap ha hb hc (Nat.lt_of_not_le h)

theorem seqDistance_seqPrev (ha : a < 2 ^ 31) (hb : b < 2 ^ 31) (h : 0 < seqDistance a b) :
    seqDistance (seqPrev a) b = seqDistance a b - 1 := by
  unfold seqDistance seqPrev at *
  omega

theorem seqDistance_seqNext (ha : a < 2 ^ 31) (hb : b < 2 ^ 31) (h : seqDistance a b + 1 < 2 ^ 31) :
    seqDistance (seqNext a) b = seqDistance a b + 1 := by
  unfold seqDistance seqNext at *
  omega

theorem seqNext_seqPrev (ha : a < 2 ^ 31) : seqNext (seqPrev a) = a := by
  unfold seqNext seqPrev
  omega

theorem seqGt_iff : seqGt a b = true ↔ 0 < seqDistance a b ∧ seqDistance a b < 2 ^ 30 := by
  unfold seqGt
  rw [Bool.and_eq_true, decide_eq_true_iff, decide_eq_true_iff, Nat.pos_iff_ne_zero]

theorem seqGe_iff (ha : a < 2 ^ 31) (hb : b < 2 ^ 31) : seqGe a b = true ↔ seqDistance a b < 2 ^ 30 := by
  unfold seqGe
  rw [Bool.or_eq_true, beq_iff_eq, seqGt_iff, ← seqDistance_eq_zero ha hb]
  omega

theorem seqDistance_between {m p : Nat} (ha : a < 2 ^ 31) (hn : n < 2 ^ 31) (hm : m < 2 ^ 31) (hp : p < 2 ^ 31)
    (hnear : seqDistance p n < 2 ^ 30) (hpast : seqGt a m = true) (hpassed : seqGt p a = true)
    (hend : seqDistance (seqNext m) n ≤ seqDistance p n) :
    seqDistance (seqNext m) n ≤ seqDistance a n ∧ seqDistance a n < seqDistance p n := by
  have hone : seqDistance (seqNext m) m = 1 := by
    rw [seqDistance_seqNext hm hm (by rw [seqDistance_self]; decide), seqDistance_self]
  have hlt := seqDistance_lt n m
  have hplt := seqDistance_lt p m
  rw [seqGt_iff] at hpast hpassed
  rw [seqDistance_eq hp ha hm] at hpassed
  rw [seqDistance_eq (seqNext_lt m) hn hm, hone] at hend ⊢
  rw [seqDistance_eq hp hn hm] at hnear hend ⊢
  rw [seqDistance_eq ha hn hm]
  split_ifs at hpassed hnear hend ⊢ <;> omega

end Glass2Glass.Srt
