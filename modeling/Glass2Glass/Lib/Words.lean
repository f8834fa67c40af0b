import Glass2Glass.Lib.Codec
import Mathlib.Data.Nat.Bitwise

/-!
# Words, their bytes and their bits

Big-endian words in byte strings, the parts of a byte string that is put together from others, and words as
sets of bits.
-/

namespace Words

open List

open Codec (leBytes leNat)

/-! ## Big-endian words -/

/-- The `width` lowest base-256 digits of a number, highest first. -/
def beBytes (width v : Nat) : List UInt8 := (leBytes width v).reverse

variable (bs : List UInt8)

/-- The number with the given base-256 digits, highest first. -/
def beNat : Nat := leNat bs.reverse

@[simp] theorem length_beBytes (width v : Nat) : (beBytes width v).length = width := by
  rw [beBytes, length_reverse, Codec.length_leBytes]

theorem beNat_beBytes {width v : Nat} (h : v < 256 ^ width) : beNat (beBytes width v) = v := by
  rw [beNat, beBytes, reverse_reverse, Codec.leNat_leBytes width v h]

theorem beBytes_beNat {width : Nat} {bs : List UInt8} (h : bs.length = width) : beBytes width (beNat bs) = bs := by
  have hlength : bs.reverse.length = width := by rw [length_reverse, h]
  rw [beBytes, beNat, ← hlength, Codec.leBytes_leNat, reverse_reverse]

theorem beNat_lt {width : Nat} {bs : List UInt8} (h : bs.length = width) : beNat bs < 256 ^ width := by
  have hlt := Codec.leNat_lt bs.reverse
  rwa [length_reverse, h] at hlt

theorem leNat_append (as bs : List UInt8) : leNat (as ++ bs) = leNat as + 256 ^ as.length * leNat bs := by
  induction as with
  | nil => simp [leNat]
  | cons a as ih =>
    rw [cons_append, leNat, leNat, ih, length_cons, pow_succ]
    ring

theorem beNat_cons (b : UInt8) (bs : List UInt8) : beNat (b :: bs) = b.toNat * 256 ^ bs.length + beNat bs := by
  rw [beNat, reverse_cons, leNat_append, length_reverse, leNat, leNat, beNat]
  ring

theorem foldl_shift (init : Nat) :
    bs.foldl (fun v b => (v <<< 8) ||| b.toNat) init = init * 256 ^ bs.length + beNat bs := by
  induction bs generalizing init with
  | nil => simp [beNat, leNat]
  | cons b bs ih =>
    have hor : (init <<< 8) ||| b.toNat = init * 256 + b.toNat := by
      rw [← Nat.shiftLeft_add_eq_or_of_lt b.toNat_lt, Nat.shiftLeft_eq]
    rw [foldl_cons, ih, hor, beNat_cons, length_cons, pow_succ]
    ring

theorem beBytes_succ (width v : Nat) : beBytes (width + 1) v = UInt8.ofNat (v / 256 ^ width) :: beBytes width v := by
  have hlast : ∀ v, leBytes (width + 1) v = leBytes width v ++ [UInt8.ofNat (v / 256 ^ width)] := by
    induction width with
    | zero =>
      intro v
      rw [pow_zero, Nat.div_one]
      rfl
    | succ width ih =>
      intro v
      rw [leBytes, ih, leBytes, Nat.div_div_eq_div_mul, pow_succ, Nat.mul_comm]
      rfl
  rw [beBytes, hlast, reverse_append]
  rfl

theorem beNat_beBytes_mod (width v : Nat) : beNat (beBytes width v) = v % 256 ^ width := by
  induction width with
  | zero => rw [pow_zero, Nat.mod_one]; rfl
  | succ width ih =>
    have hpow : 256 ^ (width + 1) = 256 ^ width * 256 := pow_succ 256 width
    rw [beBytes_succ, beNat_cons, ih, length_beBytes, UInt8.toNat_ofNat', hpow, Nat.mod_mul, Nat.add_comm, Nat.mul_comm]

theorem beBytes_add (m n v : Nat) : beBytes (m + n) v = beBytes m (v / 256 ^ n) ++ beBytes n v := by
  induction m with
  | zero => rw [Nat.zero_add]; rfl
  | succ m ih =>
    rw [Nat.add_right_comm, beBytes_succ, beBytes_succ, ih, cons_append, Nat.div_div_eq_div_mul, ← Nat.pow_add,
      Nat.add_comm n m]

theorem drop_beBytes (n width v : Nat) : (beBytes (n + width) v).drop n = beBytes width v := by
  induction n with
  | zero => rw [Nat.zero_add, drop_zero]
  | succ n ih => rw [Nat.succ_add, beBytes_succ, drop_succ_cons, ih]

/-! ## Parts of a byte string -/

/-- `count` bytes from `start` on, or as many as there are. -/
def slice (start count : Nat) : List UInt8 := (bs.drop start).take count

/-- The byte at a place, zero past the end. -/
def byteAt (i : Nat) : UInt8 := bs.getD i 0

variable {a b : List UInt8} {start count i : Nat}

theorem slice_append_right (h : a.length ≤ start) : slice (a ++ b) start count = slice b (start - a.length) count := by
  unfold slice
  rw [drop_append, drop_of_length_le h, nil_append]

@[simp] theorem slice_succ_cons (x : UInt8) : slice (x :: b) (start + 1) count = slice b start count := rfl

theorem drop_append_right (h : a.length ≤ start) : (a ++ b).drop start = b.drop (start - a.length) := by
  rw [drop_append, drop_of_length_le h, nil_append]

theorem slice_append_left (h : a.length = count) : slice (a ++ b) 0 count = a := by
  unfold slice
  rw [drop_zero, take_left' h]

theorem slice_append_of_le (h : start + count ≤ a.length) : slice (a ++ b) start count = slice a start count := by
  unfold slice
  rw [drop_append_of_le_length (by omega), take_append_of_le_length (by rw [length_drop]; omega)]

theorem slice_after {c : List UInt8} (ha : a.length = start) (hb : b.length = count) :
    slice (a ++ (b ++ c)) start count = b := by
  rw [slice_append_right ha.le, ha, Nat.sub_self, slice_append_left hb]

theorem slice_drop (n : Nat) : slice (a.drop n) start count = slice a (n + start) count := by
  unfold slice
  rw [drop_drop]

theorem byteAt_append_right (h : a.length ≤ i) : byteAt (a ++ b) i = byteAt b (i - a.length) := by
  unfold byteAt
  rw [getD_append_right a b 0 i h]

/-! ## Bits -/

theorem forall_byte {P : UInt8 → Prop} (h : ∀ n < 256, P (UInt8.ofNat n)) (b : UInt8) : P b := by
  have hb := h b.toNat b.toNat_lt
  rwa [UInt8.ofNat_toNat] at hb

theorem xor_and_distrib (a b m : UInt8) : (a ^^^ b) &&& m = (a &&& m) ^^^ (b &&& m) := by
  refine UInt8.toNat_inj.1 ?_
  rw [UInt8.toNat_and, UInt8.toNat_xor, UInt8.toNat_xor, UInt8.toNat_and, UInt8.toNat_and, Nat.and_xor_distrib_right]

theorem or_and_distrib (a b m : UInt8) : (a ||| b) &&& m = (a &&& m) ||| (b &&& m) := by
  refine UInt8.toNat_inj.1 ?_
  rw [UInt8.toNat_and, UInt8.toNat_or, UInt8.toNat_or, UInt8.toNat_and, UInt8.toNat_and, Nat.and_or_distrib_right]

def hasBit (m i : Nat) : Bool := decide (m &&& 1 <<< i ≠ 0)

/-- A word with some bits set. -/
def setBits (m : Nat) (bits : List Nat) : Nat := bits.foldl (fun m i => m ||| 1 <<< i) m

theorem hasBit_eq (m i : Nat) : hasBit m i = m.testBit i := by
  unfold hasBit
  rw [Nat.one_shiftLeft, Nat.and_two_pow]
  cases m.testBit i <;> simp

theorem testBit_setBits (m j : Nat) (bits : List Nat) :
    (setBits m bits).testBit j = (m.testBit j || decide (j ∈ bits)) := by
  unfold setBits
  induction bits generalizing m with
  | nil => simp
  | cons i bits ih =>
    rw [foldl_cons, ih, Nat.testBit_or, Nat.one_shiftLeft, Nat.testBit_two_pow, Bool.or_assoc]
    congr 1
    rw [← Bool.decide_or]
    exact decide_eq_decide.2 (by rw [mem_cons, eq_comm])

theorem setBits_lt {m w : Nat} {bits : List Nat} (hm : m < 2 ^ w) (hbits : ∀ i ∈ bits, i < w) :
    setBits m bits < 2 ^ w := by
  induction bits generalizing m with
  | nil => exact hm
  | cons i bits ih =>
    refine ih (Nat.or_lt_two_pow hm ?_) fun j hj => hbits j (mem_cons_of_mem _ hj)
    rw [Nat.one_shiftLeft]
    exact Nat.pow_lt_pow_right (by decide) (hbits i mem_cons_self)

end Words
