import Glass2Glass.Lib.Words

/-!
# The integers of MoQ Transport

Draft 16 writes integers as QUIC varints, where the two highest bits of the first byte give the length, draft 18 as
`vi64`, where its leading ones do (`g2g-plugins/src/moqt/coding.rs` and `v18/coding.rs`). A number that fits is
read back in either flavour (`decodes_varint`).
-/

namespace Glass2Glass.Moqt

open Codec Words

/-- Why a decode did not produce a message. -/
inductive MoqtError where
  | incomplete
  | malformed
  deriving DecidableEq

/-- A cursor over bytes of the wire. -/
abbrev Reader (α : Type) := Codec.Reader MoqtError α

/-- The flavour of the integers. -/
inductive VarintKind where
  | quic
  | vi64

/-- The largest QUIC varint. -/
def varintMax : Nat := 2 ^ 62 - 1

/-! ## Writing -/

/-- A QUIC varint. Numbers that are too large are cut to the largest one. -/
def putVarint (v : Nat) : List UInt8 :=
  let v := min v varintMax
  if v < 2 ^ 6 then [UInt8.ofNat v]
  else if v < 2 ^ 14 then beBytes 2 (v ||| 0x4000)
  else if v < 2 ^ 30 then beBytes 4 (v ||| 0x80000000)
  else beBytes 8 (v ||| 0xC000000000000000)

/-- The number of bytes of a `vi64`: the first eight lengths carry seven bits for each byte. -/
def vi64Len (v : Nat) : Nat := ((List.range' 1 8).find? fun l => v < 1 <<< (7 * l)).getD 9

/-- A `vi64`, in as few bytes as hold it. -/
def putVi64 (v : Nat) : List UInt8 :=
  let len := vi64Len v
  if len = 9 then 0xFF :: beBytes 8 v
  else
    let ones := UInt8.ofNat ((((1 <<< (len - 1)) - 1) <<< (9 - len)) &&& 0xFF)
    (ones ||| UInt8.ofNat (v >>> (8 * (len - 1)))) :: (beBytes 8 v).drop (9 - len)

def putInt : VarintKind → Nat → List UInt8
  | .quic => putVarint
  | .vi64 => putVi64

/-- The numbers that a flavour carries. -/
def intMax : VarintKind → Nat
  | .quic => varintMax
  | .vi64 => 2 ^ 64 - 1

/-! ## Reading -/

def bytes (n : Nat) : Reader (List UInt8) := take .incomplete n

/-- The next byte, which is not taken. -/
def peek : Reader UInt8
  | [] => .error .incomplete
  | b :: rest => .ok (b, b :: rest)

def leadingOnes (b : UInt8) : Nat := ((List.range 8).takeWhile fun i => b.toNat.testBit (7 - i)).length

/-- The length that the first byte of an integer announces. -/
def intLen : VarintKind → UInt8 → Nat
  | .quic, first => 1 <<< (first >>> 6).toNat
  | .vi64, first => leadingOnes first + 1

/-- The bits of the number in the first byte. -/
def firstBits (kind : VarintKind) (first : UInt8) (len : Nat) : Nat :=
  match kind with
  | .quic => (first &&& 0x3F).toNat
  | .vi64 => if len ≥ 8 then 0 else first.toNat &&& (0xFF >>> len)

def varint (kind : VarintKind) : Reader Nat := do
  let first ← peek
  let raw ← bytes (intLen kind first)
  return raw.tail.foldl (fun v b => (v <<< 8) ||| b.toNat) (firstBits kind (raw.headD 0) raw.length)

theorem length_putInt (kind : VarintKind) (v : Nat) : 0 < (putInt kind v).length ∧ (putInt kind v).length ≤ 9 := by
  cases kind with
  | quic =>
    show 0 < (putVarint v).length ∧ (putVarint v).length ≤ 9
    unfold putVarint
    dsimp only
    split_ifs <;> simp
  | vi64 =>
    show 0 < (putVi64 v).length ∧ (putVi64 v).length ≤ 9
    unfold putVi64
    dsimp only
    split_ifs
    · simp only [List.length_cons, length_beBytes]
      omega
    · simp only [List.length_cons, List.length_drop, length_beBytes]
      omega

/-! ## The round trip -/

theorem varint_cons {kind : VarintKind} {first : UInt8} {tail rest : List UInt8}
    (hlen : intLen kind first = tail.length + 1) : varint kind (first :: tail ++ rest) =
      .ok (firstBits kind first (tail.length + 1) * 256 ^ tail.length + beNat tail, rest) := by
  have hbytes : bytes (intLen kind first) (first :: tail ++ rest) = .ok (first :: tail, rest) := by
    rw [hlen]
    exact Decodes.take MoqtError.incomplete (first :: tail) rest
  show (bytes (intLen kind first) (first :: tail ++ rest) >>= fun p => _) = _
  rw [hbytes, ← foldl_shift]
  rfl

theorem decodes_quic {code width v : Nat} (hcode : code < 4) (hwidth : 2 ^ code = width + 1)
    (hv : v < 64 * 256 ^ width) : Decodes (varint .quic) (beBytes (width + 1) (code * 64 * 256 ^ width + v)) v := by
  have hhigh : v / 256 ^ width < 64 := Nat.div_lt_of_lt_mul (by rwa [Nat.mul_comm])
  have hdiv : (code * 64 * 256 ^ width + v) / 256 ^ width = code * 64 + v / 256 ^ width := by
    rw [Nat.add_comm, Nat.add_mul_div_right _ _ (Nat.pow_pos (by decide)), Nat.add_comm]
  have hmod : (code * 64 * 256 ^ width + v) % 256 ^ width = v % 256 ^ width := Nat.mul_add_mod' _ _ _
  have hfirst : (UInt8.ofNat (code * 64 + v / 256 ^ width)).toNat = code * 64 + v / 256 ^ width := by
    rw [UInt8.toNat_ofNat', Nat.mod_eq_of_lt (by omega)]
  intro rest
  rw [beBytes_succ, hdiv, varint_cons, length_beBytes, beNat_beBytes_mod, hmod]
  · have hbits : firstBits .quic (UInt8.ofNat (code * 64 + v / 256 ^ width)) (width + 1) = v / 256 ^ width := by
      rw [firstBits, UInt8.toNat_and, hfirst]
      show (code * 64 + v / 256 ^ width) &&& (2 ^ 6 - 1) = _
      rw [Nat.and_two_pow_sub_one_eq_mod, Nat.add_comm, show code * 64 = code * 2 ^ 6 from rfl,
        Nat.add_mul_mod_self_right]
      exact Nat.mod_eq_of_lt hhigh
    rw [hbits, Nat.mul_comm, Nat.div_add_mod]
  · rw [intLen, UInt8.toNat_shiftRight, hfirst, length_beBytes, ← hwidth, Nat.one_shiftLeft]
    show 2 ^ ((code * 64 + v / 256 ^ width) >>> 6) = _
    rw [Nat.shiftRight_eq_div_pow, show code * 64 = code * 2 ^ 6 from rfl, Nat.mul_comm code,
      Nat.mul_add_div (Nat.two_pow_pos 6), Nat.div_eq_of_lt hhigh, Nat.add_zero]

theorem decodes_putVarint {v : Nat} (hv : v ≤ varintMax) : Decodes (varint .quic) (putVarint v) v := by
  -- A tag in the bits above the number is a sum.
  have htag : ∀ code bits, v < 2 ^ bits → v ||| code <<< bits = code * 2 ^ bits + v := by
    intro code bits hlt
    rw [Nat.or_comm, ← Nat.shiftLeft_add_eq_or_of_lt hlt, Nat.shiftLeft_eq]
  unfold putVarint
  rw [Nat.min_eq_left hv]
  unfold varintMax at hv
  dsimp only
  split_ifs with hone htwo hfour
  · have hquic := @decodes_quic 0 0 v (by decide) rfl (by omega)
    rwa [Nat.zero_mul, Nat.zero_add, Nat.zero_add, beBytes_succ, pow_zero, Nat.div_one] at hquic
  · have hquic := @decodes_quic 1 1 v (by decide) rfl (by omega)
    have htagged := htag 1 14 htwo
    exact htagged ▸ hquic
  · have hquic := @decodes_quic 2 3 v (by decide) rfl (by omega)
    have htagged := htag 2 30 hfour
    exact htagged ▸ hquic
  · have hquic := @decodes_quic 3 7 v (by decide) rfl (by omega)
    have htagged := htag 3 62 (by omega)
    exact htagged ▸ hquic

theorem vi64Len_spec (v : Nat) : vi64Len v = 9 ∨ ∃ width < 8, vi64Len v = width + 1 ∧ v < 2 ^ (7 * (width + 1)) := by
  unfold vi64Len
  rcases hfind : (List.range' 1 8).find? (fun l => decide (v < 1 <<< (7 * l))) with _ | l
  · exact Or.inl rfl
  · have hmem := List.mem_of_find?_eq_some hfind
    have hlt := List.find?_some hfind
    rw [decide_eq_true_iff, Nat.one_shiftLeft] at hlt
    rw [List.mem_range'_1] at hmem
    obtain ⟨width, rfl⟩ : ∃ width, l = width + 1 := ⟨l - 1, by omega⟩
    exact Or.inr ⟨width, by omega, rfl, hlt⟩

theorem first_vi64 : ∀ width < 8, ∀ high < 2 ^ (7 - width),
    let first := UInt8.ofNat ((((1 <<< width) - 1) <<< (8 - width)) &&& 0xFF) ||| UInt8.ofNat high
    intLen .vi64 first = width + 1 ∧ firstBits .vi64 first (width + 1) = high := by
  decide

theorem decodes_putVi64 {v : Nat} (hv : v ≤ 2 ^ 64 - 1) : Decodes (varint .vi64) (putVi64 v) v := by
  have hlt : v < 2 ^ 64 := by omega
  intro rest
  unfold putVi64
  rcases vi64Len_spec v with hlen | ⟨width, hwidth, hlen, hfit⟩
  · dsimp only
    rw [hlen, if_pos rfl, varint_cons (by rw [length_beBytes]; rfl), length_beBytes, beNat_beBytes hlt]
    show Except.ok (0 * 256 ^ 8 + v, rest) = _
    rw [Nat.zero_mul, Nat.zero_add]
  · have hhigh : v >>> (8 * width) < 2 ^ (7 - width) := by
      rw [Nat.shiftRight_eq_div_pow, Nat.div_lt_iff_lt_mul (Nat.two_pow_pos _), ← pow_add]
      rwa [show 7 - width + 8 * width = 7 * (width + 1) by omega]
    obtain ⟨hannounced, hbits⟩ := first_vi64 width hwidth _ hhigh
    have hdrop : (beBytes 8 v).drop (8 - width) = beBytes width v := by
      have h := drop_beBytes (8 - width) width v
      rwa [Nat.sub_add_cancel hwidth.le] at h
    have hpow : 2 ^ (8 * width) = 256 ^ width := pow_mul 2 8 width
    rw [hlen, if_neg (by omega), Nat.add_sub_cancel, show 9 - (width + 1) = 8 - width by omega, hdrop,
      varint_cons (by rw [length_beBytes]; exact hannounced), length_beBytes, hbits, beNat_beBytes_mod,
      Nat.shiftRight_eq_div_pow, hpow, Nat.mul_comm, Nat.div_add_mod]

theorem decodes_varint {kind : VarintKind} {v : Nat} (hv : v ≤ intMax kind) :
    Decodes (varint kind) (putInt kind v) v := by
  cases kind with
  | quic => exact decodes_putVarint hv
  | vi64 => exact decodes_putVi64 hv

end Glass2Glass.Moqt
