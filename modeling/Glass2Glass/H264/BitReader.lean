import Glass2Glass.H264.Escape
import Glass2Glass.Lib.Lockstep
import Glass2Glass.Lib.Words

/-!
# The bit reader

`BitReader` (`g2g-plugins/src/annexb.rs`): bits from the highest of each byte down, and exp-Golomb codes made of
them. A reader that skips emulation prevention bytes as it goes reads what one over the stripped bytes does. The
end of the data it finds in the bytes as they are, so the two agree on whether data are left exactly when the
last byte that is not zero is neither an emulation prevention byte nor a lone stop bit behind one
(`skippingReader_iff`).
-/

namespace Glass2Glass.H264

open Stateful List

/-! ## The code -/

/-- A cursor over bits, highest first. -/
structure BitReader where
  buf : List UInt8
  nextByte : Nat
  /-- The byte loaded last. -/
  currentByte : UInt8
  bitsLeft : Nat
  /-- The bits read. -/
  bitPos : Nat
  /-- Whether emulation prevention bytes are skipped. -/
  skips : Bool
  /-- The zeros loaded last. -/
  zeroRun : Nat

namespace BitReader

/-- A reader of plain bytes. -/
def new (buf : List UInt8) : BitReader := ⟨buf, 0, 0, 0, 0, false, 0⟩

def skippingEmulationPrevention (ebsp : List UInt8) : BitReader := { new ebsp with skips := true }

/-- Take a byte as the current one. -/
def load (r : BitReader) (byte : UInt8) (zeroRun : Nat) : BitReader :=
  { r with nextByte := r.nextByte + 1, currentByte := byte, bitsLeft := 8, zeroRun := zeroRun }

/-- Load the next byte, past an emulation prevention byte when they are skipped; that one stays behind even if no
byte follows it. -/
def loadNextByte (r : BitReader) : Option Unit × BitReader :=
  match r.buf[r.nextByte]? with
  | none => (none, r)
  | some byte =>
    if r.skips then
      if 2 ≤ r.zeroRun ∧ byte = emulationPreventionByte then
        let r := { r with nextByte := r.nextByte + 1, zeroRun := 0 }
        match r.buf[r.nextByte]? with
        | none => (none, r)
        | some byte => (some (), r.load byte (if byte = 0 then r.zeroRun + 1 else 0))
      else (some (), r.load byte (if byte = 0 then r.zeroRun + 1 else 0))
    else (some (), r.load byte r.zeroRun)

/-- The next bit of the current byte. -/
def takeBit (r : BitReader) : Option UInt32 × BitReader :=
  let left := r.bitsLeft - 1
  (some ((r.currentByte >>> UInt8.ofNat left) &&& 1).toUInt32, { r with bitsLeft := left, bitPos := r.bitPos + 1 })

/-- Load a byte when none of the current one is left. -/
def ensureByte (r : BitReader) : Option Unit × BitReader :=
  if r.bitsLeft = 0 then r.loadNextByte else (some (), r)

def readBit : Program BitReader UInt32 := do
  .of ensureByte
  .of takeBit

/-- `readBits`, behind the bits already in `value`. -/
def readBitsFrom : Nat → UInt32 → Program BitReader UInt32
  | 0, value => pure value
  | n + 1, value => do
    let b ← readBit
    readBitsFrom n ((value <<< 1) ||| b)

/-- The next `n` bits as a number. -/
def readBits (n : UInt32) : Program BitReader UInt32 := readBitsFrom n.toNat 0

/-- Pass over `n` bits. -/
def skipBits : Nat → Program BitReader Unit
  | 0 => pure ()
  | n + 1 => do
    let _ ← readBit
    skipBits n

/-- The zeros before the first one, at most 31 of them. The first argument counts down to 0 as they do up to 32. -/
def countZeros : Nat → Nat → Program BitReader Nat
  | 0, _ => failure
  | n + 1, leadingZeros => do
    let b ← readBit
    if b = 1 then pure leadingZeros
    else if 31 < leadingZeros + 1 then failure
    else countZeros n (leadingZeros + 1)

/-- An unsigned exp-Golomb code. -/
def readUe : Program BitReader UInt32 := do
  let leadingZeros ← countZeros 32 0
  let val ← readBitsFrom leadingZeros 1
  pure (val - 1)

/-- A signed exp-Golomb code. -/
def readSe : Program BitReader Int32 := do
  let ue ← readUe
  pure (if ue &&& 1 = 1 then ((ue >>> 1) + 1).toInt32 else -(ue >>> 1).toInt32)

/-- The place of the last byte that is not zero. -/
def lastNonzero : List UInt8 → Option Nat
  | [] => none
  | b :: buf =>
    match lastNonzero buf with
    | some i => some (i + 1)
    | none => if b ≠ 0 then some 0 else none

/-- The zeros below the lowest one of a byte. -/
def trailingZeros (b : UInt8) : Nat := ((List.range 8).find? fun i => b.toNat.testBit i).getD 8

/-- Whether data are left before the stop bit, the last one of the buffer. -/
def moreRbspData (r : BitReader) : Bool :=
  let bufferBitPos := r.nextByte * 8 - r.bitsLeft
  match lastNonzero r.buf with
  | none => false
  | some stopByte => bufferBitPos < stopByte * 8 + (7 - trailingZeros (Words.byteAt r.buf stopByte))

inductive Call where
  | readBit
  | readBits (n : UInt32)
  | skipBits (n : Nat)
  | readUe
  | readSe
  | bitPos
  | moreRbspData

inductive Answer where
  | unsigned (value : Option UInt32)
  | signed (value : Option Int32)
  | skipped (done : Option Unit)
  | position (bits : Nat)
  | more (left : Bool)
  deriving DecidableEq

def answer (r : BitReader) : Call → Answer × BitReader
  | .readBit => (exec readBit r).map .unsigned id
  | .readBits n => (exec (readBits n) r).map .unsigned id
  | .skipBits n => (exec (skipBits n) r).map .skipped id
  | .readUe => (exec readUe r).map .unsigned id
  | .readSe => (exec readSe r).map .signed id
  | .bitPos => (.position r.bitPos, r)
  | .moreRbspData => (.more r.moreRbspData, r)

def answers : BitReader → List Call → List Answer
  | _, [] => []
  | r, call :: calls => (r.answer call).1 :: (r.answer call).2.answers calls

/-! ## What is read -/

/-- A reader that skips, and one over the stripped bytes at the same place. -/
structure Follows (e : List UInt8) (s p : BitReader) : Prop where
  buf : s.buf = e
  skips : s.skips = true
  plainBuf : p.buf = stripEmulationPrevention e
  plain : p.skips = false
  current : s.currentByte = p.currentByte
  left : s.bitsLeft = p.bitsLeft
  pos : s.bitPos = p.bitPos
  zeros : s.zeroRun = zerosAt e s.nextByte
  next : p.nextByte = keptBefore e s.nextByte
  inside : s.nextByte ≤ e.length

/-- Between calls at most seven bits of a byte are left, and the others of the bytes loaded are read. -/
structure InStep (e : List UInt8) (s p : BitReader) : Prop extends Follows e s p where
  few : p.bitsLeft < 8
  place : p.nextByte * 8 = p.bitPos + p.bitsLeft

/-- The byte loaded last is no emulation prevention byte. -/
def Kept (e : List UInt8) (s : BitReader) : Prop := s.nextByte = 0 ∨ ¬isEscape e (s.nextByte - 1)

variable {e : List UInt8} {s p : BitReader}

theorem loadNextByte_plain (h : p.skips = false) :
    p.loadNextByte = match p.buf[p.nextByte]? with
      | none => (none, p)
      | some byte => (some (), p.load byte p.zeroRun) := by
  unfold loadNextByte
  rw [h]
  rfl

/-- Both readers load the same byte, or none. -/
theorem Follows.load (h : Follows e s p) :
    ((s.loadNextByte).1 = none ∧ (p.loadNextByte).1 = none ∧ Follows e (s.loadNextByte).2 (p.loadNextByte).2 ∧
      (p.loadNextByte).2 = p ∧ (stripEmulationPrevention e).length ≤ p.nextByte) ∨
    ∃ byte k, e[k]? = some byte ∧ ¬isEscape e k ∧
      s.loadNextByte = (some (), { s with nextByte := k }.load byte (zerosAt e (k + 1))) ∧
      p.loadNextByte = (some (), p.load byte p.zeroRun) ∧ keptBefore e (k + 1) = p.nextByte + 1 := by
  rw [loadNextByte_plain h.plain, h.plainBuf, h.next]
  obtain ⟨buf, k, current, left, pos, skips, zeroRun⟩ := s
  obtain ⟨hbuf, hskips, hplainBuf, hplain, hcurrent, hleft, hpos, hzeroRun, hnext, hinside⟩ := h
  dsimp only at hbuf hskips hzeroRun hnext hinside ⊢
  subst hbuf hskips hzeroRun
  unfold loadNextByte
  rcases hbyte : buf[k]? with _ | byte
  · -- at the end
    have hend : k = buf.length := le_antisymm hinside (List.getElem?_eq_none_iff.1 hbyte)
    subst hend
    rw [keptBefore_length, List.getElem?_eq_none (le_refl _)]
    exact .inl ⟨rfl, rfl, ⟨rfl, rfl, hplainBuf, hplain, hcurrent, hleft, hpos, rfl, hnext, hinside⟩, rfl,
      le_refl _⟩
  dsimp only
  by_cases hescape : isEscape buf k
  · -- an emulation prevention byte is passed over
    obtain ⟨hzeros, hkept⟩ := at_succ_of_isEscape hescape
    obtain rfl := Option.some.inj (hbyte.symm.trans hescape.2)
    have hinside' : k + 1 ≤ buf.length := (List.getElem?_eq_some_iff.1 hbyte).1
    rw [if_pos rfl, if_pos ⟨hescape.1, rfl⟩]
    rcases hbyte' : buf[k + 1]? with _ | byte
    · have hend : k + 1 = buf.length := le_antisymm hinside' (List.getElem?_eq_none_iff.1 hbyte')
      have hdone : (stripEmulationPrevention buf)[keptBefore buf k]? = none := by
        rw [← hkept, hend, keptBefore_length, List.getElem?_eq_none (le_refl _)]
      rw [hdone]
      exact .inl ⟨rfl, rfl, ⟨rfl, rfl, hplainBuf, hplain, hcurrent, hleft, hpos, hzeros.symm, hnext.trans hkept.symm,
        hinside'⟩, rfl, List.getElem?_eq_none_iff.1 hdone⟩
    · have hother : ¬isEscape buf (k + 1) := by
        intro hagain
        have := hagain.1
        omega
      obtain ⟨hzeros', hkept'⟩ := at_succ_of_not_isEscape hbyte' hother
      refine .inr ⟨byte, k + 1, hbyte', hother, ?_, ?_, ?_⟩
      · rw [hzeros', hzeros]
        rfl
      · rw [← hkept, getElem?_keptBefore hbyte' hother]
      · rw [hkept', hkept]
  · obtain ⟨hzeros, hkept⟩ := at_succ_of_not_isEscape hbyte hescape
    have hother : ¬(2 ≤ zerosAt buf k ∧ byte = emulationPreventionByte) := fun hthree =>
      hescape ⟨hthree.1, hthree.2 ▸ hbyte⟩
    refine .inr ⟨byte, k, hbyte, hescape, ?_, ?_, hkept⟩
    · rw [if_pos rfl, if_neg hother, hzeros]
    · rw [getElem?_keptBefore hbyte hescape]

variable {k : Nat}

theorem Follows.loaded (h : Follows e s p) {byte : UInt8} (hbyte : e[k]? = some byte)
    (hnext : keptBefore e (k + 1) = p.nextByte + 1) :
    Follows e ({ s with nextByte := k }.load byte (zerosAt e (k + 1))) (p.load byte p.zeroRun) where
  buf := h.buf
  skips := h.skips
  plainBuf := h.plainBuf
  plain := h.plain
  current := rfl
  left := rfl
  pos := h.pos
  zeros := rfl
  next := hnext.symm
  inside := (List.getElem?_eq_some_iff.1 hbyte).1

theorem Follows.takeBit (h : Follows e s p) (hleft : 0 < p.bitsLeft) (hfew : p.bitsLeft ≤ 8)
    (hplace : p.nextByte * 8 = p.bitPos + p.bitsLeft) :
    ∃ bit s' p', s.takeBit = (some bit, s') ∧ p.takeBit = (some bit, p') ∧ InStep e s' p' ∧
      s'.nextByte = s.nextByte ∧ p'.bitPos = p.bitPos + 1 := by
  refine ⟨_, (s.takeBit).2, (p.takeBit).2, rfl, ?_, ⟨⟨h.buf, h.skips, h.plainBuf, h.plain, h.current, ?_, ?_, h.zeros, h.next, h.inside⟩, ?_, ?_⟩,
    rfl, rfl⟩
  · unfold BitReader.takeBit
    rw [h.left, h.current]
  · exact congrArg (· - 1) h.left
  · exact congrArg (· + 1) h.pos
  · show p.bitsLeft - 1 < 8
    omega
  · show p.nextByte * 8 = p.bitPos + 1 + (p.bitsLeft - 1)
    omega

theorem exec_readBit (r : BitReader) :
    exec readBit r =
      match r.ensureByte with
      | (some (), r') => r'.takeBit
      | (none, r') => (none, r') := by
  rw [readBit, exec_bind, exec_of]
  rcases r.ensureByte with ⟨_ | _, r'⟩ <;> rfl

theorem InStep.readBit (h : InStep e s p) :
    (∃ s', exec readBit s = (none, s') ∧ exec readBit p = (none, p) ∧ InStep e s' p ∧
      (stripEmulationPrevention e).length * 8 ≤ p.bitPos) ∨
    ∃ bit s' p', exec readBit s = (some bit, s') ∧ exec readBit p = (some bit, p') ∧ InStep e s' p' ∧
      (Kept e s → Kept e s') ∧ p'.bitPos = p.bitPos + 1 := by
  rw [exec_readBit, exec_readBit]
  unfold ensureByte
  rw [h.left]
  by_cases hempty : p.bitsLeft = 0
  · rw [if_pos hempty, if_pos hempty]
    rcases h.toFollows.load with ⟨hs, hp, hfollows, hsame, hend⟩ | ⟨byte, k, hbyte, hkept, hs, hp, hnext⟩
    · -- no byte is left
      rcases hload : s.loadNextByte with ⟨answer, s'⟩
      rcases hload' : p.loadNextByte with ⟨answer', p'⟩
      rw [hload, hload'] at hfollows
      rw [hload] at hs
      rw [hload'] at hp hsame
      subst hs hp hsame
      have hplace := h.place
      exact .inl ⟨s', rfl, rfl, ⟨hfollows, h.few, hplace⟩, by omega⟩
    · have hplace := h.place
      rw [hs, hp]
      obtain ⟨bit, s', p', hs', hp', hstep, hsame, hpos⟩ := (h.toFollows.loaded hbyte hnext).takeBit (Nat.succ_pos _)
        (le_refl _) (show (p.nextByte + 1) * 8 = p.bitPos + 8 by omega)
      refine .inr ⟨bit, s', p', hs', hp', hstep, fun _ => .inr ?_, hpos⟩
      rw [hsame]
      exact hkept
  · rw [if_neg hempty, if_neg hempty]
    obtain ⟨bit, s', p', hs', hp', hstep, hsame, hpos⟩ := h.toFollows.takeBit (Nat.pos_of_ne_zero hempty) h.few.le h.place
    refine .inr ⟨bit, s', p', hs', hp', hstep, fun hkept => ?_, hpos⟩
    unfold Kept
    rw [hsame]
    exact hkept

theorem lockstep_readBit : Lockstep (InStep e) readBit := by
  intro s p h
  rcases h.readBit with ⟨s', hs, hp, hstep, -⟩ | ⟨bit, s', p', hs, hp, hstep, -⟩
  · rw [hs, hp]
    exact ⟨rfl, hstep⟩
  · rw [hs, hp]
    exact ⟨rfl, hstep⟩

theorem lockstep_readBitsFrom (n : Nat) (value : UInt32) : Lockstep (InStep e) (readBitsFrom n value) := by
  induction n generalizing value with
  | zero => exact .pure value
  | succ n ih => exact lockstep_readBit.bind fun b => ih _

theorem lockstep_skipBits (n : Nat) : Lockstep (InStep e) (skipBits n) := by
  induction n with
  | zero => exact .pure ()
  | succ n ih => exact lockstep_readBit.bind fun _ => ih

theorem lockstep_countZeros (n leadingZeros : Nat) : Lockstep (InStep e) (countZeros n leadingZeros) := by
  induction n generalizing leadingZeros with
  | zero => exact .failure
  | succ n ih =>
    refine lockstep_readBit.bind fun b => ?_
    split_ifs
    · exact .pure _
    · exact .failure
    · exact ih _

theorem lockstep_readUe : Lockstep (InStep e) readUe :=
  (lockstep_countZeros 32 0).bind fun _ => (lockstep_readBitsFrom _ 1).bind fun _ => .pure _

theorem lockstep_readSe : Lockstep (InStep e) readSe := lockstep_readUe.bind fun _ => .pure _

/-! ## Where the data end -/

variable {buf : List UInt8}

theorem lastNonzero_eq_none_iff : lastNonzero buf = none ↔ ∀ b ∈ buf, b = 0 := by
  induction buf with
  | nil => simp [lastNonzero]
  | cons x buf ih =>
    rw [lastNonzero, forall_mem_cons, ← ih]
    rcases lastNonzero buf with _ | i
    · by_cases hx : x = 0 <;> simp [hx]
    · simp

variable {i : Nat}

theorem spec_of_lastNonzero (h : lastNonzero buf = some i) :
    ∃ b, buf[i]? = some b ∧ b ≠ 0 ∧ ∀ j b', i < j → buf[j]? = some b' → b' = 0 := by
  induction buf generalizing i with
  | nil => cases h
  | cons x buf ih =>
    rw [lastNonzero] at h
    rcases hrest : lastNonzero buf with _ | i'
    · rw [hrest] at h
      split_ifs at h with hx
      obtain rfl := Option.some.inj h
      refine ⟨x, rfl, hx, fun j b' hj hb' => ?_⟩
      obtain ⟨j, rfl⟩ : ∃ j', j = j' + 1 := ⟨j - 1, by omega⟩
      exact lastNonzero_eq_none_iff.1 hrest b' (mem_of_getElem? hb')
    · rw [hrest] at h
      obtain rfl := Option.some.inj h
      obtain ⟨b, hb, hne, hzeros⟩ := ih hrest
      refine ⟨b, hb, hne, fun j b' hj hb' => ?_⟩
      obtain ⟨j, rfl⟩ : ∃ j', j = j' + 1 := ⟨j - 1, by omega⟩
      exact hzeros j b' (by omega) hb'

variable {b : UInt8}

theorem lastNonzero_eq_some (hb : buf[i]? = some b) (hne : b ≠ 0)
    (hzeros : ∀ j b', i < j → buf[j]? = some b' → b' = 0) : lastNonzero buf = some i := by
  rcases hlast : lastNonzero buf with _ | i'
  · exact absurd (lastNonzero_eq_none_iff.1 hlast b (mem_of_getElem? hb)) hne
  · obtain ⟨b', hb', hne', hzeros'⟩ := spec_of_lastNonzero hlast
    rcases Nat.lt_trichotomy i i' with hlt | rfl | hgt
    · exact absurd (hzeros i' b' hlt hb') hne'
    · rfl
    · exact absurd (hzeros' i b hgt hb) hne

theorem mem_of_mem_stripFrom {zeros : Nat} {bytes : List UInt8} {x : UInt8} (h : x ∈ stripFrom zeros bytes) :
    x ∈ bytes := by
  induction bytes generalizing zeros with
  | nil => cases h
  | cons b bytes ih =>
    rw [stripFrom] at h
    split_ifs at h with hescape hzero
    · exact mem_cons_of_mem b (ih h)
    · rcases List.mem_cons.1 h with rfl | h
      · exact mem_cons_self
      · exact mem_cons_of_mem b (ih h)
    · rcases List.mem_cons.1 h with rfl | h
      · exact mem_cons_self
      · exact mem_cons_of_mem b (ih h)

theorem stripped_behind (hzeros : ∀ j b, k ≤ j → e[j]? = some b → b = 0) {j : Nat}
    (hj : keptBefore e k ≤ j) (hb : (stripEmulationPrevention e)[j]? = some b) : b = 0 := by
  have hsplit := stripFrom_append 0 (e.take k) (e.drop k)
  rw [take_append_drop] at hsplit
  have hsplit' : stripEmulationPrevention e = stripEmulationPrevention (e.take k) ++
      stripFrom (zerosAfter 0 (e.take k)) (e.drop k) := hsplit
  rw [hsplit', List.getElem?_append_right hj] at hb
  obtain ⟨m, hm⟩ := mem_iff_getElem?.1 (mem_of_mem_stripFrom (mem_of_getElem? hb))
  rw [List.getElem?_drop] at hm
  exact hzeros (k + m) b (Nat.le_add_right _ _) hm

theorem lastNonzero_strip (hi : lastNonzero e = some i) (hb : e[i]? = some b)
    (hkept : ¬isEscape e i) : lastNonzero (stripEmulationPrevention e) = some (keptBefore e i) := by
  obtain ⟨b', hb', hne, hzeros⟩ := spec_of_lastNonzero hi
  obtain rfl := Option.some.inj (hb.symm.trans hb')
  refine lastNonzero_eq_some (getElem?_keptBefore hb hkept) hne fun j b' hj hb' => ?_
  refine stripped_behind (k := i + 1) (fun m b h => hzeros m b (by omega)) ?_ hb'
  rw [(at_succ_of_not_isEscape hb hkept).2]
  exact hj

/-- The last byte that is not zero is no emulation prevention byte, nor a lone stop bit right behind one. -/
def stopBitKept (e : List UInt8) : Prop :=
  ∀ i b, lastNonzero e = some i → e[i]? = some b → ¬isEscape e i ∧ ¬(b = 0x80 ∧ isEscape e (i - 1))

theorem trailingZeros_lt (hzero : b ≠ 0) (hstop : b ≠ 0x80) : trailingZeros b < 7 := by
  have hall : ∀ b : UInt8, b ≠ 0 → b ≠ 0x80 → trailingZeros b < 7 := Words.forall_byte (by decide +kernel)
  exact hall b hzero hstop

theorem moreRbspData_eq {r : BitReader} (hi : lastNonzero r.buf = some i) (hb : r.buf[i]? = some b) :
    r.moreRbspData = decide (r.nextByte * 8 - r.bitsLeft < i * 8 + (7 - trailingZeros b)) := by
  have hbyte : Words.byteAt r.buf i = b := by
    rw [Words.byteAt, getD_eq_getElem?_getD, hb]
    rfl
  rw [moreRbspData, hi]
  dsimp only
  rw [hbyte]

theorem keptBefore_zero (e : List UInt8) : keptBefore e 0 = 0 := rfl

theorem not_isEscape_succ (h : isEscape e k) : ¬isEscape e (k + 1) := by
  intro hagain
  have hzeros := (at_succ_of_isEscape h).1
  have := hagain.1
  omega

theorem eq_or_isEscape_of_keptBefore_eq (hle : k ≤ i) (hi : i ≤ e.length)
    (heq : keptBefore e k = keptBefore e i) : k = i ∨ k + 1 = i ∧ isEscape e k := by
  rcases Nat.lt_or_eq_of_le hle with hlt | rfl
  · have hbyte : ∃ b, e[k]? = some b := ⟨_, List.getElem?_eq_getElem (by omega)⟩
    obtain ⟨b, hb⟩ := hbyte
    have hescape : isEscape e k := by
      by_contra hkept
      have hsucc := (at_succ_of_not_isEscape hb hkept).2
      have hmono : keptBefore e (k + 1) ≤ keptBefore e i := keptBefore_mono hlt
      omega
    refine .inr ⟨?_, hescape⟩
    by_contra hfar
    obtain ⟨b', hb'⟩ : ∃ b', e[k + 1]? = some b' := ⟨_, List.getElem?_eq_getElem (by omega)⟩
    have hsucc := (at_succ_of_not_isEscape hb' (not_isEscape_succ hescape)).2
    have hsame := (at_succ_of_isEscape hescape).2
    have hmono : keptBefore e (k + 1 + 1) ≤ keptBefore e i := keptBefore_mono (by omega)
    omega
  · exact .inl rfl

/-- Where the stop bit is kept, both readers find it at the same distance. -/
theorem InStep.moreRbspData (h : InStep e s p) (hstop : stopBitKept e) : s.moreRbspData = p.moreRbspData := by
  rcases hlast : lastNonzero e with _ | i
  · -- only zeros
    have hzeros : lastNonzero (stripEmulationPrevention e) = none :=
      lastNonzero_eq_none_iff.2 fun b hb => lastNonzero_eq_none_iff.1 hlast b (mem_of_mem_stripFrom hb)
    rw [BitReader.moreRbspData, BitReader.moreRbspData, h.buf, h.plainBuf, hlast, hzeros]
  obtain ⟨b, hb, hne, hzeros⟩ := spec_of_lastNonzero hlast
  obtain ⟨hkept, hlone⟩ := hstop i b hlast hb
  have hi : i < e.length := (List.getElem?_eq_some_iff.1 hb).1
  have hsucc := (at_succ_of_not_isEscape hb hkept).2
  have hmore : s.moreRbspData = decide (s.nextByte * 8 - s.bitsLeft < i * 8 + (7 - trailingZeros b)) :=
    moreRbspData_eq (h.buf.symm ▸ hlast) (h.buf.symm ▸ hb)
  have hmore' : p.moreRbspData =
      decide (p.nextByte * 8 - p.bitsLeft < keptBefore e i * 8 + (7 - trailingZeros b)) :=
    moreRbspData_eq (h.plainBuf.symm ▸ lastNonzero_strip hlast hb hkept)
      (h.plainBuf.symm ▸ getElem?_keptBefore hb hkept)
  have hfew := h.few
  have hplace := h.place
  have hinside := h.inside
  rw [hmore, hmore', h.left, h.next, decide_eq_decide]
  rw [h.next] at hplace
  rcases Nat.lt_or_ge i s.nextByte with hbehind | hbefore
  · rcases Nat.lt_or_eq_of_le hbehind with hfar | heq
    · -- past the byte of the stop bit
      obtain ⟨b', hb'⟩ : ∃ b', e[i + 1]? = some b' := ⟨_, List.getElem?_eq_getElem (by omega)⟩
      have hzero := hzeros (i + 1) b' (by omega) hb'
      have hplain : ¬isEscape e (i + 1) := by
        intro hescape
        rw [hescape.2] at hb'
        rw [← Option.some.inj hb'] at hzero
        exact absurd hzero (by decide)
      have hsucc' := (at_succ_of_not_isEscape hb' hplain).2
      have hmono : keptBefore e (i + 1 + 1) ≤ keptBefore e s.nextByte := keptBefore_mono hfar
      omega
    · -- within it
      rw [← heq, hsucc]
      omega
  · have hmono : keptBefore e s.nextByte ≤ keptBefore e i := keptBefore_mono hbefore
    rcases Nat.lt_or_eq_of_le hmono with hlt | heq
    · have hnot : s.nextByte ≠ i := by
        intro h'
        rw [h'] at hlt
        omega
      omega
    · rcases eq_or_isEscape_of_keptBefore_eq hbefore hi.le heq with hsame | ⟨hsame, hescape⟩
      · rw [hsame] at hplace ⊢
        have hzero : i = 0 → keptBefore e i = 0 := by
          rintro rfl
          exact keptBefore_zero e
        omega
      · -- right before an emulation prevention byte, with more than the stop bit behind it
        have hstopByte : b ≠ 0x80 := by
          intro h80
          refine hlone ⟨h80, ?_⟩
          rw [← hsame, Nat.add_sub_cancel]
          exact hescape
        have hbits := trailingZeros_lt hne hstopByte
        omega

theorem InStep.answer (h : InStep e s p) (hstop : stopBitKept e) (call : Call) :
    (s.answer call).1 = (p.answer call).1 ∧ InStep e (s.answer call).2 (p.answer call).2 := by
  cases call with
  | readBit =>
    obtain ⟨hvalue, hstep⟩ := lockstep_readBit s p h
    exact ⟨congrArg Answer.unsigned hvalue, hstep⟩
  | readBits n =>
    obtain ⟨hvalue, hstep⟩ := lockstep_readBitsFrom n.toNat 0 s p h
    exact ⟨congrArg Answer.unsigned hvalue, hstep⟩
  | skipBits n =>
    obtain ⟨hvalue, hstep⟩ := lockstep_skipBits n s p h
    exact ⟨congrArg Answer.skipped hvalue, hstep⟩
  | readUe =>
    obtain ⟨hvalue, hstep⟩ := lockstep_readUe s p h
    exact ⟨congrArg Answer.unsigned hvalue, hstep⟩
  | readSe =>
    obtain ⟨hvalue, hstep⟩ := lockstep_readSe s p h
    exact ⟨congrArg Answer.signed hvalue, hstep⟩
  | bitPos => exact ⟨congrArg Answer.position h.pos, h⟩
  | moreRbspData => exact ⟨congrArg Answer.more (h.moreRbspData hstop), h⟩

theorem InStep.answers (h : InStep e s p) (hstop : stopBitKept e) (calls : List Call) :
    s.answers calls = p.answers calls := by
  induction calls generalizing s p with
  | nil => rfl
  | cons call calls ih =>
    obtain ⟨hanswer, hstep⟩ := h.answer hstop call
    rw [BitReader.answers, BitReader.answers, hanswer, ih hstep]

theorem inStep_new (e : List UInt8) : InStep e (skippingEmulationPrevention e) (new (stripEmulationPrevention e)) where
  buf := rfl
  skips := rfl
  plainBuf := rfl
  plain := rfl
  current := rfl
  left := rfl
  pos := rfl
  zeros := rfl
  next := rfl
  inside := Nat.zero_le _
  few := Nat.succ_pos _
  place := rfl

theorem InStep.skipBits (h : InStep e s p) (hkept : Kept e s) (n : Nat)
    (hroom : p.bitPos + n ≤ (stripEmulationPrevention e).length * 8) :
    ∃ s' p', exec (skipBits n) s = (some (), s') ∧ exec (skipBits n) p = (some (), p') ∧ InStep e s' p' ∧ Kept e s' ∧
      p'.bitPos = p.bitPos + n := by
  induction n generalizing s p with
  | zero => exact ⟨s, p, rfl, rfl, h, hkept, rfl⟩
  | succ n ih =>
    rw [BitReader.skipBits, exec_bind, exec_bind]
    rcases h.readBit with ⟨s', hs, hp, -, hend⟩ | ⟨bit, s', p', hs, hp, hstep, hkept', hpos⟩
    · omega
    · rw [hs, hp]
      obtain ⟨s'', p'', hs', hp', hstep', hkept'', hpos'⟩ := ih hstep (hkept' hkept) (by omega)
      exact ⟨s'', p'', hs', hp', hstep', hkept'', by omega⟩

/-- Where the stop bit is not kept, the skipping reader sees data that are not left. -/
theorem exists_answers_ne (hstop : ¬stopBitKept e) :
    ∃ calls, (skippingEmulationPrevention e).answers calls ≠ (new (stripEmulationPrevention e)).answers calls := by
  obtain ⟨i, b, hlast, hb, hlost⟩ : ∃ i b, lastNonzero e = some i ∧ e[i]? = some b ∧
      (isEscape e i ∨ ¬isEscape e i ∧ b = 0x80 ∧ isEscape e (i - 1)) := by
    unfold stopBitKept at hstop
    simp only [not_forall, not_and_or, not_not] at hstop
    obtain ⟨i, b, hlast, hb, hlost⟩ := hstop
    by_cases hescape : isEscape e i
    · exact ⟨i, b, hlast, hb, .inl hescape⟩
    · exact ⟨i, b, hlast, hb, .inr ⟨hescape, (not_or.1 (hlost.resolve_left hescape)).imp not_not.1 not_not.1⟩⟩
  obtain ⟨b', hb', hne, hzeros⟩ := spec_of_lastNonzero hlast
  obtain rfl := Option.some.inj (hb.symm.trans hb')
  have hi : i < e.length := (List.getElem?_eq_some_iff.1 hb).1
  have hroom : keptBefore e i ≤ (stripEmulationPrevention e).length := by
    rw [← keptBefore_length]
    exact keptBefore_mono hi.le
  obtain ⟨s, p, hs, hp, hstep, hkept, hpos⟩ := (inStep_new e).skipBits (.inl rfl) (keptBefore e i * 8)
    (show 0 + keptBefore e i * 8 ≤ _ by omega)
  have hpos' : p.bitPos = keptBefore e i * 8 := hpos.trans (Nat.zero_add _)
  have hplace := hstep.place
  have hfew := hstep.few
  have hnext := hstep.next
  have hinside := hstep.inside
  have hleft : p.bitsLeft = 0 := by omega
  have hsame : keptBefore e s.nextByte = keptBefore e i := by omega
  -- the skipping reader has not come past the byte it takes the stop bit from
  have hbefore : s.nextByte ≤ i := by
    by_contra hpast
    rcases eq_or_isEscape_of_keptBefore_eq (by omega) hinside hsame.symm with heq | ⟨heq, hescape⟩
    · omega
    · rcases hkept with hzero | hkept
      · omega
      · rw [← heq, Nat.add_sub_cancel] at hkept
        exact hkept hescape
  have hmore : s.moreRbspData = decide (s.nextByte * 8 - s.bitsLeft < i * 8 + (7 - trailingZeros b)) :=
    moreRbspData_eq (hstep.buf.symm ▸ hlast) (hstep.buf.symm ▸ hb)
  have hdiffer : s.moreRbspData = true ∧ p.moreRbspData = false := by
    rcases hlost with hescape | ⟨hplain, rfl, hescape⟩
    · constructor
      · obtain rfl := Option.some.inj (hb.symm.trans hescape.2)
        have hbits : trailingZeros emulationPreventionByte = 0 := by decide
        rw [hmore, hbits]
        exact decide_eq_true (by omega)
      · -- of the kept bytes, none from here on is anything but a zero
        have hbehind : ∀ j b', keptBefore e i ≤ j → (stripEmulationPrevention e)[j]? = some b' → b' = 0 := by
          intro j b' hj hb'
          refine stripped_behind (k := i + 1) (fun m b h => hzeros m b (by omega)) ?_ hb'
          rw [(at_succ_of_isEscape hescape).2]
          exact hj
        rcases hlast' : lastNonzero (stripEmulationPrevention e) with _ | i'
        · rw [BitReader.moreRbspData, hstep.plainBuf, hlast']
        · obtain ⟨b', hb', hne', -⟩ := spec_of_lastNonzero hlast'
          have hlt : i' < keptBefore e i := by
            by_contra hge
            exact hne' (hbehind i' b' (by omega) hb')
          rw [moreRbspData_eq (hstep.plainBuf.symm ▸ hlast') (hstep.plainBuf.symm ▸ hb')]
          exact decide_eq_false (by omega)
    · have hbits : trailingZeros 0x80 = 7 := by decide
      constructor
      · have hnot : s.nextByte ≠ i := by
          intro heq
          rcases hkept with hzero | hkept
          · have hnone : zerosAt e (0 - 1) = 0 := rfl
            rw [← heq, hzero] at hescape
            have := hescape.1
            omega
          · rw [heq] at hkept
            exact hkept hescape
        rw [hmore, hbits]
        exact decide_eq_true (by omega)
      · rw [moreRbspData_eq (hstep.plainBuf.symm ▸ lastNonzero_strip hlast hb hplain)
          (hstep.plainBuf.symm ▸ getElem?_keptBefore hb hplain), hbits]
        exact decide_eq_false (by omega)
  refine ⟨[.skipBits (keptBefore e i * 8), .moreRbspData], fun heq => ?_⟩
  have hafter : s.moreRbspData = p.moreRbspData := by
    have hs' : ((skippingEmulationPrevention e).answer (.skipBits (keptBefore e i * 8))).2 = s := congrArg Prod.snd hs
    have hp' : ((new (stripEmulationPrevention e)).answer (.skipBits (keptBefore e i * 8))).2 = p := congrArg Prod.snd hp
    have hsecond := (List.cons.inj (List.cons.inj heq).2).1
    rw [hs', hp'] at hsecond
    exact Answer.more.inj hsecond
  rw [hdiffer.1, hdiffer.2] at hafter
  cases hafter

/-! ## Both parts -/

/-- Stripping undoes adding, and what is escaped has no two zeros before a byte below three. A reader that skips
emulation prevention bytes answers every row of calls as one over the stripped bytes does, exactly when the stop bit
is kept. -/
theorem skippingReader_iff (rbsp e : List UInt8) : stripEmulationPrevention (addEmulationPrevention rbsp) = rbsp ∧
    (∀ (p : Nat) (b : UInt8), (addEmulationPrevention rbsp)[p]? = some 0 → (addEmulationPrevention rbsp)[p + 1]? = some 0 →
      (addEmulationPrevention rbsp)[p + 2]? = some b → ¬b ≤ 2) ∧
    ((∀ calls, (skippingEmulationPrevention e).answers calls = (new (stripEmulationPrevention e)).answers calls) ↔
      stopBitKept e) := by
  refine ⟨stripFrom_addFrom 0 rbsp, fun p b => (guarded_addFrom 0 rbsp).not_low, ?_, fun hstop calls => ?_⟩
  · intro h
    by_contra hstop
    obtain ⟨calls, hne⟩ := exists_answers_ne hstop
    exact hne (h calls)
  · exact (inStep_new e).answers hstop calls

/-- A stop bit, and two zero bytes that an emulation prevention byte ends. -/
theorem skippingReader_ne : (skippingEmulationPrevention [0x80, 0, 0, 3]).answers [.moreRbspData] = [.more true] ∧
      (new (stripEmulationPrevention [0x80, 0, 0, 3])).answers [.moreRbspData] = [.more false] := by
  decide

end BitReader

end Glass2Glass.H264
