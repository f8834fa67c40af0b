import Glass2Glass.Lib.Words
import Glass2Glass.Srt.Receiver

/-!
# Data packets

How data packets are written and read (`build_data_packet`, `parse_data_packet` in `g2g-plugins/src/srt.rs`). What is
read of a packet that was built is what it was built from (`parseDataPacket_buildDataPacket`).
-/

namespace Glass2Glass.Srt

open Words Nat

def headerLen : Nat := 16

/-- A control packet has the top bit of the first word set. -/
def isControl : List UInt8 → Bool
  | [] => false
  | b :: _ => decide (b.toNat &&& 0x80 ≠ 0)

variable (msgNo : Nat) (retransmit : Bool)

/-- The second word of a data packet: a whole message in order, the key, the flag of a retransmission and the message
number. -/
def flagsWord (kk : Nat) : Nat :=
  let word1 := (0b11 <<< 30 ||| 1 <<< 29) ||| (kk &&& 0b11) <<< 27
  let word1 := if retransmit then word1 ||| 1 <<< 26 else word1
  word1 ||| (msgNo &&& 0x03FFFFFF)

def buildDataPacket (seq msgNo : Nat) (retransmit : Bool) (kk timestamp dstSocketId : Nat) (payload : List UInt8) :
    List UInt8 :=
  beBytes 4 (seq % 2 ^ 31) ++ (beBytes 4 (flagsWord msgNo retransmit kk) ++ (beBytes 4 timestamp ++
    (beBytes 4 dstSocketId ++ payload)))

def parseDataPacket (buf : List UInt8) : Option DataPacket :=
  if buf.length < headerLen || isControl buf then none
  else
    let word1 := beNat (slice buf 4 4)
    some
      { seq := beNat (slice buf 0 4) % 2 ^ 31
        seq_lt := mod_lt _ (by decide)
        retransmit := hasBit word1 26
        kk := (word1 >>> 27) &&& 0b11
        timestamp := beNat (slice buf 8 4)
        dstSocketId := beNat (slice buf 12 4)
        payload := buf.drop headerLen }

theorem flagsWord_eq (kk : Nat) :
    flagsWord msgNo retransmit kk = 7 * 2 ^ 29 + kk % 4 * 2 ^ 27 + retransmit.toNat * 2 ^ 26 + msgNo % 2 ^ 26 := by
  have hkk : kk &&& 0b11 = kk % 4 := and_two_pow_sub_one_eq_mod kk 2
  have hmsg : msgNo &&& 0x03FFFFFF = msgNo % 2 ^ 26 := and_two_pow_sub_one_eq_mod msgNo 26
  have hmsgLt : msgNo % 2 ^ 26 < 2 ^ 26 := mod_lt _ (by decide)
  have hfront : (0b11 <<< 30 ||| 1 <<< 29) ||| (kk % 4) <<< 27 = (28 + kk % 4) <<< 27 := by
    have hlt : kk % 4 < 4 := mod_lt _ (by decide)
    generalize kk % 4 = k at hlt
    rcases (by omega : k = 0 ∨ k = 1 ∨ k = 2 ∨ k = 3) with rfl | rfl | rfl | rfl <;> decide
  have hflag (x : Nat) : (if retransmit then x <<< 27 ||| 1 <<< 26 else x <<< 27) = (2 * x + retransmit.toNat) <<< 26 := by
    cases retransmit with
    | false =>
      rw [if_neg Bool.false_ne_true]
      simp only [shiftLeft_eq, Bool.toNat_false]
      omega
    | true =>
      rw [if_pos rfl, ← shiftLeft_add_eq_or_of_lt (by decide)]
      simp only [shiftLeft_eq, Bool.toNat_true]
      omega
  unfold flagsWord
  dsimp only
  rw [hkk, hmsg, hfront, hflag, ← shiftLeft_add_eq_or_of_lt hmsgLt, shiftLeft_eq]
  omega

theorem flagsWord_lt (kk : Nat) : flagsWord msgNo retransmit kk < 256 ^ 4 := by
  rw [flagsWord_eq]
  have := retransmit.toNat_le
  omega

theorem flagsWord_fields {kk : Nat} (hkk : kk < 4) :
    hasBit (flagsWord msgNo retransmit kk) 26 = retransmit ∧ (flagsWord msgNo retransmit kk >>> 27) &&& 0b11 = kk := by
  have hmask (x : Nat) : x &&& 0b11 = x % 4 := and_two_pow_sub_one_eq_mod x 2
  have hbit : flagsWord msgNo retransmit kk / 2 ^ 26 % 2 = retransmit.toNat := by
    rw [flagsWord_eq]
    have := retransmit.toNat_le
    omega
  constructor
  · rw [hasBit_eq, testBit_eq_decide_div_mod_eq, hbit]
    cases retransmit <;> rfl
  · rw [hmask, shiftRight_eq_div_pow, flagsWord_eq]
    have := retransmit.toNat_le
    omega

variable {seq msgNo kk timestamp dstSocketId : Nat} {retransmit : Bool} {payload : List UInt8}

theorem isControl_buildDataPacket :
    isControl (buildDataPacket seq msgNo retransmit kk timestamp dstSocketId payload) = false := by
  unfold buildDataPacket
  rw [beBytes_succ]
  have hbyte : (UInt8.ofNat (seq % 2 ^ 31 / 256 ^ 3)).toNat < 2 ^ 7 := by
    rw [UInt8.toNat_ofNat']
    omega
  show decide (_ &&& 2 ^ 7 ≠ 0) = false
  rw [and_two_pow, testBit_lt_two_pow hbyte]
  rfl

theorem parseDataPacket_buildDataPacket (hkk : kk < 4) (htimestamp : timestamp < 256 ^ 4)
    (hdst : dstSocketId < 256 ^ 4) :
    parseDataPacket (buildDataPacket seq msgNo retransmit kk timestamp dstSocketId payload) =
      some { seq := seq % 2 ^ 31, seq_lt := mod_lt _ (by decide), retransmit, kk, timestamp, dstSocketId,
             payload } := by
  have hlength : ¬ (buildDataPacket seq msgNo retransmit kk timestamp dstSocketId payload).length < headerLen := by
    unfold buildDataPacket headerLen
    simp only [List.length_append, length_beBytes]
    omega
  have hwords : slice (buildDataPacket seq msgNo retransmit kk timestamp dstSocketId payload) 0 4 =
        beBytes 4 (seq % 2 ^ 31) ∧
      slice (buildDataPacket seq msgNo retransmit kk timestamp dstSocketId payload) 4 4 =
        beBytes 4 (flagsWord msgNo retransmit kk) ∧
      slice (buildDataPacket seq msgNo retransmit kk timestamp dstSocketId payload) 8 4 = beBytes 4 timestamp ∧
      slice (buildDataPacket seq msgNo retransmit kk timestamp dstSocketId payload) 12 4 = beBytes 4 dstSocketId ∧
      (buildDataPacket seq msgNo retransmit kk timestamp dstSocketId payload).drop headerLen = payload :=
    ⟨rfl, rfl, rfl, rfl, rfl⟩
  obtain ⟨hseq, hflags, htime, hsocket, hpayload⟩ := hwords
  have hseqNat : beNat (beBytes 4 (seq % 2 ^ 31)) = seq % 2 ^ 31 :=
    beNat_beBytes (lt_trans (mod_lt _ (by decide)) (by decide))
  obtain ⟨hretransmit, hkey⟩ := flagsWord_fields msgNo retransmit hkk
  unfold parseDataPacket
  rw [isControl_buildDataPacket, decide_eq_false hlength, if_neg (by decide)]
  simp only [hseq, hflags, htime, hsocket, hpayload, hseqNat, beNat_beBytes (flagsWord_lt _ _ _),
    beNat_beBytes htimestamp, beNat_beBytes hdst, hretransmit, hkey, mod_mod]

end Glass2Glass.Srt
