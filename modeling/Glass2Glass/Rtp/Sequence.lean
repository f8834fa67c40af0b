import Mathlib.Algebra.Group.Nat.Defs
import Mathlib.Tactic.Common

/-!
# Sequence numbers past their wrap

The sequence number of a packet, and the extension of a wrapping counter to a 64-bit number that keeps counting
(`extend_wrapping` and `RtpSequenceExtender` in `g2g-core/src/rtp.rs`). A step of half the period or more counts
as backward. The first number starts one period up, so that there is room below it.
-/

namespace Glass2Glass.Rtp

/-- The length of the fixed header of a packet. -/
def rtpHeaderLen : Nat := 12

/-- The sequence number in the header of a packet. -/
def sequenceOf (packet : List UInt8) : Nat := (packet.getD 2 0).toNat * 256 + (packet.getD 3 0).toNat

theorem sequenceOf_lt (packet : List UInt8) : sequenceOf packet < 2 ^ 16 := by
  unfold sequenceOf
  have hhigh := (packet.getD 2 0).toNat_lt
  have hlow := (packet.getD 3 0).toNat_lt
  omega

/-- The highest extended number so far and the next value give the value's extended number. -/
def extendWrapping (highest : Option Nat) (value bits : Nat) : Nat :=
  match highest with
  | none => 2 ^ bits + value
  | some high =>
    let forwardDistance := (value + 2 ^ 64 - high) % 2 ^ 64 % 2 ^ bits
    if forwardDistance < 2 ^ bits / 2 then min (high + forwardDistance) (2 ^ 64 - 1)
    else high - (2 ^ bits - forwardDistance)

/-- The highest extended sequence number so far. -/
structure RtpSequenceExtender where
  highest : Option Nat

namespace RtpSequenceExtender

def new : RtpSequenceExtender := { highest := none }

def extend (e : RtpSequenceExtender) (sequence : Nat) : Nat × RtpSequenceExtender :=
  let extended := extendWrapping e.highest sequence 16
  let highest :=
    match e.highest with
    | none => extended
    | some high => if extended > high then extended else high
  (extended, { highest := some highest })

/-- The extended numbers are 64-bit words. -/
def Fits (e : RtpSequenceExtender) : Prop := ∀ high, e.highest = some high → high < 2 ^ 64

variable {e : RtpSequenceExtender} {sequence : Nat}

theorem fits_new : new.Fits := nofun

theorem extend_lt (h : e.Fits) (hsequence : sequence < 2 ^ 16) : (e.extend sequence).1 < 2 ^ 64 := by
  unfold extend extendWrapping
  rcases hhigh : e.highest with _ | high <;> dsimp only
  · omega
  · have hlt := h high hhigh
    split_ifs <;> omega

theorem fits_extend (h : e.Fits) (hsequence : sequence < 2 ^ 16) : (e.extend sequence).2.Fits := by
  intro high' hhigh'
  have hext := extend_lt h hsequence
  unfold extend at hhigh' hext
  rcases hhigh : e.highest with _ | high <;> rw [hhigh] at hhigh' hext <;> obtain rfl := Option.some.inj hhigh'
  · exact hext
  · dsimp only
    split_ifs
    · exact hext
    · exact h high hhigh

end RtpSequenceExtender

end Glass2Glass.Rtp
