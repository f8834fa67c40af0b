import Glass2Glass.Mcu.RtpSrc

/-!
# Conversions of time

The conversions of `g2g-core/src/time.rs`: Unix time to and from the 64-bit time of NTP, and nanoseconds to and
from the ticks of a media clock. A sum that leaves its word is no result.
-/

namespace Glass2Glass

open Option

open Mcu (ticksToNs)

def nanosPerSecond : Nat := 1000000000

def ntpToUnixEpochSecs : Nat := 2208988800

def ntpNanos (unixNanos : Int) : Int := unixNanos + ntpToUnixEpochSecs * nanosPerSecond

/-- Round the fraction up; the seconds keep what is left of them after the shift. -/
def ntpFromUnixNanos (unixNanos : Int) : Option Nat :=
  if ntpNanos unixNanos < 0 then none
  else
    let seconds := (ntpNanos unixNanos).toNat / nanosPerSecond % 2 ^ 64
    let nanos := (ntpNanos unixNanos).toNat % nanosPerSecond
    let fraction := (nanos * 2 ^ 32 % 2 ^ 64 + (nanosPerSecond - 1)) / nanosPerSecond
    some (seconds * 2 ^ 32 % 2 ^ 64 ||| fraction)

/-- A number that fits its word with a sign. -/
def checkedI64 (n : Int) : Option Int := if -2 ^ 63 ≤ n ∧ n < 2 ^ 63 then some n else none

def checkedU64 (n : Nat) : Option Nat := if n < 2 ^ 64 then some n else none

/-- Zero is no time. Seconds without their top bit are those of the era from 2036 on. -/
def unixNanosFromNtp (ntp : Nat) : Option (Option Int) :=
  if ntp = 0 then some none
  else do
    let ntpSeconds : Nat := ntp / 2 ^ 32
    let eraOffset : Int := if ntpSeconds.testBit 31 then 0 else 2 ^ 32
    let since ← checkedI64 (ntpSeconds + eraOffset)
    let seconds ← checkedI64 (since - ntpToUnixEpochSecs)
    let scaled ← checkedU64 (ntp % 2 ^ 32 * nanosPerSecond)
    let rounded ← checkedU64 (scaled + 2 ^ 31)
    let whole ← checkedI64 (seconds * nanosPerSecond)
    let unixNanos ← checkedI64 (whole + (rounded / 2 ^ 32 : Nat))
    pure (some unixNanos)

/-- Round to the nearest number, at most the highest word. -/
def scaleRounded (value numerator denominator : Nat) : Nat :=
  if denominator = 0 then 2 ^ 64 - 1
  else min ((value * numerator + denominator / 2) / denominator) (2 ^ 64 - 1)

def nsToTicks (ns rate : Nat) : Nat := scaleRounded ns rate nanosPerSecond

theorem ticksToNs_eq (ticks rate : Nat) : ticksToNs ticks rate = scaleRounded ticks nanosPerSecond rate := rfl

section

variable {u v : Int} {n t rate a b : Nat}

/-! ## The time of NTP -/

theorem checkedI64_eq {k : Int} (h : -2 ^ 63 ≤ k ∧ k < 2 ^ 63) : checkedI64 k = some k := if_pos h

theorem checkedU64_eq (h : n < 2 ^ 64) : checkedU64 n = some n := if_pos h

theorem shift_seconds (k : Nat) : k % 2 ^ 64 * 2 ^ 32 % 2 ^ 64 = 2 ^ 32 * (k % 2 ^ 32) := by omega

theorem ntpFromUnixNanos_eq (h : 0 ≤ ntpNanos u) (hu : u < 2 ^ 63) :
    ntpFromUnixNanos u = some (2 ^ 32 * ((ntpNanos u).toNat / nanosPerSecond % 2 ^ 32) +
      ((ntpNanos u).toNat % nanosPerSecond * 2 ^ 32 + 999999999) / nanosPerSecond) := by
  have hbound : (ntpNanos u).toNat < 2 ^ 64 := by
    unfold ntpNanos ntpToUnixEpochSecs nanosPerSecond
    omega
  unfold ntpFromUnixNanos
  rw [if_neg (by omega)]
  generalize (ntpNanos u).toNat = since at hbound
  unfold nanosPerSecond
  have hnanos : since % 1000000000 * 2 ^ 32 % 2 ^ 64 = since % 1000000000 * 2 ^ 32 := by omega
  have hfraction : (since % 1000000000 * 2 ^ 32 + 999999999) / 1000000000 < 2 ^ 32 := by omega
  simp only [shift_seconds, hnanos]
  rw [Nat.two_pow_add_eq_or_of_lt hfraction]

theorem unixNanosFromNtp_eq {seconds fraction : Nat} (hseconds : seconds < 2 ^ 32) (hfraction : fraction < 2 ^ 32)
    (hntp : 2 ^ 32 * seconds + fraction ≠ 0) :
    unixNanosFromNtp (2 ^ 32 * seconds + fraction) = some (some
      (((seconds : Int) + (if 2 ^ 31 ≤ seconds then 0 else 2 ^ 32) - 2208988800) * 1000000000 +
        ((fraction * 1000000000 + 2 ^ 31) / 2 ^ 32 : Nat))) := by
  have hhigh : (2 ^ 32 * seconds + fraction) / 2 ^ 32 = seconds := by omega
  have hlow : (2 ^ 32 * seconds + fraction) % 2 ^ 32 = fraction := by omega
  have htop : seconds.testBit 31 = decide (2 ^ 31 ≤ seconds) := by
    rw [Nat.testBit_eq_decide_div_mod_eq]
    exact decide_eq_decide.2 (by omega)
  unfold unixNanosFromNtp ntpToUnixEpochSecs nanosPerSecond
  simp only [if_neg hntp, hhigh, hlow, htop, decide_eq_true_eq, bind_eq_bind, pure_def]
  generalize hera : (if 2 ^ 31 ≤ seconds then (0 : Int) else 2 ^ 32) = era
  have hfit : 2 ^ 31 ≤ seconds + era ∧ seconds + era < 2 ^ 31 + 2 ^ 32 := by
    split_ifs at hera <;> omega
  rw [checkedI64_eq (by omega), bind_some, checkedI64_eq (by omega), bind_some,
    checkedU64_eq (by omega), bind_some, checkedU64_eq (by omega), bind_some,
    checkedI64_eq (by omega), bind_some, checkedI64_eq (by omega), bind_some]
  rfl

theorem fraction_back (h : n < 1000000000) : ∃ f, (n * 2 ^ 32 + 999999999) / 1000000000 = f ∧ f < 2 ^ 32 ∧
    (f * 1000000000 + 2 ^ 31) / 2 ^ 32 = n ∧ f * 1000000000 / 2 ^ 32 = n := by
  refine ⟨_, rfl, ?_, ?_, ?_⟩ <;> omega

theorem unixNanosFromNtp_back (hlow : 2 ^ 31 ≤ ntpNanos u / nanosPerSecond)
    (hupp : ntpNanos u / nanosPerSecond < 2 ^ 31 + 2 ^ 32) (hne : ntpFromUnixNanos u ≠ some 0) :
    ∃ ntp, ntpFromUnixNanos u = some ntp ∧ unixNanosFromNtp ntp = some (some u) ∧
      (ntp % 2 ^ 32 * nanosPerSecond / 2 ^ 32 : Nat) = u % nanosPerSecond := by
  obtain ⟨since, hsince⟩ := Int.eq_ofNat_of_zero_le (a := ntpNanos u) (by unfold nanosPerSecond at hlow; omega)
  have hu : u = since - 2208988800 * 1000000000 := by
    have hsum : ntpNanos u = u + 2208988800 * 1000000000 := rfl
    omega
  unfold nanosPerSecond at *
  rw [ntpFromUnixNanos_eq (by omega) (by omega), hsince, Int.toNat_natCast] at hne ⊢
  unfold nanosPerSecond at hne ⊢
  obtain ⟨fraction, hfraction, hlt, hnearest, hfloor⟩ := fraction_back (Nat.mod_lt since (by decide))
  rw [hfraction] at hne ⊢
  have hpart : (2 ^ 32 * (since / 1000000000 % 2 ^ 32) + fraction) % 2 ^ 32 = fraction := by omega
  refine ⟨_, rfl, ?_, by rw [hpart, hfloor]; omega⟩
  rw [unixNanosFromNtp_eq (Nat.mod_lt _ (by decide)) hlt fun h => hne (congrArg some h), hnearest]
  congr 2
  split_ifs <;> omega

theorem ntpFromUnixNanos_lt (hu : 0 ≤ ntpNanos u) (hv : v < 2 ^ 63) (huv : u < v)
    (hera : ntpNanos u / nanosPerSecond / 2 ^ 32 = ntpNanos v / nanosPerSecond / 2 ^ 32) :
    ∃ a b, ntpFromUnixNanos u = some a ∧ ntpFromUnixNanos v = some b ∧ a < b := by
  have hstep : ntpNanos u < ntpNanos v := by unfold ntpNanos; omega
  refine ⟨_, _, ntpFromUnixNanos_eq hu (by omega), ntpFromUnixNanos_eq (by omega) hv, ?_⟩
  obtain ⟨a, ha⟩ := Int.eq_ofNat_of_zero_le hu
  obtain ⟨b, hb⟩ := Int.eq_ofNat_of_zero_le (hu.trans hstep.le)
  rw [ha, hb] at hstep hera ⊢
  simp only [Int.toNat_natCast]
  unfold nanosPerSecond at *
  -- the seconds decide, and within a second the nanoseconds do
  have hfraction : (a % 1000000000 * 2 ^ 32 + 999999999) / 1000000000 < 2 ^ 32 := by omega
  rcases Nat.lt_or_ge (a / 1000000000) (b / 1000000000) with hlt | hge
  · have hseconds : a / 1000000000 % 2 ^ 32 < b / 1000000000 % 2 ^ 32 := by omega
    omega
  · have hsame : a / 1000000000 = b / 1000000000 := by omega
    have hnanos : a % 1000000000 + 1 ≤ b % 1000000000 := by omega
    rw [hsame]
    omega

/-! ## The ticks of a media clock -/

theorem scaleRounded_mono (numerator denominator : Nat) (h : a ≤ b) :
    scaleRounded a numerator denominator ≤ scaleRounded b numerator denominator := by
  unfold scaleRounded
  split_ifs
  · exact le_rfl
  · exact min_le_min_right _ (Nat.div_le_div_right (Nat.add_le_add_right (Nat.mul_le_mul_right _ h) _))

theorem nsToTicks_ticksToNs (hpos : 0 < rate) (hrate : rate ≤ nanosPerSecond) (ht : t < 2 ^ 64)
    (hfits : t * nanosPerSecond < (2 ^ 64 - 1) * rate) : nsToTicks (ticksToNs t rate) rate = t := by
  rw [Nat.sub_mul, one_mul, Nat.lt_sub_iff_add_lt] at hfits
  rw [nsToTicks, ticksToNs_eq, scaleRounded, scaleRounded, if_neg (by decide), if_neg hpos.ne']
  unfold nanosPerSecond at *
  have hsplit := Nat.div_add_mod (t * 1000000000 + rate / 2) rate
  have hmod := Nat.mod_lt (t * 1000000000 + rate / 2) hpos
  have hns : (t * 1000000000 + rate / 2) / rate < 2 ^ 64 := by
    rw [Nat.div_lt_iff_lt_mul hpos]
    omega
  rw [min_eq_left (Nat.le_sub_one_of_lt hns), mul_comm]
  generalize (t * 1000000000 + rate / 2) / rate = ns at hsplit
  have hback : (rate * ns + 1000000000 / 2) / 1000000000 = t := by
    rcases hrate.lt_or_eq with hlt | rfl <;> omega
  omega

end

/-- The conversions give back what was converted, and keep the order. -/
theorem conversions_inverse :
    (∀ u, 2 ^ 31 ≤ ntpNanos u / nanosPerSecond → ntpNanos u / nanosPerSecond < 2 ^ 31 + 2 ^ 32 →
      ntpFromUnixNanos u ≠ some 0 → ∃ ntp, ntpFromUnixNanos u = some ntp ∧ unixNanosFromNtp ntp = some (some u) ∧
        (ntp % 2 ^ 32 * nanosPerSecond / 2 ^ 32 : Nat) = u % nanosPerSecond) ∧
    (∀ u v : Int, 0 ≤ ntpNanos u → u < v → v < 2 ^ 63 →
      ntpNanos u / nanosPerSecond / 2 ^ 32 = ntpNanos v / nanosPerSecond / 2 ^ 32 →
      ∃ a b, ntpFromUnixNanos u = some a ∧ ntpFromUnixNanos v = some b ∧ a < b) ∧
    (∀ rate t, 0 < rate → rate ≤ nanosPerSecond → t < 2 ^ 64 → t * nanosPerSecond < (2 ^ 64 - 1) * rate →
      nsToTicks (ticksToNs t rate) rate = t) ∧
    ∀ rate a b, a ≤ b → nsToTicks a rate ≤ nsToTicks b rate ∧ ticksToNs a rate ≤ ticksToNs b rate :=
  ⟨fun _ => unixNanosFromNtp_back, fun _ _ hu huv hv => ntpFromUnixNanos_lt hu hv huv,
    fun _ _ => nsToTicks_ticksToNs, fun _ _ _ h => ⟨scaleRounded_mono _ _ h, scaleRounded_mono _ _ h⟩⟩

theorem conversions_inverse_one : nsToTicks (ticksToNs 3003 90000) 90000 = 3003 :=
  conversions_inverse.2.2.1 90000 3003 (by decide) (by decide) (by decide) (by decide)

end Glass2Glass
