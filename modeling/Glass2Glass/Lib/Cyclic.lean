import Mathlib.Data.Nat.ModEq

/-!
# Numbers around a ring

A counter that grows without bound, seen modulo the size `n` of a ring. Within a window of `n`
consecutive numbers the residues are distinct (`eq_of_mod_eq`), and the distance of two counters can be
read off their residues (`sub_eq_of_mod`).
-/

namespace Cyclic

variable {n a b c : Nat}

theorem eq_of_mod_eq (ha : c ≤ a) (ha' : a < c + n) (hb : c ≤ b) (hb' : b < c + n) (h : a % n = b % n) : a = b := by
  rcases Nat.le_total a b with hab | hab
  · have hdvd : n ∣ b - a := (Nat.modEq_iff_dvd' hab).1 h
    have := Nat.eq_zero_of_dvd_of_lt hdvd (by omega)
    omega
  · have hdvd : n ∣ a - b := (Nat.modEq_iff_dvd' hab).1 h.symm
    have := Nat.eq_zero_of_dvd_of_lt hdvd (by omega)
    omega

theorem sub_eq_of_mod (hab : a ≤ b) (hb : b < a + n) : (b % n + n - a % n) % n = b - a := by
  have hn : 0 < n := by omega
  have ha := Nat.mod_lt a hn
  have hsplit : b % n = (a % n + (b - a)) % n := by
    rw [Nat.mod_add_mod, Nat.add_sub_cancel' hab]
  rw [hsplit]
  rcases Nat.lt_or_ge (a % n + (b - a)) n with hlt | hge
  · rw [Nat.mod_eq_of_lt hlt]
    have hadd : a % n + (b - a) + n - a % n = b - a + n := by omega
    rw [hadd, Nat.add_mod_right, Nat.mod_eq_of_lt (by omega)]
  · have hwrapped : a % n + (b - a) - n < n := by omega
    rw [Nat.mod_eq_sub_mod hge, Nat.mod_eq_of_lt hwrapped]
    have hadd : a % n + (b - a) - n + n - a % n = b - a := by omega
    rw [hadd, Nat.mod_eq_of_lt (by omega)]

end Cyclic
