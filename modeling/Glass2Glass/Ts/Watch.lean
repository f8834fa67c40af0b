import Glass2Glass.Ts.Muxer
import Mathlib.Data.List.Chain
import Mathlib.Data.List.Nodup

/-!
# Watching a multiplex

A receiver that watches a multiplex keeps the next continuity counter and the last clock reference of every PID,
and how many bytes went by (`Watch`). Packets that it admits one after the other (`AdmitsAll`) have, on every PID,
counters that go up by one and clock references that do not go back.
-/

namespace Glass2Glass.Ts

open List Function

/-- What a receiver keeps: the next continuity counter and the last clock reference of every PID, and the bytes
so far. -/
structure Watch where
  cc : Nat → Nat
  pcr : Nat → Option Nat
  pos : Nat

namespace Watch

def next (s : Watch) (p : TsPacket) : Watch where
  cc := if p.payload = [] then s.cc else Function.update s.cc p.pid ((s.cc p.pid + 1) % continuityCounterModulus)
  pcr := if p.adaptation.pcr27mhz.isSome then Function.update s.pcr p.pid p.adaptation.pcr27mhz else s.pcr
  pos := s.pos + tsPacketLen

/-- The packet is the next one: its counter goes on, or repeats without a payload, its clock reference does not
go back, and `R` holds of the byte it refers to and of its value. -/
structure Admits (R : Nat → Nat → Prop) (s : Watch) (p : TsPacket) : Prop where
  fits : p.Fits
  counter : p.pid ≠ pidNull → p.payload ≠ [] → p.cc = s.cc p.pid
  repeats : p.pid ≠ pidNull → p.payload = [] →
    p.cc = (s.cc p.pid + (continuityCounterModulus - 1)) % continuityCounterModulus
  forward : ∀ v ∈ p.adaptation.pcr27mhz, ∀ l ∈ s.pcr p.pid, l ≤ v
  onClock : ∀ v ∈ p.adaptation.pcr27mhz, R (s.pos + Writing.pcrByteOffset) v

/-- The packets are admitted one after the other. -/
def AdmitsAll (R : Nat → Nat → Prop) : Watch → List TsPacket → Prop
  | _, [] => True
  | s, p :: ps => s.Admits R p ∧ AdmitsAll R (s.next p) ps

def after (s : Watch) (ps : List TsPacket) : Watch := ps.foldl next s

variable {R : Nat → Nat → Prop} {s : Watch} {p : TsPacket} {ps qs : List TsPacket} {pid : Nat}

theorem after_append : s.after (ps ++ qs) = (s.after ps).after qs := foldl_append

theorem admitsAll_append : s.AdmitsAll R (ps ++ qs) ↔ s.AdmitsAll R ps ∧ (s.after ps).AdmitsAll R qs := by
  induction ps generalizing s with
  | nil => exact ⟨fun h => ⟨trivial, h⟩, fun h => h.2⟩
  | cons p ps ih =>
    rw [cons_append, AdmitsAll, AdmitsAll, ih, and_assoc]
    rfl

theorem pos_after (s : Watch) (ps : List TsPacket) : (s.after ps).pos = s.pos + tsPacketLen * ps.length := by
  induction ps generalizing s with
  | nil => rfl
  | cons p ps ih =>
    have hcons := ih (s.next p)
    rw [length_cons, Nat.mul_succ, Nat.add_comm _ tsPacketLen, ← Nat.add_assoc]
    exact hcons

theorem AdmitsAll.fits (h : s.AdmitsAll R ps) (hp : p ∈ ps) : p.Fits := by
  obtain ⟨before, behind, rfl⟩ := append_of_mem hp
  exact (admitsAll_append.1 h).2.1.fits

theorem length_bytes (h : s.AdmitsAll R ps) : (ps.flatMap TsPacket.bytes).length = tsPacketLen * ps.length := by
  induction ps generalizing s with
  | nil => rfl
  | cons p ps ih =>
    rw [flatMap_cons, length_append, p.length_bytes h.1.fits, ih h.2, length_cons, Nat.mul_succ, Nat.add_comm]

/-! ## The counters and the references of a PID -/

theorem cc_next_of_ne (h : p.pid ≠ pid) : (s.next p).cc pid = s.cc pid := by
  unfold next
  dsimp only
  split_ifs
  · rfl
  · exact update_of_ne h.symm _ _

theorem cc_next_self (h : p.payload ≠ []) : (s.next p).cc p.pid = (s.cc p.pid + 1) % continuityCounterModulus := by
  unfold next
  dsimp only
  rw [if_neg h, update_self]

def carrying (pid : Nat) (ps : List TsPacket) : List TsPacket := ps.filter fun p => p.pid = pid ∧ p.payload ≠ []

theorem cc_next_of_not_carrying (h : ¬(p.pid = pid ∧ p.payload ≠ [])) : (s.next p).cc pid = s.cc pid := by
  by_cases hpid : p.pid = pid
  · unfold next
    rw [if_pos (not_not.1 fun hne => h ⟨hpid, hne⟩)]
  · exact cc_next_of_ne hpid

theorem AdmitsAll.counters (h : s.AdmitsAll R ps) (hpid : pid ≠ pidNull) :
    ((carrying pid ps).map TsPacket.cc).IsChain (fun a b => b = (a + 1) % continuityCounterModulus) ∧
      ∀ c ∈ ((carrying pid ps).map TsPacket.cc).head?, c = s.cc pid := by
  induction ps generalizing s with
  | nil => exact ⟨List.IsChain.nil, nofun⟩
  | cons p ps ih =>
    obtain ⟨hchain, hfirst⟩ := ih h.2
    unfold carrying at *
    by_cases hp : p.pid = pid ∧ p.payload ≠ []
    · have hcc : p.cc = s.cc pid := by
        rw [h.1.counter (hp.1.symm ▸ hpid) hp.2, hp.1]
      have hnext : (s.next p).cc pid = (p.cc + 1) % continuityCounterModulus := by
        rw [hcc, ← hp.1]
        exact cc_next_self hp.2
      rw [filter_cons_of_pos (by exact decide_eq_true hp), map_cons]
      refine ⟨List.isChain_cons.2 ⟨fun c hc => (hfirst c hc).trans hnext, hchain⟩, fun c hc => ?_⟩
      obtain rfl : p.cc = c := Option.some.inj hc
      exact hcc
    · rw [filter_cons_of_neg (by exact decide_eq_false hp ▸ Bool.false_ne_true)]
      rw [cc_next_of_not_carrying hp] at hfirst
      exact ⟨hchain, hfirst⟩

theorem AdmitsAll.cc_after (h : s.AdmitsAll R ps) (hpid : pid ≠ pidNull) {last : TsPacket}
    (hlast : (carrying pid ps).getLast? = some last) :
    (s.after ps).cc pid = (last.cc + 1) % continuityCounterModulus := by
  induction ps using List.reverseRecOn with
  | nil => exact absurd hlast nofun
  | append_singleton ps p ih =>
    obtain ⟨hps, hp, -⟩ := admitsAll_append.1 h
    have hafter : s.after (ps ++ [p]) = (s.after ps).next p := after_append
    unfold carrying at hlast ih
    rw [filter_append] at hlast
    rw [hafter]
    by_cases hcarries : p.pid = pid ∧ p.payload ≠ []
    · rw [filter_cons_of_pos (by exact decide_eq_true hcarries), filter_nil,
        List.getLast?_append_of_ne_nil _ (cons_ne_nil _ _)] at hlast
      obtain rfl : p = last := Option.some.inj hlast
      rw [← hcarries.1, cc_next_self hcarries.2, hp.counter (hcarries.1.symm ▸ hpid) hcarries.2]
    · rw [filter_cons_of_neg (by exact decide_eq_false hcarries ▸ Bool.false_ne_true), filter_nil, append_nil] at hlast
      rw [cc_next_of_not_carrying hcarries]
      exact ih hps hlast

theorem AdmitsAll.repeats {before behind : List TsPacket} (h : s.AdmitsAll R (before ++ p :: behind))
    (hpid : p.pid ≠ pidNull) (hempty : p.payload = []) {last : TsPacket}
    (hlast : (carrying p.pid before).getLast? = some last) : p.cc = last.cc := by
  obtain ⟨hbefore, hp, -⟩ := admitsAll_append.1 h
  have hlt : last.cc < continuityCounterModulus :=
    (hbefore.fits (List.mem_filter.1 (mem_of_getLast? hlast)).1).cc
  rw [hp.repeats hpid hempty, hbefore.cc_after hpid hlast]
  unfold continuityCounterModulus at *
  omega

def clocks (pid : Nat) (ps : List TsPacket) : List Nat :=
  (ps.filter fun p => p.pid = pid).filterMap fun p => p.adaptation.pcr27mhz

theorem AdmitsAll.forward (h : s.AdmitsAll R ps) (pid : Nat) :
    (clocks pid ps).Pairwise (· ≤ ·) ∧ ∀ l ∈ s.pcr pid, ∀ v ∈ clocks pid ps, l ≤ v := by
  induction ps generalizing s with
  | nil => exact ⟨List.Pairwise.nil, fun _ _ => nofun⟩
  | cons p ps ih =>
    obtain ⟨hpairs, hlast⟩ := ih h.2
    unfold clocks at *
    by_cases hp : p.pid = pid
    · rw [filter_cons_of_pos (by exact decide_eq_true hp)]
      rcases hpcr : p.adaptation.pcr27mhz with _ | v
      · rw [filterMap_cons_none (f := fun p : TsPacket => p.adaptation.pcr27mhz) hpcr]
        refine ⟨hpairs, fun l hl => hlast l ?_⟩
        unfold next
        rw [hpcr]
        exact hl
      · have hnext : (s.next p).pcr pid = some v := by
          unfold next
          rw [hpcr, ← hp]
          exact update_self ..
        rw [filterMap_cons_some (f := fun p : TsPacket => p.adaptation.pcr27mhz) hpcr]
        have hle : ∀ w ∈ (ps.filter fun p => p.pid = pid).filterMap fun p => p.adaptation.pcr27mhz, v ≤ w :=
          hlast v hnext
        refine ⟨List.pairwise_cons.2 ⟨hle, hpairs⟩, fun l hl w hw => ?_⟩
        have hlv : l ≤ v := h.1.forward v hpcr l (hp.symm ▸ hl)
        rcases List.mem_cons.1 hw with rfl | hw
        · exact hlv
        · exact hlv.trans (hle w hw)
    · rw [filter_cons_of_neg (by exact decide_eq_false hp ▸ Bool.false_ne_true)]
      refine ⟨hpairs, fun l hl => hlast l ?_⟩
      unfold next
      dsimp only
      split_ifs
      · rw [update_of_ne (Ne.symm hp)]
        exact hl
      · exact hl

theorem AdmitsAll.onClock (h : s.AdmitsAll R ps) {i v : Nat} (hp : ps[i]? = some p)
    (hv : p.adaptation.pcr27mhz = some v) : R (s.pos + tsPacketLen * i + Writing.pcrByteOffset) v := by
  have hlt : i < ps.length := (List.getElem?_eq_some_iff.1 hp).1
  have hsplit : ps.take i ++ p :: ps.drop (i + 1) = ps := by
    rw [← (List.getElem?_eq_some_iff.1 hp).2, ← drop_eq_getElem_cons hlt, take_append_drop]
  rw [← hsplit] at h
  have honClock := (admitsAll_append.1 h).2.1.onClock v hv
  rw [pos_after, length_take, Nat.min_eq_left hlt.le] at honClock
  exact honClock

end Watch

end Glass2Glass.Ts
