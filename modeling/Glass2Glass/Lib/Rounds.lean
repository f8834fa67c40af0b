import Mathlib.Data.Option.Basic

/-!
# Loops that put something out

`loop` takes a step for as long as there is one, `rounds` runs an inner loop and goes on while there is a next round.
Both collect what is put out, and return nothing when the fuel runs out first. What a step keeps holds at the end
(`loop_keeps`, `rounds_keeps`), where there is no step left, and a measure that every step lowers is fuel enough
(`loop_stops`, `rounds_stops`).
-/

namespace Rounds

variable {σ α : Type} {step inner : σ → Option (σ × List α)} {next : σ → Option σ} {fuel : Nat} {s s' : σ}
  {out new : List α} {P : σ → List α → Prop} {I : σ → Prop} {measure : σ → Nat}

/-- Take a step for as long as there is one. -/
def loop (step : σ → Option (σ × List α)) : Nat → σ → Option (σ × List α)
  | 0, _ => none
  | fuel + 1, s =>
    match step s with
    | none => some (s, [])
    | some done => (loop step fuel done.1).map fun later => (later.1, done.2 ++ later.2)

/-- Run the inner loop, once more for as long as there is a next round. -/
def rounds (inner : σ → Option (σ × List α)) (next : σ → Option σ) : Nat → σ → Option (σ × List α)
  | 0, _ => none
  | fuel + 1, s =>
    (inner s).bind fun done =>
      match next done.1 with
      | none => some done
      | some s' => (rounds inner next fuel s').map fun later => (later.1, done.2 ++ later.2)

theorem loop_keeps (out : List α) (hstep : ∀ s out s' new, P s out → step s = some (s', new) → P s' (out ++ new))
    (h : loop step fuel s = some (s', new)) (hs : P s out) : P s' (out ++ new) ∧ step s' = none := by
  induction fuel generalizing s out new with
  | zero => cases h
  | succ fuel ih =>
    rw [loop] at h
    rcases hdone : step s with _ | done
    · rw [hdone] at h
      obtain ⟨rfl, rfl⟩ := Prod.mk.inj (Option.some.inj h)
      rw [List.append_nil]
      exact ⟨hs, hdone⟩
    · rw [hdone] at h
      obtain ⟨later, hlater, heq⟩ := Option.map_eq_some_iff.1 h
      obtain ⟨rfl, rfl⟩ := Prod.mk.inj heq
      rw [← List.append_assoc]
      exact ih _ hlater (hstep s out done.1 done.2 hs hdone)

/-- What the inner loop leads to, and the next round leads back from, holds at the end, where there is no next
round. -/
theorem rounds_keeps {Q : σ → List α → Prop} (out : List α)
    (hinner : ∀ s out s' new, P s out → inner s = some (s', new) → Q s' (out ++ new))
    (hnext : ∀ s out s', Q s out → next s = some s' → P s' out)
    (h : rounds inner next fuel s = some (s', new)) (hs : P s out) : Q s' (out ++ new) ∧ next s' = none := by
  induction fuel generalizing s out new with
  | zero => cases h
  | succ fuel ih =>
    obtain ⟨done, hdone, h⟩ := Option.bind_eq_some_iff.1 h
    have hkept := hinner s out done.1 done.2 hs hdone
    rcases hmore : next done.1 with _ | mid
    · rw [hmore] at h
      obtain rfl := Option.some.inj h
      exact ⟨hkept, hmore⟩
    · rw [hmore] at h
      obtain ⟨later, hlater, heq⟩ := Option.map_eq_some_iff.1 h
      obtain ⟨rfl, rfl⟩ := Prod.mk.inj heq
      rw [← List.append_assoc]
      exact ih _ hlater (hnext _ _ _ hkept hmore)

theorem loop_stops (hstep : ∀ s s' new, I s → step s = some (s', new) → I s' ∧ measure s' < measure s)
    (hs : I s) (hfuel : measure s < fuel) :
    ∃ s' new, loop step fuel s = some (s', new) ∧ I s' ∧ measure s' ≤ measure s := by
  induction fuel generalizing s with
  | zero => exact absurd hfuel (Nat.not_lt_zero _)
  | succ fuel ih =>
    rcases hdone : step s with _ | done
    · exact ⟨s, [], by rw [loop, hdone], hs, Nat.le_refl _⟩
    · obtain ⟨hkept, hlt⟩ := hstep s done.1 done.2 hs hdone
      obtain ⟨s', new, hloop, hI, hle⟩ := ih hkept (by omega)
      refine ⟨s', done.2 ++ new, ?_, hI, by omega⟩
      rw [loop, hdone]
      exact congrArg (Option.map _) hloop

/-- So is one that the inner loop does not raise and every further round lowers. -/
theorem rounds_stops (hinner : ∀ s, I s → measure s < fuel →
      ∃ s' new, inner s = some (s', new) ∧ I s' ∧ measure s' ≤ measure s)
    (hnext : ∀ s s' new mid, I s → inner s = some (s', new) → next s' = some mid → I mid ∧ measure mid < measure s')
    {n : Nat} (hs : I s) (hfuel : measure s < fuel) (hn : measure s < n) :
    ∃ s' new, rounds inner next n s = some (s', new) ∧ I s' ∧ measure s' ≤ measure s := by
  induction n generalizing s with
  | zero => exact absurd hn (Nat.not_lt_zero _)
  | succ n ih =>
    obtain ⟨mid, new, hdone, hI, hle⟩ := hinner s hs hfuel
    rcases hmore : next mid with _ | later
    · refine ⟨mid, new, ?_, hI, hle⟩
      rw [rounds, hdone, Option.bind_some]
      rw [hmore]
    · obtain ⟨hkept, hlt⟩ := hnext s mid new later hs hdone hmore
      obtain ⟨s', newer, hrounds, hI', hle'⟩ := ih hkept (by omega) (by omega)
      refine ⟨s', new ++ newer, ?_, hI', by omega⟩
      rw [rounds, hdone, Option.bind_some]
      rw [hmore]
      exact congrArg (Option.map _) hrounds

end Rounds
