import Mathlib.Tactic.Common

/-!
# Parsers that resume

A parser of a stream takes steps while it has the bytes for one, and then waits. Where a step with the bytes so far leads
to the same end as the steps with more bytes do, the pieces in which a stream arrives make no difference
(`Resume.reaches_pieces`).
-/

namespace Glass2Glass.Resume

variable {τ β : Type} (step : τ → Option τ) (append : τ → List β → τ)

/-- A state takes steps until it waits. -/
inductive Reaches : τ → τ → Prop
  | waits {t : τ} : step t = none → Reaches t t
  | step {t t' last : τ} : step t = some t' → Reaches t' last → Reaches t last

/-- Bytes are put behind those that wait. What arrives later does not change where a step leads, as long as the whole is
something that the parser is for. -/
structure Resumable (ok : τ → Prop) : Prop where
  append_nil : ∀ t, append t [] = t
  append_append : ∀ t a b, append (append t a) b = append t (a ++ b)
  step : ∀ {t t'}, step t = some t' → ∀ more, ok (append t more) →
    ok (append t' more) ∧ ∀ last, Reaches step (append t' more) last → Reaches step (append t more) last

variable {step append} {ok : τ → Prop}

theorem Reaches.unique {t a b : τ} (ha : Reaches step t a) (hb : Reaches step t b) : a = b := by
  induction ha with
  | waits hwait =>
    cases hb with
    | waits _ => rfl
    | step hstep _ =>
      rw [hwait] at hstep
      cases hstep
  | step hstep _ ih =>
    cases hb with
    | waits hwait =>
      rw [hwait] at hstep
      cases hstep
    | step hstep' hb =>
      rw [hstep] at hstep'
      cases hstep'
      exact ih hb

theorem Reaches.wait {t last : τ} (h : Reaches step t last) : step last = none := by
  induction h with
  | waits hwait => exact hwait
  | step _ _ ih => exact ih

theorem Resumable.resume (h : Resumable step append ok) {t waiting last : τ} {more : List β}
    (hfirst : Reaches step t waiting) (hok : ok (append t more)) :
    ok (append waiting more) ∧ (Reaches step (append waiting more) last → Reaches step (append t more) last) := by
  induction hfirst with
  | waits _ => exact ⟨hok, id⟩
  | step hstep _ ih =>
    obtain ⟨hok', hlast⟩ := h.step hstep more hok
    obtain ⟨hend, hmore⟩ := ih hok'
    exact ⟨hend, fun hreaches => hlast _ (hmore hreaches)⟩

theorem reaches_pieces (h : Resumable step append ok) {push : τ → List β → τ}
    (hpush : ∀ t piece, Reaches step (append t piece) (push t piece)) {t : τ} (hwait : step t = none)
    (pieces : List (List β)) (hok : ok (append t pieces.flatten)) :
    Reaches step (append t pieces.flatten) (pieces.foldl push t) := by
  induction pieces generalizing t with
  | nil =>
    rw [List.flatten_nil, h.append_nil]
    exact .waits hwait
  | cons piece pieces ih =>
    rw [List.flatten_cons, ← h.append_append] at hok ⊢
    obtain ⟨hok', hresume⟩ := h.resume (hpush t piece) hok
    exact hresume (ih (hpush t piece).wait hok')

theorem resumable_of_append (append_nil : ∀ t, append t [] = t)
    (append_append : ∀ t a b, append (append t a) b = append t (a ++ b))
    (hstep : ∀ {t t'}, step t = some t' → ∀ more, ok (append t more) →
      ok (append t' more) ∧ step (append t more) = some (append t' more)) : Resumable step append ok where
  append_nil := append_nil
  append_append := append_append
  step hone more hok := by
    obtain ⟨hok', hmore⟩ := hstep hone more hok
    exact ⟨hok', fun _ hlast => .step hmore hlast⟩

end Glass2Glass.Resume
