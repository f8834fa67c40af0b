import Mathlib.Data.Option.Basic

/-!
# Machines

A machine takes atomic actions, each possible only in some states. An interleaving of several parties
is a list of their actions. What holds at the start and is kept by every action holds after every run
(`run_keeps`), also when it is kept only by actions that meet a condition, as long as all the actions of
the run do (`run_keeps_along`).
-/

namespace Machine

variable {σ α : Type} {step : σ → α → Option σ} {s s' : σ}

/-- The state after a list of actions, if each is possible in its turn. -/
def run (step : σ → α → Option σ) (s : σ) (actions : List α) : Option σ := actions.foldlM step s

theorem run_nil : run step s [] = some s := rfl

variable {actions : List α} {a : α}

theorem run_cons_eq_some :
    run step s (a :: actions) = some s' ↔ ∃ mid, step s a = some mid ∧ run step mid actions = some s' := by
  unfold run
  exact Option.bind_eq_some_iff

theorem run_append_eq_some {first second : List α} : run step s (first ++ second) = some s' ↔
      ∃ mid, run step s first = some mid ∧ run step mid second = some s' := by
  unfold run
  rw [List.foldlM_append]
  exact Option.bind_eq_some_iff

variable {P : σ → Prop}

theorem run_keeps (hstep : ∀ s, ∀ a ∈ actions, ∀ s', P s → step s a = some s' → P s')
    (h : run step s actions = some s') (hs : P s) : P s' := by
  induction actions generalizing s with
  | nil =>
    obtain rfl := Option.some.inj h
    exact hs
  | cons a actions ih =>
    obtain ⟨mid, hmid, h⟩ := run_cons_eq_some.1 h
    exact ih (fun s a ha => hstep s a (List.mem_cons_of_mem _ ha)) h (hstep s a List.mem_cons_self mid hs hmid)

/-- Every action of a list meets a condition on the state before it. -/
def Along (step : σ → α → Option σ) (C : σ → α → Prop) (s : σ) (actions : List α) : Prop :=
  ∀ before a after mid, actions = before ++ a :: after → run step s before = some mid → C mid a

variable {C : σ → α → Prop}

theorem along_cons {mid : σ} (h : Along step C s (a :: actions)) (hmid : step s a = some mid) :
    C s a ∧ Along step C mid actions := by
  refine ⟨h [] a actions s rfl run_nil, fun before b after s' heq hs' => ?_⟩
  refine h (a :: before) b after s' ?_ (run_cons_eq_some.2 ⟨mid, hmid, hs'⟩)
  rw [heq, List.cons_append]

theorem along_nil : Along step C s [] :=
  fun _ _ _ _ heq => absurd heq.symm (by simp)

theorem Along.cons (ha : C s a)
    (h : ∀ mid, step s a = some mid → Along step C mid actions) : Along step C s (a :: actions) := by
  intro before b after s' heq hs'
  cases before with
  | nil =>
    obtain ⟨rfl, -⟩ := List.cons.inj heq
    obtain rfl := Option.some.inj hs'
    exact ha
  | cons c before =>
    obtain ⟨rfl, hrest⟩ := List.cons.inj heq
    obtain ⟨mid, hmid, hs'⟩ := run_cons_eq_some.1 hs'
    exact h mid hmid before b after s' hrest hs'

/-- Whether every action of a list meets a condition on the state before it. -/
def check (step : σ → α → Option σ) (C : σ → α → Bool) : σ → List α → Bool
  | _, [] => true
  | s, a :: actions => C s a && (step s a).all fun mid => check step C mid actions

theorem along_of_check {C : σ → α → Bool} (h : check step C s actions = true) :
    Along step (fun s a => C s a = true) s actions := by
  induction actions generalizing s with
  | nil => exact along_nil
  | cons a actions ih =>
    obtain ⟨ha, hrest⟩ := Bool.and_eq_true_iff.1 h
    refine Along.cons ha fun mid hmid => ih ?_
    rw [hmid] at hrest
    exact hrest

theorem run_keeps_along (hstep : ∀ s a s', P s → C s a → step s a = some s' → P s')
    (h : run step s actions = some s') (halong : Along step C s actions) (hs : P s) : P s' := by
  induction actions generalizing s with
  | nil =>
    obtain rfl := Option.some.inj h
    exact hs
  | cons a actions ih =>
    obtain ⟨mid, hmid, h⟩ := run_cons_eq_some.1 h
    obtain ⟨hc, halong⟩ := along_cons halong hmid
    exact ih h halong (hstep s a mid hs hc hmid)

theorem exists_run (hstep : ∀ s, P s → ∀ a ∈ actions, ∃ s', step s a = some s' ∧ P s') (hs : P s) :
    ∃ s', run step s actions = some s' ∧ P s' := by
  induction actions generalizing s with
  | nil => exact ⟨s, run_nil, hs⟩
  | cons a actions ih =>
    obtain ⟨mid, hmid, hp⟩ := hstep s hs a List.mem_cons_self
    obtain ⟨s', hrun, hp'⟩ := ih (fun s hs a ha => hstep s hs a (List.mem_cons_of_mem _ ha)) hp
    exact ⟨s', run_cons_eq_some.2 ⟨mid, hmid, hrun⟩, hp'⟩

end Machine
