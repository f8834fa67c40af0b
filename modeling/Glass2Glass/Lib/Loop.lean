import Mathlib.Data.List.Forall2

/-!
# Loops that may fail

Rules for folds in `Except`: what a successful run of a loop preserves and establishes. A property is
established by one pass of the loop and kept by the later ones (`foldlM_establishes`). `Meets` says of one computation what its value satisfies if it succeeds and
what its error satisfies if it fails, with the rules for sequencing and loops.
-/

namespace Loop

open List

variable {ε σ α β : Type} {x : Except ε α} {f : α → Except ε β}

theorem bind_eq_ok {b : β} : (x >>= f) = .ok b ↔ ∃ a, x = .ok a ∧ f a = .ok b := by
  cases x <;> simp [bind, Except.bind]

theorem bind_ne_error {e : ε} (h : x ≠ .error e) (h' : ∀ a, f a ≠ .error e) : (x >>= f) ≠ .error e := by
  cases x with
  | error e' => exact fun heq => h (congrArg Except.error (Except.error.inj heq))
  | ok a => exact h' a

theorem map_ne_error {f : α → β} {e : ε} (h : x ≠ .error e) : x.map f ≠ .error e := by
  cases x with
  | error e' => exact fun heq => h (congrArg Except.error (Except.error.inj heq))
  | ok a => exact fun heq => by cases heq

variable {l : List α}

theorem mapM_eq_ok {r : List β} (h : l.mapM f = .ok r) : List.Forall₂ (fun a b => f a = .ok b) l r := by
  induction l generalizing r with
  | nil =>
    obtain rfl := Except.ok.inj h
    exact .nil
  | cons a l ih =>
    rw [mapM_cons] at h
    obtain ⟨b, hb, h⟩ := bind_eq_ok.1 h
    obtain ⟨bs, hbs, h⟩ := bind_eq_ok.1 h
    obtain rfl := Except.ok.inj h
    exact .cons hb (ih hbs)

theorem forM_eq_ok {f : α → Except ε Unit} : l.forM f = .ok () ↔ ∀ a ∈ l, f a = .ok () := by
  induction l with
  | nil => simp [pure, Except.pure]
  | cons a l ih =>
    rw [List.forM, bind_eq_ok, forall_mem_cons, ih]
    exact ⟨fun ⟨(), ha, hl⟩ => ⟨ha, hl⟩, fun ⟨ha, hl⟩ => ⟨(), ha, hl⟩⟩

theorem exists_of_forM_eq_error {f : α → Except ε Unit} {err : ε}
    (h : l.forM f = .error err) : ∃ a ∈ l, f a = .error err := by
  induction l with
  | nil => cases h
  | cons a l ih =>
    rw [List.forM] at h
    rcases ha : f a with err' | u
    · rw [ha] at h
      cases h
      exact ⟨a, mem_cons_self, ha⟩
    · rw [ha] at h
      obtain ⟨b, hb, hfb⟩ := ih h
      exact ⟨b, mem_cons_of_mem a hb, hfb⟩

variable {step : σ → α → Except ε σ} {P : σ → Prop} {s s' : σ}

theorem foldlM_keeps (hstep : ∀ a ∈ l, ∀ s s', step s a = .ok s' → P s → P s') (h : l.foldlM step s = .ok s')
    (hs : P s) : P s' := by
  induction l generalizing s with
  | nil =>
    obtain rfl := Except.ok.inj h
    exact hs
  | cons a l ih =>
    obtain ⟨mid, hmid, h⟩ := bind_eq_ok.1 h
    exact ih (fun b hb => hstep b (mem_cons_of_mem a hb)) h (hstep a mem_cons_self s mid hmid hs)

theorem foldlM_establishes {pre post : List α} {a : α} (hest : ∀ s s', step s a = .ok s' → P s')
    (hkeep : ∀ b ∈ post, ∀ s s', step s b = .ok s' → P s → P s')
    (h : (pre ++ a :: post).foldlM step s = .ok s') : P s' := by
  rw [foldlM_append] at h
  obtain ⟨mid, -, h⟩ := bind_eq_ok.1 h
  obtain ⟨mid', hmid', h⟩ := bind_eq_ok.1 h
  exact foldlM_keeps hkeep h (hest mid mid' hmid')

theorem exists_pass_of_foldlM {a : α} (ha : a ∈ l) (h : l.foldlM step s = .ok s') : ∃ t t', step t a = .ok t' := by
  obtain ⟨pre, post, rfl⟩ := append_of_mem ha
  rw [foldlM_append] at h
  obtain ⟨mid, -, h⟩ := bind_eq_ok.1 h
  obtain ⟨mid', hmid', -⟩ := bind_eq_ok.1 h
  exact ⟨mid, mid', hmid'⟩

/-! ## Success and failure together -/

/-- The computation succeeds with a value in `P` or fails with an error in `E`. -/
def Meets (P : α → Prop) (E : ε → Prop) : Except ε α → Prop
  | .ok a => P a
  | .error e => E e

namespace Meets

variable {P : α → Prop} {Q : β → Prop} {E : ε → Prop}

variable {x : Except ε α}

theorem mono {P' : α → Prop} (h : Meets P E x) (hP : ∀ a, P a → P' a) : Meets P' E x := by
  cases x with
  | ok a => exact hP a h
  | error e => exact h

theorem of_ok {a : α} (h : Meets P E x) (hx : x = .ok a) : P a := by
  rw [hx] at h
  exact h

theorem of_error {e : ε} (h : Meets P E x) (hx : x = .error e) : E e := by
  rw [hx] at h
  exact h

theorem bind {f : α → Except ε β} (hx : Meets P E x)
    (hf : ∀ a, x = .ok a → P a → Meets Q E (f a)) : Meets Q E (x >>= f) := by
  cases x with
  | ok a => exact hf a rfl hx
  | error e => exact hx

theorem foldlM {P : σ → Prop} {l : List α} (hstep : ∀ a ∈ l, ∀ s, P s → Meets P E (step s a))
    (hs : P s) : Meets P E (l.foldlM step s) := by
  induction l generalizing s with
  | nil => exact hs
  | cons a l ih =>
    exact (hstep a mem_cons_self s hs).bind fun s' _ hs' =>
      ih (fun b hb => hstep b (mem_cons_of_mem a hb)) hs'

theorem mapM {f : α → Except ε β} {l : List α} (hf : ∀ a ∈ l, Meets (fun _ => True) E (f a)) :
    Meets (fun _ => True) E (l.mapM f) := by
  induction l with
  | nil => exact trivial
  | cons a l ih =>
    rw [mapM_cons]
    refine (hf a mem_cons_self).bind fun b _ _ => ?_
    exact (ih fun b hb => hf b (mem_cons_of_mem a hb)).bind fun _ _ _ => trivial

end Meets

end Loop
