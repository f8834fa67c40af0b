import Mathlib.Data.List.DropRight
import Mathlib.Data.List.Forall2

/-!
# Text

Texts as lists of characters, with the operations of a string library that parsers of field lists are
written with: trimming, splitting at a separator, and numbers in a radix. What is printed by
`Nat.toDigits` is parsed back by `parseNat` (`parseNat_toDigits`).
-/

namespace Text

open List Option Nat

/-! ## White space -/

/-- The Unicode white space characters. -/
def isWhitespace (c : Char) : Bool :=
  let n := c.toNat
  (9 ≤ n && n ≤ 13) || n == 0x20 || n == 0x85 || n == 0xA0 || n == 0x1680 ||
    (0x2000 ≤ n && n ≤ 0x200A) || n == 0x2028 || n == 0x2029 || n == 0x202F || n == 0x205F ||
    n == 0x3000

/-- A text without the white space at its end. -/
def trimEnd (s : List Char) : List Char := s.rdropWhile isWhitespace

/-- A text without the white space around it. -/
def trim (s : List Char) : List Char := trimEnd (s.dropWhile isWhitespace)

/-- The ends of a text are no white space. -/
def Tight (s : List Char) : Prop :=
  (∀ c, s.head? = some c → isWhitespace c = false) ∧ ∀ c, s.getLast? = some c → isWhitespace c = false

variable {s : List Char}

theorem trim_of_head (h : ∀ c, s.head? = some c → isWhitespace c = false) : trim s = trimEnd s := by
  cases s with
  | nil => rfl
  | cons c s =>
    have hc : isWhitespace c = false := h c rfl
    rw [trim, dropWhile_cons_of_neg (by simp [hc])]

theorem trim_of_tight (h : Tight s) : trim s = s := by
  rw [trim_of_head h.1, trimEnd, rdropWhile_eq_self_iff]
  intro hne
  have hlast := h.2 (s.getLast hne) (List.getLast?_eq_some_getLast hne)
  simp [hlast]

theorem tight_of_forall (h : ∀ c ∈ s, isWhitespace c = false) : Tight s :=
  ⟨fun c hc => h c (mem_of_mem_head? hc), fun c hc => h c (mem_of_mem_getLast? hc)⟩

theorem trimEnd_append {a : List Char} (ha : trimEnd a = a) (b : List Char) : trimEnd (a ++ b) = a ++ trimEnd b := by
  induction b using List.reverseRecOn with
  | nil => simpa [trimEnd] using ha
  | append_singleton b c ih =>
    unfold trimEnd at *
    rw [← append_assoc]
    by_cases hc : isWhitespace c = true
    · rw [rdropWhile_concat_pos _ _ _ hc, rdropWhile_concat_pos _ _ _ hc, ih]
    · rw [rdropWhile_concat_neg _ _ _ hc, rdropWhile_concat_neg _ _ _ hc, append_assoc]

theorem trimEnd_cases (s : List Char) : trimEnd s = s ∨ ∃ x t, s = trimEnd s ++ x :: t ∧ isWhitespace x = true := by
  have hsplit : trimEnd s ++ s.rtakeWhile isWhitespace = s := rdropWhile_append_rtakeWhile ..
  cases ht : s.rtakeWhile isWhitespace with
  | nil =>
    rw [ht, append_nil] at hsplit
    exact Or.inl hsplit
  | cons x t =>
    have hx : x ∈ s.rtakeWhile isWhitespace := ht ▸ mem_cons_self
    rw [ht] at hsplit
    exact Or.inr ⟨x, t, hsplit.symm, mem_rtakeWhile_imp hx⟩

theorem length_trim_le (s : List Char) : (trim s).length ≤ s.length :=
  ( rdropWhile_prefix _ _).length_le.trans (dropWhile_suffix _).length_le

theorem mem_trim {c : Char} (hc : isWhitespace c = false) (h : c ∈ s) : c ∈ trim s := by
  have hdrop : ∀ {l : List Char}, c ∈ l → c ∈ l.dropWhile isWhitespace := by
    intro l hl
    rw [← takeWhile_append_dropWhile (p := isWhitespace) (l := l), mem_append] at hl
    rcases hl with hl | hl
    · simp [mem_takeWhile_imp hl] at hc
    · exact hl
  rw [trim, trimEnd, List.rdropWhile, mem_reverse]
  exact hdrop (List.mem_reverse.2 (hdrop h))

/-! ## Splitting -/

/-- The text before and after the first occurrence of a separator. -/
def splitOnce (sep : Char) : List Char → Option (List Char × List Char)
  | [] => none
  | c :: s => if c = sep then some ([], s) else (splitOnce sep s).map fun p => (c :: p.1, p.2)

theorem splitOnce_append {sep : Char} {a : List Char} (h : sep ∉ a) (b : List Char) :
    splitOnce sep (a ++ sep :: b) = some (a, b) := by
  induction a with
  | nil => simp [splitOnce]
  | cons c a ih =>
    rw [mem_cons, not_or] at h
    rw [cons_append, splitOnce, if_neg (Ne.symm h.1), ih h.2]
    rfl

theorem length_lt_of_splitOnce {sep : Char} {p : List Char × List Char}
    (h : splitOnce sep s = some p) : p.2.length < s.length := by
  induction s generalizing p with
  | nil => simp [splitOnce] at h
  | cons c s ih =>
    rw [splitOnce] at h
    split_ifs at h
    · obtain rfl := Option.some.inj h
      exact lt_succ_self _
    · obtain ⟨q, hq, rfl⟩ := Option.map_eq_some_iff.1 h
      exact (ih hq).trans (lt_succ_self _)

/-! ## Reading every text of a list -/

section MapM

variable {α β : Type}

theorem mapM_eq_some_iff {f : α → Option β} {l : List α} {r : List β} :
    l.mapM f = some r ↔ List.Forall₂ (fun a b => f a = some b) l r := by
  induction l generalizing r with
  | nil =>
    rw [mapM_nil, forall₂_nil_left_iff]
    exact ⟨fun h => (Option.some.inj h).symm, fun h => congrArg some h.symm⟩
  | cons a l ih =>
    rw [mapM_cons, bind_eq_bind, bind_eq_some_iff, forall₂_cons_left_iff]
    simp only [bind_eq_bind, bind_eq_some_iff, ih]
    constructor
    · rintro ⟨b, hb, r', hr', heq⟩
      exact ⟨b, r', hb, hr', (Option.some.inj heq).symm⟩
    · rintro ⟨b, r', hb, hr', rfl⟩
      exact ⟨b, hb, r', hr', rfl⟩

theorem mem_of_mapM_eq_some {f : α → Option β} {l : List α} {r : List β} (h : l.mapM f = some r)
    {b : β} (hb : b ∈ r) : ∃ a ∈ l, f a = some b := by
  rw [mapM_eq_some_iff] at h
  induction h with
  | nil => simp at hb
  | cons hab _ ih =>
    rcases List.mem_cons.1 hb with rfl | hb
    · exact ⟨_, mem_cons_self, hab⟩
    · obtain ⟨a, ha, hread⟩ := ih hb
      exact ⟨a, mem_cons_of_mem _ ha, hread⟩

theorem mapM_congr {f g : α → Option β} {l : List α} (h : ∀ a ∈ l, f a = g a) : l.mapM f = l.mapM g := by
  induction l with
  | nil => rfl
  | cons a l ih =>
    rw [mapM_cons, mapM_cons, h a mem_cons_self, ih fun b hb => h b (mem_cons_of_mem a hb)]

end MapM

/-! ## Numbers -/

def digitValue (radix : Nat) (c : Char) : Option Nat :=
  let v :=
    if '0' ≤ c ∧ c ≤ '9' then some (c.toNat - '0'.toNat)
    else if 'a' ≤ c ∧ c ≤ 'z' then some (c.toNat - 'a'.toNat + 10)
    else if 'A' ≤ c ∧ c ≤ 'Z' then some (c.toNat - 'A'.toNat + 10)
    else none
  v.filter (· < radix)

/-- Continue a number with digits. -/
def parseDigits (radix : Nat) : List Char → Nat → Option Nat
  | [], acc => some acc
  | c :: s, acc => (digitValue radix c).bind fun d => parseDigits radix s (acc * radix + d)

/-- A number of one or more digits, after an optional plus sign. -/
def parseNat (radix : Nat) (s : List Char) : Option Nat :=
  let digits := match s with
    | '+' :: rest => rest
    | _ => s
  if digits.isEmpty then none else parseDigits radix digits 0

def parseBelow (radix bound : Nat) (s : List Char) : Option Nat :=
  (parseNat radix s).filter (· < bound)

theorem parseDigits_append (radix : Nat) (a b : List Char) (acc : Nat) :
    parseDigits radix (a ++ b) acc = (parseDigits radix a acc).bind (parseDigits radix b) := by
  induction a generalizing acc with
  | nil => rfl
  | cons c a ih =>
    rw [cons_append, parseDigits, parseDigits]
    cases digitValue radix c with
    | none => rfl
    | some d => exact ih _

variable {radix : Nat}

theorem digitValue_digitChar {d : Nat} (hradix : radix ≤ 16) (hd : d < radix) :
    digitValue radix d.digitChar = some d := by
  have hval : ∀ d < 16, (if '0' ≤ d.digitChar ∧ d.digitChar ≤ '9' then
      some (d.digitChar.toNat - '0'.toNat)
    else if 'a' ≤ d.digitChar ∧ d.digitChar ≤ 'z' then some (d.digitChar.toNat - 'a'.toNat + 10)
    else if 'A' ≤ d.digitChar ∧ d.digitChar ≤ 'Z' then some (d.digitChar.toNat - 'A'.toNat + 10)
    else none) = some d := by decide
  rw [digitValue]
  simp only [hval d (by omega), filter_some, decide_eq_true hd, if_true]

theorem parseDigits_toDigits (hlo : 1 < radix) (hhi : radix ≤ 16) (n : Nat) :
    parseDigits radix (Nat.toDigits radix n) 0 = some n := by
  induction n using Nat.strongRecOn with
  | ind n ih =>
    rw [toDigits_eq_if hlo]
    split_ifs with hn
    · rw [parseDigits, digitValue_digitChar hhi hn]
      simp [parseDigits]
    · have hdiv : n / radix < n := Nat.div_lt_self (by omega) hlo
      rw [parseDigits_append, ih _ hdiv, bind_some, parseDigits, digitValue_digitChar hhi (mod_lt n (by omega))]
      simp only [parseDigits, bind_some, Option.some.injEq]
      exact div_add_mod' n radix

theorem mem_toDigits (hlo : 1 < radix) {n : Nat} {c : Char}
    (hc : c ∈ Nat.toDigits radix n) : ∃ d < radix, c = d.digitChar := by
  induction n using Nat.strongRecOn with
  | ind n ih =>
    rw [toDigits_eq_if hlo] at hc
    split_ifs at hc with hn
    · exact ⟨n, hn, List.mem_singleton.1 hc⟩
    · rcases List.mem_append.1 hc with hc | hc
      · exact ih _ (Nat.div_lt_self (by omega) hlo) hc
      · exact ⟨n % radix, mod_lt n (by omega), List.mem_singleton.1 hc⟩

theorem parseDigits_replicate_zero (radix k : Nat) (hradix : 0 < radix) (s : List Char) :
    parseDigits radix (List.replicate k '0' ++ s) 0 = parseDigits radix s 0 := by
  induction k with
  | zero => rfl
  | succ k ih =>
    have hzero : digitValue radix '0' = some 0 := by simp [digitValue, hradix]
    rw [replicate_succ, cons_append, parseDigits, hzero, bind_some]
    simpa using ih

/-- A printed number, with leading zeros or without, is parsed back. -/
theorem parseNat_toDigits (hlo : 1 < radix) (hhi : radix ≤ 16) (k n : Nat) :
    parseNat radix (List.replicate k '0' ++ Nat.toDigits radix n) = some n := by
  have hvalue := parseDigits_toDigits hlo hhi n
  rw [← parseDigits_replicate_zero radix k (by omega)] at hvalue
  have hdigits : ∀ c ∈ List.replicate k '0' ++ Nat.toDigits radix n, ∃ d < 16, c = d.digitChar := by
    intro c hc
    rcases List.mem_append.1 hc with hc | hc
    · exact ⟨0, by decide, eq_of_mem_replicate hc⟩
    · obtain ⟨d, hd, rfl⟩ := mem_toDigits hlo hc
      exact ⟨d, by omega, rfl⟩
  have hne : List.replicate k '0' ++ Nat.toDigits radix n ≠ [] := by
    simp [toDigits_ne_nil]
  generalize List.replicate k '0' ++ Nat.toDigits radix n = s at hvalue hdigits hne
  have hsign : ∀ rest, s ≠ '+' :: rest := by
    rintro rest rfl
    obtain ⟨d, hd, heq⟩ := hdigits '+' mem_cons_self
    have hplus : ∀ d < 16, '+' ≠ d.digitChar := by decide
    exact hplus d hd heq
  unfold parseNat
  split
  · exact absurd rfl (hsign _)
  · rw [if_neg (by simpa using hne), hvalue]

theorem parseBelow_toDigits {bound : Nat} (hlo : 1 < radix) (hhi : radix ≤ 16) (k : Nat) {n : Nat} (hn : n < bound) :
    parseBelow radix bound (List.replicate k '0' ++ Nat.toDigits radix n) = some n := by
  rw [parseBelow, parseNat_toDigits hlo hhi]
  simp [hn]

theorem forall_toDigits {P : Char → Prop} (h : ∀ d < 16, P (Nat.digitChar d))
    (hlo : 1 < radix) (hhi : radix ≤ 16) (n : Nat) : ∀ c ∈ Nat.toDigits radix n, P c := by
  intro c hc
  obtain ⟨d, hd, rfl⟩ := mem_toDigits hlo hc
  exact h d (by omega)

end Text
