import Glass2Glass.Lib.Text

/-!
# Splitting at top-level commas

`split_top_commas` (`caps_parse.rs`) cuts a text at the commas that stand in no bracket and in no
quoted string. Its state is the bracket depth and whether a string is open. The splitter never checks
that brackets match, so a text with an unmatched bracket or quote changes where the text after it is
cut: `scan` is the state a text leaves behind when it holds no cut, and the lemmas here cut a text
that is put together from parts whose scans are known.
-/

namespace Glass2Glass.Gst

open List

/-- The state of the splitter between two characters. -/
structure Scan where
  /-- Brackets opened less brackets closed. -/
  depth : Int32
  /-- Whether a quoted string is open. -/
  quoted : Bool
  deriving DecidableEq

/-- The splitter outside brackets and strings, as it starts. -/
def Scan.top : Scan := ⟨0, false⟩

/-- The splitter inside a string inside `depth` brackets. -/
def Scan.inString (depth : Int32) : Scan := ⟨depth, true⟩

/-- `i32::saturating_sub(1)`. -/
def saturatingPred (depth : Int32) : Int32 := if depth = Int32.minValue then depth else depth - 1

def quote : Char := '\x22'

variable (st : Scan)

/-- One character: `none` at a comma that cuts. -/
def Scan.step (c : Char) : Option Scan :=
  if c = quote then some { st with quoted := !st.quoted }
  else if st.quoted then some st
  else if c = '[' ∨ c = '\x7b' ∨ c = '<' then some { st with depth := st.depth + 1 }
  else if c = ']' ∨ c = '\x7d' ∨ c = '>' then some { st with depth := saturatingPred st.depth }
  else if c = ',' ∧ st.depth = 0 then none
  else some st

theorem Scan.step_eq_none {st : Scan} {c : Char} (h : st.step c = none) : c = ',' ∧ st = .top := by
  obtain ⟨depth, quoted⟩ := st
  unfold Scan.step at h
  split_ifs at h with hquote hquoted hopen hclose hcomma
  obtain ⟨rfl, hdepth⟩ := hcomma
  simp only [Bool.not_eq_true] at hquoted hdepth
  subst hquoted hdepth
  exact ⟨rfl, rfl⟩

/-- The parts of a text, from a state of the splitter. -/
def splitFrom (st : Scan) : List Char → List (List Char)
  | [] => [[]]
  | c :: s =>
    match st.step c with
    | none => [] :: splitFrom st s
    | some st' => (splitFrom st' s).modifyHead (c :: ·)

/-- Split on top-level commas only. -/
def splitTopCommas (s : List Char) : List (List Char) := splitFrom .top s

/-- The state after a text that holds no cut. -/
def scan (s : List Char) : Option Scan := s.foldlM Scan.step st

@[simp] theorem scan_nil : scan st [] = some st := rfl

theorem scan_cons (c : Char) (s : List Char) : scan st (c :: s) = (st.step c).bind fun st' => scan st' s := by
  rfl

theorem scan_append (a b : List Char) : scan st (a ++ b) = (scan st a).bind fun st' => scan st' b := by
  simp only [scan, foldlM_append]
  rfl

theorem scan_append_of {st st₁ st₂ : Scan} {a b : List Char} (ha : scan st a = some st₁)
    (hb : scan st₁ b = some st₂) : scan st (a ++ b) = some st₂ := by
  rw [scan_append, ha, Option.bind_some, hb]

theorem splitFrom_append {st st' : Scan} {a : List Char} (h : scan st a = some st')
    (s : List Char) : splitFrom st (a ++ s) = (splitFrom st' s).modifyHead (a ++ ·) := by
  induction a generalizing st with
  | nil =>
    obtain rfl := Option.some.inj h
    cases hs : splitFrom st s <;> simp [hs]
  | cons c a ih =>
    rw [scan_cons, Option.bind_eq_some_iff] at h
    obtain ⟨st₁, hstep, hrest⟩ := h
    rw [cons_append, splitFrom, hstep]
    simp only [ih hrest, modifyHead_modifyHead]
    rfl

theorem splitFrom_of_scan {st st' : Scan} {a : List Char} (h : scan st a = some st') : splitFrom st a = [a] := by
  have happ := splitFrom_append h []
  rwa [append_nil, splitFrom, modifyHead_cons, append_nil] at happ

theorem splitTopCommas_append_comma {a : List Char} (h : scan .top a = some .top) (s : List Char) :
    splitTopCommas (a ++ ',' :: s) = a :: splitTopCommas s := by
  have hcomma : Scan.top.step ',' = none := by decide
  rw [splitTopCommas, splitFrom_append h, splitFrom, hcomma]
  simp [splitTopCommas]

theorem splitFrom_ne_nil (s : List Char) : splitFrom st s ≠ [] := by
  induction s generalizing st with
  | nil => simp [splitFrom]
  | cons c s ih =>
    rw [splitFrom]
    cases st.step c with
    | none => simp
    | some st' =>
      obtain ⟨p, ps, hp⟩ := exists_cons_of_ne_nil (ih st')
      simp [hp]

theorem length_le_of_mem_splitFrom {st : Scan} {s p : List Char} (h : p ∈ splitFrom st s) : p.length ≤ s.length := by
  induction s generalizing st p with
  | nil =>
    obtain rfl : p = [] := by simpa [splitFrom] using h
    exact le_rfl
  | cons c s ih =>
    rw [splitFrom] at h
    cases hstep : st.step c with
    | none =>
      rw [hstep] at h
      rcases List.mem_cons.1 h with rfl | h
      · exact Nat.zero_le _
      · exact (ih h).trans (Nat.le_succ _)
    | some st' =>
      rw [hstep] at h
      obtain ⟨q, qs, hq⟩ := exists_cons_of_ne_nil (splitFrom_ne_nil st' s)
      simp only [hq, modifyHead_cons, mem_cons] at h
      rcases h with rfl | h
      · have hle := @ih st' q (by simp [hq])
        simpa using hle
      · exact (@ih st' p (by simp [hq, h])).trans (Nat.le_succ _)

/-! ## Plain texts -/

/-- Characters the splitter reads past: no quotation mark, no bracket, no comma. -/
def isPlain (c : Char) : Bool := !"\x22[\x7b<]\x7d>,".toList.contains c

theorem Scan.step_of_isPlain {c : Char} (h : isPlain c) (st : Scan) : st.step c = some st := by
  simp only [isPlain, Bool.not_eq_true'] at h
  have hmem : c ∉ ['\x22', '[', '\x7b', '<', ']', '\x7d', '>', ','] := by
    simpa using h
  simp only [mem_cons, not_mem_nil, or_false, not_or] at hmem
  obtain ⟨hq, ho₁, ho₂, ho₃, hc₁, hc₂, hc₃, hcomma⟩ := hmem
  simp [Scan.step, quote, hq, ho₁, ho₂, ho₃, hc₁, hc₂, hc₃, hcomma]

theorem scan_of_plain {s : List Char} (h : ∀ c ∈ s, isPlain c) (st : Scan) : scan st s = some st := by
  induction s with
  | nil => rfl
  | cons c s ih =>
    rw [scan_cons, Scan.step_of_isPlain (h c mem_cons_self), Option.bind_some]
    exact ih fun d hd => h d (mem_cons_of_mem c hd)

theorem scan_inString {s : List Char} (h : quote ∉ s) (depth : Int32) :
    scan (.inString depth) s = some (.inString depth) := by
  induction s with
  | nil => rfl
  | cons c s ih =>
    rw [mem_cons, not_or] at h
    have hstep : (Scan.inString depth).step c = some (.inString depth) := by
      simp [Scan.step, Scan.inString, Ne.symm h.1]
    rw [scan_cons, hstep, Option.bind_some, ih h.2]

end Glass2Glass.Gst
