import Mathlib.Tactic.Common

/-!
# Reassembly of PSI sections

How sections are collected from the payloads of a PID (`collect_sections` and `drain_complete_sections` in
`g2g-plugins/src/mpegts.rs`). Whatever legal way sections are laid out over packets, they are what comes out
(`collectAll_carries`).
-/

namespace Glass2Glass.Ts

open List Option

def psiSectionHeaderLen : Nat := 3

def psiStuffingByte : UInt8 := 0xFF

def maxEitSectionBytes : Nat := 4096

def maxPatPmtSdtSectionBytes : Nat := 1024

def maxSpliceInfoSectionBytes : Nat := 3 + 0xFFF

inductive PsiTable where
  | pat
  | sdt
  | eit
  | pmt (programIndex : Nat)
  | spliceInfo

/-- The limit that the demuxer sets to the sections of a table. -/
def PsiTable.maxSectionBytes : PsiTable → Nat
  | .eit => maxEitSectionBytes
  | .pat | .sdt | .pmt _ => maxPatPmtSdtSectionBytes
  | .spliceInfo => maxSpliceInfoSectionBytes

/-- The size of a section by its header. -/
def declaredLen : List UInt8 → Option Nat
  | _ :: lengthHigh :: lengthLow :: _ =>
    some (psiSectionHeaderLen + (((lengthHigh &&& 0x0F).toNat <<< 8) ||| lengthLow.toNat))
  | _ => none

variable {pending : List UInt8}

theorem header_le_of_declaredLen {total : Nat} (h : declaredLen pending = some total) :
    psiSectionHeaderLen ≤ total := by
  unfold declaredLen at h
  split at h
  · exact Option.some.inj h ▸ Nat.le_add_right _ _
  · exact absurd h (some_ne_none total).symm

theorem length_lt_of_declaredLen (h : declaredLen pending = none) : pending.length < psiSectionHeaderLen := by
  match pending with
  | [] => exact Nat.succ_pos 2
  | [_] => exact Nat.lt_add_of_pos_right Nat.two_pos
  | [_, _] => exact Nat.lt_add_one 2
  | _ :: _ :: _ :: _ => exact absurd h (some_ne_none _)

/-- The sections that are whole, and what is left. -/
def drainCompleteSections (limit : Nat) (pending : List UInt8) : List (List UInt8) × List UInt8 :=
  if pending.head? = some psiStuffingByte then ([], [])
  else
    match _hlen : declaredLen pending with
    | none => ([], pending)
    | some total =>
      if limit < total then ([], [])
      else if pending.length < total then ([], pending)
      else
        let later := drainCompleteSections limit (pending.drop total)
        (pending.take total :: later.1, later.2)
termination_by pending.length
decreasing_by
  have hheader := header_le_of_declaredLen ‹declaredLen pending = some total›
  rw [length_drop]
  unfold psiSectionHeaderLen at hheader
  omega

/-- The sections that a payload completes, and what is left of the section that is open. -/
def collectSections (limit : Nat) (pending payload : List UInt8) (pusi : Bool) : List (List UInt8) × List UInt8 :=
  if pusi = false then
    if pending = [] then ([], []) else drainCompleteSections limit (pending ++ payload)
  else
    match payload with
    | [] => ([], [])
    | pointer :: rest =>
      if rest.length < pointer.toNat then ([], [])
      else
        let previous :=
          if pending = [] then [] else (drainCompleteSections limit (pending ++ rest.take pointer.toNat)).1
        let later := drainCompleteSections limit (rest.drop pointer.toNat)
        (previous ++ later.1, later.2)

/-- What a packet of the PID carries. -/
structure PsiPayload where
  payloadUnitStart : Bool
  bytes : List UInt8

/-- The sections that the payloads of a PID complete, and what is left at the end. -/
def collectAll (limit : Nat) : List UInt8 → List PsiPayload → List (List UInt8) × List UInt8
  | pending, [] => ([], pending)
  | pending, p :: ps =>
    let first := collectSections limit pending p.bytes p.payloadUnitStart
    let later := collectAll limit first.2 ps
    (first.1 ++ later.1, later.2)

/-! ## Sections -/

/-- A section whose header tells its size, and that is not stuffing. -/
structure PsiSection (limit : Nat) where
  bytes : List UInt8
  declared : declaredLen bytes = some bytes.length
  tableId : bytes.head? ≠ some psiStuffingByte
  fits : bytes.length ≤ limit

variable {limit : Nat}

theorem declaredLen_append {total : Nat} (h : declaredLen pending = some total)
    (more : List UInt8) : declaredLen (pending ++ more) = some total := by
  unfold declaredLen at h ⊢
  split at h
  · exact h
  · exact absurd h (some_ne_none total).symm

theorem drainCompleteSections_nil : drainCompleteSections limit [] = ([], []) := by
  rw [drainCompleteSections, if_neg (by simp)]
  rfl

theorem drainCompleteSections_stuffing (count : Nat) :
    drainCompleteSections limit (List.replicate count psiStuffingByte) = ([], []) := by
  cases count with
  | zero => exact drainCompleteSections_nil
  | succ count =>
    rw [drainCompleteSections, if_pos]
    rfl

theorem PsiSection.ne_nil (s : PsiSection limit) : s.bytes ≠ [] := by
  intro hnil
  have hdeclared := s.declared
  rw [hnil] at hdeclared
  exact absurd hdeclared (some_ne_none _).symm

variable {rest : List UInt8}

theorem PsiSection.head_ne (s : PsiSection limit) {head : List UInt8} (h : head ++ rest = s.bytes) :
    head.head? ≠ some psiStuffingByte := by
  intro hstuffing
  have htableId := s.tableId
  rw [← h, List.head?_append, hstuffing] at htableId
  exact htableId rfl

theorem drainCompleteSections_section (s : PsiSection limit) (rest : List UInt8) :
    drainCompleteSections limit (s.bytes ++ rest) =
      (s.bytes :: (drainCompleteSections limit rest).1, (drainCompleteSections limit rest).2) := by
  have hhead : (s.bytes ++ rest).head? ≠ some psiStuffingByte := by
    obtain ⟨b, tail, hb⟩ := exists_cons_of_ne_nil s.ne_nil
    have htableId := s.tableId
    rw [hb] at htableId ⊢
    exact htableId
  have hfits := s.fits
  have hlength : ¬ (s.bytes ++ rest).length < s.bytes.length := by
    rw [length_append]
    omega
  rw [drainCompleteSections, if_neg hhead]
  split
  · next hnone =>
    rw [declaredLen_append s.declared] at hnone
    exact absurd hnone (some_ne_none _)
  · next total htotal =>
    rw [declaredLen_append s.declared] at htotal
    obtain rfl := Option.some.inj htotal
    rw [if_neg (Nat.not_lt.2 hfits), if_neg hlength, take_left, drop_left]

theorem drainCompleteSections_part (s : PsiSection limit) {head : List UInt8} (h : head ++ rest = s.bytes)
    (hrest : rest ≠ []) : drainCompleteSections limit head = ([], head) := by
  have hlength : head.length + rest.length = s.bytes.length := by rw [← h, length_append]
  have hpos := List.length_pos_iff.2 hrest
  rw [drainCompleteSections, if_neg (s.head_ne h)]
  split
  · rfl
  · next total htotal =>
    have hdeclared := s.declared
    rw [← h, declaredLen_append htotal, h] at hdeclared
    obtain rfl := Option.some.inj hdeclared
    rw [if_neg (Nat.not_lt.2 s.fits), if_pos (by omega)]

theorem drainCompleteSections_sections (whole : List (PsiSection limit)) (rest : List UInt8) :
    drainCompleteSections limit (whole.flatMap PsiSection.bytes ++ rest) =
      (whole.map PsiSection.bytes ++ (drainCompleteSections limit rest).1, (drainCompleteSections limit rest).2) := by
  induction whole with
  | nil => rfl
  | cons s whole ih =>
    rw [flatMap_cons, append_assoc, drainCompleteSections_section, ih]
    rfl

theorem length_drainCompleteSections (hlimit : psiSectionHeaderLen ≤ limit) (pending : List UInt8) :
    (drainCompleteSections limit pending).2.length < limit := by
  fun_induction drainCompleteSections limit pending with
  | case1 | case3 => exact Nat.lt_of_lt_of_le (by decide) hlimit
  | case2 pending _ hlen =>
    exact Nat.lt_of_lt_of_le (length_lt_of_declaredLen hlen) hlimit
  | case4 pending _ total _ hfits hshort => exact Nat.lt_of_lt_of_le hshort (Nat.not_lt.1 hfits)
  | case5 _ _ _ _ _ _ _ ih => exact ih

/-! ## Packets -/

/-- The payloads of a PID carry the rest of the section that is open, and then the given sections. -/
inductive Carries (limit : Nat) : List UInt8 → List (PsiSection limit) → List PsiPayload → Prop
  | done : Carries limit [] [] []
  | goesOn {rest : List UInt8} {sections : List (PsiSection limit)} {ps : List PsiPayload} (chunk : List UInt8)
      (hrest : rest ≠ []) (h : Carries limit rest sections ps) :
      Carries limit (chunk ++ rest) sections (⟨false, chunk⟩ :: ps)
  /-- The section that is open ends, and no other starts in the packet. -/
  | ends {sections : List (PsiSection limit)} {ps : List PsiPayload} (rest : List UInt8) (stuffing : Nat)
      (h : Carries limit [] sections ps) :
      Carries limit rest sections (⟨false, rest ++ List.replicate stuffing psiStuffingByte⟩ :: ps)
  /-- Whole sections start behind the one that is open. -/
  | starts {sections : List (PsiSection limit)} {ps : List PsiPayload} (rest : List UInt8) (pointer : UInt8)
      (stuffing : Nat) (hpointer : pointer.toNat = rest.length + stuffing) (whole : List (PsiSection limit))
      (hwhole : whole ≠ []) (trailing : Nat) (h : Carries limit [] sections ps) :
      Carries limit rest (whole ++ sections) (⟨true, pointer :: (rest ++ List.replicate stuffing psiStuffingByte ++
          (whole.flatMap PsiSection.bytes ++ List.replicate trailing psiStuffingByte))⟩ :: ps)
  /-- Sections start behind the one that is open, and the last of them goes on in the next packet. -/
  | opens {later : List UInt8} {sections : List (PsiSection limit)} {ps : List PsiPayload} (rest : List UInt8)
      (pointer : UInt8) (stuffing : Nat) (hpointer : pointer.toNat = rest.length + stuffing)
      (whole : List (PsiSection limit)) (s : PsiSection limit) (head : List UInt8) (hhead : head ≠ [])
      (hlater : later ≠ []) (hs : head ++ later = s.bytes) (h : Carries limit later sections ps) :
      Carries limit rest (whole ++ s :: sections) (⟨true, pointer :: (rest ++ List.replicate stuffing psiStuffingByte ++
          (whole.flatMap PsiSection.bytes ++ head))⟩ :: ps)

/-- What is pending is the first part of the section that is open, if there is one. -/
def Opened (pending rest : List UInt8) : Option (PsiSection limit) → Prop
  | none => pending = [] ∧ rest = []
  | some s => pending ≠ [] ∧ rest ≠ [] ∧ pending ++ rest = s.bytes

theorem collectSections_goesOn {chunk : List UInt8} {s : PsiSection limit}
    (h : Opened pending (chunk ++ rest) (some s)) (hrest : rest ≠ []) :
    collectSections limit pending chunk false = ([], pending ++ chunk) ∧ Opened (pending ++ chunk) rest (some s) := by
  obtain ⟨hpending, -, hs⟩ := h
  rw [← append_assoc] at hs
  refine ⟨?_, fun hnil => hpending (List.append_eq_nil_iff.1 hnil).1, hrest, hs⟩
  unfold collectSections
  rw [if_pos rfl, if_neg hpending]
  exact drainCompleteSections_part s hs hrest

variable {opened : Option (PsiSection limit)}

theorem collectSections_ends (h : Opened pending rest opened) (stuffing : Nat) :
    collectSections limit pending (rest ++ List.replicate stuffing psiStuffingByte) false =
      (opened.toList.map PsiSection.bytes, []) := by
  unfold collectSections
  cases opened with
  | none => rw [if_pos h.1]; rfl
  | some s =>
    obtain ⟨hpending, -, hs⟩ := h
    rw [if_neg hpending, ← append_assoc, hs, drainCompleteSections_section, drainCompleteSections_stuffing]
    rfl

theorem collectSections_starts (h : Opened pending rest opened) {pointer : UInt8} {stuffing : Nat}
    (hpointer : pointer.toNat = rest.length + stuffing) (news : List UInt8) : collectSections limit pending
        (pointer :: (rest ++ List.replicate stuffing psiStuffingByte ++ news)) true =
      (opened.toList.map PsiSection.bytes ++ (drainCompleteSections limit news).1,
        (drainCompleteSections limit news).2) := by
  have hlength : (rest ++ List.replicate stuffing psiStuffingByte).length = pointer.toNat := by
    rw [length_append, length_replicate, hpointer]
  have henough : ¬ (rest ++ List.replicate stuffing psiStuffingByte ++ news).length < pointer.toNat := by
    rw [length_append, hlength]
    omega
  unfold collectSections
  rw [if_neg (by decide)]
  dsimp only
  rw [if_neg henough, take_left' hlength, drop_left' hlength]
  cases opened with
  | none => rw [if_pos h.1]; rfl
  | some s =>
    obtain ⟨hpending, -, hs⟩ := h
    rw [if_neg hpending, ← append_assoc, hs, drainCompleteSections_section, drainCompleteSections_stuffing]
    rfl

theorem collectAll_opened {sections : List (PsiSection limit)} {ps : List PsiPayload}
    (h : Carries limit rest sections ps) (hopened : Opened pending rest opened) :
    collectAll limit pending ps = ((opened.toList ++ sections).map PsiSection.bytes, []) := by
  have hclosed : Opened [] [] (none : Option (PsiSection limit)) := ⟨rfl, rfl⟩
  induction h generalizing pending opened with
  | done =>
    cases opened with
    | none =>
      rw [hopened.1]
      rfl
    | some s => exact absurd rfl hopened.2.1
  | goesOn chunk hrest _ ih =>
    cases opened with
    | none => exact absurd (List.append_eq_nil_iff.1 hopened.2).2 hrest
    | some s =>
      obtain ⟨hcollect, hopened'⟩ := collectSections_goesOn hopened hrest
      rw [collectAll, hcollect, ih hopened']
      rfl
  | ends rest stuffing _ ih =>
    rw [collectAll, collectSections_ends hopened stuffing]
    rw [ih (hclosed : Opened [] [] none)]
    simp only [map_append, toList_none, nil_append]
  | starts rest pointer stuffing hpointer whole hwhole trailing _ ih =>
    rw [collectAll, collectSections_starts hopened hpointer, drainCompleteSections_sections,
      drainCompleteSections_stuffing]
    rw [ih (hclosed : Opened [] [] none)]
    simp only [map_append, toList_none, nil_append, append_nil, append_assoc]
  | opens rest pointer stuffing hpointer whole s head hhead hlater hs _ ih =>
    rw [collectAll, collectSections_starts hopened hpointer, drainCompleteSections_sections,
      drainCompleteSections_part s hs hlater]
    have hopened' : Opened head _ (some s) := ⟨hhead, hlater, hs⟩
    rw [ih hopened']
    simp only [map_append, map_cons, toList_some, append_nil, append_assoc, singleton_append]

theorem header_le_maxSectionBytes (table : PsiTable) : psiSectionHeaderLen ≤ table.maxSectionBytes := by
  cases table with
  | pmt programIndex => exact (by decide : 3 ≤ 1024)
  | _ => decide

/-- However sections are laid out over the packets of a PID, they are collected, and less than the limit is kept. -/
theorem collectAll_carries :
    (∀ (limit : Nat) (sections : List (PsiSection limit)) (ps : List PsiPayload), Carries limit [] sections ps →
      collectAll limit [] ps = (sections.map PsiSection.bytes, [])) ∧
      ∀ (table : PsiTable) (pending payload : List UInt8) (pusi : Bool),
        (collectSections table.maxSectionBytes pending payload pusi).2.length < table.maxSectionBytes := by
  have hclosed : ∀ limit, Opened [] [] (none : Option (PsiSection limit)) := fun _ => ⟨rfl, rfl⟩
  refine ⟨fun limit sections ps h => collectAll_opened h (hclosed limit),
    fun table pending payload pusi => ?_⟩
  have hlimit := header_le_maxSectionBytes table
  have hnil : ([] : List UInt8).length < table.maxSectionBytes := Nat.lt_of_lt_of_le (by decide) hlimit
  unfold collectSections
  by_cases hpusi : pusi = false
  · rw [if_pos hpusi]
    split_ifs
    · exact hnil
    · exact length_drainCompleteSections hlimit _
  · rw [if_neg hpusi]
    cases payload with
    | nil => exact hnil
    | cons pointer rest =>
      dsimp only
      split_ifs
      · exact hnil
      · exact length_drainCompleteSections hlimit _
      · exact length_drainCompleteSections hlimit _

/-- Two sections, the header of the second one split over two packets. -/
theorem collectAll_carries_split :
    collectAll 1024 [] [⟨true, [0, 0x02, 0xB0, 1, 7, 0x42]⟩, ⟨false, [0xF0]⟩, ⟨false, [2, 5, 6, 0xFF]⟩] =
      ([[0x02, 0xB0, 1, 7], [0x42, 0xF0, 2, 5, 6]], []) := by
  have hends : Carries 1024 [2, 5, 6] [] [⟨false, [2, 5, 6, 0xFF]⟩] := .ends [2, 5, 6] 1 .done
  have hgoesOn : Carries 1024 [0xF0, 2, 5, 6] [] [⟨false, [0xF0]⟩, ⟨false, [2, 5, 6, 0xFF]⟩] :=
    .goesOn [0xF0] (cons_ne_nil _ _) hends
  exact collectAll_carries.1 1024
    [⟨[0x02, 0xB0, 1, 7], by decide, by decide, by decide⟩, ⟨[0x42, 0xF0, 2, 5, 6], by decide, by decide, by decide⟩]
    _ (.opens [] 0 0 rfl [⟨[0x02, 0xB0, 1, 7], by decide, by decide, by decide⟩]
      ⟨[0x42, 0xF0, 2, 5, 6], by decide, by decide, by decide⟩ [0x42] (cons_ne_nil _ _) (cons_ne_nil _ _)
      rfl hgoesOn)

end Glass2Glass.Ts
