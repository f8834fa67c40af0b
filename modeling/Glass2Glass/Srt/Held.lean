import Glass2Glass.Srt.Window

/-!
# Held gaps

The sequences of a held gap, what is left of it when one of them arrives, and how long the gaps of a list have still to
wait: a gap is reported once its wait and that of all gaps before it is over (`dueIn_release`).
-/

namespace Glass2Glass.Srt

open List

namespace HeldLoss

variable {seq other : Nat} {loss whole part : HeldLoss}

def Has (loss : HeldLoss) (seq : Nat) : Prop :=
  seq < 2 ^ 31 ∧ seqDistance seq loss.first ≤ seqDistance loss.last loss.first

/-- A held gap is of sequence numbers, and no longer than the flow window. -/
structure Fit (loss : HeldLoss) : Prop where
  first_lt : loss.first < 2 ^ 31
  last_lt : loss.last < 2 ^ 31
  length : seqDistance loss.last loss.first < flowWindowPackets

/-- Two held gaps have no sequence in common. -/
def Apart (a b : HeldLoss) : Prop := ∀ seq, a.Has seq → ¬ b.Has seq

theorem covers_iff (h : loss.Fit) (hseq : seq < 2 ^ 31) : loss.covers seq = true ↔ loss.Has seq := by
  have hlength := h.length
  unfold flowWindowPackets at hlength
  unfold covers Has
  rw [Bool.and_eq_true, seqGe_iff hseq h.first_lt, seqGe_iff h.last_lt hseq, seqDistance_eq h.last_lt hseq h.first_lt]
  have hlt := seqDistance_lt seq loss.first
  split_ifs <;> omega

/-- The part of a held gap below a sequence. -/
def lower (seq : Nat) (loss : HeldLoss) : HeldLoss := { loss with last := seqPrev seq }

/-- The part of a held gap above a sequence. -/
def upper (seq : Nat) (loss : HeldLoss) : HeldLoss := { loss with first := seqNext seq }

@[simp] theorem lower_first : (whole.lower seq).first = whole.first := by
  cases whole
  rfl

@[simp] theorem lower_last : (whole.lower seq).last = seqPrev seq := by
  cases whole
  rfl

@[simp] theorem upper_first : (whole.upper seq).first = seqNext seq := by
  cases whole
  rfl

@[simp] theorem upper_last : (whole.upper seq).last = whole.last := by
  cases whole
  rfl

theorem without_eq : without seq whole =
    (if seq = whole.first then [] else [whole.lower seq]) ++ if seq = whole.last then [] else [whole.upper seq] := by
  unfold without
  split <;> simp_all [lower, upper]

theorem mem_without_iff : part ∈ without seq whole ↔
    seq ≠ whole.first ∧ part = whole.lower seq ∨ seq ≠ whole.last ∧ part = whole.upper seq := by
  rw [without_eq, mem_append]
  split_ifs <;> simp_all

section

variable (h : whole.Fit) (hseq : whole.Has seq)

include h hseq

theorem has_lower (hne : seq ≠ whole.first) :
    (whole.lower seq).Fit ∧ ∀ {a : Nat}, (whole.lower seq).Has a ↔
      a < 2 ^ 31 ∧ seqDistance a whole.first < seqDistance seq whole.first := by
  have hlength := h.length
  have hpos : 0 < seqDistance seq whole.first := by
    rw [Nat.pos_iff_ne_zero, Ne, seqDistance_eq_zero hseq.1 h.first_lt]
    exact hne
  have hprev := seqDistance_seqPrev hseq.1 h.first_lt hpos
  have hle := hseq.2
  refine ⟨⟨by rw [lower_first]; exact h.first_lt, by rw [lower_last]; exact seqPrev_lt seq, ?_⟩, fun {a} => ?_⟩
  · rw [lower_last, lower_first, hprev]
    omega
  · unfold Has
    rw [lower_last, lower_first, hprev]
    omega

theorem has_upper (hne : seq ≠ whole.last) :
    (whole.upper seq).Fit ∧ ∀ {a : Nat}, (whole.upper seq).Has a ↔
      whole.Has a ∧ seqDistance seq whole.first < seqDistance a whole.first := by
  have hlength := h.length
  unfold flowWindowPackets at hlength
  have hle := hseq.2
  have hlt : seqDistance seq whole.first < seqDistance whole.last whole.first :=
    lt_of_le_of_ne hle fun heq => hne (eq_of_seqDistance_eq hseq.1 h.last_lt h.first_lt heq)
  have hnext := seqDistance_seqNext hseq.1 h.first_lt (by omega)
  have hlast' : seqDistance whole.last (seqNext seq) =
      seqDistance whole.last whole.first - (seqDistance seq whole.first + 1) := by
    rw [seqDistance_sub h.last_lt (seqNext_lt seq) h.first_lt (by rw [hnext]; omega), hnext]
  refine ⟨⟨by rw [upper_first]; exact seqNext_lt seq, by rw [upper_last]; exact h.last_lt, ?_⟩, fun {a} => ?_⟩
  · rw [upper_last, upper_first, hlast']
    unfold flowWindowPackets
    omega
  · unfold Has
    rw [upper_last, upper_first, hlast']
    by_cases ha : a < 2 ^ 31
    · have halt := seqDistance_lt a whole.first
      rw [seqDistance_eq ha (seqNext_lt seq) h.first_lt, hnext]
      split_ifs <;> omega
    · omega

theorem fit_without (hmem : part ∈ without seq whole) : part.Fit := by
  rcases mem_without_iff.1 hmem with ⟨hne, rfl⟩ | ⟨hne, rfl⟩
  · exact (has_lower h hseq hne).1
  · exact (has_upper h hseq hne).1

theorem has_of_without (hmem : part ∈ without seq whole)
    (hother : part.Has other) : whole.Has other := by
  rcases mem_without_iff.1 hmem with ⟨hne, rfl⟩ | ⟨hne, rfl⟩
  · obtain ⟨hlt, hbelow⟩ := (has_lower h hseq hne).2.1 hother
    exact ⟨hlt, (hbelow.trans_le hseq.2).le⟩
  · exact ((has_upper h hseq hne).2.1 hother).1

theorem exists_without (hother : whole.Has other) (hne : other ≠ seq) :
    ∃ part ∈ without seq whole, part.Has other := by
  have hdistance : seqDistance other whole.first ≠ seqDistance seq whole.first :=
    fun heq => hne (eq_of_seqDistance_eq hother.1 hseq.1 h.first_lt heq)
  have hle := hother.2
  by_cases hbelow : seqDistance other whole.first < seqDistance seq whole.first
  · have hfirst : seq ≠ whole.first := by
      rintro rfl
      rw [seqDistance_self] at hbelow
      omega
    exact ⟨whole.lower seq, mem_without_iff.2 (Or.inl ⟨hfirst, rfl⟩), (has_lower h hseq hfirst).2.2 ⟨hother.1, hbelow⟩⟩
  · have hlast : seq ≠ whole.last := by
      rintro rfl
      omega
    exact ⟨whole.upper seq, mem_without_iff.2 (Or.inr ⟨hlast, rfl⟩), (has_upper h hseq hlast).2.2 ⟨hother, by omega⟩⟩

theorem apart_without : (without seq whole).Pairwise Apart := by
  rw [without_eq]
  split_ifs with hfirst hlast hlast
  · exact List.Pairwise.nil
  · exact pairwise_singleton _ _
  · exact pairwise_singleton _ _
  · refine List.pairwise_pair.2 fun a ha hb => ?_
    have hbelow := ((has_lower h hseq hfirst).2.1 ha).2
    have habove := ((has_upper h hseq hlast).2.1 hb).2
    exact absurd (hbelow.trans habove) (lt_irrefl _)

end

end HeldLoss

/-! ## The held gaps in their order -/

/-- The gap that holds a sequence, and each one before it, waits for at most `b` more packets. -/
def DueIn (b seq : Nat) : List HeldLoss → Prop
  | [] => False
  | loss :: losses => loss.packetsLeft ≤ b ∧ (loss.Has seq ∨ DueIn b seq losses)

/-- What is left of a list of held gaps after the ones whose wait is over: each waits for one packet less. -/
def countDown (losses : List HeldLoss) : List HeldLoss :=
  losses.map fun loss => { loss with packetsLeft := loss.packetsLeft - 1 }

variable {b seq other : Nat} {loss : HeldLoss} {losses rest : List HeldLoss}

theorem exists_of_dueIn (h : DueIn b seq losses) : ∃ loss ∈ losses, loss.Has seq := by
  induction losses with
  | nil => exact h.elim
  | cons x rest ih =>
    rcases h.2 with hhas | hrest
    · exact ⟨x, mem_cons_self, hhas⟩
    · obtain ⟨loss, hloss, hhas⟩ := ih hrest
      exact ⟨loss, mem_cons_of_mem _ hloss, hhas⟩

theorem dueIn_append (hleft : ∀ loss ∈ losses, loss.packetsLeft ≤ b)
    (h : (∃ loss ∈ losses, loss.Has seq) ∨ DueIn b seq rest) : DueIn b seq (losses ++ rest) := by
  induction losses with
  | nil =>
    rcases h with ⟨loss, hloss, -⟩ | hrest
    · cases hloss
    · exact hrest
  | cons x losses ih =>
    have ih := ih fun loss hloss => hleft loss (mem_cons_of_mem _ hloss)
    refine ⟨hleft x mem_cons_self, ?_⟩
    rcases h with ⟨loss, hloss, hhas⟩ | hrest
    · rcases List.mem_cons.1 hloss with rfl | hloss
      · exact Or.inl hhas
      · exact Or.inr (ih (Or.inl ⟨loss, hloss, hhas⟩))
    · exact Or.inr (ih (Or.inr hrest))

theorem dueIn_append_right (h : DueIn b seq losses) : DueIn b seq (losses ++ rest) := by
  induction losses with
  | nil => exact h.elim
  | cons x losses ih => exact ⟨h.1, h.2.imp_right ih⟩

theorem dueIn_of_forall (hleft : ∀ loss ∈ losses, loss.packetsLeft ≤ b) (hloss : loss ∈ losses) (hhas : loss.Has seq) :
    DueIn b seq losses := by
  rw [← append_nil losses]
  exact dueIn_append hleft (Or.inl ⟨loss, hloss, hhas⟩)

theorem dueIn_removeHeldLoss (hfit : ∀ loss ∈ losses, loss.Fit) (hother : other < 2 ^ 31) (hne : seq ≠ other)
    (h : DueIn b seq losses) : DueIn b seq (removeHeldLoss other losses).1 := by
  induction losses with
  | nil => exact h
  | cons x rest ih =>
    have hx := hfit x mem_cons_self
    unfold removeHeldLoss
    split_ifs with hcovers
    · have hin := (HeldLoss.covers_iff hx hother).1 hcovers
      refine dueIn_append (fun part hpart => ?_) (h.2.imp_left fun hhas => HeldLoss.exists_without hx hin hhas hne)
      rw [(SrtReceiver.mem_without hpart).1]
      exact h.1
    · exact ⟨h.1, h.2.imp_right (ih fun loss hloss => hfit loss (mem_cons_of_mem _ hloss))⟩

theorem dueIn_countDown (h : DueIn (b + 1) seq losses) : DueIn b seq (countDown losses) := by
  induction losses with
  | nil => exact h.elim
  | cons x rest ih => exact ⟨Nat.sub_le_of_le_add h.1, h.2.imp_right ih⟩

theorem dueIn_release (h : DueIn (b + 1) seq losses) :
    (∃ loss ∈ losses.takeWhile (fun loss => loss.packetsLeft = 0), loss.Has seq) ∨
      DueIn b seq (countDown (losses.dropWhile fun loss => loss.packetsLeft = 0)) := by
  induction losses with
  | nil => exact h.elim
  | cons x rest ih =>
    by_cases hzero : x.packetsLeft = 0
    · rw [takeWhile_cons_of_pos (by simpa using hzero), dropWhile_cons_of_pos (by simpa using hzero)]
      rcases h.2 with hhas | hrest
      · exact Or.inl ⟨x, mem_cons_self, hhas⟩
      · exact (ih hrest).imp_left fun ⟨loss, hloss, hhas⟩ => ⟨loss, mem_cons_of_mem _ hloss, hhas⟩
    · -- The first gap has still to wait, so nothing is reported.
      rw [dropWhile_cons_of_neg (by simpa using hzero)]
      exact Or.inr (dueIn_countDown h)

theorem dueIn_zero (h : DueIn 0 seq losses) :
    ∃ loss ∈ losses.takeWhile (fun loss => loss.packetsLeft = 0), loss.Has seq := by
  induction losses with
  | nil => exact h.elim
  | cons x rest ih =>
    rw [takeWhile_cons_of_pos (by simpa using h.1)]
    rcases h.2 with hhas | hrest
    · exact ⟨x, mem_cons_self, hhas⟩
    · obtain ⟨loss, hloss, hhas⟩ := ih hrest
      exact ⟨loss, mem_cons_of_mem _ hloss, hhas⟩

theorem apart_removeHeldLoss (hfit : ∀ loss ∈ losses, loss.Fit) (hother : other < 2 ^ 31)
    (h : losses.Pairwise HeldLoss.Apart) : (removeHeldLoss other losses).1.Pairwise HeldLoss.Apart := by
  induction losses with
  | nil => exact h
  | cons x rest ih =>
    obtain ⟨hx, hrest⟩ := List.pairwise_cons.1 h
    have hfitRest : ∀ loss ∈ rest, loss.Fit := fun loss hloss => hfit loss (mem_cons_of_mem _ hloss)
    have hfitX := hfit x mem_cons_self
    unfold removeHeldLoss
    split_ifs with hcovers
    · have hin := (HeldLoss.covers_iff hfitX hother).1 hcovers
      refine List.pairwise_append.2 ⟨HeldLoss.apart_without hfitX hin, hrest, fun part hpart y hy seq hhas => ?_⟩
      exact hx y hy seq (HeldLoss.has_of_without hfitX hin hpart hhas)
    · refine List.pairwise_cons.2 ⟨fun part hpart seq hhas hpartHas => ?_, ih hfitRest hrest⟩
      rcases SrtReceiver.mem_removeHeldLoss hpart with hold | ⟨whole, hwhole, hcovers, hpart⟩
      · exact hx part hold seq hhas hpartHas
      · have hfitWhole := hfitRest whole hwhole
        have hin := (HeldLoss.covers_iff hfitWhole hother).1 hcovers
        exact hx whole hwhole seq hhas (HeldLoss.has_of_without hfitWhole hin hpart hpartHas)

end Glass2Glass.Srt
