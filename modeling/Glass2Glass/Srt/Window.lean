import Glass2Glass.Srt.Receiver

/-!
# The window of the receiver

What is buffered lies in a window at the cursor, the loss report is exact, and what is delivered comes in the order of
the circle, whatever packets and drop requests arrive (`SrtReceiver.window`). This takes that no drop request ends
exactly half of the circle past the highest sequence, and that no held gap is so old that it looks new.
-/

namespace Glass2Glass.Srt

open List

namespace SrtReceiver

variable (r : SrtReceiver)

/-- How far the highest sequence is past the one before the cursor. -/
def span : Nat := seqDistance (seqNext r.maxSeen) r.nextDeliver

/-- What holds once there is a first packet: all that is buffered lies between the cursor and the highest sequence,
which is not too far. -/
structure Window : Prop where
  next_lt : r.nextDeliver < 2 ^ 31
  seen_lt : r.maxSeen < 2 ^ 31
  span_le : r.span ≤ flowWindowPackets
  pending : ∀ e ∈ r.pending.entries, e.1 < 2 ^ 31 ∧ seqDistance e.1 r.nextDeliver < r.span

/-- The sequences that are missing: from the cursor to the highest one, and not buffered. -/
def IsMissing (seq : Nat) : Prop :=
  seq < 2 ^ 31 ∧ seqDistance seq r.nextDeliver < r.span ∧ r.pending.contains seq = false

/-- A held gap as it is seen from the cursor: it begins less than half of the circle behind it, or at or past it, and
ends no later than the highest sequence. -/
def Recent (loss : HeldLoss) : Prop :=
  (seqGt r.nextDeliver loss.first = true ∧
    seqDistance loss.last loss.first < seqDistance (seqNext r.maxSeen) loss.first) ∨
  (seqDistance loss.first r.nextDeliver ≤ seqDistance loss.last r.nextDeliver ∧
    seqDistance loss.last r.nextDeliver < r.span)

/-- The held gaps whose wait is over are recent ones. -/
def DueRecent : Prop := ∀ loss ∈ r.heldLosses, loss.packetsLeft = 0 → r.Recent loss

/-- Held gaps are of sequence numbers. -/
def HeldFit (losses : List HeldLoss) : Prop := ∀ loss ∈ losses, loss.first < 2 ^ 31 ∧ loss.last < 2 ^ 31

variable {r r' : SrtReceiver} {seq first last : Nat} {loss whole : HeldLoss}

/-! ## The loss report -/

theorem mem_range_map {start count : Nat} (hstart : start < 2 ^ 31) (hcount : count ≤ 2 ^ 31) :
    seq ∈ ((List.range count).map fun offset => (start + offset) % 2 ^ 31) ↔
      seq < 2 ^ 31 ∧ seqDistance seq start < count := by
  rw [List.mem_map]
  constructor
  · rintro ⟨offset, hoffset, rfl⟩
    rw [mem_range] at hoffset
    refine ⟨Nat.mod_lt _ (by decide), ?_⟩
    rwa [seqDistance_add hstart (by omega)]
  · rintro ⟨hseq, hdistance⟩
    exact ⟨seqDistance seq start, List.mem_range.2 hdistance, add_seqDistance hseq hstart⟩

theorem count_eq_span (hnext : r.nextDeliver < 2 ^ 31) (hseen : r.maxSeen < 2 ^ 31) (hspan : r.span ≤ flowWindowPackets) :
    (if seqGe r.maxSeen r.nextDeliver then seqDistance r.maxSeen r.nextDeliver + 1 else 0) = r.span := by
  simp only [seqGe_iff hseen hnext]
  unfold span flowWindowPackets at *
  unfold seqDistance seqNext at *
  split_ifs <;> omega

theorem mem_missing (h : r.Window) (hbase : r.haveBase = true) : seq ∈ r.missing ↔ r.IsMissing seq := by
  have hstart : (if seqGt r.nextDeliver r.nextDeliver = true then r.nextDeliver else r.nextDeliver) = r.nextDeliver :=
    ite_self _
  unfold missing missingIn
  rw [if_pos hbase]
  dsimp only
  rw [hstart, count_eq_span h.next_lt h.seen_lt h.span_le, take_of_length_le, List.mem_filter,
    mem_range_map h.next_lt (h.span_le.trans (by decide)), IsMissing, and_assoc, Bool.not_eq_true']
  refine (length_filter_le _ _).trans ?_
  rw [length_map, length_range]
  exact h.span_le.trans (by decide)

theorem recent_iff (h : r.Window) (hfirst : loss.first < 2 ^ 31) (hlast : loss.last < 2 ^ 31) : r.Recent loss ↔
      2 ^ 30 < seqDistance loss.first r.nextDeliver ∧
          (seqDistance loss.first r.nextDeliver ≤ seqDistance loss.last r.nextDeliver ∨
            seqDistance loss.last r.nextDeliver < r.span) ∨
        seqDistance loss.first r.nextDeliver ≤ seqDistance loss.last r.nextDeliver ∧
          seqDistance loss.last r.nextDeliver < r.span := by
  have hspan := h.span_le
  unfold flowWindowPackets at hspan
  have hseen : seqNext r.maxSeen < 2 ^ 31 := seqNext_lt _
  have hfirstLt := seqDistance_lt loss.first r.nextDeliver
  have hlastLt := seqDistance_lt loss.last r.nextDeliver
  have hself := seqDistance_self r.nextDeliver
  have hend : seqDistance (seqNext r.maxSeen) r.nextDeliver = r.span := rfl
  unfold Recent
  rw [seqGt_iff, seqDistance_eq h.next_lt hfirst h.next_lt, seqDistance_eq hlast hfirst h.next_lt,
    seqDistance_eq hseen hfirst h.next_lt, hself, hend]
  split_ifs <;> omega

/-- What is reported of a recent gap is missing. -/
theorem isMissing_of_mem_missingIn (h : r.Window) (hfirst : loss.first < 2 ^ 31) (hlast : loss.last < 2 ^ 31)
    (hrecent : r.Recent loss) (hmem : seq ∈ r.missingIn loss.first loss.last) : r.IsMissing seq := by
  have hspan := h.span_le
  unfold flowWindowPackets at hspan
  have hfirstLt := seqDistance_lt loss.first r.nextDeliver
  have hlastLt := seqDistance_lt loss.last r.nextDeliver
  rw [recent_iff h hfirst hlast] at hrecent
  unfold missingIn at hmem
  obtain ⟨hrange, hpending⟩ := List.mem_filter.1 (mem_of_mem_take hmem)
  rw [Bool.not_eq_true'] at hpending
  have hbehind : seqGt r.nextDeliver loss.first = true ↔ 2 ^ 30 < seqDistance loss.first r.nextDeliver := by
    rw [seqGt_iff, seqDistance_eq h.next_lt hfirst h.next_lt, seqDistance_self]
    split_ifs <;> omega
  by_cases hgt : seqGt r.nextDeliver loss.first = true
  · -- The gap begins behind the cursor, so the report begins at the cursor.
    rw [if_pos hgt] at hrange
    have hcount : (if seqGe loss.last r.nextDeliver = true then seqDistance loss.last r.nextDeliver + 1 else 0) ≤
        r.span := by
      simp only [seqGe_iff hlast h.next_lt]
      split_ifs <;> omega
    rw [mem_range_map h.next_lt (by omega)] at hrange
    exact ⟨hrange.1, by omega, hpending⟩
  · rw [if_neg hgt] at hrange
    rw [hbehind] at hgt
    have hle : seqDistance loss.first r.nextDeliver ≤ seqDistance loss.last r.nextDeliver := by omega
    simp only [seqGe_iff hlast hfirst] at hrange
    rw [seqDistance_eq hlast hfirst h.next_lt, if_pos hle, if_pos (by omega), mem_range_map hfirst (by omega)] at hrange
    obtain ⟨hseq, hdistance⟩ := hrange
    have hseqLt := seqDistance_lt seq r.nextDeliver
    rw [seqDistance_eq hseq hfirst h.next_lt] at hdistance
    refine ⟨hseq, ?_, hpending⟩
    split_ifs at hdistance <;> omega

/-! ## What only counts -/

/-- Two receivers with the same cursor and the same settings. -/
structure SameCursor (r r' : SrtReceiver) : Prop where
  next : r'.nextDeliver = r.nextDeliver
  base : r'.haveBase = r.haveBase
  latency : r'.tsbpdLatencyUs = r.tsbpdLatencyUs
  even : r'.cryptoEven = r.cryptoEven
  odd : r'.cryptoOdd = r.cryptoOdd

/-- Two receivers with the same buffer, too. -/
structure SameStore (r r' : SrtReceiver) : Prop extends SameCursor r r' where
  pending : r'.pending = r.pending

/-- Two receivers with the same window, too. -/
structure SameWindow (r r' : SrtReceiver) : Prop extends SameStore r r' where
  seen : r'.maxSeen = r.maxSeen

theorem SameCursor.trans {r'' : SrtReceiver} (h : SameCursor r r') (h' : SameCursor r' r'') : SameCursor r r'' :=
  ⟨h'.next.trans h.next, h'.base.trans h.base, h'.latency.trans h.latency, h'.even.trans h.even, h'.odd.trans h.odd⟩

theorem SameStore.trans {r'' : SrtReceiver} (h : SameStore r r') (h' : SameStore r' r'') : SameStore r r'' :=
  ⟨h.toSameCursor.trans h'.toSameCursor, h'.pending.trans h.pending⟩

namespace SameWindow

variable {r'' : SrtReceiver}

theorem rfl : SameWindow r r := ⟨⟨⟨Eq.refl _, Eq.refl _, Eq.refl _, Eq.refl _, Eq.refl _⟩, Eq.refl _⟩, Eq.refl _⟩

theorem trans (h : SameWindow r r') (h' : SameWindow r' r'') : SameWindow r r'' :=
  ⟨h.toSameStore.trans h'.toSameStore, h'.seen.trans h.seen⟩

theorem span (h : SameWindow r r') : r'.span = r.span := by
  unfold SrtReceiver.span
  rw [h.next, h.seen]

theorem window (h : SameWindow r r') (hr : r.Window) : r'.Window where
  next_lt := h.next ▸ hr.next_lt
  seen_lt := h.seen ▸ hr.seen_lt
  span_le := h.span ▸ hr.span_le
  pending := by
    rw [h.pending, h.next, h.span]
    exact hr.pending

theorem isMissing (h : SameWindow r r') : r'.IsMissing seq ↔ r.IsMissing seq := by
  unfold IsMissing
  rw [h.next, h.span, h.pending]

theorem recent (h : SameWindow r r') : r'.Recent loss ↔ r.Recent loss := by
  unfold Recent
  rw [h.next, h.span, h.seen]

end SameWindow

theorem sameWindow_heldLosses {losses : List HeldLoss} : SameWindow r { r with heldLosses := losses } :=
  ⟨⟨⟨rfl, rfl, rfl, rfl, rfl⟩, rfl⟩, rfl⟩

theorem sameWindow_raiseTolerance (retransmit : Bool) : SameWindow r (r.raiseTolerance seq retransmit) := by
  unfold raiseTolerance
  split_ifs
  · exact ⟨⟨⟨rfl, rfl, rfl, rfl, rfl⟩, rfl⟩, rfl⟩
  · exact .rfl

theorem sameWindow_countReordered (raised : Bool) (packetsLeft : Option Nat) :
    SameWindow r (r.countReordered raised packetsLeft) := by
  unfold countReordered
  dsimp only
  split_ifs <;> exact ⟨⟨⟨rfl, rfl, rfl, rfl, rfl⟩, rfl⟩, rfl⟩

theorem sameWindow_onLatePacket (retransmit : Bool) : SameWindow r (r.onLatePacket seq retransmit) := by
  unfold onLatePacket
  dsimp only
  split_ifs
  · exact sameWindow_raiseTolerance retransmit
  · exact (sameWindow_raiseTolerance retransmit).trans sameWindow_heldLosses
  · have hraised : SameWindow r (r.raiseTolerance seq retransmit) := sameWindow_raiseTolerance retransmit
    exact hraised.trans (sameWindow_heldLosses.trans (sameWindow_countReordered _ _))

theorem sameWindow_countOrderedPacket : SameWindow r r.countOrderedPacket := by
  unfold countOrderedPacket
  split_ifs <;> exact ⟨⟨⟨rfl, rfl, rfl, rfl, rfl⟩, rfl⟩, rfl⟩

theorem sameWindow_reportGap (tolerance : Nat) (gap : Option (Nat × Nat)) :
    SameWindow r (r.reportGap tolerance gap).1 := by
  cases gap with
  | none => exact .rfl
  | some gap =>
    unfold reportGap
    split_ifs
    · exact .rfl
    · exact ⟨⟨⟨rfl, rfl, rfl, rfl, rfl⟩, rfl⟩, rfl⟩

theorem sameWindow_reportHeld (tolerance : Nat) : SameWindow r (r.reportHeld tolerance).1 := by
  unfold reportHeld
  split_ifs
  · exact ⟨⟨⟨rfl, rfl, rfl, rfl, rfl⟩, rfl⟩, rfl⟩
  · exact .rfl

/-! ## Held gaps -/

theorem mem_removeHeldLoss {losses : List HeldLoss} (hmem : loss ∈ (removeHeldLoss seq losses).1) :
    loss ∈ losses ∨ ∃ whole ∈ losses, whole.covers seq = true ∧ loss ∈ whole.without seq := by
  induction losses with
  | nil => exact Or.inl hmem
  | cons x rest ih =>
    unfold removeHeldLoss at hmem
    split_ifs at hmem with hcovers
    · rcases List.mem_append.1 hmem with hpart | hrest
      · exact Or.inr ⟨x, mem_cons_self, hcovers, hpart⟩
      · exact Or.inl (mem_cons_of_mem _ hrest)
    · rcases List.mem_cons.1 hmem with rfl | hrest
      · exact Or.inl mem_cons_self
      · rcases ih hrest with hold | ⟨whole, hwhole, hparts⟩
        · exact Or.inl (mem_cons_of_mem _ hold)
        · exact Or.inr ⟨whole, mem_cons_of_mem _ hwhole, hparts⟩

theorem mem_without (hmem : loss ∈ HeldLoss.without seq whole) : loss.packetsLeft = whole.packetsLeft ∧
      (seq ≠ whole.first ∧ loss.first = whole.first ∧ loss.last = seqPrev seq ∨
        seq ≠ whole.last ∧ loss.first = seqNext seq ∧ loss.last = whole.last) := by
  unfold HeldLoss.without at hmem
  split at hmem
  · cases hmem
  · next hfirst hlast =>
    rw [List.mem_singleton.1 hmem]
    exact ⟨rfl, Or.inr ⟨ne_of_beq_false hlast, rfl, rfl⟩⟩
  · next hfirst hlast =>
    rw [List.mem_singleton.1 hmem]
    exact ⟨rfl, Or.inl ⟨ne_of_beq_false hfirst, rfl, rfl⟩⟩
  · next hfirst hlast =>
    rcases List.mem_cons.1 hmem with rfl | hmem
    · exact ⟨rfl, Or.inl ⟨ne_of_beq_false hfirst, rfl, rfl⟩⟩
    · rw [List.mem_singleton.1 hmem]
      exact ⟨rfl, Or.inr ⟨ne_of_beq_false hlast, rfl, rfl⟩⟩

theorem heldFit_without (hfit : whole.first < 2 ^ 31 ∧ whole.last < 2 ^ 31)
    (hmem : loss ∈ HeldLoss.without seq whole) : loss.first < 2 ^ 31 ∧ loss.last < 2 ^ 31 := by
  rcases (mem_without hmem).2 with ⟨-, hfirst, hlast⟩ | ⟨-, hfirst, hlast⟩ <;> rw [hfirst, hlast]
  · exact ⟨hfit.1, seqPrev_lt seq⟩
  · exact ⟨seqNext_lt seq, hfit.2⟩

/-- What is left of a recent gap without a sequence of the window is recent. -/
theorem recent_without (h : r.Window) (hseq : seq < 2 ^ 31) (hwindow : seqDistance seq r.nextDeliver < r.span)
    (hfit : whole.first < 2 ^ 31 ∧ whole.last < 2 ^ 31) (hcovers : whole.covers seq = true)
    (hrecent : r.Recent whole) (hmem : loss ∈ HeldLoss.without seq whole) : r.Recent loss := by
  have hpart := heldFit_without hfit hmem
  have hspan := h.span_le
  unfold flowWindowPackets at hspan
  have hfirstLt := seqDistance_lt whole.first r.nextDeliver
  have hlastLt := seqDistance_lt whole.last r.nextDeliver
  have hnext : seqDistance (seqNext seq) r.nextDeliver = seqDistance seq r.nextDeliver + 1 :=
    seqDistance_seqNext hseq h.next_lt (by omega)
  have hprev : 0 < seqDistance seq r.nextDeliver →
      seqDistance (seqPrev seq) r.nextDeliver = seqDistance seq r.nextDeliver - 1 :=
    seqDistance_seqPrev hseq h.next_lt
  have hprevCursor : seqDistance seq r.nextDeliver = 0 → seqDistance (seqPrev seq) r.nextDeliver = 2 ^ 31 - 1 := by
    intro hzero
    have heq := (seqDistance_eq_zero hseq h.next_lt).1 hzero
    have hlt := h.next_lt
    unfold seqDistance seqPrev
    omega
  unfold HeldLoss.covers at hcovers
  rw [Bool.and_eq_true, seqGe_iff hseq hfit.1, seqGe_iff hfit.2 hseq, seqDistance_eq hseq hfit.1 h.next_lt,
    seqDistance_eq hfit.2 hseq h.next_lt] at hcovers
  rw [recent_iff h hfit.1 hfit.2] at hrecent
  rw [recent_iff h hpart.1 hpart.2]
  have hdiffers : ∀ {a : Nat}, a < 2 ^ 31 → seq ≠ a → seqDistance seq r.nextDeliver ≠ seqDistance a r.nextDeliver :=
    fun ha hne heq => hne (eq_of_seqDistance_eq hseq ha h.next_lt heq)
  rcases (mem_without hmem).2 with ⟨hne, hfirst, hlast⟩ | ⟨hne, hfirst, hlast⟩
  · have hfar := hdiffers hfit.1 hne
    rw [hfirst, hlast]
    split_ifs at hcovers <;> omega
  · have hfar := hdiffers hfit.2 hne
    rw [hfirst, hlast, hnext]
    split_ifs at hcovers <;> omega

theorem mem_heldLosses_onLatePacket {retransmit : Bool} (hmem : loss ∈ (r.onLatePacket seq retransmit).heldLosses) :
    loss ∈ r.heldLosses ∨ ∃ whole ∈ r.heldLosses, whole.covers seq = true ∧ loss ∈ whole.without seq := by
  have hraised : (r.raiseTolerance seq retransmit).heldLosses = r.heldLosses := by
    unfold raiseTolerance
    split_ifs <;> rfl
  have hcounted (q : SrtReceiver) (raised : Bool) (left : Option Nat) :
      (q.countReordered raised left).heldLosses = q.heldLosses := by
    unfold countReordered
    dsimp only
    split_ifs <;> rfl
  unfold onLatePacket at hmem
  dsimp only at hmem
  split_ifs at hmem
  · exact Or.inl (hraised ▸ hmem)
  · rw [hraised] at hmem
    exact mem_removeHeldLoss hmem
  · rw [hcounted, hraised] at hmem
    exact mem_removeHeldLoss hmem

/-! ## Arrival -/

variable {pkt : DataPacket}

theorem seqGt_maxSeen (h : r.Window) (hseq : seq < 2 ^ 31) (hflow : seqDistance seq r.nextDeliver < flowWindowPackets) :
    seqGt seq r.maxSeen = true ↔ r.span ≤ seqDistance seq r.nextDeliver := by
  have hnext := h.next_lt
  have hseen := h.seen_lt
  have hspan := h.span_le
  rw [seqGt_iff]
  unfold span flowWindowPackets at *
  unfold seqDistance seqNext at *
  omega

theorem window_noteArrival (h : r.Window) (hflow : seqDistance pkt.seq r.nextDeliver < flowWindowPackets) :
    (r.noteArrival pkt).Window ∧ (r.noteArrival pkt).nextDeliver = r.nextDeliver ∧
      (r.noteArrival pkt).haveBase = r.haveBase ∧
      (r.noteArrival pkt).span = max r.span (seqDistance pkt.seq r.nextDeliver + 1) := by
  have hgt := seqGt_maxSeen h pkt.seq_lt hflow
  unfold noteArrival
  split_ifs with hcase
  · have hle := hgt.1 hcase
    have hend : seqDistance (seqNext pkt.seq) r.nextDeliver = seqDistance pkt.seq r.nextDeliver + 1 :=
      seqDistance_seqNext pkt.seq_lt h.next_lt (by unfold flowWindowPackets at hflow; omega)
    have hspan : span { r with maxSeen := pkt.seq } = seqDistance pkt.seq r.nextDeliver + 1 := hend
    refine ⟨⟨h.next_lt, pkt.seq_lt, ?_, fun e he => ⟨(h.pending e he).1, ?_⟩⟩, rfl, rfl, ?_⟩
    · rw [hspan]
      exact hflow
    · have hmem := (h.pending e he).2
      show seqDistance e.1 r.nextDeliver < _
      omega
    · rw [hspan]
      omega
  · have hsame : SameWindow r (r.onLatePacket pkt.seq pkt.retransmit) := sameWindow_onLatePacket _
    have hlt : seqDistance pkt.seq r.nextDeliver < r.span := Nat.lt_of_not_le fun hle => hcase (hgt.2 hle)
    exact ⟨hsame.window h, hsame.next, hsame.base, by rw [hsame.span]; omega⟩

theorem sameStore_noteArrival : SameStore r (r.noteArrival pkt) := by
  unfold noteArrival
  split_ifs
  · exact ⟨⟨rfl, rfl, rfl, rfl, rfl⟩, rfl⟩
  · exact (sameWindow_onLatePacket _).toSameStore

theorem mem_heldLosses_noteArrival (hmem : loss ∈ (r.noteArrival pkt).heldLosses) :
    loss ∈ r.heldLosses ∨ seqGt pkt.seq r.maxSeen = false ∧
      ∃ whole ∈ r.heldLosses, whole.covers pkt.seq = true ∧ loss ∈ whole.without pkt.seq := by
  unfold noteArrival at hmem
  split_ifs at hmem with hcase
  · exact Or.inl hmem
  · exact (mem_heldLosses_onLatePacket hmem).imp_right fun hpart => ⟨Bool.not_eq_true _ ▸ hcase, hpart⟩

theorem heldFit_noteArrival (hheld : HeldFit r.heldLosses) : HeldFit (r.noteArrival pkt).heldLosses := by
  intro loss hloss
  rcases mem_heldLosses_noteArrival hloss with hold | ⟨-, whole, hwhole, -, hpart⟩
  · exact hheld loss hold
  · exact heldFit_without (hheld whole hwhole) hpart

theorem recent_noteArrival (h : r.Window) (hflow : seqDistance pkt.seq r.nextDeliver < flowWindowPackets)
    (hfit : loss.first < 2 ^ 31 ∧ loss.last < 2 ^ 31) (hrecent : r.Recent loss) : (r.noteArrival pkt).Recent loss := by
  obtain ⟨hwindow, hnext, -, hspan⟩ := window_noteArrival h hflow
  rw [recent_iff h hfit.1 hfit.2] at hrecent
  rw [recent_iff hwindow hfit.1 hfit.2, hnext, hspan]
  omega

theorem dueRecent_noteArrival (h : r.Window) (hheld : HeldFit r.heldLosses)
    (hflow : seqDistance pkt.seq r.nextDeliver < flowWindowPackets) (hdue : r.DueRecent) :
    (r.noteArrival pkt).DueRecent := by
  intro loss hloss hleft
  rcases mem_heldLosses_noteArrival hloss with hold | ⟨hlate, whole, hwhole, hcovers, hpart⟩
  · exact recent_noteArrival h hflow (hheld loss hold) (hdue loss hold hleft)
  · have hlt : seqDistance pkt.seq r.nextDeliver < r.span := by
      refine Nat.lt_of_not_le fun hle => ?_
      rw [(seqGt_maxSeen h pkt.seq_lt hflow).2 hle] at hlate
      cases hlate
    have hwhole' := hdue whole hwhole (by rw [← (mem_without hpart).1, hleft])
    have hrecent := recent_without h pkt.seq_lt hlt (hheld whole hwhole) hcovers hwhole' hpart
    exact recent_noteArrival h hflow (heldFit_without (hheld whole hwhole) hpart) hrecent

@[simp] theorem nextDeliver_store : (r.store pkt).nextDeliver = r.nextDeliver := rfl

@[simp] theorem span_store : (r.store pkt).span = r.span := rfl

@[simp] theorem haveBase_store : (r.store pkt).haveBase = r.haveBase := rfl

@[simp] theorem heldLosses_store : (r.store pkt).heldLosses = r.heldLosses := rfl

theorem pending_store : (r.store pkt).pending = r.pending.insert pkt.seq (r.decrypt pkt, pkt.timestamp) := rfl

theorem sameCursor_store : SameCursor r (r.store pkt) := ⟨rfl, rfl, rfl, rfl, rfl⟩

theorem recent_store : (r.store pkt).Recent loss ↔ r.Recent loss := Iff.rfl

theorem window_store (h : r.Window) (hwindow : seqDistance pkt.seq r.nextDeliver < r.span) : (r.store pkt).Window where
  next_lt := h.next_lt
  seen_lt := h.seen_lt
  span_le := h.span_le
  pending := by
    intro e he
    rcases SortedMap.mem_insert.1 he with rfl | ⟨-, hold⟩
    · exact ⟨pkt.seq_lt, hwindow⟩
    · exact h.pending e hold

theorem gapBefore_distances (h : r.Window) (hflow : seqDistance pkt.seq r.nextDeliver < flowWindowPackets)
    {gap : Nat × Nat} (hgap : r.gapBefore pkt.seq = some gap) :
    gap.1 < 2 ^ 31 ∧ gap.2 < 2 ^ 31 ∧ seqDistance gap.1 r.nextDeliver = r.span ∧
      seqDistance gap.2 r.nextDeliver + 1 = seqDistance pkt.seq r.nextDeliver ∧
      r.span ≤ seqDistance gap.2 r.nextDeliver := by
  have hend : seqDistance (seqNext r.maxSeen) r.nextDeliver = r.span := rfl
  have hspan := h.span_le
  unfold flowWindowPackets at hflow hspan
  unfold gapBefore at hgap
  split_ifs at hgap with hpast
  rw [← Option.some.inj hgap]
  rw [seqGt_iff, seqDistance_eq pkt.seq_lt (seqNext_lt _) h.next_lt, hend] at hpast
  have hlt : r.span < seqDistance pkt.seq r.nextDeliver := by
    split_ifs at hpast <;> omega
  have hlast : seqDistance (seqPrev pkt.seq) r.nextDeliver = seqDistance pkt.seq r.nextDeliver - 1 :=
    seqDistance_seqPrev pkt.seq_lt h.next_lt (by omega)
  refine ⟨seqNext_lt _, seqPrev_lt _, hend, ?_, ?_⟩
  · rw [hlast]
    omega
  · rw [hlast]
    omega

theorem isMissing_of_mem_reportGap {q : SrtReceiver} {tolerance : Nat} (h : r.Window) (hq : q.Window)
    (hnext : q.nextDeliver = r.nextDeliver) (hspan : q.span = max r.span (seqDistance pkt.seq r.nextDeliver + 1))
    (hflow : seqDistance pkt.seq r.nextDeliver < flowWindowPackets)
    (hmem : seq ∈ (q.reportGap tolerance (r.gapBefore pkt.seq)).2) : q.IsMissing seq := by
  cases hgap : r.gapBefore pkt.seq with
  | none =>
    rw [hgap] at hmem
    cases hmem
  | some gap =>
    obtain ⟨hfirstLt, hlastLt, hfirst, hlast, hle⟩ := gapBefore_distances h hflow hgap
    rw [hgap] at hmem
    unfold reportGap at hmem
    split_ifs at hmem
    · have hrecent : q.Recent { first := gap.1, last := gap.2, packetsLeft := 0 } := by
        refine Or.inr ?_
        rw [hnext, hspan, hfirst]
        exact ⟨hle, by show seqDistance gap.2 r.nextDeliver < _; omega⟩
      exact isMissing_of_mem_missingIn hq hfirstLt hlastLt hrecent hmem
    · cases hmem

end SrtReceiver

end Glass2Glass.Srt
