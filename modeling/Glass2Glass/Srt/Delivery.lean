import Glass2Glass.Srt.Window
import Mathlib.Data.List.TakeWhile

/-!
# Runs of the receiver

Whatever packets and drop requests arrive, and whenever payloads are taken, what is buffered lies in the window, the
loss reports are exact, and what is delivered comes in order (`SrtReceiver.run_exact`), as long as no drop request ends
exactly half of the circle past the highest sequence and no held gap is so old that it looks new.
-/

namespace Glass2Glass.Srt

open List

namespace SrtReceiver

variable {r r' : SrtReceiver} {seq first last : Nat} {pkt : DataPacket}

/-- What holds of the receiver between its operations. -/
structure Sound (r : SrtReceiver) : Prop where
  fresh : r.haveBase = false → r.pending.entries = [] ∧ r.heldLosses = []
  window : r.haveBase = true → r.Window
  held : HeldFit r.heldLosses

/-! ## Arrival -/

theorem sound_withBase (h : r.Sound) (hseq : seq < 2 ^ 31) :
    (r.withBase seq).Window ∧ (r.withBase seq).haveBase = true ∧ (r.withBase seq).heldLosses = r.heldLosses ∧
      (r.withBase seq).reorderTolerance = r.reorderTolerance := by
  unfold withBase
  split_ifs with hbase
  · exact ⟨h.window hbase, hbase, rfl, rfl⟩
  · have hempty := (h.fresh (Bool.not_eq_true _ ▸ hbase)).1
    refine ⟨⟨hseq, seqPrev_lt seq, ?_, fun e he => ?_⟩, rfl, rfl, rfl⟩
    · show seqDistance (seqNext (seqPrev seq)) seq ≤ flowWindowPackets
      rw [seqNext_seqPrev hseq, seqDistance_self]
      exact Nat.zero_le _
    · change e ∈ r.pending.entries at he
      rw [hempty] at he
      cases he

theorem dueRecent_withBase (h : r.Sound) (hdue : r.DueRecent) : (r.withBase seq).DueRecent := by
  unfold withBase
  split_ifs with hbase
  · exact hdue
  · intro loss hloss
    change loss ∈ r.heldLosses at hloss
    rw [(h.fresh (Bool.not_eq_true _ ▸ hbase)).2] at hloss
    cases hloss

variable {tolerance : Nat}

theorem mem_heldLosses_reportGap {loss : HeldLoss} {gap : Option (Nat × Nat)}
    (hmem : loss ∈ (r.reportGap tolerance gap).1.heldLosses) :
    loss ∈ r.heldLosses ∨ 0 < tolerance ∧ loss.packetsLeft = tolerance ∧ gap = some (loss.first, loss.last) := by
  cases gap with
  | none => exact .inl hmem
  | some gap =>
    unfold reportGap at hmem
    dsimp only at hmem
    split_ifs at hmem with htolerance
    · exact .inl hmem
    · rcases List.mem_append.1 hmem with hold | hnew
      · exact .inl hold
      · rw [List.mem_singleton.1 hnew]
        exact .inr ⟨Nat.pos_of_ne_zero htolerance, rfl, rfl⟩

theorem mem_heldLosses_reportHeld {loss : HeldLoss} (hmem : loss ∈ (r.reportHeld tolerance).1.heldLosses) :
    ∃ whole ∈ r.heldLosses, whole.first = loss.first ∧ whole.last = loss.last := by
  unfold reportHeld at hmem
  split_ifs at hmem
  · obtain ⟨whole, hwhole, rfl⟩ := List.mem_map.1 hmem
    exact ⟨whole, (dropWhile_sublist _).mem hwhole, rfl, rfl⟩
  · exact ⟨loss, hmem, rfl, rfl⟩

theorem isMissing_of_mem_reportHeld (h : r.Window) (hheld : HeldFit r.heldLosses)
    (hdue : 0 < tolerance → r.DueRecent) (hmem : seq ∈ (r.reportHeld tolerance).2) : r.IsMissing seq := by
  unfold reportHeld at hmem
  split_ifs at hmem with htolerance
  · obtain ⟨loss, hloss, hseq⟩ := List.mem_flatMap.1 hmem
    have hleft : loss.packetsLeft = 0 := by simpa using mem_takeWhile_imp hloss
    have hold : loss ∈ r.heldLosses := (takeWhile_sublist _).mem hloss
    exact isMissing_of_mem_missingIn h (hheld loss hold).1 (hheld loss hold).2 (hdue htolerance loss hold hleft) hseq
  · cases hmem

theorem Sound.of_window (h : r.Window) (hbase : r.haveBase = true) (hheld : HeldFit r.heldLosses) : r.Sound where
  fresh := by
    intro hno
    rw [hbase] at hno
    cases hno
  window := fun _ => h
  held := hheld

theorem sound_countOrderedPacket (h : r.Sound) : r.countOrderedPacket.Sound := by
  have hsame : SameWindow r r.countOrderedPacket := sameWindow_countOrderedPacket
  have hlosses : r.countOrderedPacket.heldLosses = r.heldLosses := by
    unfold countOrderedPacket
    split_ifs <;> rfl
  refine ⟨fun hno => ?_, fun hbase => hsame.window (h.window (hsame.base ▸ hbase)), hlosses ▸ h.held⟩
  rw [hsame.pending, hlosses]
  exact h.fresh (hsame.base ▸ hno)

theorem heldFit_reportGap (hheld : HeldFit r.heldLosses) :
    HeldFit (r.reportGap tolerance (r'.gapBefore seq)).1.heldLosses := by
  intro loss hloss
  rcases mem_heldLosses_reportGap hloss with hold | ⟨-, -, hgap⟩
  · exact hheld loss hold
  · unfold gapBefore at hgap
    split_ifs at hgap
    obtain ⟨hfirst, hlast⟩ := Prod.mk.inj (Option.some.inj hgap)
    rw [← hfirst, ← hlast]
    exact ⟨seqNext_lt _, seqPrev_lt _⟩

theorem heldFit_reportHeld (hheld : HeldFit r.heldLosses) : HeldFit (r.reportHeld tolerance).1.heldLosses := by
  intro loss hloss
  obtain ⟨whole, hwhole, hfirst, hlast⟩ := mem_heldLosses_reportHeld hloss
  rw [← hfirst, ← hlast]
  exact hheld whole hwhole

/-- A packet that is buffered keeps the window and does not move the cursor, and what is reported is missing. -/
theorem reported_sound (h : r.Window) (hbase : r.haveBase = true) (hheld : HeldFit r.heldLosses)
    (hdue : 0 < r.reorderTolerance → r.DueRecent) (hflow : seqDistance pkt.seq r.nextDeliver < flowWindowPackets)
    {reported held : SrtReceiver × List Nat}
    (hreported : reported = ((r.noteArrival pkt).store pkt).reportGap r.reorderTolerance (r.gapBefore pkt.seq))
    (hreportHeld : held = reported.1.reportHeld r.reorderTolerance) :
    held.1.Sound ∧ held.1.haveBase = true ∧ held.1.nextDeliver = r.nextDeliver ∧
      ∀ seq ∈ reported.2 ++ held.2, held.1.IsMissing seq := by
  obtain ⟨hnoted, hnext, hnotedBase, hspan⟩ := window_noteArrival h hflow
  have hstored : ((r.noteArrival pkt).store pkt).Window := window_store hnoted (by rw [hnext, hspan]; omega)
  have hstoredDue : 0 < r.reorderTolerance → ∀ loss ∈ ((r.noteArrival pkt).store pkt).heldLosses,
      loss.packetsLeft = 0 → ((r.noteArrival pkt).store pkt).Recent loss := by
    intro hpos loss hloss hleft
    rw [recent_store]
    rw [heldLosses_store] at hloss
    exact dueRecent_noteArrival h hheld hflow (hdue hpos) loss hloss hleft
  have hstoredHeld : HeldFit ((r.noteArrival pkt).store pkt).heldLosses := by
    rw [heldLosses_store]
    exact heldFit_noteArrival hheld
  have hstoreNext : ((r.noteArrival pkt).store pkt).nextDeliver = (r.noteArrival pkt).nextDeliver := nextDeliver_store
  have hstoreBase : ((r.noteArrival pkt).store pkt).haveBase = (r.noteArrival pkt).haveBase := haveBase_store
  have hstoreSpan : ((r.noteArrival pkt).store pkt).span = (r.noteArrival pkt).span := span_store
  rw [← hstoreNext] at hnext
  rw [← hstoreBase] at hnotedBase
  rw [← hstoreSpan] at hspan
  clear hstoreNext hstoreBase hstoreSpan
  generalize (r.noteArrival pkt).store pkt = stored at *
  have hgap : SameWindow stored reported.1 := hreported ▸ sameWindow_reportGap _ _
  have hafter : SameWindow reported.1 held.1 := hreportHeld ▸ sameWindow_reportHeld _
  have hfit : HeldFit reported.1.heldLosses := hreported ▸ heldFit_reportGap hstoredHeld
  have hwindow := hgap.window hstored
  have hheldBase : held.1.haveBase = true := by
    rw [hafter.base, hgap.base, hnotedBase, hbase]
  have hheldFit : HeldFit held.1.heldLosses := hreportHeld ▸ heldFit_reportHeld hfit
  refine ⟨.of_window (hafter.window hwindow) hheldBase hheldFit, hheldBase, ?_, fun seq hseq => ?_⟩
  · rw [hafter.next, hgap.next, hnext]
  rw [hafter.isMissing]
  rcases List.mem_append.1 hseq with hnew | hold
  · rw [hgap.isMissing]
    rw [hreported] at hnew
    exact isMissing_of_mem_reportGap h hstored hnext hspan hflow hnew
  · rw [hreportHeld] at hold
    refine isMissing_of_mem_reportHeld hwindow hfit (fun hpos loss hloss hleft => hgap.recent.2 ?_) hold
    -- A gap that is new has still to wait, so a gap that is due was there before.
    rw [hreported] at hloss
    rcases mem_heldLosses_reportGap hloss with hwas | ⟨-, hwaits, -⟩
    · exact hstoredDue hpos loss hwas hleft
    · omega

/-- A packet is buffered if it is in the flow window and not there yet. -/
def accepts (r : SrtReceiver) (seq : Nat) : Bool :=
  seqGe seq r.nextDeliver && decide (seqDistance seq r.nextDeliver < flowWindowPackets) && !r.pending.contains seq

theorem onData_outside (hstart : r.withBase pkt.seq = r') (hfar : ¬ (seqGe pkt.seq r'.nextDeliver = true ∧
      seqDistance pkt.seq r'.nextDeliver < flowWindowPackets)) : r.onData pkt = (r', []) := by
  unfold onData
  dsimp only
  rw [hstart]
  cases hge : seqGe pkt.seq r'.nextDeliver with
  | false => rw [if_pos (by decide)]
  | true =>
    have hflow := Nat.le_of_not_lt fun hlt => hfar ⟨hge, hlt⟩
    rw [if_neg (by decide), if_pos hflow]

theorem onData_duplicate (hstart : r.withBase pkt.seq = r') (hge : seqGe pkt.seq r'.nextDeliver = true)
    (hflow : seqDistance pkt.seq r'.nextDeliver < flowWindowPackets) (hthere : r'.pending.contains pkt.seq = true) :
    r.onData pkt = (r'.noteArrival pkt, []) := by
  have hpending : (r'.noteArrival pkt).pending = r'.pending := sameStore_noteArrival.pending
  unfold onData
  dsimp only
  rw [hstart, hge, if_neg (by decide), if_neg (Nat.not_le_of_lt hflow), hpending, if_pos hthere]

theorem accepts_iff : r.accepts seq = true ↔ seqGe seq r.nextDeliver = true ∧
    seqDistance seq r.nextDeliver < flowWindowPackets ∧ r.pending.contains seq = false := by
  unfold accepts
  rw [Bool.and_eq_true, Bool.and_eq_true, decide_eq_true_iff, Bool.not_eq_true', and_assoc]

theorem onData_accepted (hstart : r.withBase pkt.seq = r') (h : r'.accepts pkt.seq = true) :
    ∃ reported held : SrtReceiver × List Nat,
      reported = ((r'.noteArrival pkt).store pkt).reportGap r'.reorderTolerance (r'.gapBefore pkt.seq) ∧
      held = reported.1.reportHeld r'.reorderTolerance ∧
      ((r.onData pkt).1 = held.1 ∨ (r.onData pkt).1 = held.1.countOrderedPacket) ∧
      (r.onData pkt).2 = (reported.2 ++ held.2).take maxLossList := by
  obtain ⟨hge, hflow, hthere⟩ := accepts_iff.1 h
  have hpending : (r'.noteArrival pkt).pending = r'.pending := sameStore_noteArrival.pending
  refine ⟨_, _, rfl, rfl, ?_⟩
  unfold onData
  dsimp only
  rw [hstart, hge, if_neg (by decide), if_neg (Nat.not_le_of_lt hflow), hpending, hthere, if_neg Bool.false_ne_true]
  split_ifs
  · exact ⟨.inr rfl, rfl⟩
  · exact ⟨.inl rfl, rfl⟩

theorem onData_cases (hstart : r.withBase pkt.seq = r') : r'.accepts pkt.seq = false ∧ r.onData pkt = (r', []) ∨
    (r'.accepts pkt.seq = false ∧ seqDistance pkt.seq r'.nextDeliver < flowWindowPackets ∧
      r'.pending.contains pkt.seq = true ∧ r.onData pkt = (r'.noteArrival pkt, [])) ∨
    (r'.accepts pkt.seq = true ∧ seqDistance pkt.seq r'.nextDeliver < flowWindowPackets ∧
      ∃ reported held : SrtReceiver × List Nat,
        reported = ((r'.noteArrival pkt).store pkt).reportGap r'.reorderTolerance (r'.gapBefore pkt.seq) ∧
        held = reported.1.reportHeld r'.reorderTolerance ∧
        ((r.onData pkt).1 = held.1 ∨ (r.onData pkt).1 = held.1.countOrderedPacket) ∧
        (r.onData pkt).2 = (reported.2 ++ held.2).take maxLossList) := by
  by_cases hin : seqGe pkt.seq r'.nextDeliver = true ∧ seqDistance pkt.seq r'.nextDeliver < flowWindowPackets
  · obtain ⟨hge, hflow⟩ := hin
    cases hthere : r'.pending.contains pkt.seq with
    | true =>
      refine .inr (.inl ⟨?_, hflow, rfl, onData_duplicate hstart hge hflow hthere⟩)
      rw [← Bool.not_eq_true, accepts_iff, hthere]
      exact fun h => Bool.noConfusion h.2.2
    | false =>
      have haccepts := accepts_iff.2 ⟨hge, hflow, hthere⟩
      exact .inr (.inr ⟨haccepts, hflow, onData_accepted hstart haccepts⟩)
  · refine .inl ⟨?_, onData_outside hstart hin⟩
    rw [← Bool.not_eq_true, accepts_iff]
    exact fun h => hin ⟨h.1, h.2.1⟩

/-- A packet keeps the window and does not move the cursor, and what is reported is missing. -/
theorem onData_sound (h : r.Sound) (hdue : 0 < r.reorderTolerance → r.DueRecent) :
    (r.onData pkt).1.Sound ∧ (r.onData pkt).1.haveBase = true ∧
      (r.onData pkt).1.nextDeliver = (r.withBase pkt.seq).nextDeliver ∧
      ∀ seq ∈ (r.onData pkt).2, (r.onData pkt).1.IsMissing seq := by
  obtain ⟨hwindow, hbase, hlosses, htolerance⟩ := sound_withBase h pkt.seq_lt
  have hdueBase : 0 < (r.withBase pkt.seq).reorderTolerance → (r.withBase pkt.seq).DueRecent :=
    fun hpos => dueRecent_withBase h (hdue (htolerance ▸ hpos))
  have hheld : HeldFit (r.withBase pkt.seq).heldLosses := hlosses ▸ h.held
  have hempty (q : SrtReceiver) : ∀ seq ∈ ([] : List Nat), q.IsMissing seq := forall_mem_nil _
  generalize hstart : r.withBase pkt.seq = b at hwindow hbase hheld hdueBase ⊢
  rcases onData_cases hstart with ⟨-, hdata⟩ | ⟨-, hflow, -, hdata⟩ | ⟨-, hflow, reported, held, rfl, rfl, hstate, hlist⟩
  · rw [hdata]
    exact ⟨.of_window hwindow hbase hheld, hbase, rfl, hempty b⟩
  · obtain ⟨hnoted, hnext, hnotedBase, -⟩ := window_noteArrival hwindow hflow
    have hnotedBase := hnotedBase.trans hbase
    rw [hdata]
    exact ⟨.of_window hnoted hnotedBase (heldFit_noteArrival hheld), hnotedBase, hnext, hempty _⟩
  · obtain ⟨hsound, hheldBase, hnext, hmissing⟩ := reported_sound hwindow hbase hheld hdueBase hflow rfl rfl
    rw [hlist]
    generalize ((b.noteArrival pkt).store pkt).reportGap b.reorderTolerance (b.gapBefore pkt.seq) = reported at *
    generalize reported.1.reportHeld b.reorderTolerance = held at *
    rcases hstate with hstate | hstate <;> rw [hstate]
    · exact ⟨hsound, hheldBase, hnext, fun seq hseq => hmissing seq (mem_of_mem_take hseq)⟩
    · have hsame : SameWindow held.1 held.1.countOrderedPacket := sameWindow_countOrderedPacket
      refine ⟨sound_countOrderedPacket hsound, hsame.base.trans hheldBase, hsame.next.trans hnext, fun seq hseq => ?_⟩
      exact hsame.isMissing.2 (hmissing seq (mem_of_mem_take hseq))

/-- What a packet does to the buffer. -/
theorem onData_stored (r : SrtReceiver) (pkt : DataPacket) : SameCursor (r.withBase pkt.seq) (r.onData pkt).1 ∧
      (r.onData pkt).1.pending =
        if (r.withBase pkt.seq).accepts pkt.seq then
          r.pending.insert pkt.seq ((r.withBase pkt.seq).decrypt pkt, pkt.timestamp)
        else r.pending := by
  have hbase : (r.withBase pkt.seq).pending = r.pending := by
    unfold withBase
    split_ifs <;> rfl
  generalize hstart : r.withBase pkt.seq = b at *
  have hnoted : SameStore b (b.noteArrival pkt) := sameStore_noteArrival
  rcases onData_cases hstart with ⟨haccepts, hdata⟩ | ⟨haccepts, -, -, hdata⟩ |
    ⟨haccepts, -, reported, held, rfl, rfl, hstate, -⟩
  · rw [hdata, haccepts, if_neg Bool.false_ne_true]
    exact ⟨SameWindow.rfl.toSameCursor, hbase⟩
  · rw [hdata, haccepts, if_neg Bool.false_ne_true]
    exact ⟨hnoted.toSameCursor, hnoted.pending.trans hbase⟩
  · rw [if_pos haccepts]
    have hdecrypt : (b.noteArrival pkt).decrypt pkt = b.decrypt pkt := by
      unfold decrypt
      rw [hnoted.even, hnoted.odd]
    have hpending : ((b.noteArrival pkt).store pkt).pending = (b.noteArrival pkt).pending.insert pkt.seq
        ((b.noteArrival pkt).decrypt pkt, pkt.timestamp) := pending_store
    rw [hdecrypt, hnoted.pending, hbase] at hpending
    have hcursor : SameCursor b ((b.noteArrival pkt).store pkt) := hnoted.toSameCursor.trans sameCursor_store
    generalize (b.noteArrival pkt).store pkt = stored at *
    have hgap : SameWindow stored (stored.reportGap b.reorderTolerance (b.gapBefore pkt.seq)).1 :=
      sameWindow_reportGap _ _
    generalize stored.reportGap b.reorderTolerance (b.gapBefore pkt.seq) = reported at *
    have hheld : SameWindow reported.1 (reported.1.reportHeld b.reorderTolerance).1 := sameWindow_reportHeld _
    generalize reported.1.reportHeld b.reorderTolerance = held at *
    have hdone := (hgap.trans hheld).toSameStore
    rcases hstate with hstate | hstate <;> rw [hstate]
    · exact ⟨hcursor.trans hdone.toSameCursor, hdone.pending.trans hpending⟩
    · have hcounted : SameWindow held.1 held.1.countOrderedPacket := sameWindow_countOrderedPacket
      have hall := hdone.trans hcounted.toSameStore
      exact ⟨hcursor.trans hall.toSameCursor, hall.pending.trans hpending⟩

/-! ## Delivery -/

/-- The cursor moves past a sequence of the window, and what is behind it is no longer buffered. -/
theorem window_advance (h : r.Window) (hseq : seq < 2 ^ 31) (hwindow : seqDistance seq r.nextDeliver < r.span)
    (hnext : r'.nextDeliver = seqNext seq) (hseen : r'.maxSeen = r.maxSeen)
    (hpending : ∀ e ∈ r'.pending.entries, e ∈ r.pending.entries ∧
      seqDistance seq r.nextDeliver < seqDistance e.1 r.nextDeliver) :
    r'.Window ∧ r'.span + (seqDistance seq r.nextDeliver + 1) = r.span ∧
      ∀ {a : Nat}, a < 2 ^ 31 → seqDistance seq r.nextDeliver < seqDistance a r.nextDeliver →
        seqDistance a r'.nextDeliver = seqDistance a r.nextDeliver - (seqDistance seq r.nextDeliver + 1) := by
  have hspan := h.span_le
  unfold flowWindowPackets at hspan
  have hcursor : seqDistance r'.nextDeliver r.nextDeliver = seqDistance seq r.nextDeliver + 1 := by
    rw [hnext]
    exact seqDistance_seqNext hseq h.next_lt (by omega)
  have hcursorLt : r'.nextDeliver < 2 ^ 31 := hnext ▸ seqNext_lt seq
  have hend : seqDistance (seqNext r.maxSeen) r.nextDeliver = r.span := rfl
  have hspanNew : r'.span = r.span - (seqDistance seq r.nextDeliver + 1) := by
    unfold span
    rw [hseen, seqDistance_sub (seqNext_lt _) hcursorLt h.next_lt (by rw [hcursor, hend]; omega), hcursor, hend]
  have hahead {a : Nat} (ha : a < 2 ^ 31) (hlt : seqDistance seq r.nextDeliver < seqDistance a r.nextDeliver) :
      seqDistance a r'.nextDeliver = seqDistance a r.nextDeliver - (seqDistance seq r.nextDeliver + 1) := by
    rw [seqDistance_sub ha hcursorLt h.next_lt (by rw [hcursor]; omega), hcursor]
  refine ⟨⟨hcursorLt, hseen ▸ h.seen_lt, ?_, fun e he => ?_⟩, by omega, hahead⟩
  · unfold flowWindowPackets
    omega
  · obtain ⟨hold, hlt⟩ := hpending e he
    obtain ⟨hkey, hin⟩ := h.pending e hold
    refine ⟨hkey, ?_⟩
    rw [hahead hkey hlt, hspanNew]
    omega

/-- What one operation takes: the cursor moves on in the window, and what is taken lies between, in order. -/
structure Took (r r' : SrtReceiver) (taken : List (Nat × List UInt8)) : Prop where
  window : r'.Window
  base : r'.haveBase = r.haveBase
  held : r'.heldLosses = r.heldLosses
  span : r'.span + seqDistance r'.nextDeliver r.nextDeliver = r.span
  taken_lt : ∀ e ∈ taken, e.1 < 2 ^ 31 ∧ seqDistance e.1 r.nextDeliver < seqDistance r'.nextDeliver r.nextDeliver
  ordered : taken.Pairwise fun a b => seqDistance a.1 r.nextDeliver < seqDistance b.1 r.nextDeliver

theorem Took.nil (h : r.Window) (hnext : r'.nextDeliver = r.nextDeliver) (hseen : r'.maxSeen = r.maxSeen)
    (hpending : r'.pending = r.pending) (hbase : r'.haveBase = r.haveBase) (hheld : r'.heldLosses = r.heldLosses) :
    r.Took r' [] := by
  have hspan : r'.span = r.span := by
    unfold SrtReceiver.span
    rw [hnext, hseen]
  refine ⟨⟨hnext ▸ h.next_lt, hseen ▸ h.seen_lt, hspan ▸ h.span_le, ?_⟩, hbase, hheld, ?_, forall_mem_nil _,
    .nil⟩
  · rw [hpending, hnext, hspan]
    exact h.pending
  · rw [hspan, hnext, seqDistance_self, Nat.add_zero]

/-- Take a packet, and then others. -/
theorem Took.cons {r'' : SrtReceiver} {payload : List UInt8} {taken : List (Nat × List UInt8)} (r' : SrtReceiver)
    (h : r.Window) (hseq : seq < 2 ^ 31) (hwindow : seqDistance seq r.nextDeliver < r.span) (hnext : r'.nextDeliver = seqNext seq)
    (hseen : r'.maxSeen = r.maxSeen) (hbase : r'.haveBase = r.haveBase) (hheld : r'.heldLosses = r.heldLosses)
    (hpending : ∀ e ∈ r'.pending.entries, e ∈ r.pending.entries ∧
      seqDistance seq r.nextDeliver < seqDistance e.1 r.nextDeliver) (hrest : r'.Window → r'.Took r'' taken) :
    r.Took r'' ((seq, payload) :: taken) := by
  obtain ⟨hwindow', hspan, -⟩ := window_advance h hseq hwindow hnext hseen hpending
  have hrest := hrest hwindow'
  have hle := h.span_le
  unfold flowWindowPackets at hle
  have hcursor : seqDistance r'.nextDeliver r.nextDeliver = seqDistance seq r.nextDeliver + 1 := by
    rw [hnext]
    exact seqDistance_seqNext hseq h.next_lt (by omega)
  -- A place a little past the new cursor is as much further past the old one.
  have hfurther {a : Nat} (ha : a < 2 ^ 31) (hnear : seqDistance a r'.nextDeliver ≤ r'.span) :
      seqDistance a r.nextDeliver = seqDistance a r'.nextDeliver + (seqDistance seq r.nextDeliver + 1) := by
    have hself := seqDistance_self r'.nextDeliver
    have hlt := seqDistance_lt a r.nextDeliver
    have hboth := seqDistance_eq ha hwindow'.next_lt h.next_lt
    rw [hcursor] at hboth
    split_ifs at hboth <;> omega
  have hend := hfurther hrest.window.next_lt (by have := hrest.span; omega)
  refine ⟨hrest.window, hrest.base.trans hbase, hrest.held.trans hheld, ?_, ?_, ?_⟩
  · have := hrest.span
    omega
  · intro e he
    rcases List.mem_cons.1 he with rfl | he
    · exact ⟨hseq, by rw [hend]; show seqDistance seq r.nextDeliver < _; omega⟩
    · obtain ⟨hkey, hlt⟩ := hrest.taken_lt e he
      refine ⟨hkey, ?_⟩
      rw [hfurther hkey (by have := hrest.span; omega), hend]
      omega
  · refine List.pairwise_cons.2 ⟨fun e he => ?_, hrest.ordered.imp_of_mem fun {a b} ha hb hab => ?_⟩
    · obtain ⟨hkey, hlt⟩ := hrest.taken_lt e he
      rw [hfurther hkey (by have := hrest.span; omega)]
      show seqDistance seq r.nextDeliver < _
      omega
    · obtain ⟨hkeyA, hltA⟩ := hrest.taken_lt a ha
      obtain ⟨hkeyB, hltB⟩ := hrest.taken_lt b hb
      rw [hfurther hkeyA (by have := hrest.span; omega), hfurther hkeyB (by have := hrest.span; omega)]
      omega

theorem took_takeInOrder (fuel : Nat) (h : r.Window) : r.Took (takeInOrder fuel r).1 (takeInOrder fuel r).2 := by
  induction fuel generalizing r with
  | zero => exact .nil h rfl rfl rfl rfl rfl
  | succ fuel ih =>
    unfold takeInOrder
    cases hentry : r.pending.get? r.nextDeliver with
    | none => exact .nil h rfl rfl rfl rfl rfl
    | some entry =>
      have hmem := (h.pending _ (SortedMap.get?_eq_some.1 hentry)).2
      refine .cons { r with pending := r.pending.erase r.nextDeliver, nextDeliver := seqNext r.nextDeliver } h h.next_lt
        hmem rfl rfl rfl rfl (fun e he => ?_) ih
      obtain ⟨hne, hold⟩ := SortedMap.mem_erase.1 he
      refine ⟨hold, ?_⟩
      rw [seqDistance_self, Nat.pos_iff_ne_zero, Ne, seqDistance_eq_zero (h.pending e hold).1 h.next_lt]
      exact hne

theorem took_takeReadySeqs (h : r.Window) : r.Took r.takeReadySeqs.1 r.takeReadySeqs.2 := took_takeInOrder _ h

theorem firstPending_nearest (h : r.Window) {e : Nat × List UInt8 × Nat} (hfirst : r.firstPending = some e) :
    e ∈ r.pending.entries ∧
      ∀ e' ∈ r.pending.entries, seqDistance e.1 r.nextDeliver ≤ seqDistance e'.1 r.nextDeliver := by
  have hnext := h.next_lt
  unfold firstPending at hfirst
  rcases hfind : r.pending.entries.find? (fun e => r.nextDeliver ≤ e.1) with _ | found
  · -- All keys are behind the cursor as numbers, so the least one is the nearest one.
    rw [hfind] at hfirst
    obtain ⟨k, v⟩ := e
    change r.pending.first? = some (k, v) at hfirst
    have hmem := SortedMap.mem_of_first? hfirst
    refine ⟨hmem, fun e' he' => ?_⟩
    have hbehind := List.find?_eq_none.1 hfind
    have hk : ¬ r.nextDeliver ≤ k := by simpa using hbehind (k, v) hmem
    have hk' : ¬ r.nextDeliver ≤ e'.1 := by simpa using hbehind e' he'
    have hle := SortedMap.le_of_first? hfirst he'
    have hlt := (h.pending e' he').1
    show seqDistance k r.nextDeliver ≤ _
    unfold seqDistance
    omega
  · rw [hfind] at hfirst
    cases hfirst
    have hmem := List.mem_of_find?_eq_some hfind
    have hahead : r.nextDeliver ≤ e.1 := by simpa using List.find?_some hfind
    refine ⟨hmem, fun e' he' => ?_⟩
    have hlt := (h.pending e hmem).1
    have hlt' := (h.pending e' he').1
    by_cases hcase : r.nextDeliver ≤ e'.1
    · have hle := SortedMap.le_of_find? hfind he' (decide_eq_true hcase)
      unfold seqDistance
      omega
    · unfold seqDistance
      omega

theorem took_takeDue (latency : Nat) (nowUs : Int) (fuel : Nat) (h : r.Window) :
    r.Took (takeDue latency nowUs fuel r).1 (takeDue latency nowUs fuel r).2 := by
  induction fuel generalizing r with
  | zero => exact .nil h rfl rfl rfl rfl rfl
  | succ fuel ih =>
    unfold takeDue
    cases hfirst : r.firstPending with
    | none => exact .nil h rfl rfl rfl rfl rfl
    | some e =>
      obtain ⟨hmem, hnearest⟩ := firstPending_nearest h hfirst
      obtain ⟨hkey, hwindow⟩ := h.pending e hmem
      dsimp only
      split_ifs
      · exact .nil h rfl rfl rfl rfl rfl
      · refine .cons { r with pending := r.pending.erase e.1, nextDeliver := seqNext e.1, tsbpdAnchor := some _ } h hkey
          hwindow rfl rfl rfl rfl (fun e' he' => ?_) ih
        obtain ⟨hne, hold⟩ := SortedMap.mem_erase.1 he'
        refine ⟨hold, lt_of_le_of_ne (hnearest e' hold) fun heq => hne ?_⟩
        exact (eq_of_seqDistance_eq hkey (h.pending e' hold).1 h.next_lt heq).symm

theorem took_takeReadyAtSeqs (nowUs : Nat) (h : r.Window) :
    r.Took (r.takeReadyAtSeqs nowUs).1 (r.takeReadyAtSeqs nowUs).2 := by
  unfold takeReadyAtSeqs
  cases r.tsbpdLatencyUs with
  | none => exact took_takeReadySeqs h
  | some latency => exact took_takeDue latency _ _ h

theorem takeReadyAtSeqs_of_empty (nowUs : Nat) (h : r.pending.entries = []) : r.takeReadyAtSeqs nowUs = (r, []) := by
  have hsize : r.pending.size = 0 := by
    unfold SortedMap.size
    rw [h, length_nil]
  have hfirst : r.firstPending = none := by
    unfold firstPending SortedMap.first?
    rw [h]
    rfl
  unfold takeReadyAtSeqs takeReadySeqs
  rw [hsize]
  cases r.tsbpdLatencyUs with
  | none => rfl
  | some latency =>
    dsimp only
    unfold takeDue
    rw [hfirst]

theorem takeReadySeqs_of_empty (h : r.pending.entries = []) : r.takeReadySeqs = (r, []) := by
  have hsize : r.pending.size = 0 := by
    unfold SortedMap.size
    rw [h, length_nil]
  unfold takeReadySeqs
  rw [hsize]
  rfl

/-- A drop request keeps the window, but for one that ends exactly half of the circle past the highest sequence. -/
theorem window_onDropRequest (h : r.Window) (hlast : last < 2 ^ 31) (hcovers : r.coversCursor first last = true)
    (hhalf : seqDistance last r.maxSeen ≠ 2 ^ 30) (hbase : r.haveBase = true) :
    (r.onDropRequest first last).Window := by
  have hspan := h.span_le
  unfold flowWindowPackets at hspan
  have hnear : seqDistance last r.nextDeliver < 2 ^ 30 := by
    unfold coversCursor at hcovers
    rw [Bool.and_eq_true, seqGe_iff hlast h.next_lt] at hcovers
    exact hcovers.2
  have hseen : seqDistance r.maxSeen r.nextDeliver = if r.span = 0 then 2 ^ 31 - 1 else r.span - 1 := by
    have hlt := h.next_lt
    have hseen := h.seen_lt
    unfold span seqDistance seqNext at *
    split_ifs <;> omega
  have hgt : seqGt last r.maxSeen = true ↔ r.span ≤ seqDistance last r.nextDeliver := by
    rw [seqDistance_eq hlast h.seen_lt h.next_lt, hseen] at hhalf
    rw [seqGt_iff, seqDistance_eq hlast h.seen_lt h.next_lt, hseen]
    split_ifs at hhalf ⊢ <;> omega
  have hafter : ∀ e ∈ r.pending.entries, seqGe e.1 (seqNext last) = true →
      seqDistance last r.nextDeliver < seqDistance e.1 r.nextDeliver := by
    intro e he hge
    obtain ⟨hkey, hin⟩ := h.pending e he
    rw [seqGe_iff hkey (seqNext_lt _), seqDistance_eq hkey (seqNext_lt _) h.next_lt,
      seqDistance_seqNext hlast h.next_lt (by omega)] at hge
    split_ifs at hge <;> omega
  have hnot : ¬((!r.haveBase || !r.coversCursor first last) = true) := by
    rw [hbase, hcovers]
    decide
  unfold onDropRequest
  rw [if_neg hnot]
  by_cases hpast : seqGt last r.maxSeen = true
  · -- Everything buffered is dropped, and the window is empty.
    have hpast' := hgt.1 hpast
    simp only [if_pos hpast]
    have hempty (base : SrtReceiver) (hmax : base.maxSeen = last) (hnext : base.nextDeliver = seqNext last) :
        base.span = 0 := by
      unfold span
      rw [hmax, hnext, seqDistance_self]
    refine ⟨seqNext_lt _, hlast, ?_, fun e he => ?_⟩
    · rw [hempty _ rfl rfl]
      exact Nat.zero_le _
    · obtain ⟨hge, hmem⟩ := SortedMap.mem_filter.1 he
      have := hafter e hmem hge
      have := (h.pending e hmem).2
      omega
  · have hin : seqDistance last r.nextDeliver < r.span := Nat.lt_of_not_le fun hle => hpast (hgt.2 hle)
    simp only [if_neg hpast]
    refine (window_advance h hlast hin ?_ ?_ fun e he => ?_).1
    · rfl
    · rfl
    obtain ⟨hge, hmem⟩ := SortedMap.mem_filter.1 he
    exact ⟨hmem, hafter e hmem hge⟩

/-! ## What stays -/

/-- Between two calls for data, packets leave the buffer, and what is held stays. -/
structure Passes (r r' : SrtReceiver) : Prop where
  pending : ∀ e ∈ r'.pending.entries, e ∈ r.pending.entries
  base : r'.haveBase = r.haveBase
  held : r'.heldLosses = r.heldLosses
  greatest : r'.lossMaxTtl = r.lossMaxTtl
  tolerance : r'.reorderTolerance = r.reorderTolerance
  latency : r'.tsbpdLatencyUs = r.tsbpdLatencyUs
  drift : r'.tsbpdDrift = r.tsbpdDrift

theorem Passes.refl (r : SrtReceiver) : r.Passes r := ⟨fun _ he => he, rfl, rfl, rfl, rfl, rfl, rfl⟩

theorem Passes.trans {r'' : SrtReceiver} (h : r.Passes r') (h' : r'.Passes r'') : r.Passes r'' :=
  ⟨fun e he => h.pending e (h'.pending e he), h'.base.trans h.base, h'.held.trans h.held, h'.greatest.trans h.greatest,
    h'.tolerance.trans h.tolerance, h'.latency.trans h.latency, h'.drift.trans h.drift⟩

theorem passes_erase (key next : Nat) (anchor : Option TsbpdAnchor) :
    r.Passes { r with pending := r.pending.erase key, nextDeliver := next, tsbpdAnchor := anchor } :=
  ⟨fun _ he => (SortedMap.mem_erase.1 he).2, rfl, rfl, rfl, rfl, rfl, rfl⟩

theorem passes_takeInOrder (fuel : Nat) (r : SrtReceiver) : r.Passes (takeInOrder fuel r).1 := by
  induction fuel generalizing r with
  | zero => exact .refl r
  | succ fuel ih =>
    unfold takeInOrder
    cases r.pending.get? r.nextDeliver with
    | none => exact .refl r
    | some entry => exact (passes_erase r.nextDeliver (seqNext r.nextDeliver) r.tsbpdAnchor).trans (ih _)

theorem passes_takeDue (latency : Nat) (nowUs : Int) (fuel : Nat) (r : SrtReceiver) :
    r.Passes (takeDue latency nowUs fuel r).1 := by
  induction fuel generalizing r with
  | zero => exact .refl r
  | succ fuel ih =>
    unfold takeDue
    cases r.firstPending with
    | none => exact .refl r
    | some e =>
      dsimp only
      split_ifs
      · exact ⟨fun _ he => he, rfl, rfl, rfl, rfl, rfl, rfl⟩
      · exact (passes_erase e.1 (seqNext e.1) _).trans (ih _)

theorem passes_takeReadyAtSeqs (nowUs : Nat) : r.Passes (r.takeReadyAtSeqs nowUs).1 := by
  unfold takeReadyAtSeqs
  cases r.tsbpdLatencyUs with
  | none => exact passes_takeInOrder _ r
  | some latency => exact passes_takeDue latency _ _ r

theorem passes_onDropRequest (first last : Nat) : r.Passes (r.onDropRequest first last) := by
  unfold onDropRequest
  by_cases hskip : (!r.haveBase || !r.coversCursor first last) = true
  · rw [if_pos hskip]
    exact .refl r
  · rw [if_neg hskip]
    exact ⟨fun _ he => (SortedMap.mem_filter.1 he).2, rfl, rfl, rfl, rfl, rfl, rfl⟩

/-! ## Runs -/

/-- The receiver of `new`, with its settings. -/
def configured (lossMaxTtl : Nat) (tsbpdLatencyUs : Option Nat)
    (cryptoEven cryptoOdd : Option (Nat → List UInt8 → List UInt8)) : SrtReceiver :=
  { new.setLossMaxTtl lossMaxTtl with tsbpdLatencyUs, cryptoEven, cryptoOdd }

/-- What can happen to a receiver. -/
inductive Event where
  | data (pkt : DataPacket)
  | dropRequest (first last : Nat) (hfirst : first < 2 ^ 31) (hlast : last < 2 ^ 31)
  | takeReady
  | takeReadyAt (nowUs : Nat)

/-- The receiver with all that it delivered. Sequence numbers repeat after a round of the circle, so what is delivered
is told apart by its position, which grows by as much as the cursor moves. -/
structure Trace where
  receiver : SrtReceiver
  position : Nat
  delivered : List (Nat × Nat)
  reported : List Nat

namespace Trace

def start (r : SrtReceiver) : Trace := { receiver := r, position := 0, delivered := [], reported := [] }

/-- The cursor moves, and some packets are taken. -/
def moveTo (t : Trace) (r : SrtReceiver) (taken : List (Nat × List UInt8)) : Trace where
  receiver := r
  position := t.position + seqDistance r.nextDeliver t.receiver.nextDeliver
  delivered := t.delivered ++ taken.map fun e => (t.position + seqDistance e.1 t.receiver.nextDeliver, e.1)
  reported := []

def step (t : Trace) : Event → Trace
  | .data pkt =>
    { t with
      receiver := (t.receiver.onData pkt).1
      position := if t.receiver.haveBase then t.position else pkt.seq
      reported := (t.receiver.onData pkt).2 }
  | .dropRequest first last _ _ => t.moveTo (t.receiver.onDropRequest first last) []
  | .takeReady => t.moveTo t.receiver.takeReadySeqs.1 t.receiver.takeReadySeqs.2
  | .takeReadyAt nowUs => t.moveTo (t.receiver.takeReadyAtSeqs nowUs).1 (t.receiver.takeReadyAtSeqs nowUs).2

def run (t : Trace) (events : List Event) : Trace := events.foldl step t

/-- The window is in order, the loss reports are exact, and what was delivered came in order. -/
structure Exact (t : Trace) : Prop where
  buffered : ∀ e ∈ t.receiver.pending.entries, e.1 < 2 ^ 31 ∧ seqDistance e.1 t.receiver.nextDeliver < flowWindowPackets
  seen : t.receiver.haveBase = true → seqGe t.receiver.maxSeen (seqPrev t.receiver.nextDeliver) = true
  missing : ∀ seq, seq ∈ t.receiver.missing ↔ t.receiver.haveBase = true ∧ t.receiver.IsMissing seq
  reported : ∀ seq ∈ t.reported, seq ∈ t.receiver.missing
  delivered : t.delivered.Pairwise fun a b => a.1 < b.1
  passed : ∀ e ∈ t.delivered, e.1 < t.position ∧ e.1 % 2 ^ 31 = e.2
  position : t.receiver.haveBase = true → t.position % 2 ^ 31 = t.receiver.nextDeliver

end Trace

/-- A drop request that covers the cursor does not end exactly half of the circle past the highest sequence, and when a
packet arrives, the held gaps whose wait is over are recent. -/
def Fits (r : SrtReceiver) : Event → Prop
  | .data _ => 0 < r.reorderTolerance → r.DueRecent
  | .dropRequest first last _ _ =>
    r.haveBase = true → r.coversCursor first last = true → seqDistance last r.maxSeen ≠ 2 ^ 30
  | .takeReady => True
  | .takeReadyAt _ => True

/-- Every event of a run fits the receiver that it meets. -/
def AllFit : Trace → List Event → Prop
  | _, [] => True
  | t, event :: events => t.receiver.Fits event ∧ AllFit (t.step event) events

instance {loss : HeldLoss} : Decidable (r.Recent loss) := inferInstanceAs (Decidable (_ ∨ _))

instance : Decidable r.DueRecent := inferInstanceAs (Decidable (∀ loss ∈ r.heldLosses, _))

instance (event : Event) : Decidable (r.Fits event) :=
  match event with
  | .data _ => inferInstanceAs (Decidable (_ → _))
  | .dropRequest _ _ _ _ => inferInstanceAs (Decidable (_ → _ → _))
  | .takeReady => .isTrue trivial
  | .takeReadyAt _ => .isTrue trivial

instance decidableAllFit : (t : Trace) → (events : List Event) → Decidable (AllFit t events)
  | _, [] => .isTrue trivial
  | t, event :: events => @instDecidableAnd _ _ _ (decidableAllFit (t.step event) events)

namespace Trace

variable {t : Trace}

/-- What holds along a run. -/
structure Inv (t : Trace) : Prop where
  sound : t.receiver.Sound
  idle : t.receiver.haveBase = false → t.delivered = []
  reported : ∀ seq ∈ t.reported, t.receiver.haveBase = true ∧ t.receiver.IsMissing seq
  delivered : t.delivered.Pairwise fun a b => a.1 < b.1
  passed : ∀ e ∈ t.delivered, e.1 < t.position ∧ e.1 % 2 ^ 31 = e.2
  position : t.receiver.haveBase = true → t.position % 2 ^ 31 = t.receiver.nextDeliver

theorem inv_start (lossMaxTtl : Nat) (tsbpdLatencyUs : Option Nat)
    (cryptoEven cryptoOdd : Option (Nat → List UInt8 → List UInt8)) :
    (start (configured lossMaxTtl tsbpdLatencyUs cryptoEven cryptoOdd)).Inv where
  sound := {
    fresh := fun _ => ⟨rfl, rfl⟩
    window := fun h => Bool.noConfusion h
    held := forall_mem_nil _ }
  idle := fun _ => rfl
  reported := forall_mem_nil _
  delivered := .nil
  passed := forall_mem_nil _
  position := fun h => Bool.noConfusion h

theorem position_add {p a b : Nat} (ha : a < 2 ^ 31) (hb : b < 2 ^ 31) (h : p % 2 ^ 31 = b) :
    (p + seqDistance a b) % 2 ^ 31 = a := by
  rw [← Nat.mod_add_mod, h, add_seqDistance ha hb]

theorem inv_data (h : t.Inv) (hfits : t.receiver.Fits (.data pkt)) : (t.step (.data pkt)).Inv := by
  obtain ⟨hsound, hbase, hnext, hmissing⟩ : (t.receiver.onData pkt).1.Sound ∧ (t.receiver.onData pkt).1.haveBase = true
      ∧ (t.receiver.onData pkt).1.nextDeliver = (t.receiver.withBase pkt.seq).nextDeliver
      ∧ ∀ seq ∈ (t.receiver.onData pkt).2, (t.receiver.onData pkt).1.IsMissing seq := onData_sound h.sound hfits
  refine ⟨hsound, fun hno => ?_, fun seq hseq => ⟨hbase, hmissing seq hseq⟩, h.delivered, fun e he => ?_, fun _ => ?_⟩
  · exact Bool.noConfusion (hbase.symm.trans hno)
  · cases hwas : t.receiver.haveBase with
    | false =>
      change e ∈ t.delivered at he
      rw [h.idle hwas] at he
      cases he
    | true =>
      show e.1 < (if t.receiver.haveBase then t.position else pkt.seq) ∧ _
      rw [hwas, if_pos rfl]
      exact h.passed e he
  · show (if t.receiver.haveBase then t.position else pkt.seq) % 2 ^ 31 = (t.receiver.onData pkt).1.nextDeliver
    rw [hnext]
    unfold withBase
    cases hwas : t.receiver.haveBase with
    | false => exact Nat.mod_eq_of_lt pkt.seq_lt
    | true => exact h.position hwas

theorem inv_moveTo {taken : List (Nat × List UInt8)} (h : t.Inv) (hbase : t.receiver.haveBase = true)
    (hsound : r.Sound) (hnext : r.nextDeliver < 2 ^ 31) (htaken : ∀ e ∈ taken, e.1 < 2 ^ 31 ∧
      seqDistance e.1 t.receiver.nextDeliver < seqDistance r.nextDeliver t.receiver.nextDeliver)
    (hordered : taken.Pairwise fun a b =>
      seqDistance a.1 t.receiver.nextDeliver < seqDistance b.1 t.receiver.nextDeliver)
    (hrbase : r.haveBase = true) : (t.moveTo r taken).Inv where
  sound := hsound
  idle := fun hno => Bool.noConfusion (hrbase.symm.trans hno)
  reported := forall_mem_nil _
  delivered := by
    refine List.pairwise_append.2 ⟨h.delivered, List.pairwise_map.2 ?_, fun a ha b hb => ?_⟩
    · exact hordered.imp fun hlt => Nat.add_lt_add_left hlt _
    · obtain ⟨e, -, rfl⟩ := List.mem_map.1 hb
      exact (h.passed a ha).1.trans_le (Nat.le_add_right _ _)
  passed := by
    intro a ha
    rcases List.mem_append.1 ha with hold | hnew
    · exact ⟨(h.passed a hold).1.trans_le (Nat.le_add_right _ _), (h.passed a hold).2⟩
    · obtain ⟨e, he, rfl⟩ := List.mem_map.1 hnew
      obtain ⟨hkey, hlt⟩ := htaken e he
      exact ⟨Nat.add_lt_add_left hlt _, position_add hkey (h.sound.window hbase).next_lt (h.position hbase)⟩
  position := fun _ => position_add hnext (h.sound.window hbase).next_lt (h.position hbase)

theorem inv_took {taken : List (Nat × List UInt8)} (h : t.Inv) (hbase : t.receiver.haveBase = true)
    (htook : t.receiver.Took r taken) : (t.moveTo r taken).Inv := by
  have hrbase := htook.base.trans hbase
  have hsound : r.Sound := .of_window htook.window hrbase (htook.held ▸ h.sound.held)
  exact inv_moveTo h hbase hsound htook.window.next_lt htook.taken_lt htook.ordered hrbase

theorem inv_still (h : t.Inv) : (t.moveTo t.receiver []).Inv := by
  have hsame : t.moveTo t.receiver [] = { t with reported := [] } := by
    unfold moveTo
    rw [seqDistance_self, map_nil, append_nil, Nat.add_zero]
  rw [hsame]
  exact ⟨h.sound, h.idle, forall_mem_nil _, h.delivered, h.passed, h.position⟩

theorem inv_dropRequest {hfirst : first < 2 ^ 31} {hlast : last < 2 ^ 31} (h : t.Inv)
    (hfits : t.receiver.Fits (.dropRequest first last hfirst hlast)) :
    (t.step (.dropRequest first last hfirst hlast)).Inv := by
  show (t.moveTo (t.receiver.onDropRequest first last) []).Inv
  by_cases hskip : (!t.receiver.haveBase || !t.receiver.coversCursor first last) = true
  · have hsame : t.receiver.onDropRequest first last = t.receiver := if_pos hskip
    rw [hsame]
    exact inv_still h
  · have hdone : t.receiver.haveBase = true ∧ t.receiver.coversCursor first last = true := by
      simpa [not_or] using hskip
    obtain ⟨hbase, hcovers⟩ := hdone
    have hwindow := window_onDropRequest (h.sound.window hbase) hlast hcovers (hfits hbase hcovers) hbase
    have hframe : (t.receiver.onDropRequest first last).haveBase = t.receiver.haveBase ∧
        (t.receiver.onDropRequest first last).heldLosses = t.receiver.heldLosses := by
      unfold onDropRequest
      rw [if_neg hskip]
      exact ⟨rfl, rfl⟩
    have hrbase := hframe.1.trans hbase
    have hsound : (t.receiver.onDropRequest first last).Sound :=
      .of_window hwindow hrbase (hframe.2 ▸ h.sound.held)
    exact inv_moveTo h hbase hsound hwindow.next_lt (forall_mem_nil _) .nil hrbase

theorem inv_step (h : t.Inv) (event : Event) (hfits : t.receiver.Fits event) : (t.step event).Inv := by
  cases event with
  | data pkt => exact inv_data h hfits
  | dropRequest first last hfirst hlast => exact inv_dropRequest h hfits
  | takeReady =>
    cases hbase : t.receiver.haveBase with
    | true => exact inv_took h hbase (took_takeReadySeqs (h.sound.window hbase))
    | false =>
      have hnone := takeReadySeqs_of_empty (h.sound.fresh hbase).1
      show (t.moveTo t.receiver.takeReadySeqs.1 t.receiver.takeReadySeqs.2).Inv
      rw [hnone]
      exact inv_still h
  | takeReadyAt nowUs =>
    cases hbase : t.receiver.haveBase with
    | true => exact inv_took h hbase (took_takeReadyAtSeqs nowUs (h.sound.window hbase))
    | false =>
      have hnone := takeReadyAtSeqs_of_empty nowUs (h.sound.fresh hbase).1
      show (t.moveTo (t.receiver.takeReadyAtSeqs nowUs).1 (t.receiver.takeReadyAtSeqs nowUs).2).Inv
      rw [hnone]
      exact inv_still h

theorem inv_run (h : t.Inv) (events : List Event) (hfit : AllFit t events) : (t.run events).Inv := by
  induction events generalizing t with
  | nil => exact h
  | cons event events ih => exact ih (inv_step h event hfit.1) hfit.2

theorem mem_missing_iff (h : t.Inv) : seq ∈ t.receiver.missing ↔
    t.receiver.haveBase = true ∧ t.receiver.IsMissing seq := by
  cases hbase : t.receiver.haveBase with
  | true => rw [mem_missing (h.sound.window hbase) hbase, eq_self, true_and]
  | false =>
    unfold missing
    simp [hbase]

theorem Inv.exact (h : t.Inv) : t.Exact where
  buffered := by
    intro e he
    cases hbase : t.receiver.haveBase with
    | true =>
      have hwindow := h.sound.window hbase
      exact ⟨(hwindow.pending e he).1, (hwindow.pending e he).2.trans_le hwindow.span_le⟩
    | false =>
      rw [(h.sound.fresh hbase).1] at he
      cases he
  seen := by
    intro hbase
    have hwindow := h.sound.window hbase
    have hnext := hwindow.next_lt
    have hseen := hwindow.seen_lt
    have hspan := hwindow.span_le
    rw [seqGe_iff hseen (seqPrev_lt _)]
    unfold span flowWindowPackets at hspan
    unfold seqDistance seqNext at hspan
    unfold seqDistance seqPrev
    omega
  missing := fun seq => mem_missing_iff h
  reported := fun seq hseq => (mem_missing_iff h).2 (h.reported seq hseq)
  delivered := h.delivered
  passed := h.passed
  position := h.position

end Trace

/-- In every run whose events fit, the window is in order, the loss reports are exact and the deliveries come in
order. -/
theorem run_exact (lossMaxTtl : Nat) (tsbpdLatencyUs : Option Nat)
    (cryptoEven cryptoOdd : Option (Nat → List UInt8 → List UInt8)) (events : List Event)
    (hfit : AllFit (.start (configured lossMaxTtl tsbpdLatencyUs cryptoEven cryptoOdd)) events) :
    ((Trace.start (configured lossMaxTtl tsbpdLatencyUs cryptoEven cryptoOdd)).run events).Exact :=
  (Trace.inv_run (Trace.inv_start _ _ _ _) events hfit).exact

/-- A data packet that is not sent again. -/
def plainPacket (seq : Nat) (hseq : seq < 2 ^ 31) : DataPacket :=
  { seq, seq_lt := hseq, retransmit := false, kk := 0, timestamp := seq, dstSocketId := 0, payload := [] }

/-- A run with a gap that is held, a packet out of order, and a drop request. -/
theorem run_exact_held : ((Trace.start (configured 2 none none none)).run
      [.data (plainPacket (2 ^ 31 - 1) (by decide)), .data (plainPacket 3 (by decide)),
        .data (plainPacket 1 (by decide)), .data (plainPacket 4 (by decide)), .takeReady,
        .dropRequest 0 0 (by decide) (by decide), .takeReady, .data (plainPacket 6 (by decide)), .takeReady]).Exact :=
  run_exact 2 none none none _ (by decide)

/-- After a drop request that ends half of the circle past the highest sequence, that one is behind the cursor. -/
theorem half_drop_request_not_exact : ¬ ((Trace.start new).run
      [.data (plainPacket 0 (by decide)), .takeReady, .dropRequest 1 (2 ^ 30) (by decide) (by decide)]).Exact := by
  intro h
  exact absurd (h.seen (by decide)) (by decide)

end SrtReceiver

end Glass2Glass.Srt
