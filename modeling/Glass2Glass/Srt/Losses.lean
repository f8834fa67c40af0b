import Glass2Glass.Srt.Delivery
import Glass2Glass.Srt.Held
import Mathlib.Data.List.Nodup
import Mathlib.Data.List.Perm.Subperm

/-!
# Held losses are reported in time

With a reorder tolerance a new gap is held, and each packet that is newly buffered counts the held gaps down, until
those at the front whose wait is over are reported. The tolerance falls by at most one for each of these packets, but
when it is 0 nothing is counted down any more, and what is held then stays so (`stranded_not_settled`). In every run
that buffers nothing while the tolerance is 0 and something is held, a skipped sequence arrives, is passed by the
cursor or is reported before as many packets are buffered as the greatest tolerance (`skipped_settled`).
-/

namespace Glass2Glass.Srt

open List

namespace SrtReceiver

variable {r r' : SrtReceiver} {pkt : DataPacket} {b seq : Nat} {loss : HeldLoss} {losses : List HeldLoss}

/-! ## Reports of held gaps -/

/-- A sequence of a held gap that is not passed and not there is reported with the gap. -/
theorem mem_missingIn (hnext : r.nextDeliver < 2 ^ 31) (hfit : loss.Fit) (hhas : loss.Has seq)
    (hnear : seqDistance seq r.nextDeliver < flowWindowPackets) (hpending : r.pending.contains seq = false) :
    seq ∈ r.missingIn loss.first loss.last := by
  obtain ⟨hseq, hle⟩ := hhas
  have hlength := hfit.length
  have hlt := seqDistance_lt r.nextDeliver loss.first
  have hdistance := seqDistance_eq hseq hnext hfit.first_lt
  have hend := seqDistance_eq hfit.last_lt hnext hfit.first_lt
  unfold flowWindowPackets at hlength hnear
  unfold missingIn
  rw [take_of_length_le, List.mem_filter]
  · refine ⟨?_, by rw [hpending]; rfl⟩
    by_cases hgt : seqGt r.nextDeliver loss.first = true
    · -- The gap begins behind the cursor, and the sequence does not.
      rw [if_pos hgt]
      rw [seqGt_iff] at hgt
      have hbefore : seqDistance r.nextDeliver loss.first ≤ seqDistance seq loss.first := by
        split_ifs at hdistance <;> omega
      rw [if_pos hbefore] at hdistance
      rw [if_pos (hbefore.trans hle)] at hend
      rw [if_pos ((seqGe_iff hfit.last_lt hnext).2 (by omega)), mem_range_map hnext (by omega)]
      exact ⟨hseq, by omega⟩
    · rw [if_neg hgt, if_pos ((seqGe_iff hfit.last_lt hfit.first_lt).2 (by omega)),
        mem_range_map hfit.first_lt (by omega)]
      exact ⟨hseq, by omega⟩
  · refine (length_filter_le _ _).trans ?_
    rw [length_map, length_range]
    unfold maxLossList
    by_cases hgt : seqGt r.nextDeliver loss.first = true
    · rw [if_pos hgt]
      rw [seqGt_iff] at hgt
      have hbefore : seqDistance r.nextDeliver loss.first ≤ seqDistance loss.last loss.first := by
        split_ifs at hdistance <;> omega
      rw [if_pos hbefore] at hend
      split_ifs <;> omega
    · rw [if_neg hgt]
      split_ifs <;> omega

theorem has_of_mem_missingIn (hnext : r.nextDeliver < 2 ^ 31) (hfit : loss.Fit)
    (hmem : seq ∈ r.missingIn loss.first loss.last) : loss.Has seq := by
  have hlength := hfit.length
  have hlt := seqDistance_lt r.nextDeliver loss.first
  unfold flowWindowPackets at hlength
  unfold missingIn at hmem
  have hrange := (List.mem_filter.1 (mem_of_mem_take hmem)).1
  by_cases hgt : seqGt r.nextDeliver loss.first = true
  · have hend := seqDistance_eq hfit.last_lt hnext hfit.first_lt
    rw [if_pos hgt] at hrange
    rw [seqGt_iff] at hgt
    by_cases hge : seqGe loss.last r.nextDeliver = true
    · rw [if_pos hge] at hrange
      rw [seqGe_iff hfit.last_lt hnext] at hge
      obtain ⟨hseq, hdistance⟩ := (mem_range_map hnext (by omega)).1 hrange
      refine ⟨hseq, ?_⟩
      rw [seqDistance_eq hseq hnext hfit.first_lt] at hdistance
      split_ifs at hend hdistance <;> omega
    · rw [if_neg hge] at hrange
      simp at hrange
  · rw [if_neg hgt, if_pos ((seqGe_iff hfit.last_lt hfit.first_lt).2 (by omega))] at hrange
    obtain ⟨hseq, hdistance⟩ := (mem_range_map hfit.first_lt (by omega)).1 hrange
    exact ⟨hseq, Nat.le_of_lt_succ hdistance⟩

theorem length_missingIn (first last : Nat) : (r.missingIn first last).length ≤ maxLossList := length_take_le _ _

theorem nodup_missingIn (first last : Nat) : (r.missingIn first last).Nodup := by
  unfold missingIn
  refine (List.Nodup.filter _ ?_).sublist (take_sublist _ _)
  refine List.nodup_range.map_on fun a ha b hb heq => ?_
  rw [mem_range] at ha hb
  have hcount (x y : Nat) : (if seqGe x y = true then seqDistance x y + 1 else 0) ≤ 2 ^ 31 := by
    have hlt := seqDistance_lt x y
    split_ifs <;> omega
  have ha := ha.trans_le (hcount _ _)
  have hb := hb.trans_le (hcount _ _)
  omega

/-- What holds of the held gaps between operations: they lie behind the highest sequence, no sequence is held twice,
and none waits for longer than the greatest tolerance. -/
structure Kept (r : SrtReceiver) : Prop where
  fit : ∀ loss ∈ r.heldLosses, loss.Fit
  recent : ∀ loss ∈ r.heldLosses, r.Recent loss
  apart : r.heldLosses.Pairwise HeldLoss.Apart
  left : ∀ loss ∈ r.heldLosses, loss.packetsLeft ≤ r.lossMaxTtl
  tolerance : r.reorderTolerance ≤ r.lossMaxTtl

theorem length_flatMap_missingIn (h : r.Window) (hbase : r.haveBase = true) (hkept : r.Kept)
    (hsub : losses.Sublist r.heldLosses) :
    (losses.flatMap fun loss => r.missingIn loss.first loss.last).length ≤ maxLossList := by
  have hmem : ∀ loss ∈ losses, loss ∈ r.heldLosses := fun loss hloss => hsub.mem hloss
  have hnodup : (losses.flatMap fun loss => r.missingIn loss.first loss.last).Nodup := by
    refine List.nodup_flatMap.2 ⟨fun loss _ => nodup_missingIn _ _, ?_⟩
    refine (hkept.apart.sublist hsub).imp_of_mem fun {a b} ha hb hapart => ?_
    refine List.disjoint_left.2 fun seq hseqA hseqB => ?_
    exact hapart seq (has_of_mem_missingIn h.next_lt (hkept.fit a (hmem a ha)) hseqA)
      (has_of_mem_missingIn h.next_lt (hkept.fit b (hmem b hb)) hseqB)
  have hsubset : (losses.flatMap fun loss => r.missingIn loss.first loss.last) ⊆ r.missing := by
    intro seq hseq
    obtain ⟨loss, hloss, hseq⟩ := List.mem_flatMap.1 hseq
    have hfit := hkept.fit loss (hmem loss hloss)
    have hrecent := hkept.recent loss (hmem loss hloss)
    exact (mem_missing h hbase).2 (isMissing_of_mem_missingIn h hfit.first_lt hfit.last_lt hrecent hseq)
  have hmissing : r.missing.length ≤ maxLossList := by
    unfold missing
    rw [if_pos hbase]
    exact length_missingIn _ _
  exact (hnodup.subperm hsubset).length_le.trans hmissing

/-! ## Arrival -/

theorem heldLosses_noteArrival (r : SrtReceiver) (pkt : DataPacket) : (r.noteArrival pkt).heldLosses = r.heldLosses ∨
    (r.noteArrival pkt).heldLosses = (removeHeldLoss pkt.seq r.heldLosses).1 := by
  have hraised : (r.raiseTolerance pkt.seq pkt.retransmit).heldLosses = r.heldLosses := by
    unfold raiseTolerance
    split_ifs <;> rfl
  have hcounted (q : SrtReceiver) (raised : Bool) (left : Option Nat) :
      (q.countReordered raised left).heldLosses = q.heldLosses := by
    unfold countReordered
    dsimp only
    split_ifs <;> rfl
  unfold noteArrival onLatePacket
  dsimp only
  split_ifs
  · exact .inl rfl
  · exact .inl hraised
  · exact .inr (by rw [hraised])
  · exact .inr (by rw [hcounted, hraised])

theorem tolerance_noteArrival (pkt : DataPacket) (h : r.reorderTolerance ≤ r.lossMaxTtl) :
    (r.noteArrival pkt).lossMaxTtl = r.lossMaxTtl ∧ (r.noteArrival pkt).reorderTolerance ≤ r.lossMaxTtl := by
  have hraised : (r.raiseTolerance pkt.seq pkt.retransmit).lossMaxTtl = r.lossMaxTtl ∧
      (r.raiseTolerance pkt.seq pkt.retransmit).reorderTolerance ≤ r.lossMaxTtl := by
    unfold raiseTolerance
    split_ifs
    · exact ⟨rfl, Nat.min_le_right _ _⟩
    · exact ⟨rfl, h⟩
  have hcounted (q : SrtReceiver) (raised : Bool) (left : Option Nat) :
      (q.countReordered raised left).lossMaxTtl = q.lossMaxTtl ∧
        (q.countReordered raised left).reorderTolerance ≤ q.reorderTolerance := by
    unfold countReordered
    dsimp only
    split_ifs
    · exact ⟨rfl, le_rfl⟩
    · exact ⟨rfl, Nat.sub_le _ _⟩
    · exact ⟨rfl, le_rfl⟩
    · exact ⟨rfl, le_rfl⟩
  unfold noteArrival onLatePacket
  dsimp only
  split_ifs
  · exact ⟨rfl, h⟩
  · exact hraised
  · exact hraised
  · exact ⟨(hcounted _ _ _).1.trans hraised.1, (hcounted _ _ _).2.trans hraised.2⟩

theorem recent_of_noteArrival (h : r.Window) (hflow : seqDistance pkt.seq r.nextDeliver < flowWindowPackets)
    (hkept : r.Kept) (hmem : loss ∈ (r.noteArrival pkt).heldLosses) : r.Recent loss := by
  rcases mem_heldLosses_noteArrival hmem with hold | ⟨hlate, whole, hwhole, hcovers, hpart⟩
  · exact hkept.recent loss hold
  · have hlt : seqDistance pkt.seq r.nextDeliver < r.span := by
      refine Nat.lt_of_not_le fun hle => ?_
      rw [(seqGt_maxSeen h pkt.seq_lt hflow).2 hle] at hlate
      cases hlate
    have hfit := hkept.fit whole hwhole
    exact recent_without h pkt.seq_lt hlt ⟨hfit.first_lt, hfit.last_lt⟩ hcovers (hkept.recent whole hwhole) hpart

theorem kept_noteArrival (h : r.Window) (hflow : seqDistance pkt.seq r.nextDeliver < flowWindowPackets)
    (hkept : r.Kept) : (r.noteArrival pkt).Kept := by
  obtain ⟨hmax, htolerance⟩ := tolerance_noteArrival pkt hkept.tolerance
  have hfit : ∀ loss ∈ (r.noteArrival pkt).heldLosses, loss.Fit ∧ loss.packetsLeft ≤ r.lossMaxTtl := by
    intro loss hloss
    rcases mem_heldLosses_noteArrival hloss with hold | ⟨-, whole, hwhole, hcovers, hpart⟩
    · exact ⟨hkept.fit loss hold, hkept.left loss hold⟩
    · have hwholeFit := hkept.fit whole hwhole
      refine ⟨HeldLoss.fit_without hwholeFit ((HeldLoss.covers_iff hwholeFit pkt.seq_lt).1 hcovers) hpart, ?_⟩
      rw [(mem_without hpart).1]
      exact hkept.left whole hwhole
  refine ⟨fun loss hloss => (hfit loss hloss).1, fun loss hloss => ?_, ?_, fun loss hloss => ?_, hmax ▸ htolerance⟩
  · have hloss' := (hfit loss hloss).1
    exact recent_noteArrival h hflow ⟨hloss'.first_lt, hloss'.last_lt⟩ (recent_of_noteArrival h hflow hkept hloss)
  · rcases heldLosses_noteArrival r pkt with hsame | hremoved
    · exact hsame ▸ hkept.apart
    · exact hremoved ▸ apart_removeHeldLoss hkept.fit pkt.seq_lt hkept.apart
  · exact hmax ▸ (hfit loss hloss).2

theorem distance_of_recent (h : r.Window) (hfit : loss.Fit) (hrecent : r.Recent loss) (hhas : loss.Has seq) :
    seqDistance seq r.nextDeliver < r.span ∨ 2 ^ 30 < seqDistance seq r.nextDeliver := by
  obtain ⟨hseq, hle⟩ := hhas
  have hlength := hfit.length
  have hspan := h.span_le
  have hlt := seqDistance_lt seq r.nextDeliver
  have hfirstLt := seqDistance_lt loss.first r.nextDeliver
  have hlastLt := seqDistance_lt loss.last r.nextDeliver
  rw [recent_iff h hfit.first_lt hfit.last_lt] at hrecent
  rw [seqDistance_eq hseq hfit.first_lt h.next_lt, seqDistance_eq hfit.last_lt hfit.first_lt h.next_lt] at hle
  split_ifs at hle hlength <;> omega

theorem lossMaxTtl_store : (r.store pkt).lossMaxTtl = r.lossMaxTtl := rfl

theorem kept_store (hkept : r.Kept) : (r.store pkt).Kept :=
  ⟨hkept.fit, hkept.recent, hkept.apart, hkept.left, hkept.tolerance⟩

/-- A gap that is held lies past all that was held before. -/
theorem kept_reportGap {q : SrtReceiver} {tolerance : Nat} (h : r.Window)
    (hflow : seqDistance pkt.seq r.nextDeliver < flowWindowPackets) (hq : q.Window)
    (hnext : q.nextDeliver = r.nextDeliver) (hspan : q.span = max r.span (seqDistance pkt.seq r.nextDeliver + 1))
    (hkept : q.Kept) (hbefore : ∀ loss ∈ q.heldLosses, r.Recent loss) (htolerance : tolerance ≤ q.lossMaxTtl) :
    (q.reportGap tolerance (r.gapBefore pkt.seq)).1.Kept := by
  cases hgap : r.gapBefore pkt.seq with
  | none => exact hkept
  | some gap =>
    obtain ⟨hfirstLt, hlastLt, hfirst, hlast, hle⟩ := gapBefore_distances h hflow hgap
    have hlength : seqDistance gap.2 gap.1 = seqDistance gap.2 r.nextDeliver - r.span := by
      rw [seqDistance_sub hlastLt hfirstLt h.next_lt (hfirst ▸ hle), hfirst]
    unfold reportGap
    split_ifs with hzero
    · exact hkept
    have hfit : HeldLoss.Fit { first := gap.1, last := gap.2, packetsLeft := tolerance } := by
      refine ⟨hfirstLt, hlastLt, ?_⟩
      show seqDistance gap.2 gap.1 < _
      omega
    have hrecent : q.Recent { first := gap.1, last := gap.2, packetsLeft := tolerance } := by
      rw [recent_iff hq hfirstLt hlastLt, hnext, hfirst, hspan]
      refine .inr ⟨hle, ?_⟩
      show seqDistance gap.2 r.nextDeliver < _
      omega
    have hpast {seq : Nat} (hhas : HeldLoss.Has { first := gap.1, last := gap.2, packetsLeft := tolerance } seq) :
        r.span ≤ seqDistance seq r.nextDeliver ∧ seqDistance seq r.nextDeliver < flowWindowPackets := by
      obtain ⟨hseq, hin⟩ := hhas
      have hspanLe := h.span_le
      have hlt := seqDistance_lt seq r.nextDeliver
      unfold flowWindowPackets at *
      rw [hlength, seqDistance_eq hseq hfirstLt h.next_lt, hfirst] at hin
      split_ifs at hin <;> omega
    refine ⟨fun loss hloss => ?_, fun loss hloss => ?_, ?_, fun loss hloss => ?_, hkept.tolerance⟩
    · rcases List.mem_append.1 hloss with hold | hnew
      · exact hkept.fit loss hold
      · exact List.mem_singleton.1 hnew ▸ hfit
    · rcases List.mem_append.1 hloss with hold | hnew
      · exact hkept.recent loss hold
      · exact List.mem_singleton.1 hnew ▸ hrecent
    · refine List.pairwise_append.2 ⟨hkept.apart, pairwise_singleton _ _, fun a ha c hc seq hhas hnew => ?_⟩
      rw [List.mem_singleton.1 hc] at hnew
      have hold := distance_of_recent h (hkept.fit a ha) (hbefore a ha) hhas
      have hnew := hpast hnew
      unfold flowWindowPackets at hnew
      omega
    · rcases List.mem_append.1 hloss with hold | hnew
      · exact hkept.left loss hold
      · rw [List.mem_singleton.1 hnew]
        exact htolerance

theorem kept_countDown (hkept : r.Kept) {losses : List HeldLoss} (hsub : losses.Sublist r.heldLosses) :
    Kept { r with heldLosses := countDown losses } := by
  have hold : ∀ loss ∈ countDown losses, ∃ whole ∈ r.heldLosses,
      { whole with packetsLeft := whole.packetsLeft - 1 } = loss := by
    intro loss hloss
    obtain ⟨whole, hwhole, heq⟩ := List.mem_map.1 hloss
    exact ⟨whole, hsub.mem hwhole, heq⟩
  refine ⟨fun loss hloss => ?_, fun loss hloss => ?_, ?_, fun loss hloss => ?_, hkept.tolerance⟩
  · obtain ⟨whole, hwhole, rfl⟩ := hold loss hloss
    exact ⟨(hkept.fit whole hwhole).first_lt, (hkept.fit whole hwhole).last_lt, (hkept.fit whole hwhole).length⟩
  · obtain ⟨whole, hwhole, rfl⟩ := hold loss hloss
    exact hkept.recent whole hwhole
  · exact List.pairwise_map.2 (hkept.apart.sublist hsub)
  · obtain ⟨whole, hwhole, rfl⟩ := hold loss hloss
    exact (Nat.sub_le _ _).trans (hkept.left whole hwhole)

theorem kept_reportHeld (hkept : r.Kept) (tolerance : Nat) : (r.reportHeld tolerance).1.Kept := by
  unfold reportHeld
  split_ifs
  · exact kept_countDown hkept (dropWhile_sublist _)
  · exact hkept

theorem kept_countOrderedPacket (hkept : r.Kept) : r.countOrderedPacket.Kept := by
  unfold countOrderedPacket
  split_ifs
  · exact ⟨hkept.fit, hkept.recent, hkept.apart, hkept.left, (Nat.sub_le _ _).trans hkept.tolerance⟩
  · exact ⟨hkept.fit, hkept.recent, hkept.apart, hkept.left, hkept.tolerance⟩

theorem kept_withBase (h : r.Sound) (hkept : r.Kept) : (r.withBase seq).Kept := by
  unfold withBase
  split_ifs with hbase
  · exact hkept
  · have hnone := (h.fresh (Bool.not_eq_true _ ▸ hbase)).2
    refine ⟨hkept.fit, fun loss hloss => ?_, hkept.apart, hkept.left, hkept.tolerance⟩
    rw [hnone] at hloss
    cases hloss

theorem heldLosses_reportGap (tolerance : Nat) (gap : Option (Nat × Nat)) :
    ∃ new, (r.reportGap tolerance gap).1.heldLosses = r.heldLosses ++ new := by
  cases gap with
  | none => exact ⟨[], (append_nil _).symm⟩
  | some gap =>
    unfold reportGap
    split_ifs
    · exact ⟨[], (append_nil _).symm⟩
    · exact ⟨_, rfl⟩

theorem reportGap_of_pos {tolerance : Nat} (hpos : 0 < tolerance) (gap : Option (Nat × Nat)) :
    (r.reportGap tolerance gap).2 = [] := by
  cases gap with
  | none => rfl
  | some gap =>
    unfold reportGap
    dsimp only
    rw [if_neg hpos.ne']

theorem reportGap_zero (gap : Nat × Nat) : r.reportGap 0 (some gap) = (r, r.missingIn gap.1 gap.2) := rfl

theorem last_held {tolerance : Nat} (hpos : 0 < tolerance) (gap : Nat × Nat) :
    { first := gap.1, last := gap.2, packetsLeft := tolerance } ∈
      (r.reportGap tolerance (some gap)).1.heldLosses.dropWhile fun loss => loss.packetsLeft = 0 := by
  unfold reportGap
  dsimp only
  rw [if_neg hpos.ne', dropWhile_append]
  split_ifs
  · rw [dropWhile_cons_of_neg (by simpa using hpos.ne')]
    exact mem_singleton_self _
  · exact mem_append_right _ (mem_singleton_self _)

/-- What the receiver is before it counts the held gaps, for a packet that is buffered. -/
structure Buffers (r : SrtReceiver) (pkt : DataPacket) (q : SrtReceiver) : Prop where
  window : q.Window
  base : q.haveBase = true
  kept : q.Kept
  next : q.nextDeliver = r.nextDeliver
  greatest : q.lossMaxTtl = r.lossMaxTtl
  pending : ∀ {seq : Nat}, seq ≠ pkt.seq → q.pending.contains seq = r.pending.contains seq
  held : ∃ new, q.heldLosses = (r.noteArrival pkt).heldLosses ++ new

theorem contains_store (hne : seq ≠ pkt.seq) : (r.store pkt).pending.contains seq = r.pending.contains seq := by
  rw [Bool.eq_iff_iff, SortedMap.contains_iff, SortedMap.contains_iff, pending_store]
  refine exists_congr fun v => ?_
  rw [SortedMap.mem_insert]
  constructor
  · rintro (heq | ⟨-, hold⟩)
    · exact absurd (congrArg Prod.fst heq) hne
    · exact hold
  · exact fun hold => .inr ⟨hne, hold⟩

theorem lossMaxTtl_reportGap (tolerance : Nat) (gap : Option (Nat × Nat)) :
    (r.reportGap tolerance gap).1.lossMaxTtl = r.lossMaxTtl := by
  cases gap with
  | none => rfl
  | some gap =>
    unfold reportGap
    split_ifs <;> rfl

theorem buffers_reportGap (h : r.Window) (hbase : r.haveBase = true) (hkept : r.Kept)
    (hflow : seqDistance pkt.seq r.nextDeliver < flowWindowPackets) :
    r.Buffers pkt (((r.noteArrival pkt).store pkt).reportGap r.reorderTolerance (r.gapBefore pkt.seq)).1 := by
  obtain ⟨hnoted, hnext, hnotedBase, hspan⟩ := window_noteArrival h hflow
  obtain ⟨hmax, -⟩ := tolerance_noteArrival pkt hkept.tolerance
  have hpending : (r.noteArrival pkt).pending = r.pending := sameStore_noteArrival.pending
  have hnotedKept := kept_noteArrival h hflow hkept
  have hbefore : ∀ loss ∈ (r.noteArrival pkt).heldLosses, r.Recent loss :=
    fun loss hloss => recent_of_noteArrival h hflow hkept hloss
  generalize hnotedEq : r.noteArrival pkt = noted at *
  have hstored : (noted.store pkt).Window := window_store hnoted (by rw [hnext, hspan]; omega)
  have hsame : SameWindow (noted.store pkt) ((noted.store pkt).reportGap r.reorderTolerance (r.gapBefore pkt.seq)).1 :=
    sameWindow_reportGap _ _
  have hspan : (noted.store pkt).span = max r.span (seqDistance pkt.seq r.nextDeliver + 1) := span_store.trans hspan
  have hstoredKept : (noted.store pkt).Kept := kept_store hnotedKept
  have hnext : (noted.store pkt).nextDeliver = r.nextDeliver := nextDeliver_store.trans hnext
  refine ⟨hsame.window hstored, ?_, ?_, hsame.next.trans hnext, ?_, fun hne => ?_, ?_⟩
  · rw [hsame.base, haveBase_store, hnotedBase, hbase]
  · refine kept_reportGap h hflow hstored hnext hspan hstoredKept ?_ ?_
    · rw [heldLosses_store]
      exact hbefore
    · rw [lossMaxTtl_store, hmax]
      exact hkept.tolerance
  · rw [lossMaxTtl_reportGap, lossMaxTtl_store, hmax]
  · rw [hsame.pending, contains_store hne, hpending]
  · obtain ⟨new, hnew⟩ := heldLosses_reportGap (r := noted.store pkt) r.reorderTolerance (r.gapBefore pkt.seq)
    exact ⟨new, by rw [hnew, heldLosses_store, hnotedEq]⟩

theorem heldLosses_countOrderedPacket : r.countOrderedPacket.heldLosses = r.heldLosses := by
  unfold countOrderedPacket
  split_ifs <;> rfl

theorem kept_onData (h : r.Sound) (hkept : r.Kept) : (r.onData pkt).1.Kept := by
  obtain ⟨hwindow, hbase, -, -⟩ := sound_withBase h pkt.seq_lt
  have hkept : (r.withBase pkt.seq).Kept := kept_withBase h hkept
  generalize hstart : r.withBase pkt.seq = b at *
  rcases onData_cases hstart with ⟨-, hdata⟩ | ⟨-, hflow, -, hdata⟩ | ⟨-, hflow, reported, held, rfl, rfl, hstate, -⟩
  · rw [hdata]
    exact hkept
  · rw [hdata]
    exact kept_noteArrival hwindow hflow hkept
  · have hheld := kept_reportHeld (buffers_reportGap hwindow hbase hkept hflow).kept b.reorderTolerance
    rcases hstate with hstate | hstate
    · exact hstate ▸ hheld
    · exact hstate ▸ kept_countOrderedPacket hheld

/-! ## A sequence that is waited for -/

/-- A sequence is not there and not passed, and its gap is held for at most `b` more packets. -/
structure Awaits (r : SrtReceiver) (seq b : Nat) : Prop where
  base : r.haveBase = true
  lt : seq < 2 ^ 31
  near : seqDistance seq r.nextDeliver < flowWindowPackets
  absent : r.pending.contains seq = false
  due : DueIn b seq r.heldLosses

theorem awaits_countOrderedPacket (h : r.Awaits seq b) : r.countOrderedPacket.Awaits seq b := by
  have hsame : SameWindow r r.countOrderedPacket := sameWindow_countOrderedPacket
  refine ⟨hsame.base.trans h.base, h.lt, ?_, ?_, ?_⟩
  · rw [hsame.next]
    exact h.near
  · rw [hsame.pending]
    exact h.absent
  · rw [heldLosses_countOrderedPacket]
    exact h.due

theorem mem_reportHeld {tolerance b : Nat} (h : r.Window) (hbase : r.haveBase = true) (hkept : r.Kept)
    (hpos : 0 < tolerance) (hnear : seqDistance seq r.nextDeliver < flowWindowPackets)
    (habsent : r.pending.contains seq = false) (hdue : DueIn b seq r.heldLosses) :
    seq ∈ (r.reportHeld tolerance).2.take maxLossList ∨
      ∃ b', b = b' + 1 ∧ DueIn b' seq (r.reportHeld tolerance).1.heldLosses := by
  have hdueOr : (∃ loss ∈ r.heldLosses.takeWhile (fun loss => loss.packetsLeft = 0), loss.Has seq) ∨
      ∃ b', b = b' + 1 ∧ DueIn b' seq (countDown (r.heldLosses.dropWhile fun loss => loss.packetsLeft = 0)) := by
    cases b with
    | zero => exact .inl (dueIn_zero hdue)
    | succ b => exact (dueIn_release hdue).imp_right fun hrest => ⟨b, rfl, hrest⟩
  unfold reportHeld
  rw [if_pos hpos]
  refine hdueOr.imp_left fun ⟨loss, hloss, hhas⟩ => ?_
  have hsub := takeWhile_sublist (l := r.heldLosses) fun loss => decide (loss.packetsLeft = 0)
  show seq ∈ (List.flatMap _ _).take maxLossList
  rw [take_of_length_le (length_flatMap_missingIn h hbase hkept hsub)]
  exact List.mem_flatMap.2 ⟨loss, hloss, mem_missingIn h.next_lt (hkept.fit loss (hsub.mem hloss)) hhas hnear habsent⟩

theorem dueIn_noteArrival (hkept : r.Kept) (hne : seq ≠ pkt.seq) (hdue : DueIn b seq r.heldLosses) :
    DueIn b seq (r.noteArrival pkt).heldLosses := by
  rcases heldLosses_noteArrival r pkt with hsame | hremoved
  · exact hsame ▸ hdue
  · exact hremoved ▸ dueIn_removeHeldLoss hkept.fit pkt.seq_lt hne hdue

theorem nextDeliver_onData (hbase : r.haveBase = true) : (r.onData pkt).1.nextDeliver = r.nextDeliver := by
  rw [(onData_stored r pkt).1.next, withBase, if_pos hbase]

theorem awaits_of_not_accepts (hkept : r.Kept) (hawaits : r.Awaits seq b) (haccepts : r.accepts pkt.seq = false) :
    (r.onData pkt).1.Awaits seq b := by
  have hstart : r.withBase pkt.seq = r := if_pos hawaits.base
  rcases onData_cases hstart with ⟨-, hdata⟩ | ⟨-, -, hthere, hdata⟩ | ⟨hbuffered, -⟩
  · rw [hdata]
    exact hawaits
  · have hne : seq ≠ pkt.seq := by
      rintro rfl
      rw [hawaits.absent] at hthere
      cases hthere
    have hnoted : SameStore r (r.noteArrival pkt) := sameStore_noteArrival
    rw [hdata]
    refine ⟨hnoted.base.trans hawaits.base, hawaits.lt, ?_, ?_, dueIn_noteArrival hkept hne hawaits.due⟩
    · rw [hnoted.next]
      exact hawaits.near
    · rw [hnoted.pending]
      exact hawaits.absent
  · rw [haccepts] at hbuffered
    cases hbuffered

theorem awaits_of_accepts (h : r.Window) (hkept : r.Kept) (hawaits : r.Awaits seq b)
    (haccepts : r.accepts pkt.seq = true) (hne : seq ≠ pkt.seq) (hpos : 0 < r.reorderTolerance) :
    seq ∈ (r.onData pkt).2 ∨ ∃ b', b = b' + 1 ∧ (r.onData pkt).1.Awaits seq b' := by
  have hwithBase : r.withBase pkt.seq = r := if_pos hawaits.base
  obtain ⟨reported, held, rfl, rfl, hstate, hlist⟩ := onData_accepted hwithBase haccepts
  have hflow := (accepts_iff.1 haccepts).2.1
  have hbuffers := buffers_reportGap h hawaits.base hkept hflow
  rw [reportGap_of_pos hpos, nil_append] at hlist
  generalize (((r.noteArrival pkt).store pkt).reportGap r.reorderTolerance (r.gapBefore pkt.seq)).1 = q at *
  have habsent : q.pending.contains seq = false := (hbuffers.pending hne).trans hawaits.absent
  have hnear : seqDistance seq q.nextDeliver < flowWindowPackets := by
    rw [hbuffers.next]
    exact hawaits.near
  have hdue : DueIn b seq q.heldLosses := by
    obtain ⟨new, hnew⟩ := hbuffers.held
    rw [hnew]
    exact dueIn_append_right (dueIn_noteArrival hkept hne hawaits.due)
  rw [hlist]
  refine (mem_reportHeld hbuffers.window hbuffers.base hbuffers.kept hpos hnear habsent hdue).imp_right ?_
  rintro ⟨b', hb, hrest⟩
  have hsame : SameWindow q (q.reportHeld r.reorderTolerance).1 := sameWindow_reportHeld _
  have hheld : (q.reportHeld r.reorderTolerance).1.Awaits seq b' := by
    refine ⟨hsame.base.trans hbuffers.base, hawaits.lt, ?_, ?_, hrest⟩
    · rw [hsame.next]
      exact hnear
    · rw [hsame.pending]
      exact habsent
  refine ⟨b', hb, ?_⟩
  rcases hstate with hstate | hstate
  · exact hstate ▸ hheld
  · exact hstate ▸ awaits_countOrderedPacket hheld

/-! ## A sequence that is skipped -/

/-- A packet raises the highest sequence past another sequence. -/
def Skips (r : SrtReceiver) (pkt : DataPacket) (seq : Nat) : Prop :=
  r.haveBase = true ∧ seq < 2 ^ 31 ∧ seqGt seq r.maxSeen = true ∧ seqGt (r.onData pkt).1.maxSeen seq = true

theorem maxSeen_store : (r.store pkt).maxSeen = r.maxSeen := rfl

theorem maxSeen_onData (hbase : r.haveBase = true) :
    (r.onData pkt).1.maxSeen = r.maxSeen ∨ seqDistance pkt.seq r.nextDeliver < flowWindowPackets ∧
      (r.onData pkt).1.maxSeen = (r.noteArrival pkt).maxSeen := by
  have hstart : r.withBase pkt.seq = r := if_pos hbase
  rcases onData_cases hstart with ⟨-, hdata⟩ | ⟨-, hflow, -, hdata⟩ | ⟨-, hflow, reported, held, rfl, rfl, hstate, -⟩
  · exact .inl (by rw [hdata])
  · exact .inr ⟨hflow, by rw [hdata]⟩
  · refine .inr ⟨hflow, ?_⟩
    have hgap : SameWindow ((r.noteArrival pkt).store pkt)
      (((r.noteArrival pkt).store pkt).reportGap r.reorderTolerance (r.gapBefore pkt.seq)).1 := sameWindow_reportGap _ _
    generalize ((r.noteArrival pkt).store pkt).reportGap r.reorderTolerance (r.gapBefore pkt.seq) = reported at *
    have hheld : SameWindow reported.1 (reported.1.reportHeld r.reorderTolerance).1 := sameWindow_reportHeld _
    have hseen : (reported.1.reportHeld r.reorderTolerance).1.maxSeen = (r.noteArrival pkt).maxSeen := by
      rw [hheld.seen, hgap.seen, maxSeen_store]
    rcases hstate with hstate | hstate
    · rw [hstate, hseen]
    · have hcounted : SameWindow (reported.1.reportHeld r.reorderTolerance).1
        (reported.1.reportHeld r.reorderTolerance).1.countOrderedPacket := sameWindow_countOrderedPacket
      rw [hstate, hcounted.seen, hseen]

/-- The packet that skips a sequence is buffered, and the sequence is in the gap before it. -/
theorem gap_of_skips (h : r.Window) (hskips : r.Skips pkt seq) :
    r.accepts pkt.seq = true ∧ seqDistance pkt.seq r.nextDeliver < flowWindowPackets ∧
      r.gapBefore pkt.seq = some (seqNext r.maxSeen, seqPrev pkt.seq) ∧ r.span ≤ seqDistance seq r.nextDeliver ∧
      seqDistance seq r.nextDeliver < seqDistance pkt.seq r.nextDeliver := by
  obtain ⟨hbase, hseq, hpast, hraised⟩ := hskips
  have hwithBase : r.withBase pkt.seq = r := if_pos hbase
  have hseenLt := h.seen_lt
  -- The highest sequence was raised, as the sequence was past it and no longer is.
  have hmoved : (r.onData pkt).1.maxSeen ≠ r.maxSeen := by
    intro hsame
    rw [hsame, seqGt_iff, seqDistance_eq hseenLt hseq hseenLt, seqDistance_self] at hraised
    rw [seqGt_iff] at hpast
    split_ifs at hraised <;> omega
  obtain ⟨hflow, hseen⟩ := (maxSeen_onData hbase).resolve_left hmoved
  have hge : seqGe pkt.seq r.nextDeliver = true := (seqGe_iff pkt.seq_lt h.next_lt).2 (hflow.trans (by decide))
  rw [hseen] at hmoved hraised
  have hgt : seqGt pkt.seq r.maxSeen = true := by
    by_contra hlate
    have hsame : SameWindow r (r.onLatePacket pkt.seq pkt.retransmit) := sameWindow_onLatePacket _
    rw [noteArrival, if_neg hlate, hsame.seen] at hmoved
    exact hmoved rfl
  have hraisedPkt : (r.noteArrival pkt).maxSeen = pkt.seq := by
    unfold noteArrival
    rw [if_pos hgt]
  rw [hraisedPkt] at hraised
  have hend := (seqGt_maxSeen h pkt.seq_lt hflow).1 hgt
  have hnear : seqDistance pkt.seq r.nextDeliver < 2 ^ 30 := hflow.trans (by decide)
  have hbetween : r.span ≤ seqDistance seq r.nextDeliver ∧
      seqDistance seq r.nextDeliver < seqDistance pkt.seq r.nextDeliver :=
    seqDistance_between hseq h.next_lt hseenLt pkt.seq_lt hnear hpast hraised hend
  have habsent : r.pending.contains pkt.seq = false := by
    rw [← Bool.not_eq_true, SortedMap.contains_iff]
    rintro ⟨v, hmem⟩
    have hlt : seqDistance pkt.seq r.nextDeliver < r.span := (h.pending _ hmem).2
    omega
  refine ⟨accepts_iff.2 ⟨hge, hflow, habsent⟩, hflow, ?_, hbetween⟩
  have hspan : seqDistance (seqNext r.maxSeen) r.nextDeliver = r.span := rfl
  have hgap : seqGt pkt.seq (seqNext r.maxSeen) = true := by
    rw [seqGt_iff, seqDistance_sub pkt.seq_lt (seqNext_lt _) h.next_lt (by rw [hspan]; omega), hspan]
    omega
  unfold gapBefore
  rw [if_pos hgap]

theorem has_of_skips (h : r.Window) (hskips : r.Skips pkt seq) (left : Nat) :
    HeldLoss.Fit { first := seqNext r.maxSeen, last := seqPrev pkt.seq, packetsLeft := left } ∧
      HeldLoss.Has { first := seqNext r.maxSeen, last := seqPrev pkt.seq, packetsLeft := left } seq := by
  obtain ⟨-, hflow, hgap, hle, hlt⟩ := gap_of_skips h hskips
  obtain ⟨hfirstLt, hlastLt, hfirst, hlast, hspan⟩ := gapBefore_distances h hflow hgap
  dsimp only at hfirst hlast hspan
  have hlength : seqDistance (seqPrev pkt.seq) (seqNext r.maxSeen) =
      seqDistance (seqPrev pkt.seq) r.nextDeliver - r.span := by
    rw [seqDistance_sub hlastLt hfirstLt h.next_lt (by rw [hfirst]; exact hspan), hfirst]
  refine ⟨⟨hfirstLt, hlastLt, ?_⟩, hskips.2.1, ?_⟩
  · show seqDistance (seqPrev pkt.seq) (seqNext r.maxSeen) < _
    omega
  · show seqDistance seq (seqNext r.maxSeen) ≤ seqDistance (seqPrev pkt.seq) (seqNext r.maxSeen)
    rw [hlength, seqDistance_sub hskips.2.1 hfirstLt h.next_lt (by rw [hfirst]; exact hle), hfirst]
    omega

/-- A sequence that is skipped is reported at once, or is waited for. -/
theorem awaits_of_skips (h : r.Window) (hkept : r.Kept) (hskips : r.Skips pkt seq) :
    seq ∈ (r.onData pkt).2 ∨ ∃ b, b < r.lossMaxTtl ∧ (r.onData pkt).1.Awaits seq b := by
  obtain ⟨haccepts, hflow, hgap, hle, hlt⟩ := gap_of_skips h hskips
  obtain ⟨hfit, hhas⟩ := has_of_skips h hskips r.reorderTolerance
  have hbase := hskips.1
  have hwithBase : r.withBase pkt.seq = r := if_pos hbase
  obtain ⟨reported, held, rfl, rfl, hstate, hlist⟩ := onData_accepted hwithBase haccepts
  have hbuffers := buffers_reportGap h hbase hkept hflow
  have hnear : seqDistance seq r.nextDeliver < flowWindowPackets := hlt.trans hflow
  have hne : seq ≠ pkt.seq := by
    rintro rfl
    exact absurd hlt (lt_irrefl _)
  have habsent : r.pending.contains seq = false := by
    rw [← Bool.not_eq_true, SortedMap.contains_iff]
    rintro ⟨v, hmem⟩
    have hin : seqDistance seq r.nextDeliver < r.span := (h.pending _ hmem).2
    omega
  rw [hgap] at hbuffers hstate hlist
  generalize (r.noteArrival pkt).store pkt = stored at *
  rcases Nat.eq_zero_or_pos r.reorderTolerance with hzero | hpos
  · -- Nothing is held, and the gap is reported at once.
    left
    rw [hzero] at hlist hbuffers
    rw [reportGap_zero] at hlist hbuffers
    rw [hlist, reportHeld, if_neg (lt_irrefl 0), append_nil, take_of_length_le (length_missingIn _ _)]
    have hnearStored : seqDistance seq stored.nextDeliver < flowWindowPackets := by
      rw [hbuffers.next]
      exact hnear
    have hmem := mem_missingIn hbuffers.window.next_lt hfit hhas hnearStored ((hbuffers.pending hne).trans habsent)
    exact hmem
  · right
    have hmax := hkept.tolerance
    have hlast := last_held hpos (seqNext r.maxSeen, seqPrev pkt.seq) (r := stored)
    have hbound := hbuffers.greatest
    have hleft := hbuffers.kept.left
    have hpending := hbuffers.pending hne
    generalize (stored.reportGap r.reorderTolerance (some (seqNext r.maxSeen, seqPrev pkt.seq))).1 = q at *
    have hsame : SameWindow q (q.reportHeld r.reorderTolerance).1 := sameWindow_reportHeld _
    have hdue : DueIn (r.lossMaxTtl - 1) seq (q.reportHeld r.reorderTolerance).1.heldLosses := by
      rw [reportHeld, if_pos hpos]
      refine dueIn_of_forall (fun loss hloss => ?_) (List.mem_map.2 ⟨_, hlast, rfl⟩) hhas
      obtain ⟨whole, hwhole, rfl⟩ := List.mem_map.1 hloss
      rw [← hbound]
      exact Nat.sub_le_sub_right (hleft whole ((dropWhile_sublist _).mem hwhole)) 1
    have hheld : (q.reportHeld r.reorderTolerance).1.Awaits seq (r.lossMaxTtl - 1) := by
      refine ⟨hsame.base.trans hbuffers.base, hskips.2.1, ?_, ?_, hdue⟩
      · rw [hsame.next, hbuffers.next]
        exact hnear
      · rw [hsame.pending, hpending]
        exact habsent
    refine ⟨r.lossMaxTtl - 1, by omega, ?_⟩
    rcases hstate with hstate | hstate
    · exact hstate ▸ hheld
    · exact hstate ▸ awaits_countOrderedPacket hheld

/-! ## The cursor moves -/

theorem kept_of_passes (h : r.Passes r') (hkept : r.Kept) (hrecent : ∀ loss ∈ r.heldLosses, r'.Recent loss) :
    r'.Kept := by
  refine ⟨h.held ▸ hkept.fit, h.held ▸ hrecent, h.held ▸ hkept.apart, ?_, ?_⟩
  · rw [h.held, h.greatest]
    exact hkept.left
  · rw [h.tolerance, h.greatest]
    exact hkept.tolerance

theorem awaits_of_passes (h : r.Passes r') (hnext : r.nextDeliver < 2 ^ 31) (hnext' : r'.nextDeliver < 2 ^ 31)
    (hawaits : r.Awaits seq b) (hle : seqDistance r'.nextDeliver r.nextDeliver ≤ seqDistance seq r.nextDeliver) :
    r'.Awaits seq b ∧
      seqDistance r'.nextDeliver r.nextDeliver + seqDistance seq r'.nextDeliver = seqDistance seq r.nextDeliver := by
  have hdistance := seqDistance_sub hawaits.lt hnext' hnext hle
  have hnear := hawaits.near
  refine ⟨⟨h.base.trans hawaits.base, hawaits.lt, by omega, ?_, h.held ▸ hawaits.due⟩, by omega⟩
  rw [← Bool.not_eq_true, SortedMap.contains_iff]
  rintro ⟨v, hmem⟩
  have hthere := SortedMap.contains_iff.2 ⟨v, h.pending _ hmem⟩
  rw [hawaits.absent] at hthere
  cases hthere

/-! ## Runs -/

/-- A packet is not buffered while the tolerance is 0 and a held gap lacks another sequence; and a delivery or a drop
request leaves every held gap less than half of the circle behind the cursor. -/
def Counts (r : SrtReceiver) : Event → Prop
  | .data pkt => r.reorderTolerance = 0 → r.accepts pkt.seq = true →
      ∀ loss ∈ r.heldLosses, ∀ seq ∈ r.missingIn loss.first loss.last, seq = pkt.seq
  | .dropRequest first last _ _ =>
      (r.haveBase = true → r.coversCursor first last = true → seqDistance last r.maxSeen ≠ 2 ^ 30) ∧
        ∀ loss ∈ r.heldLosses, (r.onDropRequest first last).Recent loss
  | .takeReady => ∀ loss ∈ r.heldLosses, r.takeReadySeqs.1.Recent loss
  | .takeReadyAt nowUs => ∀ loss ∈ r.heldLosses, (r.takeReadyAtSeqs nowUs).1.Recent loss

/-- Every event of a run counts what is held. -/
def AllCount : Trace → List Event → Prop
  | _, [] => True
  | t, event :: events => t.receiver.Counts event ∧ AllCount (t.step event) events

instance (event : Event) : Decidable (r.Counts event) :=
  match event with
  | .data _ => inferInstanceAs (Decidable (_ → _ → _))
  | .dropRequest _ _ _ _ => inferInstanceAs (Decidable ((_ → _ → _) ∧ _))
  | .takeReady => inferInstanceAs (Decidable (∀ _ ∈ _, _))
  | .takeReadyAt _ => inferInstanceAs (Decidable (∀ _ ∈ _, _))

instance decidableAllCount : (t : Trace) → (events : List Event) → Decidable (AllCount t events)
  | _, [] => .isTrue trivial
  | t, event :: events => @instDecidableAnd _ _ _ (decidableAllCount (t.step event) events)

namespace Trace

variable {t : Trace}

def buffers (t : Trace) : Event → Bool
  | .data pkt => (t.receiver.withBase pkt.seq).accepts pkt.seq
  | .dropRequest _ _ _ _ => false
  | .takeReady => false
  | .takeReadyAt _ => false

/-- How many packets are buffered along a run. -/
def buffered : Trace → List Event → Nat
  | _, [] => 0
  | t, event :: events => (t.buffers event).toNat + (t.step event).buffered events

/-- The receiver before each event of a run, and after the last one. -/
def visited : Trace → List Event → List Trace
  | t, [] => [t]
  | t, event :: events => t :: (t.step event).visited events

/-- The position of a sequence that the cursor has still to reach. -/
def positionOf (t : Trace) (seq : Nat) : Nat := t.position + seqDistance seq t.receiver.nextDeliver

/-- A sequence at a position has arrived, or the cursor is past it, or it was just reported. -/
def Settled (t : Trace) (seq position : Nat) : Prop :=
  t.receiver.pending.contains seq = true ∨ position < t.position ∨ seq ∈ t.reported

theorem allCount_append {before after : List Event} (h : AllCount t (before ++ after)) :
    AllCount t before ∧ AllCount (t.run before) after := by
  induction before generalizing t with
  | nil => exact ⟨trivial, h⟩
  | cons event before ih =>
    obtain ⟨hbefore, hafter⟩ := ih h.2
    exact ⟨⟨h.1, hbefore⟩, hafter⟩

theorem fits_of_counts (hkept : t.receiver.Kept) {event : Event} (h : t.receiver.Counts event) :
    t.receiver.Fits event := by
  cases event with
  | data pkt => exact fun _ loss hloss _ => hkept.recent loss hloss
  | dropRequest first last hfirst hlast => exact h.1
  | takeReady | takeReadyAt nowUs => trivial

theorem kept_step (h : t.Inv) (hkept : t.receiver.Kept) (event : Event) (hcounts : t.receiver.Counts event) :
    (t.step event).receiver.Kept := by
  cases event with
  | data pkt => exact kept_onData h.sound hkept
  | dropRequest first last hfirst hlast => exact kept_of_passes (passes_onDropRequest first last) hkept hcounts.2
  | takeReady => exact kept_of_passes (passes_takeInOrder _ _) hkept hcounts
  | takeReadyAt nowUs => exact kept_of_passes (passes_takeReadyAtSeqs nowUs) hkept hcounts

theorem kept_run (h : t.Inv) (hkept : t.receiver.Kept) (events : List Event) (hcount : AllCount t events) :
    (t.run events).Inv ∧ (t.run events).receiver.Kept := by
  induction events generalizing t with
  | nil => exact ⟨h, hkept⟩
  | cons event events ih =>
    exact ih (inv_step h event (fits_of_counts hkept hcount.1)) (kept_step h hkept event hcount.1) hcount.2

/-- A sequence that is waited for at a position, for at most `b` more packets. -/
def AwaitsAt (t : Trace) (seq position b : Nat) : Prop := t.receiver.Awaits seq b ∧ t.positionOf seq = position

/-- A packet that arrives settles a sequence that is waited for, or it is waited for by one packet less. -/
theorem awaitsAt_data {position : Nat} (h : t.Inv) (hkept : t.receiver.Kept) (hawaits : t.AwaitsAt seq position b)
    (hcounts : t.receiver.Counts (.data pkt)) : (t.step (.data pkt)).Settled seq position ∨
      ∃ b', b = b' + (t.buffers (.data pkt)).toNat ∧ (t.step (.data pkt)).AwaitsAt seq position b' := by
  obtain ⟨hreceiver, hposition⟩ := hawaits
  have hbase := hreceiver.base
  have hwindow := h.sound.window hbase
  have hwithBase : t.receiver.withBase pkt.seq = t.receiver := if_pos hbase
  have hbuffers : t.buffers (.data pkt) = t.receiver.accepts pkt.seq := congrArg (accepts · pkt.seq) hwithBase
  have hsame : (t.step (.data pkt)).positionOf seq = position := by
    have hnext : (t.step (.data pkt)).receiver.nextDeliver = t.receiver.nextDeliver := nextDeliver_onData hbase
    have hstill : (t.step (.data pkt)).position = t.position := if_pos hbase
    rw [positionOf, hnext, hstill]
    exact hposition
  rw [hbuffers]
  cases haccepts : t.receiver.accepts pkt.seq with
  | false => exact .inr ⟨b, rfl, awaits_of_not_accepts hkept hreceiver haccepts, hsame⟩
  | true =>
    by_cases heq : seq = pkt.seq
    · -- The sequence arrives.
      have hstored := (onData_stored t.receiver pkt).2
      rw [hwithBase, if_pos haccepts] at hstored
      refine .inl (.inl ?_)
      show (t.receiver.onData pkt).1.pending.contains seq = true
      rw [hstored, SortedMap.contains_iff, heq]
      exact ⟨_, SortedMap.mem_insert.2 (.inl rfl)⟩
    · have hpos : 0 < t.receiver.reorderTolerance := by
        rw [Nat.pos_iff_ne_zero]
        intro hzero
        obtain ⟨loss, hloss, hhas⟩ := exists_of_dueIn hreceiver.due
        have hmissing := mem_missingIn hwindow.next_lt (hkept.fit loss hloss) hhas hreceiver.near hreceiver.absent
        exact heq (hcounts hzero haccepts loss hloss seq hmissing)
      rcases awaits_of_accepts hwindow hkept hreceiver haccepts heq hpos with hreported | ⟨b', hb, hrest⟩
      · exact .inl (.inr (.inr hreported))
      · exact .inr ⟨b', hb, hrest, hsame⟩

theorem awaitsAt_moveTo {position : Nat} {taken : List (Nat × List UInt8)} (h : t.Inv)
    (hawaits : t.AwaitsAt seq position b) (hpasses : t.receiver.Passes r') (hnext : r'.nextDeliver < 2 ^ 31) :
    (t.moveTo r' taken).Settled seq position ∨ (t.moveTo r' taken).AwaitsAt seq position b := by
  obtain ⟨hreceiver, rfl⟩ := hawaits
  have hnextLt := (h.sound.window hreceiver.base).next_lt
  by_cases hle : seqDistance r'.nextDeliver t.receiver.nextDeliver ≤ seqDistance seq t.receiver.nextDeliver
  · obtain ⟨hrest, hdistance⟩ := awaits_of_passes hpasses hnextLt hnext hreceiver hle
    refine .inr ⟨hrest, ?_⟩
    show t.position + seqDistance r'.nextDeliver t.receiver.nextDeliver + seqDistance seq r'.nextDeliver = _
    rw [Nat.add_assoc, hdistance]
    rfl
  · exact .inl (.inr (.inl (Nat.add_lt_add_left (Nat.lt_of_not_le hle) _)))

theorem awaitsAt_step {position : Nat} (h : t.Inv) (hkept : t.receiver.Kept) (hawaits : t.AwaitsAt seq position b)
    (event : Event) (hcounts : t.receiver.Counts event) : (t.step event).Settled seq position ∨
      ∃ b', b = b' + (t.buffers event).toNat ∧ (t.step event).AwaitsAt seq position b' := by
  have hinv := inv_step h event (fits_of_counts hkept hcounts)
  have hmoved {r' : SrtReceiver} (hpasses : t.receiver.Passes r') (hsound : r'.Sound) : r'.nextDeliver < 2 ^ 31 :=
    (hsound.window (hpasses.base.trans hawaits.1.base)).next_lt
  cases event with
  | data pkt => exact awaitsAt_data h hkept hawaits hcounts
  | dropRequest first last hfirst hlast =>
    have hpasses : t.receiver.Passes (t.receiver.onDropRequest first last) := passes_onDropRequest first last
    exact (awaitsAt_moveTo h hawaits hpasses (hmoved hpasses hinv.sound)).imp_right fun hrest => ⟨b, rfl, hrest⟩
  | takeReady =>
    have hpasses : t.receiver.Passes t.receiver.takeReadySeqs.1 := passes_takeInOrder _ _
    exact (awaitsAt_moveTo h hawaits hpasses (hmoved hpasses hinv.sound)).imp_right fun hrest => ⟨b, rfl, hrest⟩
  | takeReadyAt nowUs =>
    have hpasses : t.receiver.Passes (t.receiver.takeReadyAtSeqs nowUs).1 := passes_takeReadyAtSeqs nowUs
    exact (awaitsAt_moveTo h hawaits hpasses (hmoved hpasses hinv.sound)).imp_right fun hrest => ⟨b, rfl, hrest⟩

theorem self_mem_visited (t : Trace) (events : List Event) : t ∈ t.visited events := by
  cases events with
  | nil => exact mem_singleton_self t
  | cons event events => exact mem_cons_self

theorem exists_settled {position : Nat} (h : t.Inv) (hkept : t.receiver.Kept) (hawaits : t.AwaitsAt seq position b)
    (events : List Event) (hcount : AllCount t events) (hmany : b < t.buffered events) :
    ∃ t' ∈ t.visited events, t'.Settled seq position := by
  induction events generalizing t b with
  | nil => exact absurd hmany (Nat.not_lt_zero b)
  | cons event events ih =>
    rcases awaitsAt_step h hkept hawaits event hcount.1 with hsettled | ⟨b', rfl, hrest⟩
    · exact ⟨t.step event, mem_cons_of_mem _ (self_mem_visited _ _), hsettled⟩
    · have hinv := inv_step h event (fits_of_counts hkept hcount.1)
      have hrestKept := kept_step h hkept event hcount.1
      change _ < (t.buffers event).toNat + (t.step event).buffered events at hmany
      obtain ⟨t', ht', hsettled⟩ := ih hinv hrestKept hrest hcount.2 (by omega)
      exact ⟨t', mem_cons_of_mem _ ht', hsettled⟩

end Trace

theorem kept_configured (lossMaxTtl : Nat) (tsbpdLatencyUs : Option Nat)
    (cryptoEven cryptoOdd : Option (Nat → List UInt8 → List UInt8)) :
    (configured lossMaxTtl tsbpdLatencyUs cryptoEven cryptoOdd).Kept :=
  ⟨forall_mem_nil _, forall_mem_nil _, .nil, forall_mem_nil _, le_rfl⟩

theorem Trace.exists_settled_of_skips {t : Trace} (h : t.Inv) (hkept : t.receiver.Kept) (after : List Event)
    (hcount : AllCount t (.data pkt :: after)) (hskips : t.receiver.Skips pkt seq)
    (hmany : t.receiver.lossMaxTtl + 1 ≤ (t.step (.data pkt)).buffered after) :
    ∃ t' ∈ (t.step (.data pkt)).visited after, t'.Settled seq (t.positionOf seq) := by
  have hbase := hskips.1
  have hinv := inv_step h (.data pkt) (fits_of_counts hkept hcount.1)
  have hkept' := kept_step h hkept (.data pkt) hcount.1
  have hsame : (t.step (.data pkt)).positionOf seq = t.positionOf seq := by
    have hnext : (t.step (.data pkt)).receiver.nextDeliver = t.receiver.nextDeliver := nextDeliver_onData hbase
    have hstill : (t.step (.data pkt)).position = t.position := if_pos hbase
    rw [positionOf, positionOf, hnext, hstill]
  rcases awaits_of_skips (h.sound.window hbase) hkept hskips with hreported | ⟨b, hb, hawaits⟩
  · exact ⟨_, self_mem_visited _ _, .inr (.inr hreported)⟩
  · exact exists_settled hinv hkept' ⟨hawaits, hsame⟩ after hcount.2 (by omega)

theorem greatest_withBase (r : SrtReceiver) (seq : Nat) : (r.withBase seq).lossMaxTtl = r.lossMaxTtl := by
  unfold withBase
  split_ifs <;> rfl

theorem greatest_reportHeld (tolerance : Nat) : (r.reportHeld tolerance).1.lossMaxTtl = r.lossMaxTtl := by
  unfold reportHeld
  split_ifs <;> rfl

theorem greatest_countOrderedPacket : r.countOrderedPacket.lossMaxTtl = r.lossMaxTtl := by
  unfold countOrderedPacket
  split_ifs <;> rfl

theorem greatest_onData (h : r.Sound) (hkept : r.Kept) : (r.onData pkt).1.lossMaxTtl = r.lossMaxTtl := by
  obtain ⟨hwindow, hbase, -, -⟩ := sound_withBase h pkt.seq_lt
  have hkept : (r.withBase pkt.seq).Kept := kept_withBase h hkept
  rw [← greatest_withBase r pkt.seq]
  generalize hstart : r.withBase pkt.seq = b at *
  rcases onData_cases hstart with ⟨-, hdata⟩ | ⟨-, hflow, -, hdata⟩ | ⟨-, hflow, reported, held, rfl, rfl, hstate, -⟩
  · rw [hdata]
  · rw [hdata]
    exact (tolerance_noteArrival pkt hkept.tolerance).1
  · have hbuffers := (buffers_reportGap hwindow hbase hkept hflow).greatest
    generalize ((b.noteArrival pkt).store pkt).reportGap b.reorderTolerance (b.gapBefore pkt.seq) = reported at *
    rcases hstate with hstate | hstate
    · rw [hstate, greatest_reportHeld, hbuffers]
    · rw [hstate, greatest_countOrderedPacket, greatest_reportHeld, hbuffers]

theorem Trace.greatest_run {t : Trace} (h : t.Inv) (hkept : t.receiver.Kept) (events : List Event)
    (hcount : AllCount t events) : (t.run events).receiver.lossMaxTtl = t.receiver.lossMaxTtl := by
  induction events generalizing t with
  | nil => rfl
  | cons event events ih =>
    refine (ih (inv_step h event (fits_of_counts hkept hcount.1)) (kept_step h hkept event hcount.1) hcount.2).trans ?_
    cases event with
    | data pkt => exact greatest_onData h.sound hkept
    | dropRequest first last hfirst hlast => exact (passes_onDropRequest first last).greatest
    | takeReady => exact (passes_takeInOrder _ _).greatest
    | takeReadyAt nowUs => exact (passes_takeReadyAtSeqs nowUs).greatest

/-- In every run that counts what is held, a sequence that is skipped arrives, is passed by the cursor or is reported
before one more packet is buffered than the greatest tolerance says. -/
theorem skipped_settled (lossMaxTtl : Nat) (tsbpdLatencyUs : Option Nat)
    (cryptoEven cryptoOdd : Option (Nat → List UInt8 → List UInt8)) (before after : List Event) (pkt : DataPacket)
    (seq : Nat) {start opening : Trace}
    (hstart : start = .start (configured lossMaxTtl tsbpdLatencyUs cryptoEven cryptoOdd))
    (hopening : opening = start.run before) (hcount : AllCount start (before ++ .data pkt :: after))
    (hskips : opening.receiver.Skips pkt seq) (hmany : lossMaxTtl + 1 ≤ (opening.step (.data pkt)).buffered after) :
    ∃ t ∈ (opening.step (.data pkt)).visited after, t.Settled seq (opening.positionOf seq) := by
  subst hstart hopening
  have hinv := Trace.inv_start lossMaxTtl tsbpdLatencyUs cryptoEven cryptoOdd
  have hkept := kept_configured lossMaxTtl tsbpdLatencyUs cryptoEven cryptoOdd
  obtain ⟨hbefore, hafter⟩ := Trace.allCount_append hcount
  obtain ⟨hinvRun, hkeptRun⟩ := Trace.kept_run hinv hkept before hbefore
  have hgreatest := Trace.greatest_run hinv hkept before hbefore
  exact Trace.exists_settled_of_skips hinvRun hkeptRun after hafter hskips (hgreatest ▸ hmany)

instance {pkt : DataPacket} : Decidable (r.Skips pkt seq) := inferInstanceAs (Decidable (_ ∧ _))

instance {t : Trace} {position : Nat} : Decidable (t.Settled seq position) := inferInstanceAs (Decidable (_ ∨ _))

/-- A gap of two packets is split by one of them, and the other is reported. -/
theorem skipped_settled_split : ∃ t ∈ Trace.visited (Trace.step (Trace.run (.start (configured 2 none none none))
          [.data (plainPacket 0 (by decide))]) (.data (plainPacket 3 (by decide))))
        [.takeReady, .data (plainPacket 2 (by decide)), .data (plainPacket 4 (by decide)),
          .data (plainPacket 5 (by decide))], t.Settled 1 1 :=
  skipped_settled 2 none none none [.data (plainPacket 0 (by decide))]
    [.takeReady, .data (plainPacket 2 (by decide)), .data (plainPacket 4 (by decide)),
      .data (plainPacket 5 (by decide))] (plainPacket 3 (by decide)) 1 rfl rfl (by decide) (by decide) (by decide)

def inOrder (first count : Nat) : List Event :=
  (List.range count).map fun k => .data (plainPacket ((first + k) % 2 ^ 31) (Nat.mod_lt _ (by decide)))

/-- The packet that skips a sequence is the last of 50 in order and lowers the tolerance to 0, and the sequence is not
settled, whatever is buffered then. -/
theorem stranded_not_settled :
    Skips (Trace.run (.start (configured 1 none none none)) (inOrder 0 49)).receiver (plainPacket 50 (by decide)) 49 ∧
      1 + 1 ≤ Trace.buffered (Trace.step (Trace.run (.start (configured 1 none none none)) (inOrder 0 49))
        (.data (plainPacket 50 (by decide)))) (inOrder 51 20) ∧
      ∀ t ∈ Trace.visited (Trace.step (Trace.run (.start (configured 1 none none none)) (inOrder 0 49))
        (.data (plainPacket 50 (by decide)))) (inOrder 51 20), ¬ t.Settled 49 49 := by
  decide +kernel

end SrtReceiver

end Glass2Glass.Srt
