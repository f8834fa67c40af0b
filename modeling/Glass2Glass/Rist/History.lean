import Glass2Glass.Rist.RoundTrip
import Mathlib.Data.List.Perm.Subperm
import Mathlib.Data.List.Range

/-!
# The sender's history

`RetransmissionHistory` of `g2g-plugins/src/rist.rs` keeps the packets of the last run of sequence numbers
(`record_held`), and sends again those that a request asks for on a link (`nack_answers`).
-/

namespace Glass2Glass.Rist

open List

/-- Packets that were just sent, and the sequence number of the oldest. -/
structure SentPackets (α : Type) where
  firstSequence : UInt16
  packets : List α

namespace SentPackets

variable {α : Type}

def push (s : SentPackets α) (sequence : UInt16) (packet : α) : SentPackets α :=
  let expected := s.firstSequence + UInt16.ofNat s.packets.length
  if s.packets = [] ∨ sequence ≠ expected then { firstSequence := sequence, packets := [packet] }
  else { s with packets := s.packets ++ [packet] }

def popOldest (s : SentPackets α) : SentPackets α :=
  match s.packets with
  | [] => s
  | _ :: rest => { firstSequence := s.firstSequence + 1, packets := rest }

def get (s : SentPackets α) (sequence : UInt16) : Option α := s.packets[(sequence - s.firstSequence).toNat]?

end SentPackets

inductive SentOn where
  | everyLink
  | link (index : Nat)

def SentOn.includes : SentOn → Nat → Bool
  | everyLink, _ => true
  | link sentLink, index => sentLink = index

def ssrcLowByte : Nat := 11

/-- An RTP packet has its fixed header. -/
abbrev RtpPacket := { bytes : List UInt8 // ssrcLowByte < bytes.length }

structure SentPacket where
  sentNs : Nat
  sentOn : SentOn
  packet : RtpPacket

structure RetransmissionHistory where
  keepNs : Nat
  packets : SentPackets SentPacket

def sequenceSpace : Nat := 2 ^ 16

def maxHistoryPackets : Nat := sequenceSpace / 2

/-- The loop of `record`: the oldest packets go while they are too old or too many. -/
def forget (oldestKeptNs : Nat) (s : SentPackets SentPacket) : SentPackets SentPacket :=
  match _h : s.packets with
  | [] => s
  | oldest :: _ =>
    if ¬ oldest.sentNs < oldestKeptNs ∧ s.packets.length ≤ maxHistoryPackets then s else forget oldestKeptNs s.popOldest
  termination_by s.packets.length
  decreasing_by
    rw [SentPackets.popOldest, _h]
    exact Nat.lt_succ_self _

/-- A packet that was sent. -/
structure Record where
  sequence : UInt16
  packet : RtpPacket
  sentOn : SentOn
  nowNs : Nat

namespace RetransmissionHistory

def new (keepNs : Nat) : RetransmissionHistory where
  keepNs
  packets := { firstSequence := 0, packets := [] }

def record (h : RetransmissionHistory) (r : Record) : RetransmissionHistory :=
  let packets := h.packets.push r.sequence { sentNs := r.nowNs, sentOn := r.sentOn, packet := r.packet }
  { h with packets := forget (r.nowNs - h.keepNs) packets }

/-- The original bytes, with the low bit of the stream's number. -/
def retransmission (packet : RtpPacket) : List UInt8 := packet.1.modify ssrcLowByte fun low => low ||| 1

/-- The loop of `retransmissions`, with the numbers that it has answered. -/
def resend (h : RetransmissionHistory) (link : Nat) : List UInt16 → List UInt16 → List (List UInt8)
  | _, [] => []
  | resent, sequence :: rest =>
    if sequence ∈ resent then resend h link resent rest
    else
      match h.packets.get sequence with
      | none => resend h link (sequence :: resent) rest
      | some sent =>
        if sent.sentOn.includes link then retransmission sent.packet :: resend h link (sequence :: resent) rest
        else resend h link (sequence :: resent) rest

def retransmissions (h : RetransmissionHistory) (ranges : List SequenceRange) (link : Nat) : List (List UInt8) :=
  resend h link [] ((ranges.flatMap SequenceRange.sequences).take sequenceSpace)

def run (keepNs : Nat) (records : List Record) : RetransmissionHistory := records.foldl record (new keepNs)

end RetransmissionHistory

/-! ## What is held -/

def Record.sent (r : Record) : SentPacket where
  sentNs := r.nowNs
  sentOn := r.sentOn
  packet := r.packet

/-- Sequence numbers one after the other. -/
def Consecutive (first : UInt16) (kept : List Record) : Prop :=
  ∀ i r, kept[i]? = some r → r.sequence = first + UInt16.ofNat i

def lastTime (records : List Record) : Nat := (records.getLast?.map (·.nowNs)).getD 0

/-- Why a packet is no longer held: the numbers began anew after it, it is too old, or there are as many as may be. -/
def Forgotten (keepNs now : Nat) (kept : List Record) (r : Record) : Prop :=
  (∃ next ∈ kept.head?, next.sequence ≠ r.sequence + 1) ∨ r.nowNs < now - keepNs ∨ kept.length = maxHistoryPackets

/-- The last packets are held, one number after the other, and no others may be. -/
structure Holds (keepNs : Nat) (s : SentPackets SentPacket) (older kept : List Record) (now : Nat) : Prop where
  packets : s.packets = kept.map Record.sent
  consecutive : Consecutive s.firstSequence kept
  few : kept.length ≤ maxHistoryPackets
  fresh : ∀ r ∈ kept, now - keepNs ≤ r.nowNs
  forgotten : ∀ r ∈ older.getLast?, Forgotten keepNs now kept r

variable {r : Record} {s : SentPackets SentPacket}

theorem forget_cons {oldestKeptNs : Nat} {rest : List Record}
    (hpackets : s.packets = (r :: rest).map Record.sent) :
    forget oldestKeptNs s = if ¬ r.nowNs < oldestKeptNs ∧ (r :: rest).length ≤ maxHistoryPackets then s
      else forget oldestKeptNs { firstSequence := s.firstSequence + 1, packets := rest.map Record.sent } := by
  have hpop : s.popOldest = { firstSequence := s.firstSequence + 1, packets := rest.map Record.sent } := by
    rw [SentPackets.popOldest, hpackets]
    rfl
  have hlength : s.packets.length = (r :: rest).length := by rw [hpackets, length_map]
  rw [forget]
  split
  · rename_i hnil
    rw [hpackets] at hnil
    cases hnil
  · rename_i oldest later hcons
    rw [hpackets] at hcons
    obtain ⟨rfl, -⟩ := List.cons.inj hcons
    rw [hpop, hlength]
    rfl

theorem Consecutive.tail {first : UInt16} {rest : List Record} (h : Consecutive first (r :: rest)) :
    Consecutive (first + 1) rest := by
  intro i r' hr'
  rw [h (i + 1) r' hr', UInt16.add_assoc, UInt16.add_comm 1, UInt16.ofNat_add]
  rfl

variable {kept : List Record} {keepNs now : Nat}

/-- The loop forgets packets until the rest may be held. -/
theorem forget_holds : ∀ {s : SentPackets SentPacket} {older : List Record},
    s.packets = kept.map Record.sent → Consecutive s.firstSequence kept → kept.length ≤ maxHistoryPackets + 1 →
    kept.Pairwise (fun a b => a.nowNs ≤ b.nowNs) → (∃ r ∈ kept.getLast?, r.nowNs = now) →
    (maxHistoryPackets < kept.length ∨ ∀ r ∈ older.getLast?, Forgotten keepNs now kept r) →
      ∃ dropped kept', kept = dropped ++ kept' ∧ kept' ≠ [] ∧ Holds keepNs (forget (now - keepNs) s) (older ++ dropped)
        kept' now := by
  induction kept with
  | nil =>
    rintro s older - - - - ⟨r, hr, -⟩ -
    cases hr
  | cons r rest ih =>
    intro s older hpackets hconsecutive hlength htimes hlast hforgotten
    obtain ⟨hfirst, hrest⟩ := List.pairwise_cons.mp htimes
    rw [forget_cons hpackets]
    split_ifs with hstops
    · obtain ⟨hfresh, hfew⟩ := hstops
      refine ⟨[], r :: rest, rfl, cons_ne_nil r rest, hpackets, hconsecutive, hfew, ?_, ?_⟩
      · intro r' hr'
        rcases List.mem_cons.mp hr' with rfl | hlater
        · omega
        · have := hfirst r' hlater
          omega
      · rw [append_nil]
        exact hforgotten.resolve_left (by omega)
    · -- The oldest packet goes, and for a reason.
      have hne : rest ≠ [] := by
        rintro rfl
        obtain ⟨r', hr', hnow⟩ := hlast
        obtain rfl : r = r' := Option.some.inj hr'
        exact hstops ⟨by omega, Nat.succ_le_of_lt (by decide)⟩
      obtain ⟨last, hlastMem, hnow⟩ := hlast
      have hlast' : ∃ r ∈ rest.getLast?, r.nowNs = now := by
        refine ⟨last, ?_, hnow⟩
        rw [List.getLast?_cons_of_ne_nil hne] at hlastMem
        exact hlastMem
      have hreason : ∀ r' ∈ (older ++ [r]).getLast?, Forgotten keepNs now rest r' := by
        intro r' hr'
        rw [List.getLast?_concat] at hr'
        obtain rfl : r = r' := Option.some.inj hr'
        by_cases hold : r.nowNs < now - keepNs
        · exact .inr (.inl hold)
        · refine .inr (.inr ?_)
          have hmany : ¬ (r :: rest).length ≤ maxHistoryPackets := fun hfew => hstops ⟨hold, hfew⟩
          rw [length_cons] at hlength hmany
          omega
      obtain ⟨dropped, kept', hsplit, hkept', hholds⟩ := ih (s := ⟨s.firstSequence + 1, rest.map Record.sent⟩) rfl
        hconsecutive.tail (by rw [length_cons] at hlength; omega) hrest hlast' (.inr hreason)
      refine ⟨r :: dropped, kept', by rw [hsplit]; rfl, hkept', ?_⟩
      rw [append_assoc, singleton_append] at hholds
      exact hholds

/-- What a run of records leaves. -/
theorem record_held (keepNs : Nat) {records : List Record} (htimes : records.Pairwise fun a b => a.nowNs ≤ b.nowNs) :
    ∃ older kept, records = older ++ kept ∧ (records ≠ [] → kept ≠ []) ∧
      (RetransmissionHistory.run keepNs records).keepNs = keepNs ∧
      Holds keepNs (RetransmissionHistory.run keepNs records).packets older kept (lastTime records) := by
  induction records using List.reverseRecOn with
  | nil =>
    refine ⟨[], [], rfl, fun h => absurd rfl h, rfl, rfl, ?_, Nat.zero_le _, ?_, ?_⟩
    · intro i r hr
      simp at hr
    · simp
    · simp
  | append_singleton records r ih =>
    obtain ⟨hbefore, -, hlater⟩ := List.pairwise_append.mp htimes
    obtain ⟨older, kept, hsplit, hne, hkeep, hholds⟩ := ih hbefore
    have hrun : RetransmissionHistory.run keepNs (records ++ [r])
        = (RetransmissionHistory.run keepNs records).record r := by simp [RetransmissionHistory.run]
    have hnow : lastTime (records ++ [r]) = r.nowNs := by simp [lastTime]
    have hle : lastTime records ≤ r.nowNs := by
      rw [lastTime]
      cases hlast : records.getLast? with
      | none => exact Nat.zero_le _
      | some last => exact hlater last (mem_of_getLast? hlast) r (mem_singleton_self r)
    rw [hrun, hnow]
    generalize RetransmissionHistory.run keepNs records = h at *
    have hexpected : h.packets.packets.length = kept.length := by rw [hholds.packets, length_map]
    have hstep : ∀ older' kept' : List Record, records ++ [r] = older' ++ kept' →
        (h.packets.push r.sequence r.sent).packets = kept'.map Record.sent →
        Consecutive (h.packets.push r.sequence r.sent).firstSequence kept' → kept'.length ≤ maxHistoryPackets + 1 →
        (∃ last ∈ kept'.getLast?, last.nowNs = r.nowNs) →
        (maxHistoryPackets < kept'.length ∨ ∀ r' ∈ older'.getLast?, Forgotten keepNs r.nowNs kept' r') →
        ∃ older kept, records ++ [r] = older ++ kept ∧ (records ++ [r] ≠ [] → kept ≠ []) ∧ (h.record r).keepNs = keepNs ∧
          Holds keepNs (h.record r).packets older kept r.nowNs := by
      intro older' kept' hsplit' hpackets hconsecutive hlength hlast hforgotten
      have htimes' : kept'.Pairwise fun a b => a.nowNs ≤ b.nowNs := by
        rw [hsplit'] at htimes
        exact (List.pairwise_append.mp htimes).2.1
      obtain ⟨dropped, rest, hrest, hrestNe, hrestHolds⟩ :=
        forget_holds hpackets hconsecutive hlength htimes' hlast hforgotten
      have hrecord : (h.record r).packets = forget (r.nowNs - keepNs) (h.packets.push r.sequence r.sent) := by
        rw [RetransmissionHistory.record, hkeep]
        rfl
      exact ⟨older' ++ dropped, rest, by rw [hsplit', hrest, append_assoc], fun _ => hrestNe, hkeep,
        by rw [hrecord]; exact hrestHolds⟩
    by_cases hrestarts : h.packets.packets = [] ∨ r.sequence ≠ h.packets.firstSequence + UInt16.ofNat kept.length
    · have hpush : h.packets.push r.sequence r.sent = { firstSequence := r.sequence, packets := [r.sent] } := by
        rw [SentPackets.push, hexpected]
        exact if_pos hrestarts
      refine hstep records [r] rfl ?_ ?_ (Nat.succ_le_succ (Nat.zero_le _)) ⟨r, rfl, rfl⟩ (.inr ?_)
      · rw [hpush]
        rfl
      · rw [hpush]
        intro i r' hr'
        obtain ⟨rfl, rfl⟩ : i = 0 ∧ r = r' := by
          rw [List.getElem?_singleton] at hr'
          split_ifs at hr' with hi
          exact ⟨hi, Option.some.inj hr'⟩
        simp
      · -- The last packet before has the number before the one that was expected.
        intro last hlast
        have hkept : kept ≠ [] := hne fun hnil => by rw [hnil] at hlast; cases hlast
        refine .inl ⟨r, rfl, ?_⟩
        rw [hsplit, List.getLast?_append_of_ne_nil _ hkept, List.getLast?_eq_getElem?] at hlast
        have hpos := List.length_pos_iff.mpr hkept
        have hnumber := hholds.consecutive _ last hlast
        rcases hrestarts with hempty | hjumps
        · rw [hempty] at hexpected
          exact absurd hexpected.symm hpos.ne'
        · rw [hnumber, UInt16.add_assoc, ← UInt16.ofNat_one, ← UInt16.ofNat_add, Nat.sub_add_cancel hpos]
          exact hjumps
    · push Not at hrestarts
      obtain ⟨hsome, hfollows⟩ := hrestarts
      have hpush : h.packets.push r.sequence r.sent = { h.packets with packets := h.packets.packets ++ [r.sent] } := by
        rw [SentPackets.push, hexpected]
        exact if_neg (by simp [hsome, hfollows])
      refine hstep older (kept ++ [r]) (by rw [hsplit, append_assoc]) ?_ ?_ ?_ ⟨r, by simp, rfl⟩ ?_
      · rw [hpush, hholds.packets, map_append, map_singleton]
      · rw [hpush]
        intro i r' hr'
        rcases Nat.lt_or_ge i kept.length with hlt | hge
        · rw [List.getElem?_append_left hlt] at hr'
          exact hholds.consecutive i r' hr'
        · rw [List.getElem?_append_right hge, List.getElem?_singleton] at hr'
          split_ifs at hr' with hi
          obtain rfl : r = r' := Option.some.inj hr'
          rw [hfollows]
          congr
          omega
      · rw [length_append, length_singleton]
        exact Nat.succ_le_succ hholds.few
      · by_cases hfull : kept.length = maxHistoryPackets
        · refine .inl ?_
          rw [length_append, length_singleton]
          omega
        · refine .inr fun last hlast => ?_
          rcases hholds.forgotten last hlast with ⟨first, hfirst, hjump⟩ | hold | hmany
          · exact .inl ⟨first, by rw [List.head?_append, hfirst]; rfl, hjump⟩
          · exact .inr (.inl (by omega))
          · exact absurd hmany hfull

/-! ## Answers -/

theorem find?_eq_getElem? {α : Type} {p : α → Bool} {n : Nat} : ∀ {l : List α},
    (∀ i a, l[i]? = some a → (p a = true ↔ i = n)) → l.find? p = l[n]? := by
  induction n with
  | zero =>
    intro l h
    cases l with
    | nil => rfl
    | cons a l => rw [List.find?_cons_of_pos ((h 0 a rfl).mpr rfl)]; rfl
  | succ n ih =>
    intro l h
    cases l with
    | nil => rfl
    | cons a l =>
      have hfirst : ¬ p a = true := fun hp => absurd ((h 0 a rfl).mp hp) (Nat.succ_ne_zero n).symm
      rw [List.find?_cons_of_neg hfirst, List.getElem?_cons_succ]
      exact ih fun i a hi => (h (i + 1) a hi).trans (by omega)

/-- The packet that is held under a number. -/
def heldAs (kept : List Record) (sequence : UInt16) : Option Record := kept.find? fun r => r.sequence = sequence

theorem Consecutive.place {first : UInt16} (h : Consecutive first kept)
    (hfew : kept.length ≤ maxHistoryPackets) {i : Nat} (hr : kept[i]? = some r) (sequence : UInt16) :
    r.sequence = sequence ↔ i = (sequence - first).toNat := by
  have hlt : i < 2 ^ 16 := by
    have hi := (List.getElem?_eq_some_iff.mp hr).1
    have : maxHistoryPackets = 2 ^ 15 := rfl
    omega
  rw [h i r hr]
  constructor
  · rintro rfl
    rw [UInt16.add_comm, UInt16.add_sub_cancel, UInt16.toNat_ofNat', Nat.mod_eq_of_lt hlt]
  · rintro rfl
    rw [UInt16.ofNat_toNat, UInt16.add_comm, UInt16.sub_add_cancel]

variable {older : List Record}

theorem Holds.get
    (h : Holds keepNs s older kept now) (sequence : UInt16) : s.get sequence = (heldAs kept sequence).map Record.sent := by
  rw [SentPackets.get, h.packets, List.getElem?_map, heldAs]
  congr 1
  refine (find?_eq_getElem? fun i r hr => ?_).symm
  rw [decide_eq_true_iff]
  exact h.consecutive.place h.few hr sequence

theorem Holds.nodup (h : Holds keepNs s older kept now) : (kept.map Record.sequence).Nodup := by
  rw [List.nodup_iff_getElem?_ne_getElem?]
  intro i j hij hj heq
  rw [length_map] at hj
  rw [List.getElem?_map, List.getElem?_map, List.getElem?_eq_getElem (hij.trans hj), List.getElem?_eq_getElem hj] at heq
  have hi := (h.consecutive.place h.few (List.getElem?_eq_getElem (hij.trans hj)) _).mp rfl
  have hj' := (h.consecutive.place h.few (List.getElem?_eq_getElem hj) _).mp rfl
  rw [Option.map_some, Option.map_some, Option.some.injEq] at heq
  rw [← heq] at hj'
  omega

def answer (kept : List Record) (link : Nat) (sequence : UInt16) : Option (List UInt8) :=
  ((heldAs kept sequence).filter fun r => r.sentOn.includes link).map fun r => RetransmissionHistory.retransmission r.packet

theorem resend_nodup {link : Nat} {h : RetransmissionHistory}
    (hholds : Holds keepNs h.packets older kept now) {sequences : List UInt16} : ∀ {resent : List UInt16},
    sequences.Nodup → (∀ sequence ∈ sequences, sequence ∉ resent) →
      h.resend link resent sequences = sequences.filterMap (answer kept link) := by
  induction sequences with
  | nil => exact fun _ _ => rfl
  | cons sequence rest ih =>
    intro resent hnodup hfresh
    obtain ⟨hnot, hrest⟩ := List.nodup_cons.mp hnodup
    have hnext : h.resend link (sequence :: resent) rest = rest.filterMap (answer kept link) :=
      ih hrest fun other hother => by
        rw [mem_cons, not_or]
        exact ⟨fun heq => hnot (heq ▸ hother), hfresh other (mem_cons_of_mem _ hother)⟩
    rw [RetransmissionHistory.resend, if_neg (hfresh sequence mem_cons_self), hholds.get, filterMap_cons, answer]
    cases hheld : heldAs kept sequence with
    | none => exact hnext
    | some r =>
      cases hlink : r.sentOn.includes link with
      | false | true => simp [Record.sent, Option.filter, hlink, hnext]

theorem length_le_of_nodup {sequences : List UInt16} (h : sequences.Nodup) : sequences.length ≤ sequenceSpace := by
  have hnodup : (sequences.map UInt16.toNat).Nodup := h.map fun a b => UInt16.toNat_inj.mp
  have hsubset : sequences.map UInt16.toNat ⊆ List.range sequenceSpace := by
    intro n hn
    obtain ⟨sequence, -, rfl⟩ := List.mem_map.mp hn
    exact List.mem_range.mpr sequence.toNat_lt
  have hle := (hnodup.subperm hsubset).length_le
  rwa [length_map, length_range] at hle

/-- A request for what is missing gets the packets of it that are held and went out on the link, each once, under the
number that they were recorded under. Held are the last packets with one number after the other, no more than half of the
numbers and none that is too old. -/
theorem nack_answers (keepNs : Nat) (records : List Record) (missing : List UInt16) (senderSsrc ssrc : UInt32) (link : Nat)
    (htimes : records.Pairwise fun a b => a.nowNs ≤ b.nowNs) (hmissing : missing.Nodup) :
    ∃ older kept, records = older ++ kept
      ∧ Holds keepNs (RetransmissionHistory.run keepNs records).packets older kept (lastTime records)
      ∧ (RetransmissionHistory.run keepNs records).packets.packets.length ≤ maxHistoryPackets
      ∧ (kept.map Record.sequence).Nodup ∧ (∀ sequence, (RetransmissionHistory.run keepNs records).packets.get sequence
        = (heldAs kept sequence).map Record.sent) ∧ ((RetransmissionHistory.run keepNs records).retransmissions
        (requested (buildNackFeedback senderSsrc (mediaSsrc ssrc) missing) (mediaSsrc ssrc)) link).Perm
          (missing.filterMap (answer kept link)) := by
  obtain ⟨older, kept, hsplit, -, -, hholds⟩ := record_held keepNs htimes
  refine ⟨older, kept, hsplit, hholds, ?_, hholds.nodup, hholds.get, ?_⟩
  · rw [hholds.packets, length_map]
    exact hholds.few
  · have hperm := requested_perm senderSsrc ssrc hmissing
    have hnodup := hperm.nodup_iff.mpr hmissing
    rw [RetransmissionHistory.retransmissions, take_of_length_le (length_le_of_nodup hnodup),
      resend_nodup hholds hnodup (by simp)]
    exact hperm.filterMap _

/-- Two packets on two links, on either side of the wrap. -/
def sampleRecords : List Record :=
  [{ sequence := 65535, packet := ⟨List.replicate 12 1, by decide⟩, sentOn := .everyLink, nowNs := 5 },
    { sequence := 0, packet := ⟨List.replicate 12 2, by decide⟩, sentOn := .link 1, nowNs := 6 }]

theorem nack_answers_two : ∃ older kept, sampleRecords = older ++ kept
      ∧ Holds 100 (RetransmissionHistory.run 100 sampleRecords).packets older kept (lastTime sampleRecords)
      ∧ (RetransmissionHistory.run 100 sampleRecords).packets.packets.length ≤ maxHistoryPackets
      ∧ (kept.map Record.sequence).Nodup
      ∧ (∀ sequence, (RetransmissionHistory.run 100 sampleRecords).packets.get sequence
        = (heldAs kept sequence).map Record.sent) ∧ ((RetransmissionHistory.run 100 sampleRecords).retransmissions
        (requested (buildNackFeedback 3 (mediaSsrc 8) [65535, 0]) (mediaSsrc 8)) 1).Perm
          ([65535, 0].filterMap (answer kept 1)) :=
  nack_answers 100 sampleRecords [65535, 0] 3 8 1 (by decide) (by decide)

end Glass2Glass.Rist
