import Glass2Glass.Lib.Machine
import Glass2Glass.Lib.SortedMap
import Glass2Glass.Rtp.Sequence

/-!
# The RTP jitter buffer

`RtpJitterBuffer` (`g2g-plugins/src/rtpjitter.rs`): packets are kept by extended sequence number and released
in order. A packet behind a gap is held until the hold time of the first packet is over or the buffer is full;
the gap is then declared lost. In constant-delay mode every packet is held. The buffer has no clock: each call
brings the time.

Whatever arrives and in whichever order, the released packets are in sequence, none is lost or made up between
`push` and `pop`, and the deadline that the buffer reports is the time of the next release (`jitter_runs`). The
restart with a new stream is left out.
-/

namespace Glass2Glass.Rtp

open List SortedMap Option

/-- The release policy. -/
structure JitterConfig where
  maxHoldNs : Nat
  maxDepth : Nat
  deriving DecidableEq

structure JitterStats where
  /-- Packets taken into the buffer. -/
  received : Nat
  reordered : Nat
  /-- Packets declared lost. -/
  lost : Nat
  duplicates : Nat
  late : Nat

structure Buffered where
  data : List UInt8
  arrivalNs : Nat

structure RtpJitterBuffer where
  config : JitterConfig
  /-- By extended sequence number. -/
  packets : SortedMap Nat Buffered
  /-- The next extended sequence number to release. -/
  next : Option Nat
  /-- Until the first release a packet before the baseline still fits in front of it. -/
  releasedAny : Bool
  sequenceExtender : RtpSequenceExtender
  constantDelay : Bool
  stats : JitterStats

namespace RtpJitterBuffer

def new (config : JitterConfig) (constantDelay : Bool) : RtpJitterBuffer :=
  { config, packets := .empty, next := none, releasedAny := false, sequenceExtender := .new, constantDelay
    stats := { received := 0, reordered := 0, lost := 0, duplicates := 0, late := 0 } }

section

variable (b : RtpJitterBuffer)

/-- The arrival time of a packet. In constant-delay mode one that fills a gap has the slot of the packet after
it. -/
def stamp (ext nowNs : Nat) : Nat :=
  match b.packets.above? ext with
  | some (_, following) => if b.constantDelay then min following.arrivalNs nowNs else nowNs
  | none => nowNs

/-- Take a packet at or above the baseline, unless it is there already. -/
def take (ext : Nat) (packet : List UInt8) (prevHigh : Option Nat) (nowNs : Nat) : RtpJitterBuffer :=
  if b.packets.contains ext then { b with stats.duplicates := b.stats.duplicates + 1 }
  else
    { b with
      packets := b.packets.insert ext { data := packet, arrivalNs := b.stamp ext nowNs }
      stats := { b.stats with
        received := b.stats.received + 1
        reordered := if prevHigh.any (ext < ·) then b.stats.reordered + 1 else b.stats.reordered } }

def push (packet : List UInt8) (nowNs : Nat) : RtpJitterBuffer :=
  if packet.length < rtpHeaderLen then b
  else
    let prevHigh := b.sequenceExtender.highest
    let (ext, sequenceExtender) := b.sequenceExtender.extend (sequenceOf packet)
    let b := { b with sequenceExtender }
    match b.next with
    | none => { b with next := some ext }.take ext packet prevHigh nowNs
    | some next =>
      if ext < next && !b.releasedAny then { b with next := some ext }.take ext packet prevHigh nowNs
      else if ext < next then { b with stats.late := b.stats.late + 1 }
      else b.take ext packet prevHigh nowNs

/-- The first packet is due: its hold time is over, the buffer is full, or it is the next one and need not
wait. -/
def ready (next head : Nat) (headBuf : Buffered) (nowNs : Nat) : Bool :=
  let overdue := decide (nowNs - headBuf.arrivalNs ≥ b.config.maxHoldNs)
  let full := decide (b.packets.size ≥ max b.config.maxDepth 1)
  overdue || (head == next && !b.constantDelay) || full

/-- Release the first packet if it is due, and declare the gap before it lost. -/
def pop (nowNs : Nat) : Option (List UInt8) × RtpJitterBuffer :=
  match b.next, b.packets.first? with
  | some next, some (head, headBuf) =>
    if b.ready next head headBuf nowNs then
      (some headBuf.data, { b with
        stats.lost := b.stats.lost + (head - next)
        packets := b.packets.erase head
        next := some (head + 1)
        releasedAny := true })
    else (none, b)
  | _, _ => (none, b)

/-- The sequence numbers of the holes, up to the highest packet and within the window. -/
def missingSeqs : List Nat :=
  match b.next, b.packets.last? with
  | some next, some (last, _) =>
    let window := max b.config.maxDepth 1
    let stop := min last (min (next + window) (2 ^ 64 - 1))
    let present := (b.packets.entries.map Prod.fst).filter fun ext => next ≤ ext && ext < stop
    -- The sequence numbers so far, and the first one that was not looked at.
    let scanned := present.foldl
      (fun scanned ext => (scanned.1 ++ (List.range' scanned.2 (ext - scanned.2)).map (· % 2 ^ 16), ext + 1))
      ([], next)
    scanned.1 ++ (List.range' scanned.2 (stop - scanned.2)).map (· % 2 ^ 16)
  | _, _ => []

/-- The time until the next release when nothing arrives. -/
def nextDeadlineNs (nowNs : Nat) : Option Nat :=
  match b.next, b.packets.first? with
  | some next, some (head, headBuf) =>
    if (head == next && !b.constantDelay) || decide (b.packets.size ≥ max b.config.maxDepth 1) then some 0
    else some ((headBuf.arrivalNs + b.config.maxHoldNs) % 2 ^ 64 - nowNs)
  | _, _ => none

end

/-! ## What a call does -/

/-- The baseline with a packet that is not late. -/
def Baseline (b : RtpJitterBuffer) (ext : Nat) (next : Nat) : Prop :=
  b.next = none ∧ next = ext ∨
  ∃ old, b.next = some old ∧ (old ≤ ext ∧ next = old ∨ ext < old ∧ b.releasedAny = false ∧ next = ext)

inductive Pushed (b : RtpJitterBuffer) (packet : List UInt8) (nowNs : Nat) : RtpJitterBuffer → Prop where
  | malformed (hlength : packet.length < rtpHeaderLen) : Pushed b packet nowNs b
  | late {ext next : Nat} {sequenceExtender : RtpSequenceExtender}
      (hext : b.sequenceExtender.extend (sequenceOf packet) = (ext, sequenceExtender))
      (hnext : b.next = some next) (hlate : ext < next) (hreleased : b.releasedAny = true) :
      Pushed b packet nowNs { b with sequenceExtender, stats.late := b.stats.late + 1 }
  | duplicate {ext next : Nat} {sequenceExtender : RtpSequenceExtender}
      (hext : b.sequenceExtender.extend (sequenceOf packet) = (ext, sequenceExtender))
      (hnext : b.Baseline ext next) (hpresent : b.packets.contains ext = true) :
      Pushed b packet nowNs
        { b with sequenceExtender, next := some next, stats.duplicates := b.stats.duplicates + 1 }
  | taken {ext next reordered : Nat} {sequenceExtender : RtpSequenceExtender}
      (hlength : ¬ packet.length < rtpHeaderLen)
      (hext : b.sequenceExtender.extend (sequenceOf packet) = (ext, sequenceExtender))
      (hnext : b.Baseline ext next) (habsent : b.packets.contains ext = false) :
      Pushed b packet nowNs { b with
        sequenceExtender
        next := some next
        packets := b.packets.insert ext { data := packet, arrivalNs := b.stamp ext nowNs }
        stats := { b.stats with received := b.stats.received + 1, reordered } }

variable {next nowNs : Nat} {b : RtpJitterBuffer}

theorem pushed_take {packet : List UInt8} {ext : Nat} {prevHigh : Option Nat}
    {sequenceExtender : RtpSequenceExtender} (hlength : ¬ packet.length < rtpHeaderLen)
    (hext : b.sequenceExtender.extend (sequenceOf packet) = (ext, sequenceExtender)) (hnext : b.Baseline ext next) :
    b.Pushed packet nowNs ({ b with sequenceExtender, next := some next }.take ext packet prevHigh nowNs) := by
  unfold take
  split
  · next hpresent => exact .duplicate hext hnext hpresent
  · next hpresent => exact .taken hlength hext hnext (Bool.not_eq_true _ ▸ hpresent)

theorem pushed_push (b : RtpJitterBuffer) (packet : List UInt8) (nowNs : Nat) :
    b.Pushed packet nowNs (b.push packet nowNs) := by
  unfold push
  split_ifs with hlength
  · exact .malformed hlength
  · rcases hext : b.sequenceExtender.extend (sequenceOf packet) with ⟨ext, sequenceExtender⟩
    rcases hnext : b.next with _ | next <;> dsimp only
    · exact pushed_take hlength hext (.inl ⟨hnext, rfl⟩)
    · split_ifs with hmoves hlate
      · rw [Bool.and_eq_true, decide_eq_true_iff, Bool.not_eq_true'] at hmoves
        exact pushed_take hlength hext (.inr ⟨next, hnext, .inr ⟨hmoves.1, hmoves.2, rfl⟩⟩)
      · rw [decide_eq_true hlate, Bool.true_and, Bool.not_eq_true', Bool.not_eq_false] at hmoves
        rw [← hnext]
        exact .late hext hnext hlate hmoves
      · exact pushed_take hlength hext (.inr ⟨next, hnext, .inl ⟨Nat.le_of_not_lt hlate, rfl⟩⟩)

theorem Baseline.le {ext : Nat} (h : b.Baseline ext next) :
    next ≤ ext ∧ ∀ old, b.next = some old → next ≤ old ∧ (b.releasedAny = true → next = old) := by
  rcases h with ⟨hnone, rfl⟩ | ⟨old, hold, ⟨hle, rfl⟩ | ⟨hlt, hreleased, rfl⟩⟩
  · refine ⟨Nat.le_refl _, fun old hold => ?_⟩
    rw [hnone] at hold
    cases hold
  · refine ⟨hle, fun old' hold' => ?_⟩
    obtain rfl := Option.some.inj (hold.symm.trans hold')
    exact ⟨Nat.le_refl _, fun _ => rfl⟩
  · refine ⟨Nat.le_refl _, fun old' hold' => ?_⟩
    obtain rfl := Option.some.inj (hold.symm.trans hold')
    refine ⟨Nat.le_of_lt hlt, fun htrue => ?_⟩
    rw [hreleased] at htrue
    cases htrue

theorem stamp_le (b : RtpJitterBuffer) (ext nowNs : Nat) : b.stamp ext nowNs ≤ nowNs := by
  unfold stamp
  split
  · split
    · exact Nat.min_le_right _ _
    · exact Nat.le_refl _
  · exact Nat.le_refl _

/-- What a pop does. -/
inductive Popped (b : RtpJitterBuffer) (nowNs : Nat) : Option (List UInt8) × RtpJitterBuffer → Prop where
  | empty (hempty : b.next = none ∨ b.packets.first? = none) : Popped b nowNs (none, b)
  | waits {next head : Nat} {headBuf : Buffered} (hnext : b.next = some next)
      (hfirst : b.packets.first? = some (head, headBuf)) (hready : b.ready next head headBuf nowNs = false) :
      Popped b nowNs (none, b)
  | released {next head : Nat} {headBuf : Buffered} (hnext : b.next = some next)
      (hfirst : b.packets.first? = some (head, headBuf)) (hready : b.ready next head headBuf nowNs = true) :
      Popped b nowNs (some headBuf.data, { b with
        stats.lost := b.stats.lost + (head - next)
        packets := b.packets.erase head
        next := some (head + 1)
        releasedAny := true })

theorem popped_pop (b : RtpJitterBuffer) (nowNs : Nat) : b.Popped nowNs (b.pop nowNs) := by
  unfold pop
  rcases hnext : b.next with _ | next
  · exact .empty (.inl hnext)
  · rcases hfirst : b.packets.first? with _ | ⟨head, headBuf⟩ <;> dsimp only
    · exact .empty (.inr hfirst)
    · split_ifs with hready
      · exact .released hnext hfirst hready
      · exact .waits hnext hfirst (Bool.not_eq_true _ ▸ hready)

/-! ## Deadlines -/

theorem pop_isSome_iff
    (harrival : ∀ e ∈ b.packets.entries, e.2.arrivalNs ≤ nowNs ∧ e.2.arrivalNs + b.config.maxHoldNs < 2 ^ 64) :
    (b.pop nowNs).1.isSome = true ↔ b.nextDeadlineNs nowNs = some 0 := by
  unfold pop nextDeadlineNs
  rcases b.next with _ | next
  · simp
  · rcases hfirst : b.packets.first? with _ | ⟨head, headBuf⟩ <;> dsimp only
    · simp
    · obtain ⟨hpast, hfits⟩ := harrival _ (mem_of_first? hfirst)
      dsimp only at hpast hfits
      unfold ready
      rcases hnow : (head == next && !b.constantDelay) || decide (b.packets.size ≥ max b.config.maxDepth 1) with _ | _
      · obtain ⟨hnext, hfull⟩ := Bool.or_eq_false_iff.1 hnow
        rw [hnext, hfull, Bool.or_false, Bool.or_false, if_neg Bool.false_ne_true, some_inj]
        split_ifs with hover
        · rw [decide_eq_true_iff] at hover
          simp only [isSome_some, true_iff]
          omega
        · rw [decide_eq_true_iff] at hover
          simp only [isSome_none, Bool.false_eq_true, false_iff]
          omega
      · rw [Bool.or_assoc, hnow, Bool.or_true, if_pos rfl, if_pos rfl]
        simp

theorem nextDeadlineNs_later {d t : Nat} (hd : b.nextDeadlineNs nowNs = some d)
    (hpos : 0 < d) : b.nextDeadlineNs t = some (nowNs + d - t) := by
  unfold nextDeadlineNs at hd ⊢
  rcases hnext : b.next with _ | next <;> rw [hnext] at hd
  · cases hd
  · rcases hfirst : b.packets.first? with _ | ⟨head, headBuf⟩ <;> rw [hfirst] at hd
    · cases hd
    · dsimp only at hd ⊢
      split_ifs at hd ⊢ with hnow
      · obtain rfl := Option.some.inj hd
        cases hpos
      · have hdue := Option.some.inj hd
        rw [some_inj]
        omega

theorem pop_eq_of_none (h : (b.pop nowNs).1.isSome = false) :
    b.pop nowNs = (none, b) := by
  have hpopped := b.popped_pop nowNs
  generalize b.pop nowNs = result at h hpopped
  cases hpopped with
  | empty | waits => rfl
  | released => cases h

/-! ## Holes -/

/-- The numbers from `a` up to `stop` that are not in a list, as the scan of the list finds them. -/
theorem scan_eq {stop : Nat} (present : List Nat) (out : List Nat) (a : Nat) (hsorted : present.Pairwise (· < ·))
    (hrange : ∀ ext ∈ present, a ≤ ext ∧ ext < stop) :
    let scanned := present.foldl
      (fun scanned ext => (scanned.1 ++ (List.range' scanned.2 (ext - scanned.2)).map (· % 2 ^ 16), ext + 1)) (out, a)
    scanned.1 ++ (List.range' scanned.2 (stop - scanned.2)).map (· % 2 ^ 16) =
      out ++ ((List.range' a (stop - a)).filter (· ∉ present)).map (· % 2 ^ 16) := by
  induction present generalizing out a with
  | nil => simp
  | cons x rest ih =>
    obtain ⟨hx, hrest⟩ := List.pairwise_cons.1 hsorted
    obtain ⟨hax, hxstop⟩ := hrange x mem_cons_self
    have hscan := ih (out ++ (List.range' a (x - a)).map (· % 2 ^ 16)) (x + 1) hrest fun ext hext =>
      ⟨hx ext hext, (hrange ext (mem_cons_of_mem _ hext)).2⟩
    have hsplit : List.range' a (stop - a) = List.range' a (x - a) ++ x :: List.range' (x + 1) (stop - (x + 1)) := by
      have hlen : stop - a = (x - a) + (stop - (x + 1) + 1) := by omega
      have hmid : a + (x - a) = x := by omega
      rw [hlen, ← List.range'_append_1, List.range'_succ, hmid]
    have hbefore : (List.range' a (x - a)).filter (· ∉ x :: rest) = List.range' a (x - a) := by
      refine List.filter_eq_self.2 fun ext hext => decide_eq_true fun hmem => ?_
      have hlt := List.mem_range'_1.1 hext
      rcases List.mem_cons.1 hmem with rfl | hmem
      · omega
      · have := hx ext hmem
        omega
    have hafter : (List.range' (x + 1) (stop - (x + 1))).filter (· ∉ x :: rest) =
        (List.range' (x + 1) (stop - (x + 1))).filter (· ∉ rest) := by
      refine filter_congr fun ext hext => ?_
      have hlt := List.mem_range'_1.1 hext
      have hne : ext ≠ x := by omega
      simp [hne]
    refine hscan.trans ?_
    rw [hsplit, filter_append, hbefore, filter_cons_of_neg (by simp), hafter, map_append, append_assoc]

theorem missingSeqs_eq {last : Nat} {lastBuf : Buffered} (hnext : b.next = some next)
    (hlast : b.packets.last? = some (last, lastBuf)) (hfits : last < 2 ^ 64) :
    b.missingSeqs = ((List.range' next (min last (next + max b.config.maxDepth 1) - next)).filter
      fun ext => !b.packets.contains ext).map (· % 2 ^ 16) := by
  have hstop : min last (min (next + max b.config.maxDepth 1) (2 ^ 64 - 1)) =
      min last (next + max b.config.maxDepth 1) := by omega
  unfold missingSeqs
  rw [hnext, hlast]
  dsimp only
  rw [hstop]
  generalize hs : min last (next + max b.config.maxDepth 1) = stop
  have hsorted : ((b.packets.entries.map Prod.fst).filter fun ext => next ≤ ext && ext < stop).Pairwise (· < ·) :=
    (List.pairwise_map.2 b.packets.sorted).filter _
  have hrange : ∀ ext ∈ (b.packets.entries.map Prod.fst).filter fun ext => next ≤ ext && ext < stop,
      next ≤ ext ∧ ext < stop := by
    intro ext hext
    simpa using (List.mem_filter.1 hext).2
  refine (scan_eq _ [] next hsorted hrange).trans ?_
  rw [nil_append]
  congr 1
  refine filter_congr fun ext hext => ?_
  have hwindow := List.mem_range'_1.1 hext
  have hmem : ext ∈ (b.packets.entries.map Prod.fst).filter (fun ext => next ≤ ext && ext < stop) ↔
      b.packets.contains ext = true := by
    rw [List.mem_filter, SortedMap.contains_iff, List.mem_map]
    constructor
    · rintro ⟨⟨e, he, rfl⟩, -⟩
      exact ⟨e.2, he⟩
    · rintro ⟨v, hv⟩
      refine ⟨⟨(ext, v), hv, rfl⟩, ?_⟩
      simp only [Bool.and_eq_true, decide_eq_true_iff]
      omega
  rw [Bool.eq_iff_iff, decide_eq_true_iff, hmem, Bool.not_eq_true', Bool.not_eq_true]

end RtpJitterBuffer

/-! ## Sessions -/

/-- A packet that was taken into the buffer. -/
structure Arrival where
  ext : Nat
  atNs : Nat
  data : List UInt8

/-- A buffer in use, with what went in and what came out. -/
structure Session where
  buffer : RtpJitterBuffer
  /-- The time of the last call. -/
  clock : Nat
  accepted : List Arrival
  /-- The packets released, by extended sequence number. -/
  released : List (Nat × List UInt8)
  /-- The first sequence number that was released or declared lost. -/
  start : Option Nat

namespace Session

inductive Call where
  | push (packet : List UInt8) (nowNs : Nat)
  | pop (nowNs : Nat)

def Call.nowNs : Call → Nat
  | .push _ nowNs => nowNs
  | .pop nowNs => nowNs

def new (config : JitterConfig) (constantDelay : Bool) : Session :=
  { buffer := .new config constantDelay, clock := 0, accepted := [], released := [], start := none }

/-- A call at a time that is not before the last one. -/
def step (s : Session) (call : Call) : Option Session :=
  if s.clock ≤ call.nowNs ∧ call.nowNs < 2 ^ 64 then
    match call with
    | .push packet nowNs =>
      let buffer := s.buffer.push packet nowNs
      let entered := buffer.packets.entries.filter fun e => !s.buffer.packets.contains e.1
      some { s with
        buffer
        clock := nowNs
        accepted := s.accepted ++ entered.map fun e => { ext := e.1, atNs := nowNs, data := e.2.data } }
    | .pop nowNs =>
      let (packet, buffer) := s.buffer.pop nowNs
      let left := packet.bind fun data => s.buffer.packets.first?.map fun e => (e.1, data)
      some { s with
        buffer
        clock := nowNs
        released := s.released ++ left.toList
        start := s.start.or (packet.bind fun _ => s.buffer.next) }
  else none

def buffered (s : Session) : List (Nat × List UInt8) := s.buffer.packets.entries.map fun e => (e.1, e.2.data)

/-- What holds between two calls. -/
structure Kept (config : JitterConfig) (constantDelay : Bool) (s : Session) : Prop where
  config : s.buffer.config = config
  constantDelay : s.buffer.constantDelay = constantDelay
  fits : s.buffer.sequenceExtender.Fits
  key : ∀ e ∈ s.buffer.packets.entries, e.1 < 2 ^ 64
  /-- No packet is below the baseline. -/
  floor : ∀ e ∈ s.buffer.packets.entries, ∃ next, s.buffer.next = some next ∧ next ≤ e.1
  /-- What was released is below the baseline. -/
  below : ∀ r ∈ s.released, ∃ next, s.buffer.next = some next ∧ r.1 < next
  ordered : s.released.Pairwise fun a b => a.1 < b.1
  accounted : (s.accepted.map fun a => (a.ext, a.data)).Perm (s.released ++ s.buffered)
  received : s.buffer.stats.received = s.released.length + s.buffer.packets.size
  untouched : s.buffer.releasedAny = false → s.released = [] ∧ s.start = none ∧ s.buffer.stats.lost = 0
  /-- Every number from the first on is released or lost. -/
  counted : s.buffer.releasedAny = true → ∃ first next, s.start = some first ∧ s.buffer.next = some next ∧
    next = first + s.released.length + s.buffer.stats.lost
  arrival : ∀ e ∈ s.buffer.packets.entries, e.2.arrivalNs ≤ s.clock

variable {config : JitterConfig} {constantDelay : Bool} {s s' : Session}

theorem kept_new : (new config constantDelay).Kept config constantDelay where
  config := rfl
  constantDelay := rfl
  fits := RtpSequenceExtender.fits_new
  key := nofun
  floor := nofun
  below := nofun
  ordered := .nil
  accounted := .refl _
  received := rfl
  untouched _ := ⟨rfl, rfl, rfl⟩
  counted := nofun
  arrival := nofun

section

variable (h : s.Kept config constantDelay)

include h

theorem Kept.baseline_of_mem {ext next : Nat} {v : Buffered}
    (hmem : (ext, v) ∈ s.buffer.packets.entries) (hnext : s.buffer.Baseline ext next) :
    some next = s.buffer.next := by
  obtain ⟨old, hold, hle⟩ := h.floor _ hmem
  rcases hnext with ⟨hnone, -⟩ | ⟨old', hold', ⟨-, rfl⟩ | ⟨hlt, -, -⟩⟩
  · rw [hold] at hnone
    cases hnone
  · exact hold'.symm
  · obtain rfl := Option.some.inj (hold.symm.trans hold')
    exact absurd hlt (Nat.not_lt.2 hle)

theorem Kept.frame {buffer : RtpJitterBuffer} {nowNs : Nat}
    (hnow : s.clock ≤ nowNs) (hconfig : buffer.config = s.buffer.config)
    (hmode : buffer.constantDelay = s.buffer.constantDelay) (hfits : buffer.sequenceExtender.Fits)
    (hpackets : buffer.packets = s.buffer.packets) (hnext : buffer.next = s.buffer.next)
    (hreleased : buffer.releasedAny = s.buffer.releasedAny) (hreceived : buffer.stats.received = s.buffer.stats.received)
    (hlost : buffer.stats.lost = s.buffer.stats.lost) :
    Kept config constantDelay { s with buffer, clock := nowNs } where
  config := hconfig.trans h.config
  constantDelay := hmode.trans h.constantDelay
  fits := hfits
  key := by
    rw [hpackets]
    exact h.key
  floor := by
    rw [hpackets, hnext]
    exact h.floor
  below := by
    rw [hnext]
    exact h.below
  ordered := h.ordered
  accounted := by
    unfold buffered
    rw [hpackets]
    exact h.accounted
  received := by
    rw [hreceived, hpackets]
    exact h.received
  untouched := by
    rw [hreleased, hlost]
    exact h.untouched
  counted := by
    rw [hreleased, hlost, hnext]
    exact h.counted
  arrival e he := by
    rw [hpackets] at he
    exact Nat.le_trans (h.arrival e he) hnow

theorem Kept.taken {packet : List UInt8} {nowNs ext next reordered : Nat}
    {sequenceExtender : RtpSequenceExtender}
    (hnow : s.clock ≤ nowNs) (hfits : sequenceExtender.Fits) (hext : ext < 2 ^ 64)
    (hnext : s.buffer.Baseline ext next) (habsent : s.buffer.packets.contains ext = false) :
    Kept config constantDelay { s with
      buffer := { s.buffer with
        sequenceExtender
        next := some next
        packets := s.buffer.packets.insert ext { data := packet, arrivalNs := s.buffer.stamp ext nowNs }
        stats := { s.buffer.stats with received := s.buffer.stats.received + 1, reordered } }
      clock := nowNs
      accepted := s.accepted ++ [{ ext, atNs := nowNs, data := packet }] } where
  config := h.config
  constantDelay := h.constantDelay
  fits := hfits
  key e he := by
    rcases SortedMap.mem_insert.1 he with rfl | ⟨-, he⟩
    · exact hext
    · exact h.key e he
  floor e he := by
    rcases SortedMap.mem_insert.1 he with rfl | ⟨-, he⟩
    · exact ⟨next, rfl, hnext.le.1⟩
    · obtain ⟨old, hold, hle⟩ := h.floor e he
      exact ⟨next, rfl, Nat.le_trans (hnext.le.2 old hold).1 hle⟩
  below r hr := by
    obtain ⟨old, hold, hlt⟩ := h.below r hr
    have hreleased : s.buffer.releasedAny = true := by
      by_contra hfirst
      rw [(h.untouched (Bool.not_eq_true _ ▸ hfirst)).1] at hr
      cases hr
    rw [← (hnext.le.2 old hold).2 hreleased] at hlt
    exact ⟨next, rfl, hlt⟩
  ordered := h.ordered
  accounted := by
    have hbuffered := (insert_perm (v := (⟨packet, s.buffer.stamp ext nowNs⟩ : Buffered)) habsent).map
      fun e => (e.1, e.2.data)
    rw [map_append]
    refine (h.accounted.append_right _).trans ?_
    rw [append_assoc]
    exact ((perm_append_singleton _ _).trans hbuffered.symm).append_left _
  received := by
    have hsize := (insert_perm (v := (⟨packet, s.buffer.stamp ext nowNs⟩ : Buffered)) habsent).length_eq
    unfold SortedMap.size
    rw [hsize, length_cons, h.received]
    exact (Nat.add_assoc _ _ _)
  untouched := h.untouched
  counted hreleased := by
    obtain ⟨first, old, hfirst, hold, hcount⟩ := h.counted hreleased
    exact ⟨first, old, hfirst, congrArg some ((hnext.le.2 old hold).2 hreleased), hcount⟩
  arrival e he := by
    rcases SortedMap.mem_insert.1 he with rfl | ⟨-, he⟩
    · exact s.buffer.stamp_le ext nowNs
    · exact Nat.le_trans (h.arrival e he) hnow

/-- The next packet leaves. -/
theorem Kept.released {nowNs next head : Nat} {headBuf : Buffered}
    (hnow : s.clock ≤ nowNs) (hnext : s.buffer.next = some next)
    (hfirst : s.buffer.packets.first? = some (head, headBuf)) :
    Kept config constantDelay { s with
      buffer := { s.buffer with
        stats.lost := s.buffer.stats.lost + (head - next)
        packets := s.buffer.packets.erase head
        next := some (head + 1)
        releasedAny := true }
      clock := nowNs
      released := s.released ++ [(head, headBuf.data)]
      start := s.start.or (some next) } := by
  have hentries := entries_eq_of_first? hfirst
  have hle : next ≤ head := by
    obtain ⟨next', hnext', hle⟩ := h.floor _ (mem_of_first? hfirst)
    obtain rfl := Option.some.inj (hnext.symm.trans hnext')
    exact hle
  have hbelow : ∀ r ∈ s.released, r.1 < next := by
    intro r hr
    obtain ⟨next', hnext', hlt⟩ := h.below r hr
    obtain rfl := Option.some.inj (hnext.symm.trans hnext')
    exact hlt
  refine ⟨h.config, h.constantDelay, h.fits, fun e he => h.key e (SortedMap.mem_erase.1 he).2, fun e he => ?_,
    fun r hr => ?_, ?_, ?_, ?_, nofun, fun _ => ?_,
    fun e he => Nat.le_trans (h.arrival e (SortedMap.mem_erase.1 he).2) hnow⟩
  · -- Every other key is above the first one.
    obtain ⟨hne, hmem⟩ := SortedMap.mem_erase.1 he
    exact ⟨head + 1, rfl, Nat.lt_of_le_of_ne (le_of_first? hfirst hmem) (Ne.symm hne)⟩
  · refine ⟨head + 1, rfl, ?_⟩
    rcases List.mem_append.1 hr with hr | hr
    · have hlt := hbelow r hr
      omega
    · rw [List.mem_singleton.1 hr]
      exact Nat.lt_succ_self head
  · refine List.pairwise_append.2 ⟨h.ordered, pairwise_singleton _ _, fun r hr r' hr' => ?_⟩
    rw [List.mem_singleton.1 hr']
    exact Nat.lt_of_lt_of_le (hbelow r hr) hle
  · refine h.accounted.trans ?_
    unfold buffered
    rw [hentries, append_assoc]
    exact .refl _
  · have hsize : s.buffer.packets.size = (s.buffer.packets.erase head).size + 1 := by
      unfold SortedMap.size
      rw [hentries, length_cons]
    dsimp only
    rw [h.received, hsize, length_append, length_singleton]
    omega
  · rcases hreleased : s.buffer.releasedAny with _ | _
    · obtain ⟨hnil, hstart, hlost⟩ := h.untouched hreleased
      rw [hnil, hstart, hlost]
      refine ⟨next, head + 1, rfl, rfl, ?_⟩
      rw [nil_append, length_singleton]
      dsimp only
      omega
    · obtain ⟨first, next', hstart, hnext', hcount⟩ := h.counted hreleased
      obtain rfl := Option.some.inj (hnext.symm.trans hnext')
      rw [hstart]
      refine ⟨first, head + 1, rfl, rfl, ?_⟩
      rw [length_append, length_singleton]
      dsimp only
      omega

theorem kept_push {packet : List UInt8} {nowNs : Nat}
    (hstep : s.step (.push packet nowNs) = some s') : s'.Kept config constantDelay := by
  unfold step at hstep
  split_ifs at hstep with hnow
  obtain rfl := Option.some.inj hstep
  have hfits := RtpSequenceExtender.fits_extend h.fits (sequenceOf_lt packet)
  have hext := RtpSequenceExtender.extend_lt h.fits (sequenceOf_lt packet)
  generalize hbuffer : s.buffer.push packet nowNs = buffer
  have hpushed := s.buffer.pushed_push packet nowNs
  rw [hbuffer] at hpushed
  cases hpushed with
  | malformed =>
    rw [filter_not_contains, map_nil, append_nil]
    exact h.frame hnow.1 rfl rfl h.fits rfl rfl rfl rfl rfl
  | late heq =>
    rw [heq] at hfits
    rw [filter_not_contains, map_nil, append_nil]
    exact h.frame hnow.1 rfl rfl hfits rfl rfl rfl rfl rfl
  | duplicate heq hnext hpresent =>
    rw [heq] at hfits
    rw [filter_not_contains, map_nil, append_nil]
    obtain ⟨v, hmem⟩ := SortedMap.contains_iff.1 hpresent
    exact h.frame hnow.1 rfl rfl hfits rfl (h.baseline_of_mem hmem hnext) rfl rfl rfl
  | taken _ heq hnext habsent =>
    rw [heq] at hfits hext
    rw [filter_insert habsent]
    exact h.taken hnow.1 hfits hext hnext habsent

theorem kept_pop {nowNs : Nat}
    (hstep : s.step (.pop nowNs) = some s') : s'.Kept config constantDelay := by
  have hpopped := s.buffer.popped_pop nowNs
  unfold step at hstep
  split_ifs at hstep with hnow
  dsimp only at hstep
  generalize s.buffer.pop nowNs = result at hstep hpopped
  obtain rfl := Option.some.inj hstep
  cases hpopped with
  | empty | waits =>
    rw [bind_none, bind_none, toList_none, append_nil, or_none]
    exact h.frame hnow.1 rfl rfl h.fits rfl rfl rfl rfl rfl
  | released hnext hfirst =>
    have hkept := h.released hnow.1 hnext hfirst
    rw [bind_some, bind_some, hfirst, hnext]
    exact hkept

theorem kept_step {call : Call} (hstep : s.step call = some s') :
    s'.Kept config constantDelay := by
  cases call with
  | push packet nowNs => exact kept_push h hstep
  | pop nowNs => exact kept_pop h hstep

end

/-! ## Runs -/

theorem accepted_step {call : Call} (hstep : s.step call = some s') :
    ∀ a ∈ s'.accepted, a ∈ s.accepted ∨ call = .push a.data a.atNs := by
  intro a ha
  unfold step at hstep
  split_ifs at hstep
  cases call with
  | push packet nowNs =>
    have hpushed := s.buffer.pushed_push packet nowNs
    dsimp only at hstep
    generalize s.buffer.push packet nowNs = buffer at hstep hpushed
    obtain rfl := Option.some.inj hstep
    refine (List.mem_append.1 ha).imp_right fun hnew => ?_
    cases hpushed with
    | malformed | late | duplicate =>
      rw [filter_not_contains] at hnew
      cases hnew
    | taken _ _ _ habsent =>
      rw [filter_insert habsent] at hnew
      rw [List.mem_singleton.1 hnew]
  | pop nowNs =>
    obtain rfl := Option.some.inj hstep
    exact .inl ha

theorem clock_step {call : Call} (hstep : s.step call = some s') : s'.clock = call.nowNs := by
  unfold step at hstep
  split_ifs at hstep
  cases call <;> obtain rfl := Option.some.inj hstep <;> rfl

/-- In every sequence of calls, in either mode: the packets released and those in the buffer are in sequence,
and they are the packets taken, each once and as it was pushed. The counters agree with them. The first packet
is not below the baseline. The buffer releases exactly when its deadline is over, and not before. The missing
numbers are those of the holes up to the last packet, within a window of the depth of the buffer, which is one
at least. -/
theorem jitter_runs {calls : List Call} (hhold : config.maxHoldNs < 2 ^ 63)
    (hcalls : ∀ call ∈ calls, call.nowNs < 2 ^ 63)
    (hrun : Machine.run step (new config constantDelay) calls = some s) :
    ((s.released ++ s.buffered).Pairwise fun a b => a.1 < b.1) ∧
    (s.accepted.map fun a => (a.ext, a.data)).Perm (s.released ++ s.buffered) ∧
    (∀ a ∈ s.accepted, .push a.data a.atNs ∈ calls) ∧
    s.buffer.stats.received = s.released.length + s.buffer.packets.size ∧
    (s.released ≠ [] → ∃ first next, s.start = some first ∧ s.buffer.next = some next ∧
      next - first = s.released.length + s.buffer.stats.lost) ∧
    (∀ head headBuf, s.buffer.packets.first? = some (head, headBuf) → ∃ next, s.buffer.next = some next ∧ next ≤ head) ∧
    (∀ nowNs, s.clock ≤ nowNs → nowNs < 2 ^ 63 →
      ((s.buffer.pop nowNs).1.isSome = true ↔ s.buffer.nextDeadlineNs nowNs = some 0) ∧
      ∀ d, s.buffer.nextDeadlineNs nowNs = some d → 0 < d →
        (∀ t, nowNs ≤ t → t < nowNs + d → s.buffer.pop t = (none, s.buffer)) ∧
        (s.buffer.pop (nowNs + d)).1.isSome = true) ∧
    (∀ next last lastBuf, s.buffer.next = some next → s.buffer.packets.last? = some (last, lastBuf) →
      s.buffer.missingSeqs = ((List.range' next (min last (next + max config.maxDepth 1) - next)).filter
        fun ext => !s.buffer.packets.contains ext).map (· % 2 ^ 16)) ∧
    (s.buffer.packets.entries = [] → s.buffer.missingSeqs = []) := by
  have h : s.Kept config constantDelay :=
    Machine.run_keeps (fun _ _ _ _ hkept hstep => kept_step hkept hstep) hrun kept_new
  have hclock : s.clock < 2 ^ 63 := by
    refine Machine.run_keeps (P := fun t => t.clock < 2 ^ 63) ?_ hrun (Nat.two_pow_pos 63)
    intro t call hcall t' ht hstep
    rw [clock_step hstep]
    exact hcalls call hcall
  have hbuffered : s.buffered.Pairwise fun a b => a.1 < b.1 := List.pairwise_map.2 s.buffer.packets.sorted
  refine ⟨?_, h.accounted, ?_, h.received, fun hreleased => ?_, fun head headBuf hfirst => ?_,
    fun nowNs hafter hnow => ?_, fun next last lastBuf hnext hlast => ?_, fun hempty => ?_⟩
  · refine List.pairwise_append.2 ⟨h.ordered, hbuffered, fun r hr e he => ?_⟩
    obtain ⟨next, hnext, hlt⟩ := h.below r hr
    obtain ⟨e, hmem, rfl⟩ := List.mem_map.1 he
    obtain ⟨next', hnext', hle⟩ := h.floor e hmem
    obtain rfl := Option.some.inj (hnext.symm.trans hnext')
    exact Nat.lt_of_lt_of_le hlt hle
  · refine Machine.run_keeps (P := fun t => ∀ a ∈ t.accepted, .push a.data a.atNs ∈ calls) ?_ hrun nofun
    intro t call hcall t' ht hstep a ha
    rcases accepted_step hstep a ha with hold | rfl
    · exact ht a hold
    · exact hcall
  · have hany : s.buffer.releasedAny = true := by
      by_contra hnone
      exact hreleased (h.untouched (Bool.not_eq_true _ ▸ hnone)).1
    obtain ⟨first, next, hstart, hnext, hcount⟩ := h.counted hany
    exact ⟨first, next, hstart, hnext, by omega⟩
  · exact h.floor _ (mem_of_first? hfirst)
  · have hdue : ∀ t, nowNs ≤ t → ∀ e ∈ s.buffer.packets.entries,
        e.2.arrivalNs ≤ t ∧ e.2.arrivalNs + s.buffer.config.maxHoldNs < 2 ^ 64 := by
      intro t ht e he
      have harrival := h.arrival e he
      rw [h.config]
      omega
    refine ⟨RtpJitterBuffer.pop_isSome_iff (hdue nowNs (Nat.le_refl _)), fun d hd hpos => ⟨fun t ht hlt => ?_, ?_⟩⟩
    · refine RtpJitterBuffer.pop_eq_of_none (Bool.eq_false_iff.2 fun hsome => ?_)
      have hzero := (RtpJitterBuffer.pop_isSome_iff (hdue t ht)).1 hsome
      rw [RtpJitterBuffer.nextDeadlineNs_later hd hpos, some_inj] at hzero
      omega
    · refine (RtpJitterBuffer.pop_isSome_iff (hdue _ (Nat.le_add_right _ _))).2 ?_
      rw [RtpJitterBuffer.nextDeadlineNs_later hd hpos, Nat.sub_self]
  · rw [← h.config]
    exact RtpJitterBuffer.missingSeqs_eq hnext hlast (h.key _ (mem_of_last? hlast))
  · unfold RtpJitterBuffer.missingSeqs SortedMap.last?
    rw [hempty]
    rcases s.buffer.next with _ | next <;> rfl

/-- A packet with a sequence number and no payload. -/
def packetOf (seq : UInt8) : List UInt8 := [0x80, 96, 0, seq, 0, 0, 0, 0, 0, 0, 0, 0]

/-- Packets out of order, with a gap that is declared lost. -/
def gap : List Call := [.push (packetOf 3) 0, .push (packetOf 1) 10, .pop 10, .pop 20, .pop 50]

theorem jitter_runs_gap : ∃ s, Machine.run step (new ⟨50, 64⟩ false) gap = some s ∧
      s.released.map Prod.fst = [65537, 65539] ∧ s.buffer.stats.lost = 1 ∧
      (s.released ++ s.buffered).Pairwise (fun a b => a.1 < b.1) := by
  have hend : (Machine.run step (new ⟨50, 64⟩ false) gap).map
      (fun s => (s.released.map Prod.fst, s.buffer.stats.lost)) = some ([65537, 65539], 1) := by decide
  obtain ⟨s, hrun, hs⟩ := Option.map_eq_some_iff.1 hend
  obtain ⟨hreleased, hlost⟩ := Prod.mk.inj hs
  exact ⟨s, hrun, hreleased, hlost, (jitter_runs (by decide) (by decide) hrun).1⟩

/-- With a depth of zero the window is still one number wide. -/
theorem window_of_depth_zero :
    ∃ s, Machine.run step (new ⟨50, 0⟩ false) [.push (packetOf 0) 0, .pop 0, .push (packetOf 5) 0] = some s ∧
      s.buffer.next = some 65537 ∧ s.buffer.packets.last?.map Prod.fst = some 65541 ∧
      s.buffer.missingSeqs = [1] ∧
      s.buffer.missingSeqs ≠ ((List.range' 65537 (min 65541 (65537 + s.buffer.config.maxDepth) - 65537)).filter
        fun ext => !s.buffer.packets.contains ext).map (· % 2 ^ 16) := by
  have hend : (Machine.run step (new ⟨50, 0⟩ false) [.push (packetOf 0) 0, .pop 0, .push (packetOf 5) 0]).map
      (fun s => (s.buffer.next, s.buffer.packets.last?.map Prod.fst, s.buffer.missingSeqs, s.buffer.config)) =
      some (some 65537, some 65541, [1], ⟨50, 0⟩) := by decide
  obtain ⟨s, hrun, hs⟩ := Option.map_eq_some_iff.1 hend
  obtain ⟨hnext, hs⟩ := Prod.mk.inj hs
  obtain ⟨hlast, hs⟩ := Prod.mk.inj hs
  obtain ⟨hmissing, hconfig⟩ := Prod.mk.inj hs
  refine ⟨s, hrun, hnext, hlast, hmissing, ?_⟩
  rw [hmissing, hconfig]
  simp

end Session

end Glass2Glass.Rtp
