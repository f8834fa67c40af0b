import Glass2Glass.Rtp.Jitter

/-!
# How long the jitter buffer holds a packet

The hold time is counted from the arrival of whichever packet is first. In constant-delay mode a packet that
fills a gap takes the arrival time of the packet after it, so the first packet is always the oldest, and no
packet is held longer than the hold time. In the default mode a packet that arrives behind a gap, in front of
one that was there before, starts the hold time again for both (`younger_head_delays`). As long as that does
not happen, the bound holds in this mode too (`latency_runs`).
-/

namespace Glass2Glass.Rtp

open SortedMap

namespace RtpJitterBuffer

/-- In the default mode, a push puts no packet directly behind a gap and in front of one that arrived earlier:
neither the packet itself, nor the packet at the baseline when the baseline moves down. -/
def inTurn (b : RtpJitterBuffer) (packet : List UInt8) (nowNs : Nat) : Bool :=
  let ext := (b.sequenceExtender.extend (sequenceOf packet)).1
  b.constantDelay || decide (packet.length < rtpHeaderLen) || b.next.all fun next =>
    if next < ext then
      b.packets.contains ext || b.packets.contains (ext - 1) ||
        b.packets.entries.all fun later => decide (ext < later.1 → nowNs ≤ later.2.arrivalNs)
    else
      b.releasedAny || decide (next ≤ ext + 1) || (b.packets.get? next).all fun first =>
        b.packets.entries.all fun later => decide (next < later.1 → first.arrivalNs ≤ later.2.arrivalNs)

/-- A packet directly behind a gap arrived no later than those after it. -/
def Orderly (b : RtpJitterBuffer) : Prop :=
  ∀ p ∈ b.packets.entries, ∀ q ∈ b.packets.entries, p.1 < q.1 → b.next ≠ some p.1 →
    b.packets.contains (p.1 - 1) = false → p.2.arrivalNs ≤ q.2.arrivalNs

/-- The packets arrived in their order, as far as their stamps say. -/
def Monotone (b : RtpJitterBuffer) : Prop :=
  ∀ p ∈ b.packets.entries, ∀ q ∈ b.packets.entries, p.1 < q.1 → p.2.arrivalNs ≤ q.2.arrivalNs

variable {b : RtpJitterBuffer} {packet : List UInt8} {nowNs ext next reordered : Nat}
  {sequenceExtender : RtpSequenceExtender}

theorem stamp_of_default (h : b.constantDelay = false) (ext nowNs : Nat) : b.stamp ext nowNs = nowNs := by
  unfold stamp
  rw [h]
  split <;> rfl

theorem Orderly.taken (h : b.Orderly) (hmode : b.constantDelay = false)
    (hpast : ∀ e ∈ b.packets.entries, e.2.arrivalNs ≤ nowNs) (hturn : b.inTurn packet nowNs = true)
    (hlength : ¬ packet.length < rtpHeaderLen)
    (hext : b.sequenceExtender.extend (sequenceOf packet) = (ext, sequenceExtender)) (hnext : b.Baseline ext next)
    (habsent : b.packets.contains ext = false) : Orderly { b with
      sequenceExtender
      next := some next
      packets := b.packets.insert ext { data := packet, arrivalNs := b.stamp ext nowNs }
      stats := { b.stats with received := b.stats.received + 1, reordered } } := by
  intro p hp q hq hlt hbase hhole
  have hhole' : b.packets.contains (p.1 - 1) = false ∧ p.1 - 1 ≠ ext := by
    refine ⟨Bool.eq_false_iff.2 fun hmem => ?_, fun heq => ?_⟩
    · obtain ⟨v, hv⟩ := SortedMap.contains_iff.1 hmem
      rw [Bool.eq_false_iff] at hhole
      refine hhole (SortedMap.contains_iff.2 ?_)
      rcases eq_or_ne (p.1 - 1) ext with heq | hne
      · exact ⟨_, SortedMap.mem_insert.2 (Or.inl (by rw [heq]))⟩
      · exact ⟨v, SortedMap.mem_insert.2 (Or.inr ⟨hne, hv⟩)⟩
    · rw [Bool.eq_false_iff] at hhole
      exact hhole (SortedMap.contains_iff.2 ⟨_, SortedMap.mem_insert.2 (Or.inl (by rw [heq]))⟩)
  unfold inTurn at hturn
  rw [hext, hmode, Bool.false_or, decide_eq_false hlength, Bool.false_or] at hturn
  rcases SortedMap.mem_insert.1 hq with rfl | ⟨-, hqold⟩
  · -- The new packet is the last to arrive.
    rcases SortedMap.mem_insert.1 hp with rfl | ⟨-, hpold⟩
    · exact absurd hlt (Nat.lt_irrefl _)
    · rw [stamp_of_default hmode]
      exact hpast p hpold
  · rcases SortedMap.mem_insert.1 hp with rfl | ⟨-, hpold⟩
    · -- It is behind a gap, so it is in front of no older one.
      rw [stamp_of_default hmode]
      rcases hnext with ⟨-, rfl⟩ | ⟨old, hold, ⟨hle, rfl⟩ | ⟨-, -, rfl⟩⟩
      · exact absurd rfl hbase
      · have hne : next ≠ ext := fun heq => hbase (by rw [heq])
        rw [hold, Option.all_some, if_pos (Nat.lt_of_le_of_ne hle hne), habsent, hhole'.1, Bool.false_or,
          Bool.false_or, List.all_eq_true] at hturn
        exact of_decide_eq_true (hturn q hqold) hlt
      · exact absurd rfl hbase
    · rcases eq_or_ne b.next (some p.1) with hold | hne
      · -- The baseline moved down and left a gap in front of the packet that was at it.
        rcases hnext with ⟨hnone, -⟩ | ⟨old, hold', ⟨-, rfl⟩ | ⟨hlow, hreleased, rfl⟩⟩
        · rw [hold] at hnone
          cases hnone
        · rw [hold] at hold'
          exact absurd hold'.symm hbase
        · obtain rfl := Option.some.inj (hold.symm.trans hold')
          have hgap : ¬ p.1 ≤ next + 1 := by
            have := hhole'.2
            omega
          have hget : b.packets.get? p.1 = some p.2 := SortedMap.get?_eq_some.2 hpold
          rw [hold, Option.all_some, if_neg (Nat.not_lt.2 (Nat.le_of_lt hlow)), hreleased, decide_eq_false hgap,
            Bool.false_or, Bool.false_or, hget, Option.all_some, List.all_eq_true] at hturn
          exact of_decide_eq_true (hturn q hqold) hlt
      · exact h p hpold q hqold hlt hne hhole'.1

theorem Monotone.taken (h : b.Monotone) (hmode : b.constantDelay = true)
    (hpast : ∀ e ∈ b.packets.entries, e.2.arrivalNs ≤ nowNs) : Monotone { b with
      sequenceExtender
      next := some next
      packets := b.packets.insert ext { data := packet, arrivalNs := b.stamp ext nowNs }
      stats := { b.stats with received := b.stats.received + 1, reordered } } := by
  intro p hp q hq hlt
  have hstamp : ∀ f, b.packets.above? ext = some f → b.stamp ext nowNs = min f.2.arrivalNs nowNs := by
    intro f hf
    unfold stamp
    rw [hf, hmode]
    rfl
  rcases SortedMap.mem_insert.1 hp with rfl | ⟨-, hp⟩
  · rcases SortedMap.mem_insert.1 hq with rfl | ⟨-, hq⟩
    · exact absurd hlt (Nat.lt_irrefl _)
    · -- It takes the slot of the packet after it, which is no later than any behind that.
      rcases habove : b.packets.above? ext with _ | f
      · exact absurd (SortedMap.above?_eq_none habove hq) (Nat.not_le.2 hlt)
      · dsimp only
        rw [hstamp f habove]
        refine Nat.le_trans (Nat.min_le_left _ _) ?_
        rcases Nat.eq_or_lt_of_le (le_of_above? habove hq hlt) with heq | hlater
        · rw [eq_of_key_eq (mem_of_above? habove) hq heq]
        · exact h f (mem_of_above? habove) q hq hlater
  · rcases SortedMap.mem_insert.1 hq with rfl | ⟨-, hq⟩
    · rcases habove : b.packets.above? ext with _ | f
      · unfold stamp
        rw [habove]
        exact hpast p hp
      · dsimp only
        rw [hstamp f habove]
        refine Nat.le_min.2 ⟨?_, hpast p hp⟩
        exact h p hp f (mem_of_above? habove) (Nat.lt_trans hlt (lt_of_above? habove))
    · exact h p hp q hq hlt

theorem Orderly.released {head lost : Nat} {headBuf : Buffered} (h : b.Orderly)
    (hfloor : ∀ e ∈ b.packets.entries, ∃ next, b.next = some next ∧ next ≤ e.1)
    (hfirst : b.packets.first? = some (head, headBuf)) : Orderly { b with
      stats.lost := lost
      packets := b.packets.erase head
      next := some (head + 1)
      releasedAny := true } := by
  intro p hp q hq hlt hbase hhole
  obtain ⟨hne, hp⟩ := SortedMap.mem_erase.1 hp
  obtain ⟨-, hq⟩ := SortedMap.mem_erase.1 hq
  have hbehind : head < p.1 := Nat.lt_of_le_of_ne (le_of_first? hfirst hp) (Ne.symm hne)
  refine h p hp q hq hlt (fun heq => ?_) (Bool.eq_false_iff.2 fun hmem => ?_)
  · obtain ⟨next, hnext, hle⟩ := hfloor _ (mem_of_first? hfirst)
    obtain rfl := Option.some.inj (heq.symm.trans hnext)
    exact absurd hbehind (Nat.not_lt.2 hle)
  · -- What is directly in front of it was not released.
    obtain ⟨v, hv⟩ := SortedMap.contains_iff.1 hmem
    have hkept : p.1 - 1 ≠ head := by
      intro heq
      refine hbase (congrArg some ?_)
      omega
    rw [SortedMap.contains_iff.2 ⟨v, SortedMap.mem_erase.2 ⟨hkept, hv⟩⟩] at hhole
    cases hhole

theorem Monotone.released {head lost : Nat} (h : b.Monotone) : Monotone { b with
      stats.lost := lost
      packets := b.packets.erase head
      next := some (head + 1)
      releasedAny := true } :=
  fun p hp q hq => h p (SortedMap.mem_erase.1 hp).2 q (SortedMap.mem_erase.1 hq).2

end RtpJitterBuffer

namespace Session

variable {config : JitterConfig} {constantDelay : Bool} {s s' : Session}

/-- The condition on a push; a pop has none. -/
def inTurn (s : Session) : Call → Bool
  | .push packet nowNs => s.buffer.inTurn packet nowNs
  | .pop _ => true

theorem Kept.fresh {ext next : Nat} (h : s.Kept config constantDelay) (hnext : s.buffer.Baseline ext next)
    (habsent : s.buffer.packets.contains ext = false) : ∀ a ∈ s.accepted, a.ext ≠ ext := by
  rintro a ha rfl
  have hmem : (a.ext, a.data) ∈ s.released ++ s.buffered := h.accounted.subset (List.mem_map_of_mem ha)
  rcases List.mem_append.1 hmem with hmem | hmem
  · obtain ⟨old, hold, hlt⟩ := h.below _ hmem
    rcases hnext with ⟨hnone, -⟩ | ⟨old', hold', ⟨hle, -⟩ | ⟨-, hreleased, -⟩⟩
    · rw [hold] at hnone
      cases hnone
    · obtain rfl := Option.some.inj (hold.symm.trans hold')
      exact absurd hlt (Nat.not_lt.2 hle)
    · rw [(h.untouched hreleased).1] at hmem
      cases hmem
  · obtain ⟨e, he, heq⟩ := List.mem_map.1 hmem
    rw [SortedMap.contains_iff.2 ⟨e.2, (Prod.mk.inj heq).1 ▸ he⟩] at habsent
    cases habsent

/-- What holds between two calls when all pushes are in turn. -/
structure Prompt (config : JitterConfig) (constantDelay : Bool) (s : Session) : Prop where
  kept : s.Kept config constantDelay
  orderly : constantDelay = false → s.buffer.Orderly
  monotone : constantDelay = true → s.buffer.Monotone
  /-- No packet is stamped with a time after its arrival. -/
  stamped : ∀ a ∈ s.accepted, ∀ e ∈ s.buffer.packets.entries, a.ext = e.1 → e.2.arrivalNs ≤ a.atNs

theorem prompt_new : (new config constantDelay).Prompt config constantDelay :=
  ⟨kept_new, fun _ => nofun, fun _ => nofun, nofun⟩

theorem prompt_push {packet : List UInt8} {nowNs : Nat} (h : s.Prompt config constantDelay)
    (hturn : s.buffer.inTurn packet nowNs = true) (hstep : s.step (.push packet nowNs) = some s') :
    s'.Prompt config constantDelay := by
  have hkept := kept_push h.kept hstep
  unfold step at hstep
  split_ifs at hstep with hnow
  have hpushed := s.buffer.pushed_push packet nowNs
  dsimp only at hstep
  generalize s.buffer.push packet nowNs = buffer at hstep hpushed
  obtain rfl := Option.some.inj hstep
  have hpast : ∀ e ∈ s.buffer.packets.entries, e.2.arrivalNs ≤ nowNs :=
    fun e he => Nat.le_trans (h.kept.arrival e he) hnow.1
  cases hpushed with
  | malformed | late =>
    refine ⟨hkept, h.orderly, h.monotone, fun a ha => h.stamped a ?_⟩
    rw [filter_not_contains] at ha
    simpa using ha
  | @duplicate ext next _ _ hnext hpresent =>
    obtain ⟨v, hmem⟩ := SortedMap.contains_iff.1 hpresent
    have hsame := h.kept.baseline_of_mem hmem hnext
    refine ⟨hkept, fun hmode => ?_, h.monotone, fun a ha => h.stamped a ?_⟩
    · have horderly := h.orderly hmode
      unfold RtpJitterBuffer.Orderly at horderly ⊢
      rw [← hsame] at horderly
      exact horderly
    · rw [filter_not_contains] at ha
      simpa using ha
  | taken hlength hext hnext habsent =>
    refine ⟨hkept, fun hmode => ?_, fun hmode => ?_, fun a ha e he heq => ?_⟩
    · exact (h.orderly hmode).taken (h.kept.constantDelay.trans hmode) hpast hturn hlength hext hnext habsent
    · exact (h.monotone hmode).taken (h.kept.constantDelay.trans hmode) hpast
    · have hfresh := h.kept.fresh hnext habsent
      rw [filter_insert habsent] at ha
      rcases List.mem_append.1 ha with ha | ha <;> rcases SortedMap.mem_insert.1 he with rfl | ⟨hne, he⟩
      · exact absurd heq (hfresh a ha)
      · exact h.stamped a ha e he heq
      · rw [List.mem_singleton.1 ha]
        exact s.buffer.stamp_le _ _
      · rw [List.mem_singleton.1 ha] at heq
        exact absurd heq.symm hne

theorem prompt_pop {nowNs : Nat} (h : s.Prompt config constantDelay) (hstep : s.step (.pop nowNs) = some s') :
    s'.Prompt config constantDelay := by
  have hkept := kept_pop h.kept hstep
  have hpopped := s.buffer.popped_pop nowNs
  unfold step at hstep
  split_ifs at hstep with hnow
  dsimp only at hstep
  generalize s.buffer.pop nowNs = result at hstep hpopped
  obtain rfl := Option.some.inj hstep
  cases hpopped with
  | empty | waits => exact ⟨hkept, h.orderly, h.monotone, h.stamped⟩
  | released hnext hfirst =>
    refine ⟨hkept, fun hmode => (h.orderly hmode).released h.kept.floor hfirst, fun hmode => (h.monotone hmode).released,
      fun a ha e he => h.stamped a ha e (SortedMap.mem_erase.1 he).2⟩

/-- A packet that is held is no older than the first one, and that one is not overdue. -/
theorem Prompt.held {nowNs : Nat} (h : s.Prompt config constantDelay) (hdrained : (s.buffer.pop nowNs).1 = none)
    {a : Arrival} (ha : a ∈ s.accepted) {e : Nat × Buffered} (he : e ∈ s.buffer.packets.entries) (heq : a.ext = e.1) :
    nowNs - a.atNs < config.maxHoldNs := by
  have hpopped := s.buffer.popped_pop nowNs
  generalize s.buffer.pop nowNs = result at hdrained hpopped
  have hstamped := h.stamped a ha e he heq
  cases hpopped with
  | empty hempty =>
    rcases hempty with hnone | hnone
    · obtain ⟨next, hnext, -⟩ := h.kept.floor e he
      rw [hnone] at hnext
      cases hnext
    · rw [SortedMap.first?_eq_none.1 hnone] at he
      cases he
  | released => cases hdrained
  | @waits next head headBuf hnext hfirst hready =>
    unfold RtpJitterBuffer.ready at hready
    rw [Bool.or_eq_false_iff, Bool.or_eq_false_iff, decide_eq_false_iff_not, h.kept.config, h.kept.constantDelay]
      at hready
    obtain ⟨⟨hearly, hturn⟩, -⟩ := hready
    have hhead := mem_of_first? hfirst
    have holder : headBuf.arrivalNs ≤ e.2.arrivalNs := by
      rcases Nat.eq_or_lt_of_le (le_of_first? hfirst he) with hsame | hbehind
      · rw [← eq_of_key_eq hhead he hsame]
      · rcases hmode : constantDelay with _ | _
        · -- The first packet is not the next one, so it is behind a gap.
          rw [hmode, Bool.not_false, Bool.and_true, beq_eq_false_iff_ne] at hturn
          refine h.orderly hmode _ hhead e he hbehind (fun hbase => ?_) (Bool.eq_false_iff.2 fun hmem => ?_)
          · rw [hnext, Option.some_inj] at hbase
            exact hturn hbase.symm
          · obtain ⟨v, hv⟩ := SortedMap.contains_iff.1 hmem
            obtain ⟨next', hnext', hle⟩ := h.kept.floor _ hhead
            obtain rfl := Option.some.inj (hnext.symm.trans hnext')
            have hmin := le_of_first? hfirst hv
            omega
        · exact h.monotone hmode _ hhead e he hbehind
    omega

/-- In every sequence of calls, in constant-delay mode, and in the default mode as long as no push puts a packet
directly behind a gap and in front of one that arrived earlier: once a pop releases nothing more, no packet in
the buffer was pushed a hold time ago or longer. -/
theorem latency_runs {calls : List Call} (hrun : Machine.run step (new config constantDelay) calls = some s)
    (hturn : Machine.Along step (fun s call => s.inTurn call = true) (new config constantDelay) calls) {nowNs : Nat}
    (hdrained : (s.buffer.pop nowNs).1 = none) :
    ∀ a ∈ s.accepted, ∀ e ∈ s.buffer.packets.entries, a.ext = e.1 → nowNs - a.atNs < config.maxHoldNs := by
  have h : s.Prompt config constantDelay := by
    refine Machine.run_keeps_along ?_ hrun hturn prompt_new
    intro t call t' ht hcall hstep
    cases call with
    | push packet nowNs => exact prompt_push ht hcall hstep
    | pop nowNs => exact prompt_pop ht hstep
  exact fun a ha e he heq => h.held hdrained ha he heq

/-- Packets behind a gap, each after the one before it. -/
def queued : List Call := [.push (packetOf 1) 0, .pop 0, .push (packetOf 3) 10, .push (packetOf 4) 20, .pop 40]

theorem latency_runs_queued :
    ∃ s, Machine.run step (new ⟨50, 64⟩ false) queued = some s ∧ s.buffered.map Prod.fst = [65539, 65540] ∧
      ∀ a ∈ s.accepted, ∀ e ∈ s.buffer.packets.entries, a.ext = e.1 → 40 - a.atNs < 50 := by
  have hend : (Machine.run step (new ⟨50, 64⟩ false) queued).map
      (fun s => (s.buffered.map Prod.fst, (s.buffer.pop 40).1)) = some ([65539, 65540], none) := by decide
  obtain ⟨s, hrun, hs⟩ := Option.map_eq_some_iff.1 hend
  obtain ⟨hbuffered, hdrained⟩ := Prod.mk.inj hs
  have hturn : Machine.check step inTurn (new ⟨50, 64⟩ false) queued = true := by decide
  exact ⟨s, hrun, hbuffered, latency_runs hrun (Machine.along_of_check hturn) hdrained⟩

/-- A packet arrives behind a gap, in front of one that was there before. The older one is held longer than the
hold time. -/
theorem younger_head_delays : ∃ s, Machine.run step (new ⟨50, 64⟩ false)
        [.push (packetOf 1) 0, .pop 0, .push (packetOf 5) 0, .push (packetOf 4) 40, .pop 60] = some s ∧
      (s.buffer.pop 60).1 = none ∧
      ∃ a ∈ s.accepted, ∃ e ∈ s.buffer.packets.entries, a.ext = e.1 ∧ 50 ≤ 60 - a.atNs := by
  have hend : (Machine.run step (new ⟨50, 64⟩ false)
        [.push (packetOf 1) 0, .pop 0, .push (packetOf 5) 0, .push (packetOf 4) 40, .pop 60]).map
      (fun s => ((s.buffer.pop 60).1, s.accepted.any fun a => s.buffer.packets.entries.any fun e =>
        a.ext = e.1 ∧ 50 ≤ 60 - a.atNs)) = some (none, true) := by decide
  obtain ⟨s, hrun, hs⟩ := Option.map_eq_some_iff.1 hend
  obtain ⟨hdrained, hlate⟩ := Prod.mk.inj hs
  refine ⟨s, hrun, hdrained, ?_⟩
  simpa using hlate

end Session

end Glass2Glass.Rtp
