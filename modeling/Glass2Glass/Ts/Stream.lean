import Glass2Glass.Ts.Conformance
import Glass2Glass.Ts.Setup

/-!
# The packet stream of a run

A fresh muxer whose PIDs are apart writes a conformant packet stream, whatever the calls are. Padding ends, and at
a constant bitrate every clock reference is the clock of its byte, as far as 64 bits count it. The muxer does not
keep two users of a PID apart itself: splice information that had its PID before the streams were numbered anew
shares it with a stream.
-/

namespace Glass2Glass.Ts

open List

/-- A conformant packet stream: of 188-byte packets, with counters and clock references in order. At a constant
bitrate the references are those of `clock`, else they are the clocks of calls. -/
structure Conforms (m : TsMuxer) (calls : List AuCall) (clock : Nat → Nat) (pkts : List (List UInt8)) : Prop where
  packets : ∀ pkt ∈ pkts, pkt.length = tsPacketLen ∧ pkt.head? = some syncByte
  counters : ∀ pid, pid ≠ pidNull →
    ((pkts.filter fun pkt => packetPid pkt = pid ∧ carriesPayload pkt).map packetContinuityCounter).IsChain
      fun a b => b = (a + 1) % continuityCounterModulus
  repeats : ∀ before pkt behind last, pkts = before ++ pkt :: behind → packetPid pkt ≠ pidNull →
    carriesPayload pkt = false →
    (before.filter fun q => packetPid q = packetPid pkt ∧ carriesPayload q).getLast? = some last →
    packetContinuityCounter pkt = packetContinuityCounter last
  forward : ∀ i < m.programs.length, ∃ clocks : List Nat, clocks.Pairwise (· ≤ ·) ∧
    clocks.map (· % pcrRange) = (pkts.filter fun pkt => packetPid pkt = m.pcrPid i).filterMap packetPcr27mhz ∧
    (m.constantBitrate = false → ∀ v ∈ clocks, ∃ call ∈ calls, call.inputClock27mhz = some v)
  onClock : m.constantBitrate = true → ∀ (i : Nat) (pkt : List UInt8) (v : Nat), pkts[i]? = some pkt →
    packetPcr27mhz pkt = some v → v = clock (tsPacketLen * i + Writing.pcrByteOffset) % pcrRange

def startClock (calls : List AuCall) : Nat := (calls.head?.bind AuCall.inputClock27mhz).getD 0

def clockAt (start bitrate bytes : Nat) : Nat := start + bytes * 8 * 27000000 / bitrate

/-! ## From packets to their bytes -/

namespace Watch

variable {R : Nat → Nat → Prop} {s : Watch} {ps : List TsPacket}

theorem filter_bytes (h : s.AdmitsAll R ps) {f : List UInt8 → Bool} {g : TsPacket → Bool}
    (hfg : ∀ p : TsPacket, p.Fits → f p.bytes = g p) : (ps.map TsPacket.bytes).filter f = (ps.filter g).map TsPacket.bytes := by
  rw [filter_map]
  exact congrArg _ (filter_congr fun p hp => hfg p (h.fits hp))

theorem payload_bytes (p : TsPacket) : carriesPayload p.bytes = true ↔ p.payload ≠ [] := by
  rw [p.carriesPayload_bytes, Bool.not_eq_true', isEmpty_eq_false_iff]

theorem carrying_bytes (h : s.AdmitsAll R ps) (pid : Nat) :
    ((ps.map TsPacket.bytes).filter fun pkt => packetPid pkt = pid ∧ carriesPayload pkt) =
      (carrying pid ps).map TsPacket.bytes :=
  filter_bytes h fun p hp => by
    rw [decide_eq_decide, p.packetPid_bytes hp, payload_bytes]

theorem counters_bytes (h : s.AdmitsAll R ps) {pid : Nat} (hpid : pid ≠ pidNull) :
    (((ps.map TsPacket.bytes).filter fun pkt => packetPid pkt = pid ∧ carriesPayload pkt).map
      packetContinuityCounter).IsChain fun a b => b = (a + 1) % continuityCounterModulus := by
  have hcc : (carrying pid ps).map (packetContinuityCounter ∘ TsPacket.bytes) = (carrying pid ps).map TsPacket.cc :=
    map_congr_left fun p hp => p.packetContinuityCounter_bytes (h.fits (List.mem_filter.1 hp).1)
  rw [carrying_bytes h pid, map_map, hcc]
  exact (h.counters hpid).1

theorem repeats_bytes (h : s.AdmitsAll R ps) {before behind : List (List UInt8)} {pkt last : List UInt8}
    (hsplit : ps.map TsPacket.bytes = before ++ pkt :: behind) (hpid : packetPid pkt ≠ pidNull)
    (hempty : carriesPayload pkt = false)
    (hlast : (before.filter fun q => packetPid q = packetPid pkt ∧ carriesPayload q).getLast? = some last) :
    packetContinuityCounter pkt = packetContinuityCounter last := by
  obtain ⟨front, rear, rfl, hfront, hrear⟩ := List.map_eq_append_iff.1 hsplit
  obtain ⟨p, qs, rfl, rfl, -⟩ := List.map_eq_cons_iff.1 hrear
  have hfit : p.Fits := h.fits (mem_append_right front mem_cons_self)
  have hnil : p.payload = [] := by
    rw [p.carriesPayload_bytes, Bool.not_eq_false', List.isEmpty_iff] at hempty
    exact hempty
  rw [p.packetPid_bytes hfit] at hpid hlast
  rw [← hfront, carrying_bytes (admitsAll_append.1 h).1, List.getLast?_map] at hlast
  obtain ⟨q, hq, rfl⟩ := Option.map_eq_some_iff.1 hlast
  have hqfit : q.Fits :=
    h.fits (mem_append_left _ (List.mem_filter.1 (mem_of_getLast? hq)).1)
  rw [p.packetContinuityCounter_bytes hfit, q.packetContinuityCounter_bytes hqfit]
  exact h.repeats hpid hnil hq

theorem pcr_bytes {p : TsPacket} (h : p.Fits) : packetPcr27mhz p.bytes = p.adaptation.pcr27mhz.map (· % pcrRange) := by
  rcases hpcr : p.adaptation.pcr27mhz with _ | v
  · exact p.packetPcr27mhz_bytes_none h hpcr
  · exact p.packetPcr27mhz_bytes h hpcr

theorem clocks_bytes (h : s.AdmitsAll R ps) (pid : Nat) : (clocks pid ps).map (· % pcrRange) =
      ((ps.map TsPacket.bytes).filter fun pkt => packetPid pkt = pid).filterMap packetPcr27mhz := by
  have hfilter : ((ps.map TsPacket.bytes).filter fun pkt => packetPid pkt = pid) =
      (ps.filter fun p => p.pid = pid).map TsPacket.bytes :=
    filter_bytes h fun p hp => by rw [p.packetPid_bytes hp]
  rw [hfilter, filterMap_map, clocks, map_filterMap]
  exact filterMap_congr fun p hp => (pcr_bytes (h.fits (List.mem_filter.1 hp).1)).symm

theorem onClock_bytes (h : s.AdmitsAll R ps) {i v : Nat} {pkt : List UInt8}
    (hpkt : (ps.map TsPacket.bytes)[i]? = some pkt) (hv : packetPcr27mhz pkt = some v) :
    ∃ u, R (s.pos + tsPacketLen * i + Writing.pcrByteOffset) u ∧ v = u % pcrRange := by
  rw [List.getElem?_map] at hpkt
  obtain ⟨p, hp, rfl⟩ := Option.map_eq_some_iff.1 hpkt
  rw [pcr_bytes (h.fits (mem_of_getElem? hp))] at hv
  obtain ⟨u, hu, rfl⟩ := Option.map_eq_some_iff.1 hv
  exact ⟨u, h.onClock hp hu, rfl⟩

end Watch

/-! ## Runs -/

namespace TsMuxer

variable {R : Nat → Nat → Prop} {m : TsMuxer}

/-- The calls of a run pad to an end, and write packets that are admitted one after the other. -/
theorem pushAll_spec {calls : List AuCall} {m : TsMuxer} {s : Watch} (hvalid : m.layout.Valid)
    (hstreams : ∀ call ∈ calls, call.stream < m.streams.length)
    (hstart : ∀ start, m.byteClockStart27mhz = some start → start ≤ u64Max)
    (hok : m.constantBitrate = false → ∀ call ∈ calls, ∀ v, call.inputClock27mhz = some v → ∀ bytes, R bytes v)
    (hs : ∀ call ∈ calls.head?, Tracks R ⟨m.started call.inputClock27mhz, []⟩ s) :
    ∃ outs m', m.pushAll calls = some (outs, m') ∧ s.AdmitsAll R outs.flatten := by
  induction calls generalizing m s with
  | nil => exact ⟨[], m, rfl, trivial⟩
  | cons call calls ih =>
    obtain ⟨out, m', hpush, hlayout, hclock, hrun⟩ := pushAuOn_spec hvalid (hstreams call mem_cons_self) hstart
      fun hvbr => hok hvbr call mem_cons_self
    obtain ⟨hadmits, htracks⟩ := hrun s (hs call rfl)
    have hcbr : m'.constantBitrate = m.constantBitrate := constantBitrate_eq hlayout
    have hstarted : ∀ clock, m'.started clock = m' := started_of_start fun h => by
      rw [hclock, started, if_pos (hcbr ▸ h)]
      exact Option.some_ne_none _
    have hstart' : ∀ start, m'.byteClockStart27mhz = some start → start ≤ u64Max := fun start h => by
      rw [hclock] at h
      unfold started at h
      split_ifs at h
      · obtain rfl := Option.some.inj h
        rcases hsome : m.byteClockStart27mhz with _ | v
        · rcases hinput : call.inputClock27mhz with _ | v
          · exact Nat.zero_le _
          · exact inputClock_le call hinput
        · exact hstart v hsome
      · exact hstart start h
    obtain ⟨outs, m'', hpushAll, hadmitsAll⟩ := ih (hlayout ▸ hvalid)
      (fun c hc => by rw [length_streams_eq hlayout]; exact hstreams c (mem_cons_of_mem _ hc)) hstart'
      (fun hvbr c hc => hok (hcbr ▸ hvbr) c (mem_cons_of_mem _ hc))
      (fun c _ => (hstarted c.inputClock27mhz).symm ▸ htracks)
    refine ⟨out :: outs, m'', ?_, ?_⟩
    · unfold pushAll
      rw [hpush, Option.bind_some]
      rw [hpushAll]
      rfl
    · rw [flatten_cons]
      exact Watch.admitsAll_append.2 ⟨hadmits, hadmitsAll⟩

/-- The watch before anything is written. -/
def watch : Watch := ⟨fun _ => 0, fun _ => none, 0⟩

theorem Fresh.tracks (h : m.Fresh) (hvalid : m.layout.Valid) (clock : Option Nat)
    (hok : m.constantBitrate = true → ∀ bytes, R bytes ((m.started clock).byteClockAt bytes)) :
    Tracks R ⟨m.started clock, []⟩ watch := by
  have hsame : (m.started clock).programs = m.programs ∧ (m.started clock).counters = m.counters ∧
      (m.started clock).bytesWritten = m.bytesWritten ∧ (m.started clock).constantBitrate = m.constantBitrate := by
    unfold started
    split_ifs <;> exact ⟨rfl, rfl, rfl, rfl⟩
  obtain ⟨hprograms, hcounters, hwritten, hcbr⟩ := hsame
  have hlast : ∀ i < (m.started clock).programs.length, ((m.started clock).program i).lastPcr27mhz = none := fun i hi =>
    h.lastPcr _ (hprograms ▸ mem_of_getElem? (program_eq hi))
  exact
    { valid := (m.started_layout clock).symm ▸ hvalid
      pos := (hwritten.trans h.written).symm
      cc := fun x hx => by
        have hzero : x.2 = 0 := h.counters x (hcounters ▸ hx)
        rw [hzero]
        exact ⟨by decide, rfl⟩
      pcr := fun _ _ _ => nofun
      clock := fun h => hok (hcbr ▸ h)
      noted := fun _ i hi last hnoted => absurd ((hlast i hi).symm.trans hnoted) nofun
      capped := fun i hi last hnoted => absurd ((hlast i hi).symm.trans hnoted) nofun }

theorem Fresh.byteClockAt (h : m.Fresh) (hcbr : m.constantBitrate = true) (clock : Option Nat) (bytes : Nat) :
    (m.started clock).byteClockAt bytes = min (clockAt (clock.getD 0) m.bitrate bytes) u64Max := by
  have hstarted : m.started clock = { m with byteClockStart27mhz := some (clock.getD 0) } := by
    unfold started
    rw [if_pos hcbr, h.start, Option.getD_none]
  rw [hstarted]
  unfold TsMuxer.byteClockAt saturatingAdd clockAt
  dsimp only
  rw [if_pos (by exact hcbr), Option.getD_some]
  omega

end TsMuxer

/-- A fresh muxer whose PIDs are apart writes a conformant packet stream, whatever the calls are: padding ends, and
at a constant bitrate every clock reference is the clock of its byte, as far as 64 bits count it. -/
theorem pushAll_conforms (m : TsMuxer) (calls : List AuCall) (hfresh : m.Fresh) (hvalid : m.layout.Valid)
    (hstreams : ∀ call ∈ calls, call.stream < m.streams.length) : ∃ outs m', m.pushAll calls = some (outs, m') ∧
      Conforms m calls (fun bytes => min (clockAt (startClock calls) m.bitrate bytes) u64Max)
        (outs.flatten.map TsPacket.bytes) := by
  have hclock : m.constantBitrate = true → ∀ call ∈ calls.head?, ∀ bytes,
      (m.started call.inputClock27mhz).byteClockAt bytes =
        min (clockAt (startClock calls) m.bitrate bytes) u64Max := fun hcbr call hcall bytes => by
    rw [hfresh.byteClockAt hcbr, startClock, hcall]
    rfl
  obtain ⟨outs, m', hpush, hadmits⟩ := TsMuxer.pushAll_spec (s := TsMuxer.watch) (R := fun bytes v =>
      (m.constantBitrate = true → v = min (clockAt (startClock calls) m.bitrate bytes) u64Max) ∧
        (m.constantBitrate = false → ∃ call ∈ calls, call.inputClock27mhz = some v))
    hvalid hstreams (fun start h => absurd (hfresh.start.symm.trans h) nofun)
    (fun hvbr call hcall v hv _ => ⟨fun hcbr => absurd (hvbr.symm.trans hcbr) nofun, fun _ => ⟨call, hcall, hv⟩⟩)
    (fun call hcall => hfresh.tracks hvalid _ fun hcbr bytes =>
      ⟨fun _ => hclock hcbr call hcall bytes, fun hvbr => absurd (hvbr.symm.trans hcbr) nofun⟩)
  refine ⟨outs, m', hpush, ?_⟩
  exact
    { packets := fun pkt hpkt => by
        obtain ⟨p, hp, rfl⟩ := List.mem_map.1 hpkt
        exact ⟨p.length_bytes (hadmits.fits hp), p.head_bytes⟩
      counters := fun pid hpid => Watch.counters_bytes hadmits hpid
      repeats := fun before pkt behind last => Watch.repeats_bytes hadmits
      forward := fun i _ => ⟨_, (hadmits.forward (m.pcrPid i)).1, Watch.clocks_bytes hadmits (m.pcrPid i),
        fun hvbr v hv => by
          unfold Watch.clocks at hv
          obtain ⟨p, hp, hpcr⟩ := List.mem_filterMap.1 hv
          obtain ⟨j, hj⟩ := mem_iff_getElem?.1 (List.mem_filter.1 hp).1
          exact (hadmits.onClock hj hpcr).2 hvbr⟩
      onClock := fun hcbr i pkt v hpkt hv => by
        obtain ⟨u, hu, rfl⟩ := Watch.onClock_bytes hadmits hpkt hv
        rw [hu.1 hcbr]
        exact congrArg (fun pos => min (clockAt (startClock calls) m.bitrate (pos + Writing.pcrByteOffset)) u64Max %
          pcrRange) (Nat.zero_add _) }

/-- A muxer of one stream, a keyframe to it. -/
theorem pushAll_conforms_single : ∃ outs m', TsMuxer.pushAll { TsMuxer.withPrograms [(1, 0x1B)] with bitrate := 1000000 }
      [⟨0, [1, 2, 3], some 0, none, true⟩] = some (outs, m') ∧
    Conforms { TsMuxer.withPrograms [(1, 0x1B)] with bitrate := 1000000 } [⟨0, [1, 2, 3], some 0, none, true⟩]
      (fun bytes => min (clockAt (startClock [⟨0, [1, 2, 3], some 0, none, true⟩]) 1000000 bytes) u64Max)
      (outs.flatten.map TsPacket.bytes) :=
  have hfresh := TsMuxer.withPrograms_fresh [(1, 0x1B)]
  have hvalid := @TsMuxer.withPrograms_valid [(1, 0x1B)] (by decide)
  pushAll_conforms { TsMuxer.withPrograms [(1, 0x1B)] with bitrate := 1000000 } _
    ⟨hfresh.counters, hfresh.lastPcr, hfresh.start, hfresh.written⟩
    ⟨hvalid.nodup, hvalid.range, hvalid.program, hvalid.pcr⟩ (by decide)

/-! ## What the calls alone do not give -/

/-- Splice information on the PID that the stream gets after it. -/
def sharedPid : Option TsMuxer :=
  ((TsMuxer.withPrograms [(1, 0x1B)]).addSpliceStream 0x200).bind fun m =>
    (m.setPidBases 0x200 0x1000).map fun m => { m with spliceNullInterval90khz := 9000 }

theorem sharedPid_counters : (sharedPid.bind fun m => (m.pushAll [⟨0, [1, 2, 3], some 0, none, true⟩]).map fun r =>
    (((r.1.flatten.map TsPacket.bytes).filter fun pkt => packetPid pkt = 0x200 ∧ carriesPayload pkt).map
      packetContinuityCounter)) = some [0, 0] := by
  decide +kernel

theorem capped_pcr : ((TsMuxer.pushAll { TsMuxer.withPrograms [(1, 0x1B)] with bitrate := 1000000 }
    [⟨0, [1, 2, 3], some (2 ^ 63), none, true⟩]).map fun r =>
      (r.1.flatten.map TsPacket.bytes)[2]?.bind packetPcr27mhz) = some (some (u64Max % pcrRange)) := by
  decide +kernel

/-- On a shared PID the counters do not go up by one, and past the last clock of 64 bits the references are not
those of the bitrate. -/
theorem not_conforms : (∃ m, sharedPid = some m ∧ ¬∃ outs m', m.pushAll [⟨0, [1, 2, 3], some 0, none, true⟩] =
      some (outs, m') ∧ Conforms m [⟨0, [1, 2, 3], some 0, none, true⟩]
        (clockAt (startClock [⟨0, [1, 2, 3], some 0, none, true⟩]) m.bitrate) (outs.flatten.map TsPacket.bytes)) ∧
    ¬∃ outs m', TsMuxer.pushAll { TsMuxer.withPrograms [(1, 0x1B)] with bitrate := 1000000 }
      [⟨0, [1, 2, 3], some (2 ^ 63), none, true⟩] = some (outs, m') ∧
        Conforms { TsMuxer.withPrograms [(1, 0x1B)] with bitrate := 1000000 }
          [⟨0, [1, 2, 3], some (2 ^ 63), none, true⟩]
          (clockAt (startClock [⟨0, [1, 2, 3], some (2 ^ 63), none, true⟩]) 1000000)
          (outs.flatten.map TsPacket.bytes) := by
  constructor
  · obtain ⟨m, hm, hrun⟩ := Option.bind_eq_some_iff.1 sharedPid_counters
    refine ⟨m, hm, fun ⟨outs, m', hpush, hconforms⟩ => ?_⟩
    have hchain := hconforms.counters 0x200 (by decide)
    rw [hpush, Option.map_some] at hrun
    rw [Option.some.inj hrun] at hchain
    exact absurd (List.isChain_cons_cons.1 hchain).1 (by decide)
  · rintro ⟨outs, m', hpush, hconforms⟩
    have hrun := capped_pcr
    rw [hpush, Option.map_some] at hrun
    obtain ⟨pkt, hpkt, hpcr⟩ := Option.bind_eq_some_iff.1 (Option.some.inj hrun)
    have hclock := hconforms.onClock rfl 2 pkt _ hpkt hpcr
    exact absurd hclock (by decide)

end Glass2Glass.Ts
