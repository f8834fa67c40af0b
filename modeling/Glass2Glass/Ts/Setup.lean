import Glass2Glass.Ts.Tracking

/-!
# Building a muxer

`TsMuxer::with_programs`, `set_pid_bases` and `add_splice_stream` (`g2g-plugins/src/mpegts.rs`). A muxer that they
build is fresh, and its PIDs are apart when the splice information gets its own last.
-/

namespace Glass2Glass.Ts

open List

def streamTypePrivatePes : UInt8 := 0x06

def streamTypeMetadataPes : UInt8 := 0x15

def streamTypeAac : UInt8 := 0x0F

def klvaRegistration : List UInt8 := [0x05, 4, 75, 76, 86, 65]

def klvMetadataDescriptor : List UInt8 :=
  [0x26, 13, 0xFF, 0xFF, 75, 76, 86, 65, 0xFF, 75, 76, 86, 65, 0x00, 0x0F]

def muxPidRangeStart : Nat := 0x0010

def muxPidRangeEnd : Nat := 0x1FFE

/-- What `with_programs` has built: the programs, their counts of video and audio streams, and the streams. -/
structure Building where
  programs : List MuxProgram
  ids : List (UInt8 × UInt8)
  streams : List MuxStream

namespace Building

/-- The program of a number, a new one when it is the first to have it. -/
def programOf (b : Building) (number : Nat) : Building × Nat :=
  let i := b.programs.findIdx fun p => p.number = number
  if i < b.programs.length then (b, i)
  else
    ({ b with
        programs := b.programs ++ [⟨number, muxPmtPid + b.programs.length, 0, b.streams.length, none, none⟩]
        ids := b.ids ++ [(0, 0)] }, b.programs.length)

def add (b : Building) (entry : Nat × UInt8) : Building :=
  let streamType := entry.2
  let (c, program) := b.programOf entry.1
  let (video, audio) := c.ids.getD program (0, 0)
  let (streamId, ids) : UInt8 × UInt8 × UInt8 :=
    if streamType = streamTypePrivatePes then (0xBD, video, audio)
    else if streamType = streamTypeMetadataPes then (0xFC, video, audio)
    else if streamType = streamTypeAac then (0xC0 + audio, video, audio + 1)
    else (0xE0 + video, video + 1, audio)
  let esInfo :=
    if streamType = streamTypePrivatePes then klvaRegistration
    else if streamType = streamTypeMetadataPes then klvMetadataDescriptor else []
  { c with
    ids := c.ids.set program ids
    streams := c.streams ++
      [⟨streamType, muxEsPid + b.streams.length, streamId, 0, program, 0, esInfo, false, false, false⟩] }

end Building

namespace TsMuxer

def withPrograms (streams : List (Nat × UInt8)) : TsMuxer :=
  let b := streams.foldl Building.add ⟨[], [], []⟩
  { streams := b.streams, programs := b.programs, patCc := 0, sdtCc := 0, defaultService := none
    tablesWritten := false, tableInterval90khz := 9000, siInterval90khz := 9000, lastTables27mhz := none
    lastSi27mhz := none, pcrInterval90khz := 3600, bitrate := 0, byteClockStart27mhz := none, bytesWritten := 0
    transportStreamId := 1, originalNetworkId := 1, tablesVersion := 0, splice := none
    spliceNullInterval90khz := 0, lastSplice27mhz := none }

/-- `count` PIDs from `start` on are in the range. -/
def pidSpan (start count : Nat) : Bool :=
  muxPidRangeStart ≤ start ∧ start ≤ muxPidRangeEnd ∧ (count = 0 ∨ start + (count - 1) ≤ muxPidRangeEnd)

def inSpan (start count pid : Nat) : Bool := start ≤ pid ∧ pid < start + count

/-- `set_pid_bases`: number the streams and the PMTs from two PIDs on, unless they collide. -/
def setPidBases (m : TsMuxer) (esStart pmtStart : Nat) : Option TsMuxer :=
  let overlap := (List.range m.streams.length).any fun i => inSpan pmtStart m.programs.length (esStart + i)
  let coversSdt := inSpan esStart m.streams.length pidSdt || inSpan pmtStart m.programs.length pidSdt
  if !(pidSpan esStart m.streams.length && pidSpan pmtStart m.programs.length) then none
  else if overlap || coversSdt then none
  else
    some { m with
      streams := m.streams.mapIdx fun i s => { s with pid := esStart + i }
      programs := m.programs.mapIdx fun i p => { p with pmtPid := pmtStart + i } }

/-- `add_splice_stream`: carry the splice information on a PID of its own. -/
def addSpliceStream (m : TsMuxer) (pid : Nat) : Option TsMuxer :=
  let taken := pid = pidPat ∨ pid = pidSdt ∨ m.streams.any (fun s => s.pid = pid) ∨
    m.programs.any fun p => p.pmtPid = pid
  if ¬(muxPidRangeStart ≤ pid ∧ pid ≤ muxPidRangeEnd) ∨ taken then none else some { m with splice := some (pid, 0) }

/-- Nothing was written yet. -/
structure Fresh (m : TsMuxer) : Prop where
  counters : ∀ x ∈ m.counters, x.2 = 0
  lastPcr : ∀ p ∈ m.programs, p.lastPcr27mhz = none
  start : m.byteClockStart27mhz = none
  written : m.bytesWritten = 0

end TsMuxer

/-! ## What is built is fresh -/

namespace Building

/-- The PIDs are numbered, every stream belongs to a program, and the first one of a program is its clock. -/
structure Sound (b : Building) : Prop where
  programs : b.programs.map MuxProgram.pmtPid = (List.range b.programs.length).map (muxPmtPid + ·)
  streams : b.streams.map MuxStream.pid = (List.range b.streams.length).map (muxEsPid + ·)
  le : b.programs.length ≤ b.streams.length
  program : ∀ s ∈ b.streams, s.program < b.programs.length
  pcr : ∀ i (p : MuxProgram), b.programs[i]? = some p →
    ∃ s : MuxStream, b.streams[p.pcrStream]? = some s ∧ s.program = i
  freshProgram : ∀ p ∈ b.programs, p.pmtCc = 0 ∧ p.lastPcr27mhz = none
  freshStream : ∀ s ∈ b.streams, s.esCc = 0

theorem sound_nil : Sound ⟨[], [], []⟩ where
  programs := rfl
  streams := rfl
  le := Nat.le_refl _
  program := nofun
  pcr := nofun
  freshProgram := nofun
  freshStream := nofun

theorem Sound.addStream {b : Building} (h : b.Sound) {ids : List (UInt8 × UInt8)} {s : MuxStream}
    (hprogram : s.program < b.programs.length) (hpid : s.pid = muxEsPid + b.streams.length) (hcc : s.esCc = 0) :
    Sound { b with ids := ids, streams := b.streams ++ [s] } where
  programs := h.programs
  streams := by
    rw [map_append, h.streams, length_append, length_singleton, range_succ, map_append]
    exact congrArg _ (congrArg (fun pid => [pid]) hpid)
  le := by
    rw [length_append]
    exact h.le.trans (Nat.le_add_right ..)
  program := fun t ht => by
    rcases List.mem_append.1 ht with ht | ht
    · exact h.program t ht
    · rw [List.mem_singleton.1 ht]
      exact hprogram
  pcr := fun i p hp => by
    obtain ⟨t, ht, hi⟩ := h.pcr i p hp
    exact ⟨t, List.getElem?_append_left (List.getElem?_eq_some_iff.1 ht).1 ▸ ht, hi⟩
  freshProgram := h.freshProgram
  freshStream := fun t ht => by
    rcases List.mem_append.1 ht with ht | ht
    · exact h.freshStream t ht
    · rw [List.mem_singleton.1 ht]
      exact hcc

/-- A stream is added with a program of its own. -/
theorem Sound.addProgram {b : Building} (h : b.Sound) {ids : List (UInt8 × UInt8)} {p : MuxProgram} {s : MuxStream}
    (hpmt : p.pmtPid = muxPmtPid + b.programs.length) (hpcr : p.pcrStream = b.streams.length)
    (hfresh : p.pmtCc = 0 ∧ p.lastPcr27mhz = none) (hprogram : s.program = b.programs.length)
    (hpid : s.pid = muxEsPid + b.streams.length) (hcc : s.esCc = 0) :
    Sound ⟨b.programs ++ [p], ids, b.streams ++ [s]⟩ where
  programs := by
    rw [map_append, h.programs, length_append, length_singleton, range_succ, map_append]
    exact congrArg _ (congrArg (fun pid => [pid]) hpmt)
  streams := by
    rw [map_append, h.streams, length_append, length_singleton, range_succ, map_append]
    exact congrArg _ (congrArg (fun pid => [pid]) hpid)
  le := by
    rw [length_append, length_append]
    exact Nat.add_le_add_right h.le 1
  program := fun t ht => by
    rw [length_append, length_singleton]
    rcases List.mem_append.1 ht with ht | ht
    · exact Nat.lt_succ_of_lt (h.program t ht)
    · rw [List.mem_singleton.1 ht, hprogram]
      exact Nat.lt_succ_self _
  pcr := fun i q hq => by
    rcases Nat.lt_or_ge i b.programs.length with hi | hi
    · rw [List.getElem?_append_left hi] at hq
      obtain ⟨t, ht, hti⟩ := h.pcr i q hq
      exact ⟨t, List.getElem?_append_left (List.getElem?_eq_some_iff.1 ht).1 ▸ ht, hti⟩
    · have hlt := (List.getElem?_eq_some_iff.1 hq).1
      rw [length_append, length_singleton] at hlt
      obtain rfl : i = b.programs.length := by omega
      rw [List.getElem?_append_right hi, Nat.sub_self] at hq
      obtain rfl : p = q := Option.some.inj hq
      refine ⟨s, ?_, hprogram⟩
      rw [hpcr, List.getElem?_append_right (Nat.le_refl _), Nat.sub_self]
      rfl
  freshProgram := fun q hq => by
    rcases List.mem_append.1 hq with hq | hq
    · exact h.freshProgram q hq
    · rw [List.mem_singleton.1 hq]
      exact hfresh
  freshStream := fun t ht => by
    rcases List.mem_append.1 ht with ht | ht
    · exact h.freshStream t ht
    · rw [List.mem_singleton.1 ht]
      exact hcc

theorem Sound.add {b : Building} (h : b.Sound) (entry : Nat × UInt8) : (b.add entry).Sound := by
  unfold Building.add programOf
  dsimp only
  split_ifs with hfound
  all_goals
    first
      | exact h.addStream hfound rfl rfl
      | exact h.addProgram rfl rfl ⟨rfl, rfl⟩ rfl rfl rfl

theorem length_streams_add (b : Building) (entry : Nat × UInt8) :
    (b.add entry).streams.length = b.streams.length + 1 := by
  unfold Building.add programOf
  dsimp only
  split_ifs
  all_goals exact length_append

theorem sound_foldl (entries : List (Nat × UInt8)) {b : Building} (h : b.Sound) : (entries.foldl Building.add b).Sound ∧
      (entries.foldl Building.add b).streams.length = b.streams.length + entries.length := by
  induction entries generalizing b with
  | nil => exact ⟨h, rfl⟩
  | cons entry entries ih =>
    obtain ⟨hsound, hlength⟩ := ih (h.add entry)
    refine ⟨hsound, ?_⟩
    rw [foldl_cons, hlength, length_streams_add, length_cons]
    omega

end Building

namespace TsMuxer

theorem withPrograms_fresh (entries : List (Nat × UInt8)) : (withPrograms entries).Fresh := by
  have hsound := (Building.sound_foldl entries Building.sound_nil).1
  refine ⟨fun x hx => ?_, fun p hp => (hsound.freshProgram p hp).2, rfl, rfl⟩
  rcases mem_counters.1 hx with rfl | rfl | ⟨p, hp, rfl⟩ | ⟨s, hs, rfl⟩ | h
  · rfl
  · rfl
  · exact (hsound.freshProgram p hp).1
  · exact hsound.freshStream s hs
  · exact absurd h nofun

theorem nodup_spans {n k pmtStart esStart : Nat} (hlow : pidSdt < pmtStart ∨ pmtStart + n ≤ pidSdt ∨ n = 0)
    (hlow' : pidSdt < esStart ∨ esStart + k ≤ pidSdt ∨ k = 0) (hpmt : pidPat < pmtStart) (hes : pidPat < esStart)
    (hapart : ∀ i < k, ¬(pmtStart ≤ esStart + i ∧ esStart + i < pmtStart + n)) :
    ([pidPat, pidSdt] ++ (List.range n).map (pmtStart + ·) ++ (List.range k).map (esStart + ·)).Nodup := by
  simp only [nodup_append, nodup_cons, mem_cons, List.mem_map, mem_range, mem_append, not_mem_nil, or_false]
  refine ⟨⟨by decide, List.Nodup.map (fun a b hab => by omega) nodup_range, ?_⟩,
    List.Nodup.map (fun a b hab => by omega) nodup_range, ?_⟩
  · rintro a (rfl | rfl) b ⟨i, hi, rfl⟩
    · omega
    · omega
  · rintro a ((rfl | rfl) | ⟨i, hi, rfl⟩) b ⟨j, hj, rfl⟩
    · omega
    · omega
    · have hj := hapart j hj
      omega

theorem withPrograms_valid {entries : List (Nat × UInt8)} (h : entries.length ≤ muxPmtPid - muxEsPid) :
    (withPrograms entries).layout.Valid := by
  obtain ⟨hsound, hlength⟩ := Building.sound_foldl entries Building.sound_nil
  have hle := hsound.le
  rw [hlength, length_nil, Nat.zero_add] at hle
  have hpids : (withPrograms entries).layout.pids = [pidPat, pidSdt] ++
      (List.range (entries.foldl Building.add ⟨[], [], []⟩).programs.length).map (muxPmtPid + ·) ++
      (List.range entries.length).map (muxEsPid + ·) := by
    have hstreams := hsound.streams
    rw [hlength, length_nil, Nat.zero_add] at hstreams
    rw [← hsound.programs, ← hstreams]
    unfold Layout.pids layout
    rw [map_map, map_map]
    exact append_nil _
  unfold muxPmtPid muxEsPid at h hpids
  refine ⟨?_, ?_, ?_, ?_⟩
  · rw [hpids]
    exact nodup_spans (Or.inl (by decide)) (Or.inl (by decide)) (by decide) (by decide) fun i hi => by omega
  · intro pid hpid
    rw [hpids] at hpid
    simp only [mem_append, mem_cons, List.mem_map, mem_range, not_mem_nil, or_false] at hpid
    unfold pidNull
    rcases hpid with ((rfl | rfl) | ⟨i, hi, rfl⟩) | ⟨i, hi, rfl⟩
    · decide
    · decide
    · omega
    · omega
  · intro s hs
    obtain ⟨t, ht, rfl⟩ := List.mem_map.1 hs
    unfold layout
    rw [length_map]
    exact hsound.program t ht
  · intro i p hp
    unfold layout at hp ⊢
    rw [List.getElem?_map] at hp
    obtain ⟨q, hq, rfl⟩ := Option.map_eq_some_iff.1 hp
    obtain ⟨s, hs, hsi⟩ := hsound.pcr i q hq
    refine ⟨s.pid, ?_⟩
    rw [List.getElem?_map]
    exact (congrArg _ hs).trans (congrArg (fun i => some (s.pid, i)) hsi)

end TsMuxer

end Glass2Glass.Ts
