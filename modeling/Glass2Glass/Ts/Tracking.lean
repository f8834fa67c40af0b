import Glass2Glass.Ts.Watch

/-!
# The muxer and its watch

Every helper of `push_au_on` writes packets that the watch admits, and leaves the muxer with the counters and the
clock references that the watch keeps (`Tracks`). One lemma for each helper says so (`Steps`).
-/

namespace Glass2Glass.Ts

open List Function

/-! ## Sections -/

/-- The packets of a section go on from the counter of their PID, and carry the section behind its pointer. -/
theorem sectionLoop_spec {R : Nat → Nat → Prop} {pid fuel : Nat} (hpid : pid < pidNull) {pusi : Bool} {cc : Nat}
    {rest : List UInt8} (hfuel : rest.length ≤ fuel) (hrest : rest ≠ []) {s : Watch} (hcc : s.cc pid = cc)
    (hlt : cc < continuityCounterModulus) : s.AdmitsAll R (sectionLoop pid fuel pusi cc rest).1 ∧
      (sectionLoop pid fuel pusi cc rest).2 < continuityCounterModulus ∧
      (s.after (sectionLoop pid fuel pusi cc rest).1).cc =
        Function.update s.cc pid (sectionLoop pid fuel pusi cc rest).2 ∧
      (s.after (sectionLoop pid fuel pusi cc rest).1).pcr = s.pcr := by
  induction fuel generalizing pusi cc rest s with
  | zero => exact absurd (List.length_eq_zero_iff.1 (Nat.le_zero.1 hfuel)) hrest
  | succ fuel ih =>
    have htake : rest.take tsPayloadMax ≠ [] := fun h => by
      rcases List.take_eq_nil_iff.1 h with h | h
      · exact absurd h (by decide)
      · exact hrest h
    have hadmits : s.Admits R ⟨pid, pusi, cc, .empty, rest.take tsPayloadMax⟩ :=
      { fits :=
          { payload := length_take_le _ _
            pid := hpid.trans_le (by decide)
            cc := hlt
            nonempty := fun h => absurd h htake }
        counter := fun _ _ => hcc.symm
        repeats := fun _ h => absurd h htake
        forward := nofun
        onClock := nofun }
    have hnext : (s.next ⟨pid, pusi, cc, .empty, rest.take tsPayloadMax⟩).cc =
        Function.update s.cc pid ((cc + 1) % continuityCounterModulus) := by
      unfold Watch.next
      rw [if_neg htake, hcc]
    have hlt' : (cc + 1) % continuityCounterModulus < continuityCounterModulus := Nat.mod_lt _ (by decide)
    unfold sectionLoop
    by_cases hdone : rest.drop tsPayloadMax = []
    · rw [if_pos hdone]
      exact ⟨⟨hadmits, trivial⟩, hlt', hnext, rfl⟩
    · rw [if_neg hdone]
      have hfuel' : (rest.drop tsPayloadMax).length ≤ fuel := by
        have hpos := List.length_pos_iff.2 hrest
        rw [length_drop]
        unfold tsPayloadMax
        omega
      have hcc' : (s.next ⟨pid, pusi, cc, .empty, rest.take tsPayloadMax⟩).cc pid =
          (cc + 1) % continuityCounterModulus := by
        rw [hnext, update_self]
      obtain ⟨hall, hlast, hafter, hpcr⟩ := @ih false _ _ hfuel' hdone _ hcc' hlt'
      refine ⟨⟨hadmits, hall⟩, hlast, ?_, hpcr⟩
      rw [hnext, update_idem] at hafter
      exact hafter

theorem sectionPackets_spec {R : Nat → Nat → Prop} {pid : Nat} (hpid : pid < pidNull) (bytes : List UInt8)
    {cc : Nat} {s : Watch} (hcc : s.cc pid = cc) (hlt : cc < continuityCounterModulus) :
    s.AdmitsAll R (sectionPackets pid bytes cc).1 ∧ (sectionPackets pid bytes cc).2 < continuityCounterModulus ∧
      (s.after (sectionPackets pid bytes cc).1).cc = Function.update s.cc pid (sectionPackets pid bytes cc).2 ∧
      (s.after (sectionPackets pid bytes cc).1).pcr = s.pcr :=
  sectionLoop_spec hpid (Nat.le_refl _) (cons_ne_nil _ _) hcc hlt

/-! ## The muxer and its watch -/

/-- What a run of the muxer leaves as it is: the PIDs and programs of the streams, the PIDs and clock streams of
the programs, the PID of the splice information, and the bitrate. -/
structure Layout where
  streams : List (Nat × Nat)
  programs : List (Nat × Nat)
  splice : Option Nat
  bitrate : Nat

/-- Every PID of a layout: the tables, the programs, the streams and the splice information. -/
def Layout.pids (l : Layout) : List Nat :=
  [pidPat, pidSdt] ++ l.programs.map Prod.fst ++ l.streams.map Prod.fst ++ l.splice.toList

/-- The PIDs differ from each other and from that of the null packets, every stream belongs to a program, and
the clock stream of a program is one of its own. -/
structure Layout.Valid (l : Layout) : Prop where
  nodup : l.pids.Nodup
  range : ∀ pid ∈ l.pids, pid < pidNull
  program : ∀ s ∈ l.streams, s.2 < l.programs.length
  pcr : ∀ i (p : Nat × Nat), l.programs[i]? = some p → ∃ pid, l.streams[p.2]? = some (pid, i)

namespace TsMuxer

def layout (m : TsMuxer) : Layout where
  streams := m.streams.map fun s => (s.pid, s.program)
  programs := m.programs.map fun p => (p.pmtPid, p.pcrStream)
  splice := m.splice.map Prod.fst
  bitrate := m.bitrate

/-- The next continuity counter of every PID. -/
def counters (m : TsMuxer) : List (Nat × Nat) :=
  [(pidPat, m.patCc), (pidSdt, m.sdtCc)] ++ m.programs.map (fun p => (p.pmtPid, p.pmtCc)) ++
    m.streams.map (fun s => (s.pid, s.esCc)) ++ m.splice.toList

/-- The PID of the clock references of a program. -/
def pcrPid (m : TsMuxer) (i : Nat) : Nat := (m.stream (m.program i).pcrStream).pid

theorem map_fst_counters (m : TsMuxer) : m.counters.map Prod.fst = m.layout.pids := by
  unfold counters Layout.pids layout
  rw [map_append, map_append, map_append, map_map, map_map, map_map, map_map]
  cases m.splice <;> rfl

theorem stream_eq {m : TsMuxer} {i : Nat} (h : i < m.streams.length) : m.streams[i]? = some (m.stream i) := by
  unfold stream
  rw [getD_eq_getElem?_getD, List.getElem?_eq_getElem h]
  rfl

theorem program_eq {m : TsMuxer} {i : Nat} (h : i < m.programs.length) : m.programs[i]? = some (m.program i) := by
  unfold program
  rw [getD_eq_getElem?_getD, List.getElem?_eq_getElem h]
  rfl

theorem layout_stream (m : TsMuxer) (i : Nat) :
    ((m.stream i).pid, (m.stream i).program) = m.layout.streams.getD i (0, 0) := by
  exact (getD_map (f := fun s : MuxStream => (s.pid, s.program)) ..).symm

theorem layout_program (m : TsMuxer) (i : Nat) :
    ((m.program i).pmtPid, (m.program i).pcrStream) = m.layout.programs.getD i (0, 0) := by
  exact (getD_map (f := fun p : MuxProgram => (p.pmtPid, p.pcrStream)) ..).symm

variable {m m' : TsMuxer}

theorem pcrPid_eq (h : m'.layout = m.layout) (i : Nat) : m'.pcrPid i = m.pcrPid i := by
  have hprogram : (m'.program i).pcrStream = (m.program i).pcrStream := by
    have hpair := (m'.layout_program i).trans (h ▸ (m.layout_program i).symm)
    exact congrArg Prod.snd hpair
  have hstream := (m'.layout_stream (m.program i).pcrStream).trans (h ▸ (m.layout_stream _).symm)
  unfold pcrPid
  rw [hprogram]
  exact congrArg Prod.fst hstream

theorem length_programs_eq (h : m'.layout = m.layout) : m'.programs.length = m.programs.length := by
  have hlength := congrArg (fun l : Layout => l.programs.length) h
  simp only [layout, length_map] at hlength
  exact hlength

theorem length_streams_eq (h : m'.layout = m.layout) : m'.streams.length = m.streams.length := by
  have hlength := congrArg (fun l : Layout => l.streams.length) h
  simp only [layout, length_map] at hlength
  exact hlength

theorem constantBitrate_eq (h : m'.layout = m.layout) : m'.constantBitrate = m.constantBitrate :=
  congrArg (fun l : Layout => decide (0 < l.bitrate)) h

/-- What a step of the muxer leaves as it is. -/
structure Frame (m m' : TsMuxer) : Prop where
  layout : m'.layout = m.layout
  start : m'.byteClockStart27mhz = m.byteClockStart27mhz
  written : m'.bytesWritten = m.bytesWritten

theorem Frame.refl (m : TsMuxer) : Frame m m := ⟨rfl, rfl, rfl⟩

theorem Frame.trans {m m' m'' : TsMuxer} (h : Frame m m') (h' : Frame m' m'') : Frame m m'' :=
  ⟨h'.layout.trans h.layout, h'.start.trans h.start, h'.written.trans h.written⟩

theorem Frame.byteClockAt (h : Frame m m') (bytes : Nat) :
    m'.byteClockAt bytes = m.byteClockAt bytes := by
  have hbitrate : m'.bitrate = m.bitrate := congrArg Layout.bitrate h.layout
  unfold TsMuxer.byteClockAt
  rw [constantBitrate_eq h.layout, hbitrate, h.start]

theorem byteClockAt_mono (m : TsMuxer) {a b : Nat} (h : a ≤ b) : m.byteClockAt a ≤ m.byteClockAt b := by
  have helapsed : a * 8 * 27000000 / m.bitrate ≤ b * 8 * 27000000 / m.bitrate :=
    Nat.div_le_div_right (by omega)
  unfold byteClockAt saturatingAdd
  dsimp only
  split_ifs
  · omega
  · exact Nat.le_refl _

theorem byteClockAt_le {m : TsMuxer} (hcbr : m.constantBitrate = true) (bytes : Nat) : m.byteClockAt bytes ≤ u64Max := by
  unfold byteClockAt
  rw [if_pos hcbr]
  exact Nat.min_le_right ..

/-! ### One entry changes -/

theorem map_set_same {α β : Type} [Inhabited α] {f : α → β} {l : List α} {i : Nat} {a : α}
    (h : f a = f (l.getD i default)) : (l.set i a).map f = l.map f := by
  refine ext_getElem? fun j => ?_
  rw [List.getElem?_map, List.getElem?_map, List.getElem?_set]
  split_ifs with hij hlt
  · rw [getD_eq_getElem?_getD, ← hij, List.getElem?_eq_getElem hlt] at *
    exact congrArg some h
  · rw [← hij, List.getElem?_eq_none (by omega), Option.map_none]
  · rfl

theorem getD_set_same {α β : Type} [Inhabited α] {f : α → β} {l : List α} {i : Nat} {a : α}
    (h : f a = f (l.getD i default)) (j : Nat) : f ((l.set i a).getD j default) = f (l.getD j default) := by
  rw [← getD_map (f := f), ← getD_map (f := f), map_set_same h]

variable {m m' : TsMuxer} {i j : Nat}

theorem frame_setProgram {p : MuxProgram} (h : (p.pmtPid, p.pcrStream) = ((m.program i).pmtPid, (m.program i).pcrStream)) :
    Frame m (m.setProgram i p) := by
  refine ⟨?_, rfl, rfl⟩
  unfold layout setProgram
  rw [map_set_same (f := fun p : MuxProgram => (p.pmtPid, p.pcrStream)) h]

theorem frame_setStream {s : MuxStream} (h : (s.pid, s.program) = ((m.stream i).pid, (m.stream i).program)) :
    Frame m (m.setStream i s) := by
  refine ⟨?_, rfl, rfl⟩
  unfold layout setStream
  rw [map_set_same (f := fun s : MuxStream => (s.pid, s.program)) h]

theorem program_setProgram {p : MuxProgram} (hi : i < m.programs.length) : (m.setProgram i p).program i = p := by
  unfold program setProgram
  rw [getD_eq_getElem?_getD, List.getElem?_set_self hi]
  rfl

theorem program_setProgram_ne {p : MuxProgram} (h : i ≠ j) : (m.setProgram i p).program j = m.program j := by
  unfold program setProgram
  rw [getD_eq_getElem?_getD, List.getElem?_set_ne h, getD_eq_getElem?_getD]

/-! ### Counters -/

/-- One counter changes to that of `x`. -/
structure Moves (m m' : TsMuxer) (x : Nat × Nat) : Prop where
  mem : x ∈ m'.counters
  rest : ∀ y ∈ m'.counters, y = x ∨ y ∈ m.counters

theorem mem_counters {x : Nat × Nat} : x ∈ m.counters ↔ x = (pidPat, m.patCc) ∨ x = (pidSdt, m.sdtCc) ∨
    (∃ p ∈ m.programs, (p.pmtPid, p.pmtCc) = x) ∨ (∃ s ∈ m.streams, (s.pid, s.esCc) = x) ∨ m.splice = some x := by
  unfold counters
  simp only [mem_append, mem_cons, not_mem_nil, or_false, List.mem_map, Option.mem_toList, or_assoc]

theorem counter_stream (hi : i < m.streams.length) : ((m.stream i).pid, (m.stream i).esCc) ∈ m.counters :=
  mem_counters.2 (.inr (.inr (.inr (.inl ⟨_, mem_of_getElem? (stream_eq hi), rfl⟩))))

theorem counter_program (hi : i < m.programs.length) : ((m.program i).pmtPid, (m.program i).pmtCc) ∈ m.counters :=
  mem_counters.2 (.inr (.inr (.inl ⟨_, mem_of_getElem? (program_eq hi), rfl⟩)))

theorem moves_setProgram {p : MuxProgram} (hi : i < m.programs.length) :
    Moves m (m.setProgram i p) (p.pmtPid, p.pmtCc) := by
  refine ⟨mem_counters.2 (.inr (.inr (.inl ⟨p, ?_, rfl⟩))), fun y hy => ?_⟩
  · exact mem_set hi p
  · rcases mem_counters.1 hy with h | h | ⟨q, hq, h⟩ | h | h
    · exact .inr (mem_counters.2 (.inl h))
    · exact .inr (mem_counters.2 (.inr (.inl h)))
    · rcases mem_or_eq_of_mem_set hq with hq | rfl
      · exact .inr (mem_counters.2 (.inr (.inr (.inl ⟨q, hq, h⟩))))
      · exact .inl h.symm
    · exact .inr (mem_counters.2 (.inr (.inr (.inr (.inl h)))))
    · exact .inr (mem_counters.2 (.inr (.inr (.inr (.inr h)))))

theorem moves_setStream {s : MuxStream} (hi : i < m.streams.length) : Moves m (m.setStream i s) (s.pid, s.esCc) := by
  refine ⟨mem_counters.2 (.inr (.inr (.inr (.inl ⟨s, ?_, rfl⟩)))), fun y hy => ?_⟩
  · exact mem_set hi s
  · rcases mem_counters.1 hy with h | h | h | ⟨q, hq, h⟩ | h
    · exact .inr (mem_counters.2 (.inl h))
    · exact .inr (mem_counters.2 (.inr (.inl h)))
    · exact .inr (mem_counters.2 (.inr (.inr (.inl h))))
    · rcases mem_or_eq_of_mem_set hq with hq | rfl
      · exact .inr (mem_counters.2 (.inr (.inr (.inr (.inl ⟨q, hq, h⟩)))))
      · exact .inl h.symm
    · exact .inr (mem_counters.2 (.inr (.inr (.inr (.inr h)))))

theorem Moves.cc (hvalid : m.layout.Valid) (hlayout : m'.layout = m.layout) {s s' : Watch}
    (hcc : ∀ x ∈ m.counters, x.2 < continuityCounterModulus ∧ s.cc x.1 = x.2) {pid cc : Nat}
    (hmoves : Moves m m' (pid, cc)) (hlt : cc < continuityCounterModulus)
    (hafter : s'.cc = Function.update s.cc pid cc) :
    ∀ x ∈ m'.counters, x.2 < continuityCounterModulus ∧ s'.cc x.1 = x.2 := by
  have hnodup : (m'.counters.map Prod.fst).Nodup := by
    rw [map_fst_counters, hlayout]
    exact hvalid.nodup
  intro x hx
  by_cases hpid : x.1 = pid
  · obtain rfl : x = (pid, cc) := inj_on_of_nodup_map hnodup hx hmoves.mem hpid
    rw [hafter]
    exact ⟨hlt, update_self ..⟩
  · rcases hmoves.rest x hx with rfl | hold
    · exact absurd rfl hpid
    · rw [hafter, update_of_ne hpid]
      exact hcc x hold

end TsMuxer

/-! ## Clock streams -/

namespace Layout.Valid

variable {m : TsMuxer} {i j : Nat}

theorem pcrStream_lt (h : m.layout.Valid) (hi : i < m.programs.length) :
    (m.program i).pcrStream < m.streams.length ∧ (m.stream (m.program i).pcrStream).program = i := by
  have hprogram : m.layout.programs[i]? = some ((m.program i).pmtPid, (m.program i).pcrStream) := by
    unfold TsMuxer.layout
    rw [List.getElem?_map, TsMuxer.program_eq hi]
    rfl
  obtain ⟨pid, hpid⟩ := h.pcr i _ hprogram
  have hlt : (m.program i).pcrStream < m.streams.length := by
    have hlength := (List.getElem?_eq_some_iff.1 hpid).1
    rw [TsMuxer.layout, length_map] at hlength
    exact hlength
  rw [TsMuxer.layout, List.getElem?_map, TsMuxer.stream_eq hlt] at hpid
  exact ⟨hlt, congrArg Prod.snd (Option.some.inj hpid)⟩

theorem program_lt (h : m.layout.Valid) (hi : i < m.streams.length) : (m.stream i).program < m.programs.length := by
  have hstream : ((m.stream i).pid, (m.stream i).program) ∈ m.layout.streams :=
    List.mem_map.2 ⟨_, mem_of_getElem? (TsMuxer.stream_eq hi), rfl⟩
  have hlt := h.program _ hstream
  rw [TsMuxer.layout, length_map] at hlt
  exact hlt

theorem streams_nodup (h : m.layout.Valid) : (m.streams.map fun s => s.pid).Nodup := by
  have hnodup := h.nodup
  have hstreams := (List.nodup_append.1 (List.nodup_append.1 hnodup).1).2.1
  rw [TsMuxer.layout, map_map] at hstreams
  exact hstreams

theorem pcrPid_inj (h : m.layout.Valid) (hi : i < m.programs.length) (hj : j < m.programs.length)
    (heq : m.pcrPid i = m.pcrPid j) : i = j := by
  obtain ⟨hi', hprogi⟩ := h.pcrStream_lt hi
  obtain ⟨hj', hprogj⟩ := h.pcrStream_lt hj
  have hstream : m.stream (m.program i).pcrStream = m.stream (m.program j).pcrStream :=
    inj_on_of_nodup_map h.streams_nodup (mem_of_getElem? (TsMuxer.stream_eq hi'))
      (mem_of_getElem? (TsMuxer.stream_eq hj')) heq
  rw [← hprogi, ← hprogj, hstream]

theorem pid_lt (h : m.layout.Valid) {x : Nat × Nat} (hx : x ∈ m.counters) : x.1 < pidNull :=
  h.range x.1 (m.map_fst_counters ▸ mem_map_of_mem hx)

end Layout.Valid

/-! ## Steps -/

/-- The watch keeps what the muxer does: the place, the counters, and of every program a clock reference that is
not past the last one the muxer noted. At a constant bitrate what it noted is not past the clock. -/
structure Tracks (R : Nat → Nat → Prop) (w : Writing) (s : Watch) : Prop where
  valid : w.mux.layout.Valid
  pos : s.pos = w.mux.bytesWritten + w.len
  cc : ∀ x ∈ w.mux.counters, x.2 < continuityCounterModulus ∧ s.cc x.1 = x.2
  pcr : ∀ i < w.mux.programs.length, ∀ l ∈ s.pcr (w.mux.pcrPid i),
    ∃ last, (w.mux.program i).lastPcr27mhz = some last ∧ l ≤ last
  clock : w.mux.constantBitrate = true → ∀ bytes, R bytes (w.mux.byteClockAt bytes)
  noted : w.mux.constantBitrate = true → ∀ i < w.mux.programs.length, ∀ last,
    (w.mux.program i).lastPcr27mhz = some last → last ≤ w.mux.byteClockAt (s.pos + Writing.pcrByteOffset)
  capped : ∀ i < w.mux.programs.length, ∀ last, (w.mux.program i).lastPcr27mhz = some last → last ≤ u64Max

/-- From one point of a call to another: what is written is admitted, and the watch keeps up. -/
structure Steps (R : Nat → Nat → Prop) (w w' : Writing) : Prop where
  frame : TsMuxer.Frame w.mux w'.mux
  run : ∃ ps, w'.out = w.out ++ ps ∧ ∀ s, Tracks R w s → s.AdmitsAll R ps ∧ Tracks R w' (s.after ps)

variable {R : Nat → Nat → Prop} {w w' w'' : Writing} {s : Watch}

theorem Steps.refl (w : Writing) : Steps R w w :=
  ⟨.refl _, [], (append_nil _).symm, fun _ h => ⟨trivial, h⟩⟩

theorem Steps.trans (h : Steps R w w') (h' : Steps R w' w'') : Steps R w w'' := by
  obtain ⟨hframe, ps, hps, hrun⟩ := h
  obtain ⟨hframe', qs, hqs, hrun'⟩ := h'
  refine ⟨hframe.trans hframe', ps ++ qs, by rw [hqs, hps, append_assoc], fun s hs => ?_⟩
  obtain ⟨hadmits, htracks⟩ := hrun s hs
  obtain ⟨hadmits', htracks'⟩ := hrun' _ htracks
  rw [Watch.admitsAll_append, Watch.after_append]
  exact ⟨⟨hadmits, hadmits'⟩, htracks'⟩

theorem Steps.foldl {σ : Type} (writing : σ → Writing) {f : σ → Nat → σ} {l : List Nat} {layout : Layout}
    (hf : ∀ st, ∀ i ∈ l, (writing st).mux.layout = layout → Steps R (writing st) (writing (f st i))) (st : σ)
    (hst : (writing st).mux.layout = layout) : Steps R (writing st) (writing (l.foldl f st)) := by
  induction l generalizing st with
  | nil => exact .refl _
  | cons i l ih =>
    have hi := hf st i mem_cons_self hst
    exact hi.trans (ih (fun st j hj => hf st j (mem_cons_of_mem _ hj)) _ (hi.frame.layout.trans hst))

theorem Writing.len_append {ps : List TsPacket} (h : w'.out = w.out ++ ps) :
    w'.len = w.len + (ps.flatMap TsPacket.bytes).length := by
  unfold Writing.len
  rw [h, flatMap_append, length_append]

theorem Tracks.quiet (h : Tracks R w s) (hframe : TsMuxer.Frame w.mux w'.mux) {ps : List TsPacket}
    (hlast : ∀ i, (w'.mux.program i).lastPcr27mhz = (w.mux.program i).lastPcr27mhz) (hout : w'.out = w.out ++ ps)
    (hall : s.AdmitsAll R ps) (hcc : ∀ x ∈ w'.mux.counters, x.2 < continuityCounterModulus ∧ (s.after ps).cc x.1 = x.2)
    (hpcr : (s.after ps).pcr = s.pcr) : Tracks R w' (s.after ps) where
  valid := hframe.layout ▸ h.valid
  pos := by
    rw [Watch.pos_after, Writing.len_append hout, Watch.length_bytes hall, h.pos, hframe.written, Nat.add_assoc]
  cc := hcc
  pcr i hi := by
    rw [hpcr, TsMuxer.pcrPid_eq hframe.layout, hlast]
    exact h.pcr i (TsMuxer.length_programs_eq hframe.layout ▸ hi)
  clock hcbr bytes := by
    rw [hframe.byteClockAt]
    exact h.clock (TsMuxer.constantBitrate_eq hframe.layout ▸ hcbr) bytes
  noted hcbr i hi last hlast' := by
    rw [hframe.byteClockAt]
    rw [hlast] at hlast'
    refine (h.noted (TsMuxer.constantBitrate_eq hframe.layout ▸ hcbr) i
      (TsMuxer.length_programs_eq hframe.layout ▸ hi) last hlast').trans (TsMuxer.byteClockAt_mono _ ?_)
    rw [Watch.pos_after]
    omega
  capped i hi last hlast' := h.capped i (TsMuxer.length_programs_eq hframe.layout ▸ hi) last (hlast i ▸ hlast')

theorem Steps.silent (hframe : TsMuxer.Frame w.mux w'.mux)
    (hlast : ∀ i, (w'.mux.program i).lastPcr27mhz = (w.mux.program i).lastPcr27mhz) (hout : w'.out = w.out)
    (hcounters : ∀ x ∈ w'.mux.counters, x ∈ w.mux.counters) : Steps R w w' where
  frame := hframe
  run := ⟨[], by rw [hout, append_nil], fun _ h =>
    ⟨trivial, h.quiet hframe hlast (by rw [hout, append_nil]) trivial (fun x hx => h.cc x (hcounters x hx)) rfl⟩⟩

theorem Steps.section {pid cc : Nat} (bytes : List UInt8) (hmem : (pid, cc) ∈ w.mux.counters)
    (hframe : TsMuxer.Frame w.mux w'.mux)
    (hlast : ∀ i, (w'.mux.program i).lastPcr27mhz = (w.mux.program i).lastPcr27mhz)
    (hout : w'.out = w.out ++ (sectionPackets pid bytes cc).1)
    (hmoves : TsMuxer.Moves w.mux w'.mux (pid, (sectionPackets pid bytes cc).2)) : Steps R w w' := by
  refine ⟨hframe, _, hout, fun s h => ?_⟩
  obtain ⟨hlt, hcc⟩ := h.cc _ hmem
  obtain ⟨hall, hlt', hafter, hpcr⟩ := sectionPackets_spec (h.valid.pid_lt hmem) bytes hcc hlt
  exact ⟨hall, h.quiet hframe hlast hout hall (hmoves.cc h.valid hframe.layout h.cc hlt' hafter) hpcr⟩

/-- A packet is written whose clock reference, if it has one, is the one noted last. -/
theorem Tracks.packet (h : Tracks R w s) (hframe : TsMuxer.Frame w.mux w'.mux) {p : TsPacket}
    (hlast : ∀ i, (w'.mux.program i).lastPcr27mhz = (w.mux.program i).lastPcr27mhz) (hout : w'.out = w.out ++ [p])
    (hadmits : s.Admits R p) (hcc : ∀ x ∈ w'.mux.counters, x.2 < continuityCounterModulus ∧ (s.next p).cc x.1 = x.2)
    (hsent : ∀ v, p.adaptation.pcr27mhz = some v →
      ∃ i < w.mux.programs.length, p.pid = w.mux.pcrPid i ∧ (w.mux.program i).lastPcr27mhz = some v) :
    Tracks R w' (s.next p) where
  valid := hframe.layout ▸ h.valid
  pos := by
    have hall : s.AdmitsAll R [p] := ⟨hadmits, trivial⟩
    have hbytes := Watch.length_bytes hall
    rw [Writing.len_append hout, hbytes, hframe.written, ← Nat.add_assoc, ← h.pos]
    rfl
  cc := hcc
  pcr i hi l hl := by
    have hi' : i < w.mux.programs.length := TsMuxer.length_programs_eq hframe.layout ▸ hi
    rw [hlast]
    rw [TsMuxer.pcrPid_eq hframe.layout] at hl
    rcases hpcr : p.adaptation.pcr27mhz with _ | v
    · refine h.pcr i hi' l ?_
      unfold Watch.next at hl
      rw [hpcr] at hl
      exact hl
    · obtain ⟨j, hj, hpid, hnoted⟩ := hsent v hpcr
      unfold Watch.next at hl
      rw [hpcr] at hl
      dsimp only [Option.isSome_some] at hl
      rw [if_pos rfl, hpid] at hl
      by_cases hij : i = j
      · subst hij
        rw [update_self] at hl
        obtain rfl : v = l := Option.some.inj hl
        exact ⟨v, hnoted, Nat.le_refl v⟩
      · rw [update_of_ne fun heq => hij (h.valid.pcrPid_inj hi' hj heq)] at hl
        exact h.pcr i hi' l hl
  clock hcbr bytes := by
    rw [hframe.byteClockAt]
    exact h.clock (TsMuxer.constantBitrate_eq hframe.layout ▸ hcbr) bytes
  noted hcbr i hi last hlast' := by
    rw [hframe.byteClockAt]
    rw [hlast] at hlast'
    refine (h.noted (TsMuxer.constantBitrate_eq hframe.layout ▸ hcbr) i
      (TsMuxer.length_programs_eq hframe.layout ▸ hi) last hlast').trans (TsMuxer.byteClockAt_mono _ ?_)
    change s.pos + Writing.pcrByteOffset ≤ s.pos + tsPacketLen + Writing.pcrByteOffset
    omega
  capped i hi last hlast' := h.capped i (TsMuxer.length_programs_eq hframe.layout ▸ hi) last (hlast i ▸ hlast')

theorem Steps.packet (hframe : TsMuxer.Frame w.mux w'.mux) {p : TsPacket}
    (hlast : ∀ i, (w'.mux.program i).lastPcr27mhz = (w.mux.program i).lastPcr27mhz) (hout : w'.out = w.out ++ [p])
    (hrun : ∀ s, Tracks R w s → s.Admits R p ∧
      (∀ x ∈ w'.mux.counters, x.2 < continuityCounterModulus ∧ (s.next p).cc x.1 = x.2) ∧
      ∀ v, p.adaptation.pcr27mhz = some v →
        ∃ i < w.mux.programs.length, p.pid = w.mux.pcrPid i ∧ (w.mux.program i).lastPcr27mhz = some v) :
    Steps R w w' where
  frame := hframe
  run := ⟨[p], hout, fun s h =>
    have hs := hrun s h
    ⟨⟨hs.1, trivial⟩, h.packet hframe hlast hout hs.1 hs.2.1 hs.2.2⟩⟩

end Glass2Glass.Ts
