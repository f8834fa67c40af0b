import Glass2Glass.Ts.Tracking

/-!
# The output of the muxer conforms

What `push_au_on` writes, helper by helper, up to a run of calls: packets of 188 bytes whose continuity counters
go up by one on every PID and whose clock references do not go back, and which at a constant bitrate carry the
clock of their place. Padding comes to an end.
-/

namespace Glass2Glass.Ts

variable {R : Nat → Nat → Prop} {w : Writing}

namespace Steps

/-! ## Tables -/

theorem patPacket (w : Writing) : Steps R w w.patPacket := by
  refine .section (psiSection 0x00 w.mux.patBody) (TsMuxer.mem_counters.2 (.inl rfl)) ⟨rfl, rfl, rfl⟩
    (fun _ => rfl) rfl ⟨TsMuxer.mem_counters.2 (.inl rfl), fun y hy => ?_⟩
  rcases TsMuxer.mem_counters.1 hy with h | h
  · exact .inl h
  · exact .inr (TsMuxer.mem_counters.2 (.inr h))

theorem sdtPacket (w : Writing) : Steps R w w.sdtPacket := by
  unfold Writing.sdtPacket
  split_ifs
  · exact .refl w
  · refine .section (psiSection 0x42 w.mux.sdtBody) (TsMuxer.mem_counters.2 (.inr (.inl rfl)))
      ⟨rfl, rfl, rfl⟩ (fun _ => rfl) rfl ⟨TsMuxer.mem_counters.2 (.inr (.inl rfl)), fun y hy => ?_⟩
    rcases TsMuxer.mem_counters.1 hy with h | h | h
    · exact .inr (TsMuxer.mem_counters.2 (.inl h))
    · exact .inl h
    · exact .inr (TsMuxer.mem_counters.2 (.inr (.inr h)))

theorem pmtPacket {i : Nat} (hi : i < w.mux.programs.length) : Steps R w (w.pmtPacket i) :=
  .section (psiSection 0x02 (w.mux.pmtBody i)) (TsMuxer.counter_program hi) (TsMuxer.frame_setProgram rfl)
    (TsMuxer.getD_set_same (f := MuxProgram.lastPcr27mhz) (l := w.mux.programs) (i := i)
      (a := { w.mux.program i with pmtCc := (psiPacket _ 0x02 (w.mux.pmtBody i) (w.mux.program i).pmtCc).2 }) rfl)
    rfl (TsMuxer.moves_setProgram hi)

theorem note {w w' : Writing} (h : Steps R w w') {m : TsMuxer} (hframe : TsMuxer.Frame w'.mux m)
    (hprograms : m.programs = w'.mux.programs) (hcounters : m.counters = w'.mux.counters) : Steps R w ⟨m, w'.out⟩ :=
  h.trans (.silent hframe (fun i => by unfold TsMuxer.program; rw [hprograms]) rfl fun _ hx => hcounters ▸ hx)

theorem tables (w : Writing) : Steps R w ((List.range w.mux.programs.length).foldl Writing.pmtPacket w.patPacket) := by
  have hpat : Steps R w w.patPacket := patPacket w
  refine hpat.trans (.foldl (fun st => st) (fun st i hi hst => pmtPacket ?_) w.patPacket hpat.frame.layout)
  rw [TsMuxer.length_programs_eq hst]
  exact List.mem_range.1 hi

theorem writeTablesIfDue (w : Writing) (now27mhz : Option Nat) : Steps R w (w.writeTablesIfDue now27mhz) := by
  unfold Writing.writeTablesIfDue
  generalize hfirst : (!w.mux.tablesWritten) = first
  generalize htables : (first || cadenceDue now27mhz w.mux.lastTables27mhz w.mux.tableInterval90khz) = tablesDue
  generalize hsi : (first || cadenceDue now27mhz w.mux.lastSi27mhz w.mux.siInterval90khz) = siDue
  dsimp only
  rw [htables, hsi]
  generalize hw : (if tablesDue = true then _ else w) = w'
  have hsteps : Steps R w w' := by
    rw [← hw]
    split_ifs
    · exact (tables w).note ⟨rfl, rfl, rfl⟩ rfl rfl
    · exact .refl w
  generalize hw'' : (if siDue = true then _ else w') = w''
  have hsteps' : Steps R w w'' := by
    rw [← hw'']
    split_ifs
    · exact (hsteps.trans (sdtPacket w')).note ⟨rfl, rfl, rfl⟩ rfl rfl
    · exact hsteps
  exact hsteps'.note ⟨rfl, rfl, rfl⟩ rfl rfl

theorem writeSpliceNullIfDue (w : Writing) (now27mhz : Option Nat) : Steps R w (w.writeSpliceNullIfDue now27mhz) := by
  unfold Writing.writeSpliceNullIfDue
  split
  · exact .refl w
  · rename_i pid cc hsplice
    split_ifs
    · exact .refl w
    · have hmem : (pid, cc) ∈ w.mux.counters :=
        TsMuxer.mem_counters.2 (.inr (.inr (.inr (.inr hsplice))))
      have hlayout : TsMuxer.layout { w.mux with
          splice := some (pid, (sectionPackets pid spliceNull cc).2), lastSplice27mhz := now27mhz } = w.mux.layout := by
        unfold TsMuxer.layout
        rw [hsplice]
        rfl
      refine .section spliceNull hmem ⟨hlayout, rfl, rfl⟩ (fun _ => rfl) rfl
        ⟨TsMuxer.mem_counters.2 (.inr (.inr (.inr (.inr rfl)))), fun y hy => ?_⟩
      rcases TsMuxer.mem_counters.1 hy with h | h | h | h | h
      · exact .inr (TsMuxer.mem_counters.2 (.inl h))
      · exact .inr (TsMuxer.mem_counters.2 (.inr (.inl h)))
      · exact .inr (TsMuxer.mem_counters.2 (.inr (.inr (.inl h))))
      · exact .inr (TsMuxer.mem_counters.2 (.inr (.inr (.inr (.inl h)))))
      · exact .inl (Option.some.inj h).symm

/-! ## Clock references -/

/-- A program notes a clock reference that is not before its last one, nor past the clock. -/
theorem notePcr {i v : Nat} (hi : i < w.mux.programs.length) (hcap : v ≤ u64Max)
    (hv : ∀ s, Tracks R w s → (∀ last, (w.mux.program i).lastPcr27mhz = some last → last ≤ v) ∧
      (w.mux.constantBitrate = true → v ≤ w.mux.byteClockAt (s.pos + Writing.pcrByteOffset))) :
    Steps R w (w.notePcr i v) := by
  have hframe : TsMuxer.Frame w.mux (w.notePcr i v).mux := TsMuxer.frame_setProgram rfl
  have hprogram : (w.notePcr i v).mux.program i = { w.mux.program i with lastPcr27mhz := some v } :=
    TsMuxer.program_setProgram hi
  have hother : ∀ j, j ≠ i → (w.notePcr i v).mux.program j = w.mux.program j := fun j hj =>
    TsMuxer.program_setProgram_ne hj.symm
  have hcounters : ∀ x ∈ (w.notePcr i v).mux.counters, x ∈ w.mux.counters := fun x hx => by
    rcases (TsMuxer.moves_setProgram (p := { w.mux.program i with lastPcr27mhz := some v }) hi).rest x hx with rfl | h
    · exact TsMuxer.counter_program hi
    · exact h
  refine ⟨hframe, [], (List.append_nil _).symm, fun s h => ⟨trivial, ?_⟩⟩
  obtain ⟨hlast, hclock⟩ := hv s h
  exact
    { valid := hframe.layout ▸ h.valid
      pos := h.pos
      cc := fun x hx => h.cc x (hcounters x hx)
      pcr := fun j hj l hl => by
        rw [TsMuxer.pcrPid_eq hframe.layout] at hl
        rw [TsMuxer.length_programs_eq hframe.layout] at hj
        obtain ⟨last, hnoted, hle⟩ := h.pcr j hj l hl
        by_cases hji : j = i
        · subst hji
          rw [hprogram]
          exact ⟨v, rfl, hle.trans (hlast last hnoted)⟩
        · rw [hother j hji]
          exact ⟨last, hnoted, hle⟩
      clock := fun hcbr bytes => by
        exact h.clock (TsMuxer.constantBitrate_eq hframe.layout ▸ hcbr) bytes
      noted := fun hcbr j hj last hnoted => by
        rw [TsMuxer.length_programs_eq hframe.layout] at hj
        by_cases hji : j = i
        · subst hji
          rw [hprogram] at hnoted
          obtain rfl : v = last := Option.some.inj hnoted
          exact hclock hcbr
        · rw [hother j hji] at hnoted
          exact h.noted hcbr j hj last hnoted
      capped := fun j hj last hnoted => by
        rw [TsMuxer.length_programs_eq hframe.layout] at hj
        by_cases hji : j = i
        · subst hji
          rw [hprogram] at hnoted
          obtain rfl : v = last := Option.some.inj hnoted
          exact hcap
        · rw [hother j hji] at hnoted
          exact h.capped j hj last hnoted }

/-- A reference that is sent is the last one its program noted, and is one of its place. -/
structure Sends (R : Nat → Nat → Prop) (w : Writing) (i v : Nat) : Prop where
  noted : (w.mux.program i).lastPcr27mhz = some v
  place : ∀ s, Tracks R w s → R (s.pos + Writing.pcrByteOffset) v

theorem pcrOnlyPacket {i v : Nat} (hi : i < w.mux.programs.length) (hsends : Sends R w i v) :
    Steps R w (w.pcrOnlyPacket i v) := by
  refine .packet (.refl _) (fun _ => rfl) rfl fun s h => ?_
  obtain ⟨hlt, -⟩ := h.valid.pcrStream_lt hi
  have hmem := TsMuxer.counter_stream hlt
  obtain ⟨hcc, hkept⟩ := h.cc _ hmem
  have hpid := h.valid.pid_lt hmem
  have hadmits : s.Admits R ⟨w.mux.pcrPid i, false,
      ((w.mux.stream (w.mux.program i).pcrStream).esCc + (continuityCounterModulus - 1)) % continuityCounterModulus,
      ⟨some v, false⟩, []⟩ :=
    { fits :=
        { payload := Nat.zero_le _
          pid := hpid.trans_le (by decide)
          cc := Nat.mod_lt _ (by decide)
          nonempty := fun _ => nofun }
      counter := fun _ hne => absurd rfl hne
      repeats := fun _ _ => by
        unfold TsMuxer.pcrPid
        rw [hkept]
      forward := fun v' hv' l hl => by
        obtain ⟨last, hnoted, hle⟩ := h.pcr i hi l hl
        rw [hsends.noted] at hnoted
        obtain rfl : v = v' := Option.some.inj hv'
        obtain rfl : v = last := Option.some.inj hnoted
        exact hle
      onClock := fun v' hv' => by
        obtain rfl : v = v' := Option.some.inj hv'
        exact hsends.place s h }
  refine ⟨hadmits, h.cc, fun v' hv' => ?_⟩
  obtain rfl : v = v' := Option.some.inj hv'
  exact ⟨i, hi, rfl, hsends.noted⟩

theorem noteClock (hcbr : w.mux.constantBitrate = true) {i : Nat} (hi : i < w.mux.programs.length) :
    Steps R w (w.notePcr i (w.byteClock Writing.pcrByteOffset)) ∧
      Sends R (w.notePcr i (w.byteClock Writing.pcrByteOffset)) i (w.byteClock Writing.pcrByteOffset) := by
  have hclock : ∀ s, Tracks R w s →
      w.byteClock Writing.pcrByteOffset = w.mux.byteClockAt (s.pos + Writing.pcrByteOffset) := fun s h => by
    unfold Writing.byteClock TsMuxer.byteClock27mhz
    rw [h.pos, Nat.add_assoc]
  have hframe : TsMuxer.Frame w.mux (w.notePcr i (w.byteClock Writing.pcrByteOffset)).mux :=
    TsMuxer.frame_setProgram rfl
  refine ⟨notePcr hi (TsMuxer.byteClockAt_le hcbr _) fun s h => ⟨fun last hnoted => ?_, fun _ => (hclock s h).le⟩, ?_, fun s h => ?_⟩
  · rw [hclock s h]
    exact h.noted hcbr i hi last hnoted
  · exact congrArg MuxProgram.lastPcr27mhz (TsMuxer.program_setProgram hi)
  · have hplace : w.byteClock Writing.pcrByteOffset =
        (w.notePcr i (w.byteClock Writing.pcrByteOffset)).mux.byteClockAt (s.pos + Writing.pcrByteOffset) := by
      rw [hframe.byteClockAt, h.pos, hframe.written, Nat.add_assoc]
      rfl
    rw [hplace]
    exact h.clock (TsMuxer.constantBitrate_eq hframe.layout ▸ hcbr) _

theorem writeDuePcr (hcbr : w.mux.constantBitrate = true) (embeddingStream : Option Nat) (wrote : Bool) {i : Nat}
    (hi : i < w.mux.programs.length) : Steps R w (Writing.writeDuePcr embeddingStream (w, wrote) i).1 := by
  unfold Writing.writeDuePcr
  dsimp only
  split_ifs
  · exact .refl w
  · exact .refl w
  · obtain ⟨hnote, hsends⟩ := noteClock (R := R) hcbr hi
    exact hnote.trans (pcrOnlyPacket (by rw [TsMuxer.length_programs_eq hnote.frame.layout]; exact hi) hsends)

theorem writeDuePcrOnlyPackets (hcbr : w.mux.constantBitrate = true) (embeddingStream : Option Nat) :
    Steps R w (w.writeDuePcrOnlyPackets embeddingStream).1 := by
  refine .foldl (fun st : Writing × Bool => st.1) (fun st i hi hst => ?_) (w, false) rfl
  refine writeDuePcr (TsMuxer.constantBitrate_eq hst ▸ hcbr) embeddingStream st.2 ?_
  rw [TsMuxer.length_programs_eq hst]
  exact List.mem_range.1 hi

/-! ## Padding -/

theorem nullPacket (w : Writing) : Steps R w (w.append [Writing.nullPacket]) := by
  refine .packet (.refl _) (fun _ => rfl) rfl fun s h => ?_
  have hadmits : s.Admits R Writing.nullPacket :=
    { fits := ⟨List.length_replicate.le, by decide, by decide, fun hnil => absurd hnil (List.cons_ne_nil _ _)⟩
      counter := fun hne => absurd rfl hne
      repeats := fun hne => absurd rfl hne
      forward := nofun
      onClock := nofun }
  refine ⟨hadmits, fun x hx => ?_, nofun⟩
  have hpid : Writing.nullPacket.pid ≠ x.1 := (h.valid.pid_lt hx).ne'
  rw [Watch.cc_next_of_ne hpid]
  exact h.cc x hx

theorem padUntil (hcbr : w.mux.constantBitrate = true) {target27mhz fuel : Nat} {w' : Writing}
    (h : Writing.padUntil target27mhz fuel w = some w') : Steps R w w' := by
  induction fuel generalizing w with
  | zero => exact absurd h nofun
  | succ fuel ih =>
    unfold Writing.padUntil at h
    dsimp only at h
    have htables := Steps.writeTablesIfDue (R := R) w (some (w.byteClock 0))
    have hcbr' := (TsMuxer.constantBitrate_eq htables.frame.layout).trans hcbr
    have hdue := Steps.writeDuePcrOnlyPackets (R := R) hcbr' none
    split_ifs at h with hreached hwrote
    · exact Option.some.inj h ▸ htables
    · exact (htables.trans hdue).trans (ih ((TsMuxer.constantBitrate_eq hdue.frame.layout).trans hcbr') h)
    · exact ((htables.trans hdue).trans (nullPacket _)).trans
        (ih ((TsMuxer.constantBitrate_eq hdue.frame.layout).trans hcbr') h)

theorem len_le {w' : Writing} (h : Steps R w w') : w.len ≤ w'.len := by
  obtain ⟨-, ps, hps, -⟩ := h
  rw [Writing.len_append hps]
  exact Nat.le_add_right ..

end Steps

/-! ## Padding ends -/

theorem TsPacket.length_bytes_pos (p : TsPacket) : 0 < p.bytes.length := by
  rw [p.bytes_eq]
  exact Nat.succ_pos _

namespace Writing

theorem lt_len_append (w : Writing) (p : TsPacket) : w.len < (w.append [p]).len := by
  have hpos := p.length_bytes_pos
  rw [@len_append w (w.append [p]) [p] rfl, List.flatMap_cons, List.length_append]
  omega

theorem writeDuePcr_len {embeddingStream : Option Nat} {base : Nat} (l : List Nat) (st : Writing × Bool)
    (hle : base ≤ st.1.len) (hwrote : st.2 = true → base < st.1.len) :
    base ≤ (l.foldl (writeDuePcr embeddingStream) st).1.len ∧ ((l.foldl (writeDuePcr embeddingStream) st).2 = true →
        base < (l.foldl (writeDuePcr embeddingStream) st).1.len) := by
  induction l generalizing st with
  | nil => exact ⟨hle, hwrote⟩
  | cons i l ih =>
    have hnext : base ≤ (writeDuePcr embeddingStream st i).1.len ∧
        ((writeDuePcr embeddingStream st i).2 = true → base < (writeDuePcr embeddingStream st i).1.len) := by
      unfold writeDuePcr
      dsimp only
      split_ifs
      · exact ⟨hle, hwrote⟩
      · exact ⟨hle, hwrote⟩
      · have hlt : st.1.len <
            ((st.1.notePcr i (st.1.byteClock pcrByteOffset)).pcrOnlyPacket i (st.1.byteClock pcrByteOffset)).len :=
          lt_len_append (st.1.notePcr i (st.1.byteClock pcrByteOffset)) _
        exact ⟨hle.trans hlt.le, fun _ => hle.trans_lt hlt⟩
    exact ih _ hnext.1 hnext.2

theorem le_byteClockAt {m : TsMuxer} (hcbr : m.constantBitrate = true) {target bytes : Nat} (htarget : target ≤ u64Max)
    (hbytes : target * m.bitrate ≤ bytes) : target ≤ m.byteClockAt bytes := by
  have hpos : 0 < m.bitrate := of_decide_eq_true hcbr
  have helapsed : target ≤ bytes * 8 * 27000000 / m.bitrate := by
    rw [Nat.le_div_iff_mul_le hpos]
    omega
  unfold TsMuxer.byteClockAt saturatingAdd
  dsimp only
  rw [if_pos hcbr]
  omega

/-- Padding comes to its target: every turn writes a packet, and the bytes up to the target are finitely many. -/
theorem padUntil_isSome {target fuel : Nat} (htarget : target ≤ u64Max) (hpos : fuel ≠ 0) {w : Writing}
    (hcbr : w.mux.constantBitrate = true) (hfuel : target * w.mux.bitrate < w.mux.bytesWritten + w.len + fuel) :
    ∃ w', padUntil target fuel w = some w' := by
  induction fuel generalizing w with
  | zero => exact absurd rfl hpos
  | succ fuel ih =>
    have htables := Steps.writeTablesIfDue (R := fun _ _ => True) w (some (w.byteClock 0))
    have hcbr' := (TsMuxer.constantBitrate_eq htables.frame.layout).trans hcbr
    have hdue := Steps.writeDuePcrOnlyPackets (R := fun _ _ => True) hcbr' none
    have hboth := htables.trans hdue
    have hbitrate : (w.writeTablesIfDue (some (w.byteClock 0))).mux.bitrate = w.mux.bitrate :=
      congrArg Layout.bitrate htables.frame.layout
    unfold padUntil
    dsimp only
    by_cases hreached : target ≤ (w.writeTablesIfDue (some (w.byteClock 0))).byteClock 0
    · rw [if_pos hreached]
      exact ⟨_, rfl⟩
    · rw [if_neg hreached]
      have hshort : w.mux.bytesWritten + w.len < target * w.mux.bitrate := by
        refine Nat.lt_of_not_le fun hle => hreached (le_byteClockAt hcbr' htarget ?_)
        rw [hbitrate, htables.frame.written, Nat.add_zero]
        exact hle.trans (Nat.add_le_add_left htables.len_le _)
      have hnext : ∀ w' : Writing, w'.mux.layout = w.mux.layout → w'.mux.bytesWritten = w.mux.bytesWritten →
          w.len < w'.len → ∃ w'', padUntil target fuel w' = some w'' := fun w' hlayout hwritten hlen => by
        have hbitrate' : w'.mux.bitrate = w.mux.bitrate := congrArg Layout.bitrate hlayout
        refine ih (by omega) ((TsMuxer.constantBitrate_eq hlayout).trans hcbr) ?_
        rw [hbitrate', hwritten]
        omega
      have hwrote := (@writeDuePcr_len none _
        (List.range (w.writeTablesIfDue (some (w.byteClock 0))).mux.programs.length)
        (w.writeTablesIfDue (some (w.byteClock 0)), false) htables.len_le nofun).2
      split_ifs with hw
      · exact hnext _ hboth.frame.layout hboth.frame.written (hwrote hw)
      · exact hnext _ hboth.frame.layout hboth.frame.written (hboth.len_le.trans_lt (lt_len_append _ _))

end Writing

/-! ## PES packets -/

namespace Steps

theorem pesFor {j : Nat} (hj : j < w.mux.streams.length) (au : List UInt8) (pts90khz dts90khz : Option Nat) :
    Steps R w (w.pesFor j au pts90khz dts90khz).1 := by
  have hset : ∀ s : MuxStream, (s.pid, s.program) = ((w.mux.stream j).pid, (w.mux.stream j).program) →
      s.esCc = (w.mux.stream j).esCc → Steps R w { w with mux := w.mux.setStream j s } := fun s hs hcc => by
    refine .silent (TsMuxer.frame_setStream hs) (fun _ => rfl) rfl fun x hx => ?_
    rcases (TsMuxer.moves_setStream hj).rest x hx with rfl | h
    · have hpid : s.pid = (w.mux.stream j).pid := congrArg Prod.fst hs
      rw [hpid, hcc]
      exact TsMuxer.counter_stream hj
    · exact h
  unfold Writing.pesFor
  dsimp only
  split_ifs
  · exact hset _ rfl rfl
  · exact hset _ rfl rfl

/-- A reference rides a packet of stream `j`, which carries those of its program. -/
structure Embeds (R : Nat → Nat → Prop) (w : Writing) (j v : Nat) : Prop where
  sends : Sends R w (w.mux.stream j).program v
  pcrStream : (w.mux.program (w.mux.stream j).program).pcrStream = j

theorem esPacket {j : Nat} (hj : j < w.mux.streams.length) (first : Bool) (adaptation : AdaptationField)
    (payload : List UInt8) (hpayload : payload ≠ []) (hroom : payload.length ≤ tsPayloadMax - adaptation.len)
    (hembeds : ∀ v, adaptation.pcr27mhz = some v → Embeds R w j v) :
    Steps R w (w.esPacket j first adaptation payload) := by
  have hframe : TsMuxer.Frame w.mux (w.esPacket j first adaptation payload).mux := TsMuxer.frame_setStream rfl
  have hmem := TsMuxer.counter_stream hj
  refine .packet hframe (fun _ => rfl) rfl fun s h => ?_
  obtain ⟨hlt, hkept⟩ := h.cc _ hmem
  have hpid := h.valid.pid_lt hmem
  have hprogram := h.valid.program_lt hj
  have hadmits : s.Admits R ⟨(w.mux.stream j).pid, first, (w.mux.stream j).esCc, adaptation, payload⟩ :=
    { fits := ⟨hroom, hpid.trans_le (by decide), hlt, fun hnil => absurd hnil hpayload⟩
      counter := fun _ _ => hkept.symm
      repeats := fun _ hnil => absurd hnil hpayload
      forward := fun v hv l hl => by
        obtain ⟨hsends, hpcr⟩ := hembeds v hv
        have hpid : w.mux.pcrPid (w.mux.stream j).program = (w.mux.stream j).pid := by
          unfold TsMuxer.pcrPid
          rw [hpcr]
        obtain ⟨last, hnoted, hle⟩ := h.pcr _ hprogram l (hpid ▸ hl)
        rw [hsends.noted] at hnoted
        obtain rfl : v = last := Option.some.inj hnoted
        exact hle
      onClock := fun v hv => (hembeds v hv).sends.place s h }
  have hmoves := TsMuxer.moves_setStream (s := { w.mux.stream j with
    esCc := advanceContinuityCounter (w.mux.stream j).esCc }) hj
  have hafter : (s.next ⟨(w.mux.stream j).pid, first, (w.mux.stream j).esCc, adaptation, payload⟩).cc =
      Function.update s.cc (w.mux.stream j).pid (advanceContinuityCounter (w.mux.stream j).esCc) := by
    unfold Watch.next
    rw [if_neg hpayload, hkept]
    rfl
  refine ⟨hadmits, hmoves.cc h.valid hframe.layout h.cc (Nat.mod_lt _ (by decide)) hafter, fun v hv => ?_⟩
  obtain ⟨hsends, hpcr⟩ := hembeds v hv
  refine ⟨_, hprogram, ?_, hsends.noted⟩
  unfold TsMuxer.pcrPid
  rw [hpcr]

theorem embeddedPcr (hvalid : w.mux.layout.Valid) (hcbr : w.mux.constantBitrate = true) {j : Nat}
    (hj : j < w.mux.streams.length) (forced : Bool) : Steps R w (w.embeddedPcr j forced).1 ∧
      ∀ v, (w.embeddedPcr j forced).2 = some v → Embeds R (w.embeddedPcr j forced).1 j v := by
  unfold Writing.embeddedPcr
  dsimp only
  split_ifs with hpcr hdue
  · exact ⟨.refl w, fun _ => nofun⟩
  · exact ⟨.refl w, fun _ => nofun⟩
  · obtain ⟨hnote, hsends⟩ := noteClock (R := R) hcbr (hvalid.program_lt hj)
    refine ⟨hnote, fun v hv => ?_⟩
    obtain rfl : w.byteClock Writing.pcrByteOffset = v := Option.some.inj hv
    refine ⟨hsends, ?_⟩
    have hprogram : (w.notePcr (w.mux.stream j).program (w.byteClock Writing.pcrByteOffset)).mux.program
        (w.mux.stream j).program = { w.mux.program (w.mux.stream j).program with
          lastPcr27mhz := some (w.byteClock Writing.pcrByteOffset) } :=
      TsMuxer.program_setProgram (hvalid.program_lt hj)
    exact (congrArg MuxProgram.pcrStream hprogram).trans (not_not.1 hpcr)

theorem pesPcr (forcePcr : Bool) (hvalid : w.mux.layout.Valid) {j : Nat} (hj : j < w.mux.streams.length) {first : Bool}
    {firstPacketPcr : Option Nat}
    (hfirst : first = true → w.mux.constantBitrate = false → ∀ v, firstPacketPcr = some v → Embeds R w j v) :
    Steps R w (w.pesPcr j first forcePcr firstPacketPcr).1 ∧
      ∀ v, (w.pesPcr j first forcePcr firstPacketPcr).2 = some v →
        Embeds R (w.pesPcr j first forcePcr firstPacketPcr).1 j v := by
  unfold Writing.pesPcr
  split_ifs with hcbr hisFirst
  · have hdue := Steps.writeDuePcrOnlyPackets (R := R) hcbr (some j)
    obtain ⟨hsteps, hembeds⟩ := embeddedPcr (R := R) (hdue.frame.layout ▸ hvalid)
      ((TsMuxer.constantBitrate_eq hdue.frame.layout).trans hcbr)
      (by rw [TsMuxer.length_streams_eq hdue.frame.layout]; exact hj) (first && forcePcr)
    exact ⟨hdue.trans hsteps, hembeds⟩
  · exact ⟨.refl w, hfirst hisFirst (Bool.not_eq_true _ ▸ hcbr)⟩
  · exact ⟨.refl w, fun _ => nofun⟩

theorem pesLoop {j : Nat} (randomAccess forcePcr : Bool) {firstPacketPcr : Option Nat} (fuel : Nat) (first : Bool)
    {w : Writing} (rest : List UInt8) (hvalid : w.mux.layout.Valid) (hj : j < w.mux.streams.length)
    (hfirst : first = true → w.mux.constantBitrate = false → ∀ v, firstPacketPcr = some v → Embeds R w j v) :
    Steps R w (w.pesLoop j randomAccess forcePcr firstPacketPcr fuel first rest) := by
  induction fuel generalizing first rest w with
  | zero => exact .refl w
  | succ fuel ih =>
    unfold Writing.pesLoop
    split_ifs with hdone
    · exact .refl w
    · obtain ⟨hpcr, hembeds⟩ := pesPcr forcePcr hvalid hj hfirst
      have hj' : j < (w.pesPcr j first forcePcr firstPacketPcr).1.mux.streams.length := by
        rw [TsMuxer.length_streams_eq hpcr.frame.layout]
        exact hj
      have hroom : 0 < tsPayloadMax - AdaptationField.len
          ⟨(w.pesPcr j first forcePcr firstPacketPcr).2, first && randomAccess⟩ := by
        have hle := AdaptationField.len_le ⟨(w.pesPcr j first forcePcr firstPacketPcr).2, first && randomAccess⟩
        unfold tsPayloadMax
        omega
      have hpos := List.length_pos_iff.2 hdone
      have hpacket := esPacket (R := R) hj' first ⟨(w.pesPcr j first forcePcr firstPacketPcr).2, first && randomAccess⟩
        (rest.take (min rest.length (tsPayloadMax - AdaptationField.len
          ⟨(w.pesPcr j first forcePcr firstPacketPcr).2, first && randomAccess⟩)))
        (fun hnil => by rcases List.take_eq_nil_iff.1 hnil with h | h <;> [omega; exact hdone h])
        (by rw [List.length_take]; omega) hembeds
      have hboth := hpcr.trans hpacket
      exact hboth.trans (ih false _ (hboth.frame.layout ▸ hvalid)
        (by rw [TsMuxer.length_streams_eq hboth.frame.layout]; exact hj) nofun)

theorem le_of_pcrDue {m : TsMuxer} {i now last : Nat} (hdue : m.pcrDue i now = true)
    (hlast : (m.program i).lastPcr27mhz = some last) (hcap : last ≤ u64Max) : last ≤ now := by
  unfold TsMuxer.pcrDue saturatingAdd at hdue
  rw [hlast, Option.all_some] at hdue
  have hle := of_decide_eq_true hdue
  omega

/-- At a variable bitrate the reference of a unit is its clock. -/
theorem variablePcr (forcePcr : Bool) (hvalid : w.mux.layout.Valid) {j : Nat} (hj : j < w.mux.streams.length)
    (hvbr : w.mux.constantBitrate = false) {clock : Option Nat}
    (hclock : ∀ v, clock = some v → v ≤ u64Max ∧ ∀ bytes, R bytes v) : Steps R w (w.variablePcr j forcePcr clock).1 ∧
      ∀ v, (w.variablePcr j forcePcr clock).2 = some v →
        Embeds R (w.variablePcr j forcePcr clock).1 j v ∧ ∀ bytes, R bytes v := by
  have hprogram := hvalid.program_lt hj
  unfold Writing.variablePcr
  rcases clock with _ | now
  · exact ⟨.refl w, fun _ => nofun⟩
  · obtain ⟨hcap, hok⟩ := hclock now rfl
    dsimp only
    by_cases hdue : (forcePcr && ((w.mux.program (w.mux.stream j).program).lastPcr27mhz.all fun last => last ≤ now) ||
        w.mux.pcrDue (w.mux.stream j).program now) = true
    · rw [if_pos hdue]
      have hnote : Steps R w (w.notePcr (w.mux.stream j).program now) := by
        refine notePcr hprogram hcap fun s h => ⟨fun last hlast => ?_, fun hcbr => ?_⟩
        · rcases Bool.or_eq_true_iff.1 hdue with hforced | hdue
          · have hall := (Bool.and_eq_true_iff.1 hforced).2
            rw [hlast, Option.all_some] at hall
            exact of_decide_eq_true hall
          · exact le_of_pcrDue hdue hlast (h.capped _ hprogram last hlast)
        · exact absurd hcbr (hvbr ▸ Bool.false_ne_true)
      have hnoted : (w.notePcr (w.mux.stream j).program now).mux.program (w.mux.stream j).program =
          { w.mux.program (w.mux.stream j).program with lastPcr27mhz := some now } :=
        TsMuxer.program_setProgram hprogram
      have hsends : Sends R (w.notePcr (w.mux.stream j).program now) (w.mux.stream j).program now :=
        ⟨congrArg MuxProgram.lastPcr27mhz hnoted, fun _ _ => hok _⟩
      split_ifs with hpcr
      · refine ⟨hnote, fun v hv => ?_⟩
        obtain rfl : now = v := Option.some.inj hv
        exact ⟨⟨hsends, hpcr⟩, hok⟩
      · refine ⟨hnote.trans (pcrOnlyPacket ?_ hsends), fun _ => nofun⟩
        rw [TsMuxer.length_programs_eq hnote.frame.layout]
        exact hprogram
    · rw [if_neg hdue]
      exact ⟨.refl w, fun _ => nofun⟩

theorem embeds_pesFor {j v : Nat} (hj : j < w.mux.streams.length) (h : Embeds R w j v) (hok : ∀ bytes, R bytes v)
    (au : List UInt8) (pts90khz dts90khz : Option Nat) : Embeds R (w.pesFor j au pts90khz dts90khz).1 j v := by
  have hsteps := pesFor (R := R) hj au pts90khz dts90khz
  have hstream : ((w.pesFor j au pts90khz dts90khz).1.mux.stream j).program = (w.mux.stream j).program :=
    congrArg Prod.snd (((TsMuxer.layout_stream _ j).trans (hsteps.frame.layout ▸ (w.mux.layout_stream j).symm)))
  refine ⟨⟨?_, fun _ _ => hok _⟩, ?_⟩
  · rw [hstream]
    exact h.sends.noted
  · rw [hstream]
    exact h.pcrStream

end Steps

/-! ## A call -/

namespace TsMuxer

/-- The muxer with its clock started: at a constant bitrate the first call starts it. -/
def started (m : TsMuxer) (clock : Option Nat) : TsMuxer :=
  if m.constantBitrate then { m with byteClockStart27mhz := some (m.byteClockStart27mhz.getD (clock.getD 0)) } else m

theorem started_layout (m : TsMuxer) (clock : Option Nat) : (m.started clock).layout = m.layout := by
  unfold started
  split_ifs <;> rfl

theorem started_of_start {m : TsMuxer} (h : m.constantBitrate = true → m.byteClockStart27mhz ≠ none)
    (clock : Option Nat) : m.started clock = m := by
  unfold started
  split_ifs with hcbr
  · obtain ⟨start, hstart⟩ := Option.ne_none_iff_exists'.1 (h hcbr)
    rw [hstart, Option.getD_some, ← hstart]
  · rfl

variable {m : TsMuxer} {call : AuCall}

theorem inputClock_le (call : AuCall) {v : Nat} (h : call.inputClock27mhz = some v) : v ≤ u64Max := by
  obtain ⟨clock, -, rfl⟩ := Option.map_eq_some_iff.1 h
  exact Nat.min_le_right ..

theorem opened_spec (hstart : ∀ start, m.byteClockStart27mhz = some start → start ≤ u64Max) :
    ∃ w, (if m.constantBitrate then (⟨m, []⟩ : Writing).padToCall call.inputClock27mhz
        else some ((⟨m, []⟩ : Writing).writeTablesIfDue call.inputClock27mhz)) = some w ∧
      Steps R ⟨m.started call.inputClock27mhz, []⟩ w := by
  by_cases hcbr : m.constantBitrate = true
  · rw [if_pos hcbr]
    unfold Writing.padToCall started
    rw [if_pos hcbr]
    have hclock : ∀ d ≤ u64Max, call.inputClock27mhz.getD d ≤ u64Max := fun d hd => by
      rcases h : call.inputClock27mhz with _ | v
      · exact hd
      · exact inputClock_le call h
    have htarget : call.inputClock27mhz.getD (m.byteClockStart27mhz.getD (call.inputClock27mhz.getD 0)) ≤ u64Max := by
      refine hclock _ ?_
      rcases h : m.byteClockStart27mhz with _ | start
      · exact hclock 0 (Nat.zero_le _)
      · exact hstart start h
    obtain ⟨w, hw⟩ := Writing.padUntil_isSome htarget (Nat.succ_ne_zero _)
      (w := ⟨{ m with byteClockStart27mhz := some (m.byteClockStart27mhz.getD (call.inputClock27mhz.getD 0)) }, []⟩)
      hcbr (Nat.lt_of_lt_of_le (Nat.lt_succ_self _) (Nat.le_add_left _ _))
    exact ⟨w, hw, .padUntil hcbr hw⟩
  · rw [if_neg hcbr]
    unfold started
    rw [if_neg hcbr]
    exact ⟨_, rfl, .writeTablesIfDue _ _⟩

/-- A call writes packets that are admitted, and the watch keeps up with the muxer. -/
theorem pushAuOn_spec (hvalid : m.layout.Valid) (hstream : call.stream < m.streams.length)
    (hstart : ∀ start, m.byteClockStart27mhz = some start → start ≤ u64Max)
    (hok : m.constantBitrate = false → ∀ v, call.inputClock27mhz = some v → ∀ bytes, R bytes v) :
    ∃ out m', m.pushAuOn call = some (out, m') ∧ m'.layout = m.layout ∧
      m'.byteClockStart27mhz = (m.started call.inputClock27mhz).byteClockStart27mhz ∧
      ∀ s, Tracks R ⟨m.started call.inputClock27mhz, []⟩ s → s.AdmitsAll R out ∧ Tracks R ⟨m', []⟩ (s.after out) := by
  obtain ⟨w₁, hw₁, hopened⟩ := @opened_spec R m call hstart
  have hlayout₁ : w₁.mux.layout = m.layout := hopened.frame.layout.trans (m.started_layout _)
  have hsplice := Steps.writeSpliceNullIfDue (R := R) w₁ call.inputClock27mhz
  unfold pushAuOn
  dsimp only
  rw [hw₁, Option.map_some]
  generalize w₁.writeSpliceNullIfDue call.inputClock27mhz = w₂ at *
  have hlayout₂ : w₂.mux.layout = m.layout := hsplice.frame.layout.trans hlayout₁
  have hvalid₂ : w₂.mux.layout.Valid := hlayout₂ ▸ hvalid
  have hstream₂ : call.stream < w₂.mux.streams.length := by
    rw [length_streams_eq hlayout₂]
    exact hstream
  generalize (call.keyframe && !(w₂.mux.stream call.stream).teletext) = randomAccess
  generalize (randomAccess && decide ((w₂.mux.program (w₂.mux.stream call.stream).program).pcrStream =
    call.stream)) = forcePcr
  have hvariable : Steps R w₂ (if m.constantBitrate then (w₂, none)
      else w₂.variablePcr call.stream forcePcr call.inputClock27mhz).1 ∧
      (m.constantBitrate = false → ∀ v, (if m.constantBitrate then (w₂, none)
        else w₂.variablePcr call.stream forcePcr call.inputClock27mhz).2 = some v →
        Steps.Embeds R (if m.constantBitrate then (w₂, none)
          else w₂.variablePcr call.stream forcePcr call.inputClock27mhz).1 call.stream v ∧ ∀ bytes, R bytes v) := by
    split_ifs with hcbr
    · exact ⟨Steps.refl w₂, fun _ _ => nofun⟩
    · have hvbr := Bool.not_eq_true _ ▸ hcbr
      obtain ⟨hsteps, hembeds⟩ := Steps.variablePcr forcePcr hvalid₂ hstream₂
        ((constantBitrate_eq hlayout₂).trans hvbr) (fun v hv => ⟨inputClock_le call hv, hok hvbr v hv⟩)
      exact ⟨hsteps, fun _ => hembeds⟩
  obtain ⟨hsteps₃, hembeds₃⟩ := hvariable
  generalize (if m.constantBitrate then (w₂, none)
    else w₂.variablePcr call.stream forcePcr call.inputClock27mhz) = st at *
  obtain ⟨w₃, firstPacketPcr⟩ := st
  have hlayout₃ : w₃.mux.layout = m.layout := hsteps₃.frame.layout.trans hlayout₂
  have hstream₃ : call.stream < w₃.mux.streams.length := by
    rw [length_streams_eq hlayout₃]
    exact hstream
  generalize (call.pts90khz.map fun pts => saturatingAdd pts w₃.mux.decoderDelay90khz) = pts
  generalize (call.dts90khz.map fun dts => saturatingAdd dts w₃.mux.decoderDelay90khz) = dts
  have hpes := Steps.pesFor (R := R) hstream₃ call.au pts dts
  have hembeds₄ : m.constantBitrate = false → ∀ v, firstPacketPcr = some v →
      Steps.Embeds R (w₃.pesFor call.stream call.au pts dts).1 call.stream v := fun hvbr v hv =>
    Steps.embeds_pesFor hstream₃ (hembeds₃ hvbr v hv).1 (hembeds₃ hvbr v hv).2 call.au pts dts
  generalize w₃.pesFor call.stream call.au pts dts = st at *
  obtain ⟨w₄, pes⟩ := st
  have hlayout₄ : w₄.mux.layout = m.layout := hpes.frame.layout.trans hlayout₃
  have hloop := Steps.pesLoop (R := R) randomAccess forcePcr pes.length true pes (hlayout₄ ▸ hvalid) (by rw [length_streams_eq hlayout₄]; exact hstream)
    (fun _ hvbr => hembeds₄ ((constantBitrate_eq hlayout₄).symm.trans hvbr))
  have hall := (((hopened.trans hsplice).trans hsteps₃).trans hpes).trans hloop
  refine ⟨_, _, rfl, hloop.frame.layout.trans hlayout₄, hall.frame.start, fun s hs => ?_⟩
  obtain ⟨-, ps, hps, hrun⟩ := hall
  obtain ⟨hadmits, htracks⟩ := hrun s hs
  obtain rfl : ps = _ := hps.symm
  exact ⟨hadmits, { htracks with pos := htracks.pos }⟩

end TsMuxer

end Glass2Glass.Ts
