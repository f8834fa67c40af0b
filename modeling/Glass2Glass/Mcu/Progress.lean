import Glass2Glass.Mcu.Reorder

/-!
# Whether a jitter buffer goes on playing

A buffer that waits for its head gives it up when later packets arrive inside the window. So as long as
every packet that meets a waiting buffer lies inside the window, packets with growing numbers soon make it
play: each one it keeps quiet about is one more held. A packet beyond the window is not held, the cursor
stays, and every later packet is beyond the window too (`jitter_progress_iff`). A gap of a whole window
after everything held has been played therefore ends the stream (`gap_stalls`).
-/

namespace Glass2Glass.Mcu

open Machine JitterBuffer List

/-- A buffer that plays nothing until something more is held: it has not reached its depth, or its head
is missing and not given up. -/
def Waiting (N : Nat) (b : JitterBuffer) : Prop :=
  (b.primed = false ∧ b.presentCount < b.depth) ∨ (b.isHead N = false ∧ b.givesUp N = false)

/-- All a buffer has seen lies below a number. -/
structure Below (N bound : Nat) (b : JitterBuffer) : Prop where
  window : Window N b
  started : b.started = true
  cursor : b.cursor ≤ bound
  held : ∀ k, b.Holds N k → k < bound

variable {N BYTES bound depth : Nat} {b : JitterBuffer} {r r' : Record} {input : Frame}

theorem Below.mono {bound' : Nat} (h : Below N bound b) (hle : bound ≤ bound') : Below N bound' b where
  window := h.window
  started := h.started
  cursor := Nat.le_trans h.cursor hle
  held k hk := Nat.lt_of_lt_of_le (h.held k hk) hle

theorem not_holds_new (N BYTES depth k : Nat) : ¬ (JitterBuffer.new N BYTES depth).Holds N k :=
  fun hk => Bool.false_ne_true hk.1

theorem below_start (hseq : input.sequence < 2 ^ 64) :
    Below N input.sequence ((Record.new N BYTES depth).meet input).buf where
  window := by
    have hw := window_new N BYTES depth
    exact ⟨hseq, hw.slot, fun i hi => absurd hi Bool.false_ne_true, hw.word, hw.len, hw.lost⟩
  started := rfl
  cursor := Nat.le_refl _
  held k hk := absurd hk (not_holds_new N BYTES depth k)

theorem Below.insert (h : Below N bound b) (hN : 0 < N) {seq pts : Nat} {payload : List UInt8}
    (hseq : seq < bound) : Below N bound (b.insert N BYTES seq pts payload).2 := by
  rcases insert_cases BYTES h.window seq pts payload with
    ⟨-, heq⟩ | ⟨-, -, heq⟩ | ⟨hin, hpres, heq⟩ <;> rw [heq]
  · exact { h with window := { h.window with } }
  · exact { h with window := { h.window with } }
  · refine ⟨h.window.stored hN hin BYTES pts payload, h.started, h.cursor, ?_⟩
    intro k hk
    rcases (holds_stored hpres).1 hk with rfl | hk
    · exact hseq
    · exact h.held k hk

theorem Below.play (h : Below N bound b) (hN : 0 < N) {out : Option Frame} {b' : JitterBuffer}
    (hplay : b.play N = some (out, b')) : Below N bound b' := by
  rcases play_spec h.window hN with ⟨-, -, heq⟩ | ⟨-, j, hw, hskip, hout⟩
  · obtain ⟨-, rfl⟩ := Prod.mk.inj (Option.some.inj (heq.symm.trans hplay))
    exact h
  · have hmoved : Below N bound ({ b with primed := true }.skip j) := by
      refine ⟨hw, h.started, ?_, h.held⟩
      rcases Nat.eq_zero_or_pos j with rfl | hj
      · exact h.cursor
      · obtain ⟨k, hk, hle⟩ := hskip hj
        exact Nat.le_trans hle (Nat.le_of_lt (h.held k hk))
    rcases hout with ⟨hhead, heq⟩ | ⟨-, -, heq⟩
    · have hb' : (({ b with primed := true }.skip j).emitHead N).2 = b' :=
        congrArg Prod.snd (Option.some.inj (heq.symm.trans hplay))
      rw [← hb']
      have hcursor := hmoved.held _ (isHead_iff.1 hhead)
      refine ⟨hw.played hhead, hmoved.started, ?_, ?_⟩
      · rw [hw.emitHead hhead]
        exact hcursor
      · intro k hk
        exact hmoved.held k ((hw.holds_played hhead).1 hk).2
    · obtain ⟨-, rfl⟩ := Prod.mk.inj (Option.some.inj (heq.symm.trans hplay))
      exact hmoved

theorem Below.step (hN : 0 < N) (hin : input.Fits BYTES)
    (h : Below N bound (r.meet input).buf) (hseq : input.sequence < bound)
    (hstep : r.step N BYTES input = some r') : Below N bound r'.buf := by
  obtain ⟨out, hplay, -⟩ := step_eq_some hin hstep
  exact (h.insert hN hseq).play hN hplay

/-- What a run has seen: nothing, or only numbers below the bound. -/
def SeenBelow (N BYTES depth bound : Nat) (r : Record) : Prop :=
  r = .new N BYTES depth ∨ Below N bound r.buf

theorem SeenBelow.meet (h : SeenBelow N BYTES depth bound r) (hle : bound ≤ input.sequence)
    (hin : input.Fits BYTES) : Below N input.sequence (r.meet input).buf := by
  obtain ⟨-, -, -, hseq⟩ := hin
  rcases h with rfl | h
  · exact below_start hseq
  · rw [meet_eq h.started]
    exact h.mono hle

theorem SeenBelow.step (hN : 0 < N) (h : SeenBelow N BYTES depth bound r) (hin : input.Fits BYTES)
    (hlt : input.sequence < bound) (hstep : r.step N BYTES input = some r') : SeenBelow N BYTES depth bound r' := by
  refine Or.inr (Below.step hN hin ?_ hlt hstep)
  rcases h with rfl | h
  · obtain ⟨-, -, -, hseq⟩ := hin
    exact (below_start hseq).mono (Nat.le_of_lt hlt)
  · rw [meet_eq h.started]
    exact h

theorem seenBelow_run (hN : 0 < N) {inputs : List Frame} (hin : ∀ i ∈ inputs, i.Fits BYTES)
    (hlt : ∀ i ∈ inputs, i.sequence < bound) (hrun : run (Record.step N BYTES) (.new N BYTES depth) inputs = some r) :
    SeenBelow N BYTES depth bound r := by
  have hnew : SeenBelow N BYTES depth bound (.new N BYTES depth) := Or.inl rfl
  exact run_keeps (fun _ i hi _ hr hstep => hr.step hN (hin i hi) (hlt i hi) hstep) hrun hnew

/-! ## One call -/

theorem tryEmit_of_not_isHead {fuel : Nat} (hhead : b.isHead N = false) (hup : b.givesUp N = false) :
    b.tryEmit N (fuel + 1) = some (none, b) := by
  unfold tryEmit
  rw [if_neg (ne_true_of_eq_false hhead), if_neg (ne_true_of_eq_false hup)]

theorem Waiting.play (h : Waiting N b) (hN : 0 < N) :
    ∃ primed, b.play N = some (none, { b with primed }) ∧ Waiting N { b with primed } := by
  obtain ⟨n, rfl⟩ := Nat.exists_eq_add_one.2 hN
  by_cases hprime : b.primed = false ∧ b.presentCount < b.depth
  · refine ⟨b.primed, ?_, Or.inl hprime⟩
    unfold JitterBuffer.play
    rw [if_neg (by simp [hprime.1]), if_neg (by omega)]
  · obtain ⟨hhead, hup⟩ := h.resolve_left hprime
    refine ⟨true, ?_, Or.inr ⟨hhead, hup⟩⟩
    have hquiet : ({ b with primed := true } : JitterBuffer).tryEmit (n + 1) (n + 1) =
        some (none, { b with primed := true }) := tryEmit_of_not_isHead hhead hup
    unfold JitterBuffer.play
    split_ifs with hp hd
    · rw [← hquiet]
      congr 1
      rw [← hp]
    · exact hquiet
    · exact absurd ⟨by simpa using hp, by omega⟩ hprime

/-- After a call that plays nothing the buffer waits, and a packet inside the window is held. -/
theorem quiet_call (hN : 0 < N) (hin : input.Fits BYTES)
    (h : Below N input.sequence (r.meet input).buf) (hstep : r.step N BYTES input = some r')
    (hquiet : r'.emitted = r.emitted) : Waiting N r'.buf ∧ ((r.meet input).buf.InWindow N input.sequence →
        (r'.buf.held N).length = ((r.meet input).buf.held N).length + 1) := by
  obtain ⟨out, hplay, hemitted, -⟩ := step_eq_some hin hstep
  have hnone : out = none := by
    rw [hquiet] at hemitted
    simpa using hemitted
  subst hnone
  have hw : Window N ((r.meet input).receive N BYTES input).buf := h.window.insert hN _ _ _
  -- A packet inside the window is new: all that is held is smaller.
  have hgrow : (r.meet input).buf.InWindow N input.sequence →
      (((r.meet input).receive N BYTES input).buf.held N).length =
        ((r.meet input).buf.held N).length + 1 := by
    intro hwin
    unfold Record.receive
    rcases insert_cases BYTES h.window input.sequence input.pts input.bytes with
      ⟨hout, -⟩ | ⟨-, hheld, -⟩ | ⟨-, hpres, heq⟩
    · exact absurd hwin hout
    · exact absurd (h.held _ hheld) (Nat.lt_irrefl _)
    · rw [heq]
      exact length_held_stored h.window hN hwin hpres
  rcases play_spec hw hN with ⟨hprime, hlt, heq⟩ | ⟨-, j, hwj, -, ⟨hhead, heq⟩ | ⟨hhead, hup, heq⟩⟩
  · obtain ⟨-, hb⟩ := Prod.mk.inj (Option.some.inj (heq.symm.trans hplay))
    rw [← hb]
    exact ⟨Or.inl ⟨hprime, hlt⟩, hgrow⟩
  · -- A packet at the cursor would have been played.
    rw [hwj.emitHead hhead] at heq
    obtain ⟨hsome, -⟩ := Prod.mk.inj (Option.some.inj (heq.symm.trans hplay))
    cases hsome
  · obtain ⟨-, hb⟩ := Prod.mk.inj (Option.some.inj (heq.symm.trans hplay))
    rw [← hb]
    exact ⟨Or.inr ⟨by simpa using hhead, by simpa using hup⟩, hgrow⟩

theorem stalled_call (hN : 0 < N) (hin : input.Fits BYTES) (hw : Window N (r.meet input).buf)
    (h : Waiting N (r.meet input).buf) (hout : ¬ (r.meet input).buf.InWindow N input.sequence)
    (hstep : r.step N BYTES input = some r') :
    r'.emitted = r.emitted ∧ Waiting N r'.buf ∧ r'.buf.cursor = (r.meet input).buf.cursor ∧
      r'.buf.started = (r.meet input).buf.started ∧ Window N r'.buf := by
  obtain ⟨out, hplay, hemitted, -⟩ := step_eq_some hin hstep
  rcases insert_cases BYTES hw input.sequence input.pts input.bytes with
    ⟨-, heq⟩ | ⟨hwin, -⟩ | ⟨hwin, -⟩
  · have hbuf : ((r.meet input).receive N BYTES input).buf =
        { (r.meet input).buf with late := ((r.meet input).buf.late + 1) % 2 ^ 32 } :=
      congrArg Prod.snd heq
    have hlate : Waiting N ((r.meet input).receive N BYTES input).buf := by
      rw [hbuf]
      exact h
    obtain ⟨primed, hquiet, hwait⟩ := hlate.play hN
    obtain ⟨rfl, hb⟩ := Prod.mk.inj (Option.some.inj (hquiet.symm.trans hplay))
    rw [hbuf] at hb hwait
    rw [← hb]
    refine ⟨?_, hwait, rfl, rfl, { hw with }⟩
    rw [hemitted, Option.toList_none, append_nil]
  · exact absurd hwin hout
  · exact absurd hwin hout

/-! ## Runs on growing numbers -/

/-- Frames with growing numbers, from a bound on. -/
def Rising (BYTES : Nat) : Nat → List Frame → Prop
  | _, [] => True
  | bound, i :: rest => bound ≤ i.sequence ∧ i.Fits BYTES ∧ Rising BYTES (i.sequence + 1) rest

variable {more : List Frame}

theorem rising_of_pairwise (hfits : ∀ i ∈ more, i.Fits BYTES) (hbound : ∀ i ∈ more, bound ≤ i.sequence)
    (hinc : (more.map Frame.sequence).Pairwise (· < ·)) : Rising BYTES bound more := by
  induction more generalizing bound with
  | nil => trivial
  | cons i more ih =>
    rw [map_cons, pairwise_cons] at hinc
    refine ⟨hbound i mem_cons_self, hfits i mem_cons_self, ?_⟩
    refine ih (fun j hj => hfits j (mem_cons_of_mem _ hj)) (fun j hj => ?_) hinc.2
    exact hinc.1 _ (mem_map_of_mem hj)

theorem emitted_run {inputs : List Frame} (hin : ∀ i ∈ inputs, i.Fits BYTES)
    (h : run (Record.step N BYTES) r inputs = some r') : ∃ out, r'.emitted = r.emitted ++ out := by
  refine run_keeps (P := fun s => ∃ out, s.emitted = r.emitted ++ out) ?_ h ⟨[], by simp⟩
  intro s i hi s' hs hstep
  obtain ⟨out, hout⟩ := hs
  obtain ⟨new, -, hnew, -⟩ := step_eq_some (hin i hi) hstep
  exact ⟨out ++ new.toList, by rw [hnew, hout, append_assoc]⟩

/-- Every packet that meets a waiting buffer before anything is played lies inside the window. -/
def MeetsWindow (N BYTES : Nat) (r : Record) (more : List Frame) : Prop :=
  ∀ before input rest, more = before ++ input :: rest →
    ∀ mid, run (Record.step N BYTES) r before = some mid → mid.emitted = r.emitted →
      Waiting N mid.buf → (mid.meet input).buf.InWindow N input.sequence

theorem MeetsWindow.tail (h : MeetsWindow N BYTES r (input :: more))
    (hstep : r.step N BYTES input = some r') (hquiet : r'.emitted = r.emitted) : MeetsWindow N BYTES r' more := by
  intro before i rest hmore mid hrun hmid
  refine h (input :: before) i rest ?_ mid (run_cons_eq_some.2 ⟨r', hstep, hrun⟩) (hmid.trans hquiet)
  rw [hmore, cons_append]

theorem quiet_cons {mid : Record} (hin : input.Fits BYTES)
    (hmore : ∀ i ∈ more, i.Fits BYTES) (hstep : r.step N BYTES input = some mid)
    (hrun : run (Record.step N BYTES) mid more = some r') (hquiet : r'.emitted = r.emitted) :
    mid.emitted = r.emitted := by
  obtain ⟨new, -, hnew, -⟩ := step_eq_some hin hstep
  obtain ⟨out, hout⟩ := emitted_run hmore hrun
  rw [hquiet, hnew, append_assoc, self_eq_append_right, append_eq_nil_iff] at hout
  rw [hnew, hout.1, append_nil]

theorem Rising.fits (h : Rising BYTES bound more) : ∀ i ∈ more, i.Fits BYTES := by
  induction more generalizing bound with
  | nil => exact fun i hi => absurd hi not_mem_nil
  | cons j more ih =>
    intro i hi
    rcases List.mem_cons.1 hi with rfl | hi
    · exact h.2.1
    · exact ih h.2.2 i hi

theorem held_meet : (r.meet input).buf.held N = r.buf.held N := by
  unfold Record.meet start
  split_ifs <;> rfl

theorem Waiting.meet (hwait : Waiting N r.buf) (h : SeenBelow N BYTES depth bound r) :
    Waiting N (r.meet input).buf := by
  rcases h with rfl | h
  · refine Or.inr ⟨rfl, ?_⟩
    have hheld : ((Record.new N BYTES depth).meet input).buf.held N = [] := by
      rw [held_meet, eq_nil_iff_forall_not_mem]
      exact fun k hk => not_holds_new N BYTES depth k ((window_new N BYTES depth).mem_held.1 hk)
    unfold givesUp
    rw [hheld]
    rfl
  · rw [meet_eq h.started]
    exact hwait

theorem length_held_run (hN : 0 < N) (hrise : Rising BYTES bound more)
    (h : SeenBelow N BYTES depth bound r) (hwait : Waiting N r.buf)
    (hmeets : MeetsWindow N BYTES r more) (hrun : run (Record.step N BYTES) r more = some r')
    (hquiet : r'.emitted = r.emitted) : (r'.buf.held N).length = (r.buf.held N).length + more.length := by
  induction more generalizing r bound with
  | nil =>
    obtain rfl := Option.some.inj hrun
    rfl
  | cons i more ih =>
    obtain ⟨hle, hfits, hrest⟩ := hrise
    obtain ⟨mid, hmid, hrun⟩ := run_cons_eq_some.1 hrun
    have hq := quiet_cons hfits hrest.fits hmid hrun hquiet
    have hin := hmeets [] i more rfl r run_nil rfl hwait
    obtain ⟨hwait', hgrow⟩ := quiet_call hN hfits (h.meet hle hfits) hmid hq
    have hbelow : SeenBelow N BYTES depth (i.sequence + 1) mid :=
      Or.inr (Below.step hN hfits ((h.meet hle hfits).mono (Nat.le_succ _)) (Nat.lt_succ_self _) hmid)
    rw [ih hrest hbelow hwait' (hmeets.tail hmid hq) hrun (hquiet.trans hq.symm), hgrow hin, held_meet,
      length_cons]
    omega

theorem stalled_run (hN : 0 < N) (hrise : Rising BYTES bound more)
    (hw : Window N r.buf) (hstart : r.buf.started = true) (hwait : Waiting N r.buf)
    (hcursor : (r.buf.cursor + N) % 2 ^ 64 ≤ bound)
    (hrun : run (Record.step N BYTES) r more = some r') : r'.emitted = r.emitted := by
  induction more generalizing r bound with
  | nil =>
    obtain rfl := Option.some.inj hrun
    rfl
  | cons i more ih =>
    obtain ⟨hle, hfits, hrest⟩ := hrise
    obtain ⟨mid, hmid, hrun⟩ := run_cons_eq_some.1 hrun
    have hmeet : r.meet i = r := meet_eq hstart
    have hout : ¬ (r.meet i).buf.InWindow N i.sequence := by
      rw [hmeet]
      exact fun hin => absurd hin.2 (by omega)
    obtain ⟨hq, hwait', hc, hs, hw'⟩ :=
      stalled_call hN hfits (by rw [hmeet]; exact hw) (by rw [hmeet]; exact hwait) hout hmid
    rw [hmeet] at hc hs
    have hmore := ih hrest hw' (hs.trans hstart) hwait' (by rw [hc]; omega) hrun
    exact hmore.trans hq

theorem exists_step_of_fits (hN : 0 < N) (hin : input.Fits BYTES)
    (h : SeenBelow N BYTES depth (2 ^ 64) r) : ∃ r', r.step N BYTES input = some r' := by
  obtain ⟨-, -, -, hseq⟩ := id hin
  have hw : Window N (r.meet input).buf := by
    rcases h with rfl | h
    · exact (below_start hseq).window
    · rw [meet_eq h.started]
      exact h.window
  have hplay : ∃ out, ((r.meet input).receive N BYTES input).buf.play N = some out := by
    rcases play_spec (hw.insert hN _ _ _) hN with ⟨-, -, heq⟩ | ⟨-, j, -, -, ⟨-, heq⟩ | ⟨-, -, heq⟩⟩
    all_goals exact ⟨_, heq⟩
  obtain ⟨out, hout⟩ := hplay
  rw [step_eq hin, hout]
  exact ⟨_, rfl⟩

theorem exists_run_of_fits (hN : 0 < N) (hmore : ∀ i ∈ more, i.Fits BYTES)
    (h : SeenBelow N BYTES depth (2 ^ 64) r) : ∃ r', run (Record.step N BYTES) r more = some r' := by
  have hstep : ∀ s, SeenBelow N BYTES depth (2 ^ 64) s → ∀ i ∈ more,
      ∃ s', s.step N BYTES i = some s' ∧ SeenBelow N BYTES depth (2 ^ 64) s' := by
    intro s hs i hi
    obtain ⟨-, -, -, hseq⟩ := hmore i hi
    obtain ⟨s', hs'⟩ := exists_step_of_fits hN (hmore i hi) hs
    exact ⟨s', hs', hs.step hN (hmore i hi) hseq hs'⟩
  obtain ⟨r', hrun, -⟩ := exists_run hstep h
  exact ⟨r', hrun⟩

theorem seenBelow_rising (hN : 0 < N) {before rest : List Frame} {mid : Record}
    (hrise : Rising BYTES bound (before ++ rest)) (h : SeenBelow N BYTES depth bound r)
    (hrun : run (Record.step N BYTES) r before = some mid) :
    ∃ bound', SeenBelow N BYTES depth bound' mid ∧ Rising BYTES bound' rest := by
  induction before generalizing r bound with
  | nil =>
    obtain rfl := Option.some.inj hrun
    exact ⟨bound, h, hrise⟩
  | cons i before ih =>
    obtain ⟨hle, hfits, hrest⟩ := hrise
    obtain ⟨r', hstep, hrun⟩ := run_cons_eq_some.1 hrun
    have hmono := (h.meet hle hfits).mono (Nat.le_succ _)
    exact ih hrest (Or.inr (Below.step hN hfits hmono (Nat.lt_succ_self _) hstep)) hrun

theorem length_held_le : (b.held N).length ≤ N := by
  calc _ ≤ (List.range N).length := length_filterMap_le _ _
    _ = N := length_range

/-- From every state reached by calls, `2 N + 1` further packets, their numbers increasing and larger
than all before, make the buffer play exactly when every one of them that meets a waiting buffer before
anything is played lies inside the window. -/
theorem jitter_progress_iff (hN : 2 ≤ N) {inputs more : List Frame} (hin : ∀ i ∈ inputs, i.Fits BYTES)
    (hreach : run (Record.step N BYTES) (.new N BYTES depth) inputs = some r)
    (hmore : ∀ i ∈ more, i.Fits BYTES) (hlen : more.length = 2 * N + 1)
    (habove : ∀ i ∈ inputs, ∀ j ∈ more, i.sequence < j.sequence) (hinc : (more.map Frame.sequence).Pairwise (· < ·)) :
    (∃ r', run (Record.step N BYTES) r more = some r' ∧ r.emitted.length < r'.emitted.length) ↔
      MeetsWindow N BYTES r more := by
  have hpos : 0 < N := by omega
  obtain ⟨first, rest, rfl⟩ := exists_cons_of_length_eq_add_one hlen
  have hseen : SeenBelow N BYTES depth first.sequence r :=
    seenBelow_run hpos hin (fun i hi => habove i hi first mem_cons_self) hreach
  have hrise : Rising BYTES first.sequence (first :: rest) := by
    refine rising_of_pairwise hmore (fun i hi => ?_) hinc
    rcases List.mem_cons.1 hi with rfl | hi
    · exact Nat.le_refl _
    · rw [map_cons, pairwise_cons] at hinc
      exact Nat.le_of_lt (hinc.1 _ (mem_map_of_mem hi))
  constructor
  · rintro ⟨r', hrun, hemit⟩ before input after hsplit mid hbefore hquiet hwait
    by_contra hout
    -- The run stalls at the packet beyond the window.
    rw [hsplit] at hrun hrise
    obtain ⟨mid', hbefore', hafter⟩ := run_append_eq_some.1 hrun
    obtain rfl := Option.some.inj (hbefore.symm.trans hbefore')
    obtain ⟨bound, hmid, hle, hfits, hrest⟩ := seenBelow_rising hpos hrise hseen hbefore
    obtain ⟨next, hnext, hafter⟩ := run_cons_eq_some.1 hafter
    have hmeet := hmid.meet hle hfits
    obtain ⟨hq, hwait', hc, hs, hw⟩ :=
      stalled_call hpos hfits hmeet.window (hwait.meet hmid) hout hnext
    have hbeyond : (next.buf.cursor + N) % 2 ^ 64 ≤ input.sequence + 1 := by
      rw [hc]
      by_contra hlt
      exact hout ⟨hmeet.cursor, by omega⟩
    have hend := stalled_run hpos hrest hw (hs.trans hmeet.started) hwait' hbeyond hafter
    rw [hend, hq, hquiet] at hemit
    exact absurd hemit (Nat.lt_irrefl _)
  · intro hmeets
    have hall : SeenBelow N BYTES depth (2 ^ 64) r :=
      seenBelow_run hpos hin (fun i hi => (hin i hi).choose_spec.2.2) hreach
    obtain ⟨r', hrun⟩ := exists_run_of_fits hpos hmore hall
    refine ⟨r', hrun, ?_⟩
    by_contra hnot
    -- A run that plays nothing holds one packet more with every call after the first.
    obtain ⟨out, hout⟩ := emitted_run hmore hrun
    have hquiet : r'.emitted = r.emitted := by
      rw [hout, length_append] at hnot
      rw [hout, List.length_eq_zero_iff.1 (by omega : out.length = 0), append_nil]
    obtain ⟨hle, hfits, hrest⟩ := hrise
    obtain ⟨mid, hstep, hrun⟩ := run_cons_eq_some.1 hrun
    have hq := quiet_cons hfits hrest.fits hstep hrun hquiet
    have hmeet := hseen.meet (Nat.le_refl _) hfits
    have hmid : SeenBelow N BYTES depth (first.sequence + 1) mid :=
      Or.inr (Below.step hpos hfits (hmeet.mono (Nat.le_succ _)) (Nat.lt_succ_self _) hstep)
    have hgrown := length_held_run hpos hrest hmid (quiet_call hpos hfits hmeet hstep hq).1
      (hmeets.tail hstep hq) hrun (hquiet.trans hq.symm)
    have hfull := length_held_le (N := N) (b := r'.buf)
    rw [length_cons] at hlen
    omega

/-- Packets in sequence meet the window. -/
theorem jitter_progress_iff_inSequence : ∃ r, run (Record.step 2 1) (.new 2 1 1) [⟨.system [0], 0, 0⟩] = some r ∧
      MeetsWindow 2 1 r ((List.range 5).map fun k => ⟨.system [1], 0, k + 1⟩) := by
  refine ⟨_, rfl, (@jitter_progress_iff 2 1 1 _ (by decide) [⟨.system [0], 0, 0⟩] _
    ?_ rfl ?_ ?_ ?_ ?_).1 ⟨_, rfl, ?_⟩⟩
  · simp [Frame.Fits]
  · simp [Frame.Fits, range_succ]
  all_goals decide

/-- A gap of a whole window when all is played: `2 N + 1` further packets in sequence are dropped. -/
theorem gap_stalls : ∃ r r', run (Record.step 4 1) (.new 4 1 0) [⟨.system [0], 0, 0⟩] = some r ∧
      run (Record.step 4 1) r ((List.range 9).map fun k => ⟨.system [1], 0, k + 100⟩) = some r' ∧
      r.emitted = [⟨.system [0], 0, 0⟩] ∧ r'.emitted = r.emitted ∧ r'.buf.late = 9 :=
  ⟨_, _, rfl, rfl, by decide, by decide, by decide⟩

end Glass2Glass.Mcu
