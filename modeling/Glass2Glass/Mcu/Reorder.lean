import Glass2Glass.Lib.Machine
import Glass2Glass.Mcu.Jitter
import Mathlib.Data.List.Perm.Basic

/-!
# What a jitter buffer plays

A run of calls, with a record of the packets received and played. `jitter_accounts` says what holds
after any run: packets are played in increasing order, each as it first arrived inside the window, and
every packet received and every number the cursor passed is accounted for. A packet beyond the window is
dropped when it arrives, so a later packet with the same number can be the one that is played
(`firstArrival_not_played`).
-/

namespace Glass2Glass.Mcu

open Machine JitterBuffer List Option Function Nat

/-- The bytes of a frame in system memory. -/
def Frame.bytes (f : Frame) : List UInt8 :=
  match f.domain with
  | .system bytes => bytes
  | .other => []

/-- A buffer after some calls, and what happened in them. -/
structure Record where
  buf : JitterBuffer
  inputs : List Frame
  /-- Those of them whose number was inside the window when they arrived. -/
  inside : List Frame
  emitted : List Frame
  /-- Frames dropped because their number was already held. -/
  duplicates : Nat
  /-- Frames dropped because their number was outside the window. -/
  late : Nat

namespace Record

def new (N BYTES depth : Nat) : Record :=
  { buf := .new N BYTES depth, inputs := [], inside := [], emitted := [], duplicates := 0, late := 0 }

/-- Record one call that takes its frame. -/
def step (N BYTES : Nat) (r : Record) (input : Frame) : Option Record :=
  (r.buf.process N BYTES input).bind fun (out, buf) =>
    -- The packet meets the buffer as the first packet leaves it.
    let met := r.buf.start input.sequence
    match out with
    | .error _ => none
    | .ok out =>
      some
        { buf
          inputs := r.inputs ++ [input]
          inside := if met.InWindow N input.sequence then r.inside ++ [input] else r.inside
          emitted := r.emitted ++ out.toList
          duplicates := if met.InWindow N input.sequence ∧ met.Holds N input.sequence then
            r.duplicates + 1 else r.duplicates
          late := if met.InWindow N input.sequence then r.late else r.late + 1 }

end Record

/-- A slot shows a frame: its timestamp, and its bytes as far as their 16-bit length says. -/
def Shows (N : Nat) (b : JitterBuffer) (k : Nat) (i : Frame) : Prop :=
  (b.slots (k % N)).take (b.len (k % N)) = i.bytes.take (i.bytes.length % 2 ^ 16) ∧
    b.ptsOf (k % N) = i.pts

/-- The first frame with a number that arrived inside the window. -/
def Record.arrival (r : Record) (k : Nat) : Option Frame := r.inside.find? fun i => i.sequence == k

/-- The accounts of a run whose first frame has number `first`. -/
structure Accounts (N first : Nat) (r : Record) : Prop where
  window : Window N r.buf
  started : r.buf.started = true
  depth : r.buf.depth < N
  /-- Every call is accounted for. -/
  calls : r.inputs.length = r.emitted.length + (r.buf.held N).length + r.duplicates + r.late
  duplicates : r.buf.duplicates = r.duplicates % 2 ^ 32
  late : r.buf.late = r.late % 2 ^ 32
  /-- Every number below the cursor is played or lost. -/
  cursor : ∃ lost, r.buf.cursor = first + r.emitted.length + lost ∧ r.buf.lost = lost % 2 ^ 32
  increasing : (r.emitted.map Frame.sequence).Pairwise (· < ·)
  below : ∀ f ∈ r.emitted, f.sequence < r.buf.cursor
  /-- A number held shows the first frame that arrived with it. -/
  shown : ∀ k, r.buf.Holds N k → ∃ i, r.arrival k = some i ∧ Shows N r.buf k i
  /-- A number still to come has not arrived inside the window. -/
  awaited : ∀ k, r.buf.cursor ≤ k → ¬ r.buf.Holds N k → r.arrival k = none
  played : ∀ f ∈ r.emitted, ∃ i, r.arrival f.sequence = some i ∧
    f.bytes = i.bytes.take (i.bytes.length % 2 ^ 16) ∧ f.pts = i.pts

def Counted (N : Nat) (b : JitterBuffer) : Prop := b.presentCount = (b.held N).length

variable {N BYTES first : Nat} {r : Record}

theorem held_new (N BYTES depth : Nat) : (JitterBuffer.new N BYTES depth).held N = [] := by
  rw [eq_nil_iff_forall_not_mem]
  exact fun k hk => Bool.false_ne_true ((window_new N BYTES depth).mem_held.1 hk).1

variable {depth seq : Nat}

theorem accounts_start (hN : 0 < N) (hseq : seq < 2 ^ 64) :
    Accounts N seq { Record.new N BYTES depth with buf := (JitterBuffer.new N BYTES depth).start seq } := by
  have hw := window_new N BYTES depth
  have hnone : ∀ i, ¬ (JitterBuffer.new N BYTES depth).present i = true := fun _ => Bool.false_ne_true
  refine ⟨⟨hseq, hw.slot, ?_, hw.word, hw.len, hw.lost⟩, rfl, ?_, ?_, rfl, rfl, ⟨0, rfl, rfl⟩,
    List.Pairwise.nil, ?_, ?_, fun _ _ _ => rfl, ?_⟩
  · exact fun i hi => absurd hi (hnone i)
  · exact (depth_new hN BYTES depth).2
  · show 0 = 0 + ((JitterBuffer.new N BYTES depth).held N).length + 0 + 0
    rw [held_new, length_nil]
  · exact fun f hf => absurd hf not_mem_nil
  · exact fun k hk => absurd hk.1 (hnone (k % N))
  · exact fun f hf => absurd hf not_mem_nil

variable {b : JitterBuffer}

theorem length_held_stored (h : Window N b) (hN : 0 < N) {pts : Nat}
    {payload : List UInt8} (hin : b.InWindow N seq) (hpres : b.present (seq % N) = false) :
    ((b.stored N BYTES seq pts payload).held N).length = (b.held N).length + 1 := by
  have hw := h.stored hN hin BYTES pts payload
  have hnew : seq ∉ b.held N := by
    rw [h.mem_held]
    rintro ⟨hp, -⟩
    rw [hpres] at hp
    cases hp
  have hperm : ((b.stored N BYTES seq pts payload).held N).Perm (seq :: b.held N) := by
    refine (perm_ext_iff_of_nodup hw.nodup_held (List.nodup_cons.2 ⟨hnew, h.nodup_held⟩)).2 ?_
    intro k
    rw [hw.mem_held, holds_stored hpres, mem_cons, h.mem_held]
  rw [hperm.length_eq, length_cons]

theorem length_held_played (h : Window N b) (hhead : b.isHead N = true) :
    (b.held N).length = ((b.emitHead N).2.held N).length + 1 := by
  have hw := h.played hhead
  have hgone : b.cursor ∉ (b.emitHead N).2.held N := by
    rw [hw.mem_held, h.holds_played hhead]
    exact fun hk => hk.1 rfl
  have hperm : (b.held N).Perm (b.cursor :: (b.emitHead N).2.held N) := by
    refine (perm_ext_iff_of_nodup h.nodup_held (List.nodup_cons.2 ⟨hgone, hw.nodup_held⟩)).2 ?_
    intro k
    rw [h.mem_held, mem_cons, hw.mem_held, h.holds_played hhead]
    constructor
    · intro hk
      exact (em (k = b.cursor)).imp_right fun hne => ⟨hne, hk⟩
    · rintro (rfl | hk)
      · exact isHead_iff.1 hhead
      · exact hk.2
  rw [hperm.length_eq, length_cons]

variable {input : Frame} {k : Nat}

theorem arrival_append {inside : List Frame} {i : Frame} (h : inside.find? (fun i => i.sequence == k) = some i) :
    (inside ++ [input]).find? (fun i => i.sequence == k) = some i := by
  rw [List.find?_append, h]
  rfl

theorem arrival_append_of_ne {inside : List Frame} (hne : k ≠ input.sequence) :
    (inside ++ [input]).find? (fun i => i.sequence == k) = inside.find? fun i => i.sequence == k := by
  rw [List.find?_append, List.find?_singleton, if_neg (by simpa using hne.symm), or_none]

theorem shows_stored_of_ne {pts : Nat} {payload : List UInt8} {i : Frame}
    (hne : k % N ≠ seq % N) (h : Shows N b k i) : Shows N (b.stored N BYTES seq pts payload) k i := by
  unfold Shows JitterBuffer.stored store
  dsimp only
  rw [update_of_ne hne, update_of_ne hne, update_of_ne hne]
  exact h

theorem shows_stored (hlen : input.bytes.length ≤ BYTES) :
    Shows N (b.stored N BYTES input.sequence input.pts input.bytes) input.sequence input := by
  unfold Shows JitterBuffer.stored store
  dsimp only
  rw [update_self, update_self, update_self, Nat.min_eq_left hlen,
    take_length]
  refine ⟨?_, rfl⟩
  rw [take_append_of_le_length (mod_le _ _)]

/-- What a call records before it plays. -/
def Record.receive (N BYTES : Nat) (r : Record) (input : Frame) : Record :=
  { r with
    buf := (r.buf.insert N BYTES input.sequence input.pts input.bytes).2
    inputs := r.inputs ++ [input]
    inside := if r.buf.InWindow N input.sequence then r.inside ++ [input] else r.inside
    duplicates := if r.buf.InWindow N input.sequence ∧ r.buf.Holds N input.sequence then
      r.duplicates + 1 else r.duplicates
    late := if r.buf.InWindow N input.sequence then r.late else r.late + 1 }

/-- Receiving a frame keeps the accounts. -/
theorem Accounts.receive (h : Accounts N first r) (hlen : input.bytes.length ≤ BYTES) :
    Accounts N first (r.receive N BYTES input) := by
  have hcalls := h.calls
  have hdepth := h.depth
  unfold Record.receive
  rcases insert_cases BYTES h.window input.sequence input.pts input.bytes with
    ⟨hin, heq⟩ | ⟨hin, hholds, heq⟩ | ⟨hin, hpres, heq⟩
  · -- Outside the window: only the counter of late frames moves.
    simp only [heq, hin, if_false, false_and]
    refine { h with window := { h.window with }, calls := ?_, late := ?_ }
    · show (r.inputs ++ [input]).length = r.emitted.length + (r.buf.held N).length + r.duplicates +
        (r.late + 1)
      rw [length_append, length_singleton]
      omega
    · dsimp only
      rw [h.late, mod_add_mod]
  · -- A duplicate: the number has arrived before.
    simp only [heq, hin, hholds, if_true, and_self]
    refine { h with window := { h.window with }, calls := ?_, duplicates := ?_, shown := ?_,
                    awaited := ?_, played := ?_ }
    · show (r.inputs ++ [input]).length = r.emitted.length + (r.buf.held N).length +
        (r.duplicates + 1) + r.late
      rw [length_append, length_singleton]
      omega
    · dsimp only
      rw [h.duplicates, mod_add_mod]
    · intro k hk
      obtain ⟨i, hi, hshow⟩ := h.shown k hk
      exact ⟨i, arrival_append hi, hshow⟩
    · intro k hk hnot
      have hne : k ≠ input.sequence := by
        rintro rfl
        exact hnot hholds
      exact (arrival_append_of_ne hne).trans (h.awaited k hk hnot)
    · intro f hf
      obtain ⟨i, hi, hbytes, hpts⟩ := h.played f hf
      exact ⟨i, arrival_append hi, hbytes, hpts⟩
  · -- A new number: its slot is free, and it has not arrived before.
    have hnot : ¬ r.buf.Holds N input.sequence := by
      rintro ⟨hp, -⟩
      rw [hpres] at hp
      cases hp
    have hfirst := h.awaited _ hin.1 hnot
    have hpos : 0 < N := zero_lt_of_lt hdepth
    simp only [heq, hin, hnot, if_true, and_false, if_false]
    refine { h with window := h.window.stored hpos hin BYTES _ _, calls := ?_,
                    shown := ?_, awaited := ?_, played := ?_ }
    · rw [length_held_stored h.window hpos hin hpres, length_append, length_singleton]
      dsimp only
      omega
    · intro k hk
      rcases (holds_stored hpres).1 hk with rfl | hk
      · refine ⟨input, ?_, shows_stored hlen⟩
        show (r.inside ++ [input]).find? _ = some input
        rw [List.find?_append, show r.inside.find? _ = none from hfirst]
        simp
      · obtain ⟨i, hi, hshow⟩ := h.shown k hk
        refine ⟨i, arrival_append hi, shows_stored_of_ne ?_ hshow⟩
        intro hslot
        rw [← hslot] at hpres
        rw [hk.1] at hpres
        cases hpres
    · intro k hk hnotk
      rw [holds_stored hpres, not_or] at hnotk
      exact (arrival_append_of_ne hnotk.1).trans (h.awaited k hk hnotk.2)
    · intro f hf
      obtain ⟨i, hi, hbytes, hpts⟩ := h.played f hf
      exact ⟨i, arrival_append hi, hbytes, hpts⟩

/-! ## Playing -/

theorem Accounts.skip (h : Accounts N first r) {j : Nat} (hw : Window N ({ r.buf with primed := true }.skip j)) :
    Accounts N first { r with buf := { r.buf with primed := true }.skip j } := by
  obtain ⟨lost, hcursor, hlost⟩ := h.cursor
  refine { h with window := hw, cursor := ⟨lost + j, ?_, ?_⟩, below := ?_, awaited := ?_ }
  · show r.buf.cursor + j = _
    rw [hcursor, Nat.add_assoc]
  · show (r.buf.lost + j) % 2 ^ 32 = _
    rw [hlost, mod_add_mod]
  · intro f hf
    exact Nat.lt_of_lt_of_le (h.below f hf) (Nat.le_add_right _ _)
  · intro k hk hnot
    exact h.awaited k (Nat.le_trans (Nat.le_add_right _ _) hk) hnot

/-- The frame played shows the first frame that arrived with its number. -/
theorem Accounts.emit (h : Accounts N first r) (hhead : r.buf.isHead N = true) : Accounts N first { r with
        buf := (r.buf.emitHead N).2
        emitted := r.emitted ++ (r.buf.emitHead N).1.toList } := by
  have hholds := isHead_iff.1 hhead
  have hheld := length_held_played h.window hhead
  have hplayed := h.window.played hhead
  have hout : ∀ k, (r.buf.emitHead N).2.Holds N k ↔ k ≠ r.buf.cursor ∧ r.buf.Holds N k := fun k =>
    h.window.holds_played hhead
  obtain ⟨i, hi, hshow⟩ := h.shown _ hholds
  obtain ⟨lost, hcursor, hlost⟩ := h.cursor
  have hcalls := h.calls
  rw [h.window.emitHead hhead] at hheld hplayed hout ⊢
  dsimp only at hheld hplayed hout ⊢
  rw [toList_some]
  refine { h with window := hplayed, calls := ?_, cursor := ⟨lost, ?_, hlost⟩,
                  increasing := ?_, below := ?_, shown := ?_, awaited := ?_, played := ?_ }
  · dsimp only
    rw [length_append, length_singleton]
    omega
  · dsimp only
    rw [length_append, length_singleton]
    omega
  · dsimp only
    rw [map_append, pairwise_append]
    refine ⟨h.increasing, pairwise_singleton _ _, ?_⟩
    intro a ha c hc
    obtain ⟨f, hf, rfl⟩ := List.mem_map.1 ha
    rw [map_singleton, mem_singleton] at hc
    rw [hc]
    exact h.below f hf
  · intro f hf
    dsimp only at hf ⊢
    rcases List.mem_append.1 hf with hf | hf
    · have := h.below f hf
      omega
    · rw [List.mem_singleton.1 hf]
      exact lt_succ_self _
  · intro k hk
    exact h.shown k ((hout k).1 hk).2
  · intro k hk hnot
    dsimp only at hk
    refine h.awaited k (by omega) fun hkold => hnot ((hout k).2 ⟨by omega, hkold⟩)
  · intro f hf
    rcases List.mem_append.1 hf with hf | hf
    · exact h.played f hf
    · rw [List.mem_singleton.1 hf]
      exact ⟨i, hi, hshow.1, hshow.2⟩

theorem length_held_le_depth (h : Window N b) (hhead : b.isHead N ≠ true)
    (hup : b.givesUp N ≠ true) : (b.held N).length ≤ b.depth := by
  -- All numbers held lie in the `depth` numbers above the cursor.
  have hmem : ∀ k ∈ b.held N, k ∈ List.range' (b.cursor + 1) b.depth := by
    intro k hk
    have hlt := h.lt_of_holds hhead (h.mem_held.1 hk)
    have hle : k ≤ b.cursor + b.depth := by
      by_contra hgt
      apply hup
      unfold givesUp
      obtain ⟨m, hm⟩ := Option.isSome_iff_exists.1 (List.isSome_max?_of_mem hk)
      rw [hm]
      have hkm : k ≤ m := (List.max?_eq_some_iff.1 hm).2 k hk
      have hmod := mod_le (b.cursor + b.depth) (2 ^ 64)
      simp only [Bool.or_eq_true, decide_eq_true_eq]
      omega
    rw [List.mem_range'_1]
    omega
  simpa using (subperm_of_subset h.nodup_held hmem).length_le

theorem Accounts.play (h : Accounts N first r) : ∃ out b, r.buf.play N = some (out, b) ∧
      Accounts N first { r with buf := b, emitted := r.emitted ++ out.toList } := by
  have hpos : 0 < N := zero_lt_of_lt h.depth
  rcases play_spec h.window hpos with ⟨-, -, heq⟩ | ⟨-, j, hw, -, ⟨hhead, heq⟩ | ⟨-, -, heq⟩⟩
  · refine ⟨none, r.buf, heq, ?_⟩
    rw [toList_none, append_nil]
    exact h
  · exact ⟨_, _, heq, (h.skip hw).emit hhead⟩
  · refine ⟨none, _, heq, ?_⟩
    rw [toList_none, append_nil]
    exact h.skip hw

/-! ## The number of packets held -/

theorem Counted.insert (hc : Counted N b) (h : Window N b) (hN : 0 < N)
    (hcap : b.depth + 1 < 2 ^ 32) (hle : b.presentCount ≤ b.depth) (BYTES seq pts : Nat) (payload : List UInt8) :
    Counted N (b.insert N BYTES seq pts payload).2 ∧ (b.insert N BYTES seq pts payload).2.presentCount ≤ b.depth + 1 ∧
      (b.insert N BYTES seq pts payload).2.depth = b.depth := by
  unfold Counted at hc ⊢
  rcases insert_cases BYTES h seq pts payload with ⟨-, heq⟩ | ⟨-, -, heq⟩ | ⟨hin, hpres, heq⟩ <;> rw [heq]
  · exact ⟨hc, le_succ_of_le hle, rfl⟩
  · exact ⟨hc, le_succ_of_le hle, rfl⟩
  · have hcount : (b.stored N BYTES seq pts payload).presentCount = b.presentCount + 1 := by
      unfold JitterBuffer.stored store
      dsimp only
      rw [hpres, if_neg Bool.false_ne_true]
      omega
    rw [hcount, length_held_stored h hN hin hpres, hc]
    exact ⟨rfl, by omega, rfl⟩

theorem Counted.play {b' : JitterBuffer} {out : Option Frame} (hc : Counted N b) (h : Window N b)
    (hN : 0 < N) (hle : b.presentCount ≤ b.depth + 1) (hplay : b.play N = some (out, b')) :
    Counted N b' ∧ b'.presentCount ≤ b'.depth ∧ b'.depth = b.depth := by
  unfold Counted at hc ⊢
  rcases play_spec h hN with ⟨-, hlt, heq⟩ | ⟨-, j, hw, -, ⟨hhead, heq⟩ | ⟨hhead, hup, heq⟩⟩
  · obtain ⟨-, rfl⟩ := Prod.mk.inj (Option.some.inj (heq.symm.trans hplay))
    exact ⟨hc, Nat.le_of_lt hlt, rfl⟩
  · have hheld := length_held_played hw hhead
    have hb' : (({ b with primed := true }.skip j).emitHead N).2 = b' :=
      congrArg Prod.snd (Option.some.inj (heq.symm.trans hplay))
    have hcount : b'.presentCount = b.presentCount - 1 := by rw [← hb']; rfl
    have hdepth : b'.depth = b.depth := by rw [← hb']; rfl
    rw [hb'] at hheld
    change (b.held N).length = _ at hheld
    exact ⟨by omega, by omega, hdepth⟩
  · obtain ⟨-, rfl⟩ := Prod.mk.inj (Option.some.inj (heq.symm.trans hplay))
    have hheld := length_held_le_depth hw hhead hup
    exact ⟨hc, hc.trans_le hheld, rfl⟩

/-! ## Runs -/

/-- A frame the buffer takes: bytes that fit a slot, numbered by a word. -/
def Frame.Fits (BYTES : Nat) (i : Frame) : Prop :=
  ∃ payload, i.domain = .system payload ∧ payload.length ≤ BYTES ∧ i.sequence < 2 ^ 64

theorem Frame.Fits.length_bytes (h : input.Fits BYTES) : input.bytes.length ≤ BYTES := by
  obtain ⟨payload, hdom, hlen, -⟩ := h
  unfold Frame.bytes
  rw [hdom]
  exact hlen

/-- The record that a frame meets: the first frame sets the cursor. -/
def Record.meet (r : Record) (input : Frame) : Record :=
  { r with buf := r.buf.start input.sequence }

theorem meet_eq (h : r.buf.started = true) : r.meet input = r := by
  unfold Record.meet start
  rw [if_pos h]

theorem step_eq (hin : input.Fits BYTES) : r.step N BYTES input =
      (((r.meet input).receive N BYTES input).buf.play N).map fun (out, b) =>
        { (r.meet input).receive N BYTES input with buf := b, emitted := r.emitted ++ out.toList } := by
  obtain ⟨payload, hdom, hlen, -⟩ := hin
  have hbytes : input.bytes = payload := by
    unfold Frame.bytes
    rw [hdom]
  unfold Record.step Record.receive Record.meet
  rw [process_eq hdom hlen, hbytes, map_eq_bind, bind_assoc, map_eq_bind]
  rfl

variable {r' : Record}

theorem step_eq_some (hin : input.Fits BYTES) (hstep : r.step N BYTES input = some r') :
    ∃ out, ((r.meet input).receive N BYTES input).buf.play N = some (out, r'.buf) ∧
      r'.emitted = r.emitted ++ out.toList ∧ r'.inputs = r.inputs ++ [input] := by
  rw [step_eq hin] at hstep
  obtain ⟨⟨out, b⟩, hplay, rfl⟩ := Option.map_eq_some_iff.1 hstep
  exact ⟨out, hplay, rfl, rfl⟩

/-- Where a run stands: before the first frame, or with its accounts in order. -/
def Accounted (N BYTES depth : Nat) (r : Record) : Prop :=
  r = .new N BYTES depth ∨ ∃ i, r.inputs.head? = some i ∧ Accounts N i.sequence r

theorem Accounted.meet (hN : 0 < N) (h : Accounted N BYTES depth r) (hin : input.Fits BYTES) :
    ∃ i, (r.inputs ++ [input]).head? = some i ∧ Accounts N i.sequence (r.meet input) := by
  rcases h with rfl | ⟨i, hi, hacc⟩
  · obtain ⟨-, -, -, hseq⟩ := hin
    exact ⟨input, rfl, accounts_start hN hseq⟩
  · rw [meet_eq hacc.started]
    refine ⟨i, ?_, hacc⟩
    rw [List.head?_append, hi]
    rfl

theorem Accounted.step (hN : 0 < N) (h : Accounted N BYTES depth r) (hin : input.Fits BYTES) :
    ∃ r', r.step N BYTES input = some r' ∧ Accounted N BYTES depth r' := by
  obtain ⟨i, hi, hmet⟩ := h.meet hN hin
  obtain ⟨out, b, hplay, hacc⟩ := (hmet.receive hin.length_bytes).play
  rw [step_eq hin, hplay]
  exact ⟨_, rfl, Or.inr ⟨i, hi, hacc⟩⟩

/-- Between calls, the packets held are counted and at most as many as the depth. -/
def Filled (N depth : Nat) (b : JitterBuffer) : Prop :=
  Counted N b ∧ b.presentCount ≤ b.depth ∧ b.depth = depth

theorem Filled.step {d : Nat} (hc : Filled N d r.buf) (hN : 0 < N) (hcap : d + 1 < 2 ^ 32)
    (h : Accounted N BYTES depth r) (hin : input.Fits BYTES)
    (hstep : r.step N BYTES input = some r') : Filled N d r'.buf := by
  obtain ⟨i, hi, hmet⟩ := h.meet hN hin
  obtain ⟨out, hplay, -⟩ := step_eq_some hin hstep
  obtain ⟨hcount, hle, hdepth⟩ := hc
  -- The first frame moves the cursor only.
  have hstart : Counted N (r.meet input).buf ∧ (r.meet input).buf.presentCount = r.buf.presentCount ∧
      (r.meet input).buf.depth = r.buf.depth := by
    unfold Record.meet start
    split_ifs <;> exact ⟨hcount, rfl, rfl⟩
  obtain ⟨hcount', hle', hdepth'⟩ :=
    hstart.1.insert hmet.window hN (by omega) (by omega) BYTES input.sequence input.pts input.bytes
  obtain ⟨hc', hle', heq⟩ := hcount'.play (hmet.window.insert hN _ _ _) hN (by omega) hplay
  exact ⟨hc', hle', by omega⟩

theorem inputs_run {inputs : List Frame} (h : run (Record.step N BYTES) r inputs = some r') :
    r'.inputs = r.inputs ++ inputs := by
  induction inputs generalizing r with
  | nil =>
    obtain rfl := Option.some.inj h
    rw [append_nil]
  | cons input inputs ih =>
    obtain ⟨mid, hmid, h⟩ := run_cons_eq_some.1 h
    have hstep : mid.inputs = r.inputs ++ [input] := by
      obtain ⟨⟨out, buf⟩, -, hmid⟩ := Option.bind_eq_some_iff.1 hmid
      rcases out with e | out
      · cases hmid
      · obtain rfl := Option.some.inj hmid
        rfl
    rw [ih h, hstep, append_assoc, singleton_append]

/-- After any run of a new buffer: every call ended; the frames played are in increasing order, each as
the first frame with its number that arrived inside the window; what is held is distinct and inside the
window, at most `depth` packets; every call is played, held, a duplicate or late; and every number from
the first up to the cursor is played or lost. -/
theorem jitter_accounts {depth : Nat} (hN : 1 ≤ N) (hcap : depth + 1 < 2 ^ 32 ∨ N < 2 ^ 32)
    {inputs : List Frame} (hin : ∀ i ∈ inputs, i.Fits BYTES) :
    ∃ r, run (Record.step N BYTES) (.new N BYTES depth) inputs = some r ∧
      (r.emitted.map Frame.sequence).Pairwise (· < ·) ∧
      (∀ f ∈ r.emitted, ∃ i, r.arrival f.sequence = some i ∧ f.pts = i.pts ∧
        (i.bytes.length < 2 ^ 16 → f.bytes = i.bytes)) ∧ (r.buf.held N).Nodup ∧
      (∀ k ∈ r.buf.held N, r.buf.cursor ≤ k ∧ k < r.buf.cursor + N) ∧
      r.buf.presentCount = (r.buf.held N).length ∧ r.buf.presentCount ≤ depth ∧
      inputs.length = r.emitted.length + r.buf.presentCount + r.duplicates + r.late ∧
      r.buf.duplicates = r.duplicates % 2 ^ 32 ∧ r.buf.late = r.late % 2 ^ 32 ∧ ∀ first ∈ inputs.head?, ∃ lost,
        r.buf.cursor = first.sequence + (r.emitted.length + lost) ∧ r.buf.lost = lost % 2 ^ 32 := by
  have hdepth := depth_new hN BYTES depth
  have hnew : Accounted N BYTES depth (.new N BYTES depth) ∧
      Filled N (JitterBuffer.new N BYTES depth).depth (JitterBuffer.new N BYTES depth) :=
    ⟨Or.inl rfl, congrArg List.length (held_new N BYTES depth).symm, Nat.zero_le _, rfl⟩
  have hstep : ∀ r, Accounted N BYTES depth r ∧ Filled N (JitterBuffer.new N BYTES depth).depth r.buf →
      ∀ i ∈ inputs, ∃ r', r.step N BYTES i = some r' ∧ Accounted N BYTES depth r' ∧
        Filled N (JitterBuffer.new N BYTES depth).depth r'.buf := by
    intro r hr i hi
    obtain ⟨r', hstep, hacc⟩ := hr.1.step hN (hin i hi)
    exact ⟨r', hstep, hacc, hr.2.step hN (by omega) hr.1 (hin i hi) hstep⟩
  obtain ⟨r, hrun, hacc, hcount, hle, heq⟩ := exists_run hstep hnew
  have hinputs : r.inputs = inputs := inputs_run hrun
  refine ⟨r, hrun, ?_⟩
  rw [← hinputs, hcount]
  have hheld : (r.buf.held N).length ≤ depth := by
    rw [← hcount]
    omega
  rcases hacc with rfl | ⟨i, hi, hacc⟩
  · have hw := window_new N BYTES depth
    refine ⟨List.Pairwise.nil, ?_, hw.nodup_held, ?_, rfl, hheld, ?_, rfl, rfl, ?_⟩
    · exact fun f hf => absurd hf not_mem_nil
    · exact fun k hk => absurd (hw.mem_held.1 hk).1 Bool.false_ne_true
    · rw [show (Record.new N BYTES depth).buf.held N = [] from held_new N BYTES depth]
      rfl
    · exact fun first hfirst => nomatch hfirst
  · refine ⟨hacc.increasing, ?_, hacc.window.nodup_held, ?_, rfl, hheld, hacc.calls, hacc.duplicates,
      hacc.late, ?_⟩
    · intro f hf
      obtain ⟨i, hi, hbytes, hpts⟩ := hacc.played f hf
      refine ⟨i, hi, hpts, fun hlt => ?_⟩
      rw [hbytes, mod_eq_of_lt hlt, take_length]
    · intro k hk
      obtain ⟨hge, hlt, -⟩ := hacc.window.mem_window (hacc.window.mem_held.1 hk)
      exact ⟨hge, hlt⟩
    · intro first hfirst
      obtain rfl := Option.some.inj (hi.symm.trans hfirst)
      obtain ⟨lost, hcursor, hlost⟩ := hacc.cursor
      exact ⟨lost, by omega, hlost⟩

/-- The accounts of a run with a packet out of order. -/
theorem jitter_accounts_reordered : ∃ r, run (Record.step 4 1) (.new 4 1 1)
        [⟨.system [7], 70, 7⟩, ⟨.system [9], 90, 9⟩, ⟨.system [8], 80, 8⟩] = some r ∧
      (r.emitted.map Frame.sequence).Pairwise (· < ·) ∧
      3 = r.emitted.length + r.buf.presentCount + r.duplicates + r.late := by
  have hfits : ∀ i ∈ [⟨.system [7], 70, 7⟩, ⟨.system [9], 90, 9⟩, ⟨.system [8], 80, 8⟩],
      Frame.Fits 1 i := by
    simp [Frame.Fits]
  obtain ⟨r, hrun, hinc, -, -, -, -, -, hcalls, -⟩ :=
    @jitter_accounts 4 1 1 (by decide) (Or.inr (by decide)) _ hfits
  exact ⟨r, hrun, hinc, hcalls⟩

/-- A packet beyond the window is dropped, and a later one with its number is played in its stead. -/
theorem firstArrival_not_played :
    let inputs : List Frame :=
      [⟨.system [0], 0, 0⟩, ⟨.system [1], 10, 3⟩, ⟨.system [2], 20, 1⟩, ⟨.system [3], 30, 3⟩]
    (∀ i ∈ inputs, i.Fits 1) ∧
      ((run (Record.step 2 1) (.new 2 1 0) inputs).map Record.emitted) =
        some [⟨.system [0], 0, 0⟩, ⟨.system [2], 20, 1⟩, ⟨.system [3], 30, 3⟩] ∧
      (inputs.find? fun i => i.sequence == 3) = some ⟨.system [1], 10, 3⟩ := by
  refine ⟨?_, by decide, by decide⟩
  simp [Frame.Fits]

end Glass2Glass.Mcu
