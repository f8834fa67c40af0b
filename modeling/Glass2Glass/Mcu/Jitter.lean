import Glass2Glass.Lib.Cyclic
import Mathlib.Data.List.Nodup

/-!
# The jitter buffer

`JitterBuffer<N, BYTES>` (`g2g-mcu/src/jitter.rs`): a window of `N` slots in which received packets are
put in sequence. A packet goes to the slot of its number modulo `N`; the cursor is the next number to
play. A number below the cursor or a whole window above it is dropped as late. Once `depth` packets are
held, every call plays the packet at the cursor, or declares it lost and moves on when a packet more than
`depth` ahead has arrived or the window is full. Sequence numbers and timestamps are 64-bit words,
counters 32-bit words.
-/

namespace Glass2Glass.Mcu

open Function Nat

/-- Where the bytes of a frame are. -/
inductive MemoryDomain where
  | system (bytes : List UInt8)
  | other
  deriving DecidableEq

/-- A frame, by what the receive path reads of it. -/
structure Frame where
  domain : MemoryDomain
  pts : Nat
  sequence : Nat
  deriving DecidableEq

/-- The errors of the receive path. -/
inductive G2gError where
  | unsupportedDomain
  | capsMismatch
  | poolExhausted
  deriving DecidableEq

/-- The buffer. Its arrays are functions of the slot. -/
structure JitterBuffer where
  slots : Nat → List UInt8
  len : Nat → Nat
  seqOf : Nat → Nat
  ptsOf : Nat → Nat
  present : Nat → Bool
  /-- Next sequence number to play. -/
  cursor : Nat
  /-- Packets to hold before playing starts. -/
  depth : Nat
  primed : Bool
  started : Bool
  presentCount : Nat
  /-- Highest sequence number put in a slot. -/
  maxSeq : Nat
  reordered : Nat
  duplicates : Nat
  late : Nat
  lost : Nat

namespace JitterBuffer

/-- A buffer that holds `depth` packets, or one less than the window if that is less. -/
def new (N BYTES depth : Nat) : JitterBuffer :=
  let cap := if N > 1 then (N - 1) % 2 ^ 32 else 0
  { slots := fun _ => List.replicate BYTES 0
    len := fun _ => 0
    seqOf := fun _ => 0
    ptsOf := fun _ => 0
    present := fun _ => false
    cursor := 0
    depth := if depth > cap then cap else depth
    primed := false
    started := false
    presentCount := 0
    maxSeq := 0
    reordered := 0
    duplicates := 0
    late := 0
    lost := 0 }

/-- Copy a packet into a slot. -/
def store (BYTES : Nat) (b : JitterBuffer) (slot seq pts : Nat) (payload : List UInt8) : JitterBuffer :=
  let n := min payload.length BYTES
  { b with
    slots := Function.update b.slots slot (payload.take n ++ (b.slots slot).drop n)
    len := Function.update b.len slot (n % 2 ^ 16)
    seqOf := Function.update b.seqOf slot seq
    ptsOf := Function.update b.ptsOf slot pts
    presentCount := if b.present slot then b.presentCount else min (b.presentCount + 1) (2 ^ 32 - 1)
    present := Function.update b.present slot true }

/-- Put a packet in its slot; `false` when it is late, out of the window or a duplicate. -/
def insert (N BYTES : Nat) (b : JitterBuffer) (seq pts : Nat) (payload : List UInt8) : Bool × JitterBuffer :=
  if seq < b.cursor then (false, { b with late := (b.late + 1) % 2 ^ 32 })
  else if seq ≥ (b.cursor + N) % 2 ^ 64 then (false, { b with late := (b.late + 1) % 2 ^ 32 })
  else if b.present (seq % N) && b.seqOf (seq % N) == seq then
    (false, { b with duplicates := (b.duplicates + 1) % 2 ^ 32 })
  else
    let reordered := if b.started && seq < b.maxSeq then (b.reordered + 1) % 2 ^ 32 else b.reordered
    let maxSeq := if !b.started || seq > b.maxSeq then seq else b.maxSeq
    (true, { b.store BYTES (seq % N) seq pts payload with reordered, maxSeq })

variable (N : Nat) (b : JitterBuffer)

/-- Whether the packet at the cursor is held. -/
def isHead : Bool :=
  b.present (b.cursor % N) && b.seqOf (b.cursor % N) == b.cursor

/-- The sequence numbers held, slot by slot. -/
def held : List Nat :=
  (List.range N).filterMap fun i => if b.present i then some (b.seqOf i) else none

/-- Whether nothing more can be held beside the missing head. -/
def windowFull : Bool := b.presentCount ≥ N - 1

/-- Play the packet at the cursor. -/
def emitHead : Option Frame × JitterBuffer :=
  let c := b.cursor % N
  let len := b.len c
  (if len ≤ (b.slots c).length then
      some ⟨.system ((b.slots c).take len), b.ptsOf c, b.cursor⟩
    else none,
    { b with
      present := Function.update b.present c false
      presentCount := b.presentCount - 1
      cursor := (b.cursor + 1) % 2 ^ 64 })

/-- Declare the packet at the cursor lost. -/
def lose (b : JitterBuffer) : JitterBuffer :=
  { b with lost := (b.lost + 1) % 2 ^ 32, cursor := (b.cursor + 1) % 2 ^ 64 }

/-- Whether the missing head is given up: a packet more than `depth` ahead is held, or the window is
full. -/
def givesUp : Bool :=
  match (b.held N).max? with
  | some m => m > (b.cursor + b.depth) % 2 ^ 64 || b.windowFull N
  | none => false

/-- Play the next packet in sequence, past lost ones; `none` when the passes run out. -/
def tryEmit (N : Nat) : Nat → JitterBuffer → Option (Option Frame × JitterBuffer)
  | 0, _ => none
  | fuel + 1, b =>
    if b.isHead N then some (b.emitHead N)
    else if b.givesUp N then tryEmit N fuel b.lose
    else some (none, b)

/-- The first packet sets the cursor. -/
def start (b : JitterBuffer) (seq : Nat) : JitterBuffer :=
  if b.started then b else { b with cursor := seq, started := true }

/-- What a call does after the packet is put in its slot. -/
def play : Option (Option Frame × JitterBuffer) :=
  if b.primed then b.tryEmit N N
  else if b.presentCount ≥ b.depth then { b with primed := true }.tryEmit N N
  else some (none, b)

/-- Take one received frame; `none` when the search for a packet to play does not end within `N`
passes. -/
def process (N BYTES : Nat) (b : JitterBuffer) (input : Frame) :
    Option (Except G2gError (Option Frame) × JitterBuffer) :=
  match input.domain with
  | .other => some (.error .unsupportedDomain, b)
  | .system payload =>
    if payload.length > BYTES then some (.error .capsMismatch, b)
    else
      let b := ((b.start input.sequence).insert N BYTES input.sequence input.pts payload).2
      (b.play N).map fun (out, b) => (.ok out, b)

/-! ## The window -/

/-- A sequence number is held in its slot. -/
def Holds (N : Nat) (b : JitterBuffer) (k : Nat) : Prop :=
  b.present (k % N) = true ∧ b.seqOf (k % N) = k

instance (N : Nat) (b : JitterBuffer) (k : Nat) : Decidable (b.Holds N k) :=
  inferInstanceAs (Decidable (_ ∧ _))

/-- Every packet held stands in its slot, within the window. -/
structure Window : Prop where
  cursor : b.cursor < 2 ^ 64
  slot : ∀ i, b.present i = true → i < N ∧ b.seqOf i % N = i
  range : ∀ i, b.present i = true → b.cursor ≤ b.seqOf i ∧ b.seqOf i < b.cursor + N
  word : ∀ i, b.present i = true → b.seqOf i + 1 < 2 ^ 64
  len : ∀ i, b.present i = true → b.len i ≤ (b.slots i).length
  lost : b.lost < 2 ^ 32

variable {N BYTES : Nat} {b : JitterBuffer}

theorem window_new (N BYTES depth : Nat) : Window N (new N BYTES depth) where
  cursor := by
    show 0 < 2 ^ 64
    omega
  slot _ h := absurd h Bool.false_ne_true
  range _ h := absurd h Bool.false_ne_true
  word _ h := absurd h Bool.false_ne_true
  len _ h := absurd h Bool.false_ne_true
  lost := by
    show 0 < 2 ^ 32
    omega

theorem depth_new (hN : 0 < N) (BYTES depth : Nat) :
    (new N BYTES depth).depth ≤ depth ∧ (new N BYTES depth).depth < N := by
  have hcap : (if N > 1 then (N - 1) % 2 ^ 32 else 0) < N := by
    have := mod_le (N - 1) (2 ^ 32)
    split_ifs <;> omega
  unfold new
  dsimp only
  split_ifs at hcap ⊢ <;> omega

theorem Window.holds (h : Window N b) {i : Nat} (hi : b.present i = true) : b.Holds N (b.seqOf i) := by
  unfold Holds
  rw [(h.slot i hi).2]
  exact ⟨hi, rfl⟩

theorem Window.mem_window (h : Window N b) {k : Nat} (hk : b.Holds N k) :
    b.cursor ≤ k ∧ k < b.cursor + N ∧ k + 1 < 2 ^ 64 := by
  obtain ⟨hpres, hseq⟩ := hk
  have hrange := h.range _ hpres
  have hword := h.word _ hpres
  rw [hseq] at hrange hword
  exact ⟨hrange.1, hrange.2, hword⟩

theorem Window.mem_held (h : Window N b) {k : Nat} : k ∈ b.held N ↔ b.Holds N k := by
  unfold held
  simp only [List.mem_filterMap, List.mem_range, Option.ite_none_right_eq_some, Option.some.injEq]
  constructor
  · rintro ⟨i, -, hi, rfl⟩
    exact h.holds hi
  · rintro ⟨hpres, hseq⟩
    exact ⟨k % N, (h.slot _ hpres).1, hpres, hseq⟩

theorem Window.nodup_held (h : Window N b) : (b.held N).Nodup := by
  refine List.Nodup.filterMap ?_ List.nodup_range
  intro i j k hi hj
  simp only [Option.mem_def, Option.ite_none_right_eq_some, Option.some.injEq] at hi hj
  rw [← (h.slot i hi.1).2, ← (h.slot j hj.1).2, hi.2, hj.2]

theorem isHead_iff : b.isHead N = true ↔ b.Holds N b.cursor := by
  unfold isHead Holds
  rw [Bool.and_eq_true, beq_iff_eq]

/-! ## Inserting -/

/-- The test of the window on arrival. -/
def InWindow (N : Nat) (b : JitterBuffer) (seq : Nat) : Prop :=
  b.cursor ≤ seq ∧ seq < (b.cursor + N) % 2 ^ 64

instance (N : Nat) (b : JitterBuffer) (seq : Nat) : Decidable (b.InWindow N seq) :=
  inferInstanceAs (Decidable (_ ∧ _))

theorem InWindow.bounds {seq : Nat} (h : b.InWindow N seq) :
    b.cursor ≤ seq ∧ seq < b.cursor + N ∧ seq + 1 < 2 ^ 64 := by
  obtain ⟨hle, hlt⟩ := h
  have hmod : (b.cursor + N) % 2 ^ 64 ≤ b.cursor + N := mod_le _ _
  have hword : (b.cursor + N) % 2 ^ 64 < 2 ^ 64 := mod_lt _ (by omega)
  omega

theorem Window.holds_of_present (h : Window N b) {seq : Nat} (hseq : b.InWindow N seq)
    (hpres : b.present (seq % N) = true) : b.Holds N seq := by
  refine ⟨hpres, ?_⟩
  obtain ⟨hle, hlt, -⟩ := hseq.bounds
  obtain ⟨hle', hlt'⟩ := h.range _ hpres
  exact Cyclic.eq_of_mod_eq hle' hlt' hle hlt (h.slot _ hpres).2

/-- The buffer with a packet put in its slot. -/
def stored (N BYTES : Nat) (b : JitterBuffer) (seq pts : Nat) (payload : List UInt8) : JitterBuffer :=
  { b.store BYTES (seq % N) seq pts payload with
    reordered := if b.started && seq < b.maxSeq then (b.reordered + 1) % 2 ^ 32 else b.reordered
    maxSeq := if !b.started || seq > b.maxSeq then seq else b.maxSeq }

theorem insert_cases (BYTES : Nat) (h : Window N b) (seq pts : Nat) (payload : List UInt8) : (¬ b.InWindow N seq ∧
      b.insert N BYTES seq pts payload = (false, { b with late := (b.late + 1) % 2 ^ 32 })) ∨
    (b.InWindow N seq ∧ b.Holds N seq ∧ b.insert N BYTES seq pts payload =
        (false, { b with duplicates := (b.duplicates + 1) % 2 ^ 32 })) ∨
    (b.InWindow N seq ∧ b.present (seq % N) = false ∧
      b.insert N BYTES seq pts payload = (true, b.stored N BYTES seq pts payload)) := by
  unfold insert
  by_cases hin : b.InWindow N seq
  · have hlow : ¬ seq < b.cursor := Nat.not_lt.2 hin.1
    have hhigh : ¬ seq ≥ (b.cursor + N) % 2 ^ 64 := Nat.not_le.2 hin.2
    rw [if_neg hlow, if_neg hhigh]
    rcases hpres : b.present (seq % N) with _ | _
    · exact Or.inr (Or.inr ⟨hin, rfl, rfl⟩)
    · have hholds := h.holds_of_present hin hpres
      refine Or.inr (Or.inl ⟨hin, hholds, ?_⟩)
      simp [hholds.2]
  · refine Or.inl ⟨hin, ?_⟩
    by_cases hlow : seq < b.cursor
    · rw [if_pos hlow]
    · have hhigh : seq ≥ (b.cursor + N) % 2 ^ 64 :=
        Nat.not_lt.1 fun hlt => hin ⟨Nat.not_lt.1 hlow, hlt⟩
      rw [if_neg hlow, if_pos hhigh]

theorem holds_stored {seq pts k : Nat} {payload : List UInt8} (hpres : b.present (seq % N) = false) :
    (b.stored N BYTES seq pts payload).Holds N k ↔ k = seq ∨ b.Holds N k := by
  unfold Holds stored store
  dsimp only
  by_cases hslot : k % N = seq % N
  · rw [hslot, update_self, update_self, hpres]
    simp [eq_comm]
  · rw [update_of_ne hslot, update_of_ne hslot]
    constructor
    · exact Or.inr
    · rintro (rfl | hk)
      · exact absurd rfl hslot
      · exact hk

theorem Window.stored (h : Window N b) (hN : 0 < N) {seq : Nat} (hin : b.InWindow N seq)
    (BYTES pts : Nat) (payload : List UInt8) : Window N (b.stored N BYTES seq pts payload) := by
  obtain ⟨hle, hlt, hword⟩ := hin.bounds
  unfold JitterBuffer.stored store
  -- Only the packet's own slot changes.
  refine ⟨h.cursor, ?_, ?_, ?_, ?_, h.lost⟩ <;> dsimp only <;> intro i <;>
    by_cases hi : i = seq % N
  · rw [hi, update_self, update_self]
    exact fun _ => ⟨mod_lt _ hN, rfl⟩
  · rw [update_of_ne hi, update_of_ne hi]
    exact h.slot i
  · rw [hi, update_self, update_self]
    exact fun _ => ⟨hle, hlt⟩
  · rw [update_of_ne hi, update_of_ne hi]
    exact h.range i
  · rw [hi, update_self, update_self]
    exact fun _ => hword
  · rw [update_of_ne hi, update_of_ne hi]
    exact h.word i
  · rw [hi, update_self, update_self, update_self]
    intro _
    rw [List.length_append, List.length_take]
    have := mod_le (min payload.length BYTES) (2 ^ 16)
    omega
  · rw [update_of_ne hi, update_of_ne hi, update_of_ne hi]
    exact h.len i

/-! ## Playing -/

/-- The buffer after `j` packets at the cursor are given up. -/
def skip (b : JitterBuffer) (j : Nat) : JitterBuffer :=
  { b with lost := (b.lost + j) % 2 ^ 32, cursor := b.cursor + j }

theorem skip_zero (h : Window N b) : b.skip 0 = b := by
  unfold skip
  rw [Nat.add_zero, Nat.add_zero, mod_eq_of_lt h.lost]

theorem skip_lose (hc : b.cursor + 1 < 2 ^ 64) (j : Nat) : b.lose.skip j = b.skip (j + 1) := by
  unfold skip lose
  rw [mod_eq_of_lt hc, mod_add_mod, Nat.add_assoc, Nat.add_assoc, Nat.add_comm 1 j]

section

variable (h : Window N b)

include h

theorem exists_holds_of_givesUp (hup : b.givesUp N = true) : ∃ k, b.Holds N k := by
  unfold givesUp at hup
  split at hup
  · next m hm => exact ⟨m, h.mem_held.1 (List.max?_mem hm)⟩
  · cases hup

theorem Window.lt_of_holds (hhead : b.isHead N ≠ true) {k : Nat}
    (hk : b.Holds N k) : b.cursor < k := by
  refine lt_of_le_of_ne (h.mem_window hk).1 ?_
  rintro rfl
  exact hhead (isHead_iff.2 hk)

theorem Window.lose (hhead : b.isHead N ≠ true) {k : Nat} (hk : b.Holds N k) :
    Window N b.lose ∧ b.cursor + 1 < 2 ^ 64 := by
  have hlt := h.lt_of_holds hhead hk
  obtain ⟨-, -, hword⟩ := h.mem_window hk
  have hc : b.cursor + 1 < 2 ^ 64 := by omega
  refine ⟨⟨?_, h.slot, ?_, h.word, h.len, mod_lt _ (by omega)⟩, hc⟩
  · exact mod_lt _ (by omega)
  · intro i hi
    have hi' := h.lt_of_holds hhead (h.holds hi)
    have hrange := h.range i hi
    unfold JitterBuffer.lose
    dsimp only
    omega

/-- The search gives up some packets at the cursor, none of them held, and then plays the packet it
finds or waits. It ends within as many passes as it takes to reach a packet held. -/
theorem tryEmit_spec {fuel : Nat} (hfuel : 0 < fuel)
    (hreach : (∃ k, b.Holds N k) → ∃ k, b.Holds N k ∧ k < b.cursor + fuel) :
    ∃ j, Window N (b.skip j) ∧ (0 < j → ∃ k, b.Holds N k ∧ b.cursor + j ≤ k) ∧
      (((b.skip j).isHead N = true ∧ b.tryEmit N fuel = some ((b.skip j).emitHead N)) ∨
        ((b.skip j).isHead N ≠ true ∧ (b.skip j).givesUp N ≠ true ∧ b.tryEmit N fuel = some (none, b.skip j))) := by
  induction fuel generalizing b with
  | zero => omega
  | succ fuel ih =>
    unfold tryEmit
    by_cases hhead : b.isHead N = true
    · refine ⟨0, ?_, fun hj => absurd hj (by omega), Or.inl ?_⟩
      · rw [skip_zero h]
        exact h
      · rw [skip_zero h, if_pos hhead]
        exact ⟨hhead, rfl⟩
    · rw [if_neg hhead]
      by_cases hup : b.givesUp N = true
      · rw [if_pos hup]
        obtain ⟨k, hk, hkf⟩ := hreach (exists_holds_of_givesUp h hup)
        obtain ⟨hw, hc⟩ := h.lose hhead hk
        have hlt := h.lt_of_holds hhead hk
        have hcursor : b.lose.cursor = b.cursor + 1 := mod_eq_of_lt hc
        obtain ⟨j, hwj, hheld, hout⟩ := ih hw (by omega) fun _ => ⟨k, hk, by omega⟩
        rw [skip_lose hc] at hwj hout
        refine ⟨j + 1, hwj, fun _ => ?_, hout⟩
        rcases Nat.eq_zero_or_pos j with rfl | hj
        · exact ⟨k, hk, hlt⟩
        · obtain ⟨k', hk', hle⟩ := hheld hj
          exact ⟨k', hk', by omega⟩
      · rw [if_neg hup]
        refine ⟨0, ?_, fun hj => absurd hj (by omega), Or.inr ?_⟩
        · rw [skip_zero h]
          exact h
        · rw [skip_zero h]
          exact ⟨hhead, hup, rfl⟩

theorem Window.emitHead (hhead : b.isHead N = true) : b.emitHead N =
      (some ⟨.system ((b.slots (b.cursor % N)).take (b.len (b.cursor % N))), b.ptsOf (b.cursor % N), b.cursor⟩, { b with
          present := Function.update b.present (b.cursor % N) false
          presentCount := b.presentCount - 1
          cursor := b.cursor + 1 }) := by
  have hholds := isHead_iff.1 hhead
  obtain ⟨-, -, hword⟩ := h.mem_window hholds
  unfold JitterBuffer.emitHead
  dsimp only
  rw [if_pos (h.len _ hholds.1), mod_eq_of_lt hword]

theorem Window.played (hhead : b.isHead N = true) : Window N (b.emitHead N).2 := by
  have hholds := isHead_iff.1 hhead
  obtain ⟨-, -, hword⟩ := h.mem_window hholds
  rw [h.emitHead hhead]
  have hold : ∀ i, Function.update b.present (b.cursor % N) false i = true →
      i ≠ b.cursor % N ∧ b.present i = true := by
    intro i hi
    by_cases hslot : i = b.cursor % N
    · rw [hslot, update_self] at hi
      cases hi
    · rw [update_of_ne hslot] at hi
      exact ⟨hslot, hi⟩
  refine ⟨?_, ?_, ?_, ?_, ?_, h.lost⟩ <;> dsimp only
  · omega
  · exact fun i hi => h.slot i (hold i hi).2
  · intro i hi
    obtain ⟨hne, hi⟩ := hold i hi
    have hrange := h.range i hi
    have hslot := (h.slot i hi).2
    -- The packet at the cursor is the one just played.
    have hne' : b.seqOf i ≠ b.cursor := by
      intro heq
      rw [heq] at hslot
      exact hne hslot.symm
    omega
  · exact fun i hi => h.word i (hold i hi).2
  · exact fun i hi => h.len i (hold i hi).2

theorem Window.holds_played (hhead : b.isHead N = true) {k : Nat} :
    (b.emitHead N).2.Holds N k ↔ k ≠ b.cursor ∧ b.Holds N k := by
  have hholds := isHead_iff.1 hhead
  rw [h.emitHead hhead]
  unfold Holds
  dsimp only
  by_cases hslot : k % N = b.cursor % N
  · rw [hslot, update_self, hholds.2]
    constructor
    · rintro ⟨hfalse, -⟩
      cases hfalse
    · rintro ⟨hne, -, heq⟩
      exact absurd heq.symm hne
  · rw [update_of_ne hslot]
    refine ⟨fun hk => ⟨?_, hk⟩, fun hk => hk.2⟩
    rintro rfl
    exact hslot rfl

theorem Window.insert (hN : 0 < N) (seq pts : Nat) (payload : List UInt8) :
    Window N (b.insert N BYTES seq pts payload).2 := by
  rcases insert_cases BYTES h seq pts payload with
    ⟨-, heq⟩ | ⟨-, -, heq⟩ | ⟨hin, -, heq⟩ <;> rw [heq]
  · exact { h with }
  · exact { h with }
  · exact h.stored hN hin BYTES pts payload

/-- After a packet is put in its slot, a call waits for more packets, plays one, or waits for the
head. -/
theorem play_spec (hN : 0 < N) :
    (b.primed = false ∧ b.presentCount < b.depth ∧ b.play N = some (none, b)) ∨
    ((b.primed = true ∨ b.depth ≤ b.presentCount) ∧ ∃ j, Window N ({ b with primed := true }.skip j) ∧
        (0 < j → ∃ k, b.Holds N k ∧ b.cursor + j ≤ k) ∧
        ((({ b with primed := true }.skip j).isHead N = true ∧
            b.play N = some (({ b with primed := true }.skip j).emitHead N)) ∨
          (({ b with primed := true }.skip j).isHead N ≠ true ∧
            ({ b with primed := true }.skip j).givesUp N ≠ true ∧
            b.play N = some (none, { b with primed := true }.skip j)))) := by
  have hprimed : b.primed = true → { b with primed := true } = b := by
    rintro heq
    rw [← heq]
  have hsearch : b.primed = true ∨ b.depth ≤ b.presentCount →
      b.play N = { b with primed := true }.tryEmit N N := by
    intro hplay
    unfold play
    split_ifs with hp hd
    · rw [hprimed hp]
    · rfl
    · rcases hplay with hplay | hplay
      · exact absurd hplay hp
      · exact absurd hplay hd
  by_cases hplay : b.primed = true ∨ b.depth ≤ b.presentCount
  · refine Or.inr ⟨hplay, ?_⟩
    rw [hsearch hplay]
    have hw : Window N { b with primed := true } := { h with }
    exact tryEmit_spec hw hN fun ⟨k, hk⟩ => ⟨k, hk, (hw.mem_window hk).2.1⟩
  · rw [not_or, Bool.not_eq_true, Nat.not_le] at hplay
    refine Or.inl ⟨hplay.1, hplay.2, ?_⟩
    unfold play
    rw [if_neg (by simp [hplay.1]), if_neg (by omega)]

end

theorem process_eq {input : Frame} {payload : List UInt8} (hdom : input.domain = .system payload)
    (hlen : payload.length ≤ BYTES) : b.process N BYTES input =
      ((((b.start input.sequence).insert N BYTES input.sequence input.pts payload).2).play N).map
        fun (out, b) => (.ok out, b) := by
  unfold process
  rw [hdom]
  dsimp only
  rw [if_neg (by omega)]

end JitterBuffer

end Glass2Glass.Mcu
