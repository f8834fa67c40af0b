import Glass2Glass.Lib.Words

/-!
# Packet indices and the replay window

The 48-bit index of a packet is estimated from its 16-bit sequence number and the highest index so far, and a bitmap
remembers which indices below the highest one were accepted (`PacketIndexState` in `g2g-plugins/src/srtp.rs`). The
bitmap is exact (`PacketIndexState.exact_accept`), and an index near the highest one is estimated right
(`PacketIndexState.estimate_near`).
-/

namespace Glass2Glass.Srtp

open Words List

inductive SrtpError where
  | missingKey
  | inconsistentMki
  | invalidMkiLength (actual : Nat)
  | invalidMasterKeyLength (expected actual : Nat)
  | invalidMasterSaltLength (expected actual : Nat)
  | aeadCipherTakesNoAuthentication
  | invalidSoftLimit
  | invalidReplayWindow (size : Nat)
  | invalidRtpPacket
  | invalidRtcpPacket
  | wrongSynchronizationSource (expected actual : Nat)
  | packetTooLarge
  | packetTooOld
  | repeatedPacket
  | packetIndexExhausted
  | keyLifetimeExhausted
  | authenticationFailed
  deriving DecidableEq

def minimumReplayWindow : Nat := 64

def maximumReplayWindow : Nat := 32768

def defaultReplayWindow : Nat := 128

def replayBitmapWordBits : Nat := 64

def sequenceHalfRange : Nat := 2 ^ 15

def maximumRtpPacketIndex : Nat := 2 ^ 48 - 1

/-! ## The bitmap -/

/-- The bit of an index that is some distance below the highest one. -/
def isSet (bitmap : List Nat) (distance : Nat) : Bool :=
  hasBit (bitmap.getD (distance / replayBitmapWordBits) 0) (distance % replayBitmapWordBits)

def setBit (bitmap : List Nat) (distance : Nat) : List Nat :=
  bitmap.modify (distance / replayBitmapWordBits) fun word => word ||| 1 <<< (distance % replayBitmapWordBits)

/-- A word after a shift, from the words before it. -/
def shiftedWord (bitmap : List Nat) (words bits target : Nat) : Nat :=
  let carried :=
    if words + 1 ≤ target ∧ 0 < bits then
      bitmap.getD (target - (words + 1)) 0 >>> (replayBitmapWordBits - bits)
    else 0
  if words ≤ target then (bitmap.getD (target - words) 0 <<< bits) % 2 ^ 64 ||| carried else 0

/-- Shift the words below `count`, the last one first. -/
def shiftWords (words bits : Nat) : Nat → List Nat → List Nat
  | 0, bitmap => bitmap
  | target + 1, bitmap => shiftWords words bits target (bitmap.set target (shiftedWord bitmap words bits target))

/-- Move every recorded index further back, and drop those that fall out of the bitmap. -/
def shift (bitmap : List Nat) (distance : Nat) : List Nat :=
  let words := distance / replayBitmapWordBits
  if bitmap.length ≤ words then bitmap.map fun _ => 0
  else shiftWords words (distance % replayBitmapWordBits) bitmap.length bitmap

/-! ## The state -/

structure PacketIndexState where
  initialRolloverCounter : Nat
  highestIndex : Option Nat
  replayBitmap : List Nat
  window : Nat
  deriving DecidableEq

namespace PacketIndexState

def new (initialRolloverCounter window : Nat) : Except SrtpError PacketIndexState :=
  if window < minimumReplayWindow ∨ maximumReplayWindow < window then .error (.invalidReplayWindow window)
  else
    .ok
      { initialRolloverCounter
        highestIndex := none
        replayBitmap := List.replicate ((window + (replayBitmapWordBits - 1)) / replayBitmapWordBits) 0
        window }

variable (s : PacketIndexState)

/-- Another window, with nothing recorded. -/
def resize (window : Nat) : Except SrtpError PacketIndexState :=
  new s.initialRolloverCounter window

/-- The index of a packet, from its sequence number: only a sequence across the wrap moves the rollover counter. -/
def estimateRtpIndex (sequence : Nat) : Except SrtpError Nat :=
  match s.highestIndex with
  | none => .ok (s.initialRolloverCounter * 2 ^ 16 + sequence)
  | some highest =>
    let highestRolloverCounter := highest / 2 ^ 16
    let highestSequence := highest % 2 ^ 16
    let beforeTheWrap := highestSequence < sequenceHalfRange ∧ highestSequence + sequenceHalfRange < sequence
    let afterTheWrap := sequenceHalfRange ≤ highestSequence ∧ sequence + sequenceHalfRange < highestSequence
    if beforeTheWrap ∧ highestRolloverCounter = 0 then .error .packetTooOld
    else
      let rolloverCounter :=
        if beforeTheWrap then highestRolloverCounter - 1
        else if afterTheWrap then highestRolloverCounter + 1
        else highestRolloverCounter
      let packetIndex := rolloverCounter * 2 ^ 16 + sequence
      if maximumRtpPacketIndex < packetIndex then .error .packetIndexExhausted else .ok packetIndex

/-- Whether an index may be accepted. -/
def check (packetIndex : Nat) : Except SrtpError Unit :=
  match s.highestIndex with
  | none => .ok ()
  | some highest =>
    if highest < packetIndex then .ok ()
    else if s.window ≤ highest - packetIndex then .error .packetTooOld
    else if isSet s.replayBitmap (highest - packetIndex) then .error .repeatedPacket
    else .ok ()

def accept (packetIndex : Nat) : PacketIndexState :=
  match s.highestIndex with
  | none => { s with replayBitmap := setBit s.replayBitmap 0, highestIndex := some packetIndex }
  | some highest =>
    if highest < packetIndex then
      { s with
        replayBitmap := setBit (shift s.replayBitmap (packetIndex - highest)) 0
        highestIndex := some packetIndex }
    else if highest - packetIndex < s.window then
      { s with replayBitmap := setBit s.replayBitmap (highest - packetIndex) }
    else s

end PacketIndexState

/-! ## Exactness of the bitmap -/

variable {bitmap : List Nat} {d k : Nat}

def Fits (bitmap : List Nat) : Prop := ∀ word ∈ bitmap, word < 2 ^ 64

theorem getD_lt (h : Fits bitmap) (i : Nat) : bitmap.getD i 0 < 2 ^ 64 := by
  rcases Nat.lt_or_ge i bitmap.length with hi | hi
  · rw [getD_eq_getElem _ _ hi]
    exact h _ (getElem_mem hi)
  · rw [getD_eq_default _ _ hi]
    decide

theorem length_setBit : (setBit bitmap k).length = bitmap.length := length_modify _ _ _

theorem length_shiftWords (words bits count : Nat) (bitmap : List Nat) :
    (shiftWords words bits count bitmap).length = bitmap.length := by
  induction count generalizing bitmap with
  | zero => rfl
  | succ target ih =>
    unfold shiftWords
    rw [ih, length_set]

theorem length_shift : (shift bitmap k).length = bitmap.length := by
  unfold shift
  dsimp only
  split_ifs
  · exact length_map _
  · exact length_shiftWords _ _ _ _

theorem getD_modify {f : Nat → Nat} {i j : Nat} (hj : j < bitmap.length) :
    (bitmap.modify i f).getD j 0 = if i = j then f (bitmap.getD j 0) else bitmap.getD j 0 := by
  rw [getD_eq_getElem _ _ (by rwa [length_modify]), getElem_modify, getD_eq_getElem _ _ hj]

theorem getD_set {i j w : Nat} (hi : i < bitmap.length) :
    (bitmap.set i w).getD j 0 = if j = i then w else bitmap.getD j 0 := by
  rw [getD_eq_getElem?_getD, List.getElem?_set, getD_eq_getElem?_getD]
  by_cases hij : i = j
  · rw [if_pos hij, if_pos hi, if_pos hij.symm]
    rfl
  · rw [if_neg hij, if_neg (Ne.symm hij)]

theorem getD_setBit {j : Nat} (hj : j < bitmap.length) :
    (setBit bitmap k).getD j 0 = if k / 64 = j then bitmap.getD j 0 ||| 1 <<< (k % 64) else bitmap.getD j 0 :=
  getD_modify hj

theorem fits_setBit (h : Fits bitmap) : Fits (setBit bitmap k) := by
  intro word hword
  obtain ⟨i, hi, rfl⟩ := getElem_of_mem hword
  rw [← getD_eq_getElem _ 0 hi, getD_setBit (length_setBit ▸ hi)]
  split_ifs
  · refine Nat.or_lt_two_pow (getD_lt h i) ?_
    rw [Nat.one_shiftLeft]
    exact Nat.pow_lt_pow_right (by decide) (Nat.mod_lt _ (by decide))
  · exact getD_lt h i

theorem isSet_eq (bitmap : List Nat) (d : Nat) :
    isSet bitmap d = (bitmap.getD (d / 64) 0).testBit (d % 64) := hasBit_eq _ _

theorem isSet_setBit (hd : d < 64 * bitmap.length) : isSet (setBit bitmap k) d = (decide (d = k) || isSet bitmap d) := by
  rw [isSet_eq, isSet_eq, getD_setBit (by omega)]
  split_ifs with hsame
  · rw [Nat.testBit_or, Nat.one_shiftLeft, Nat.testBit_two_pow, Bool.or_comm]
    congr 1
    refine decide_eq_decide.2 ⟨fun hbit => ?_, fun heq => by rw [heq]⟩
    omega
  · have hne : d ≠ k := fun heq => hsame (by rw [heq])
    rw [decide_eq_false hne, Bool.false_or]

theorem shiftedWord_lt (h : Fits bitmap) (words bits target : Nat) : shiftedWord bitmap words bits target < 2 ^ 64 := by
  unfold shiftedWord
  dsimp only
  split_ifs
  · refine Nat.or_lt_two_pow (Nat.mod_lt _ (by decide)) (lt_of_le_of_lt (Nat.shiftRight_le _ _) (getD_lt h _))
  · exact Nat.or_lt_two_pow (Nat.mod_lt _ (by decide)) (by decide)
  · decide

theorem getD_shiftWords (words bits count : Nat) (bitmap : List Nat) (hcount : count ≤ bitmap.length) (i : Nat) :
    (shiftWords words bits count bitmap).getD i 0 =
      if i < count then shiftedWord bitmap words bits i else bitmap.getD i 0 := by
  induction count generalizing bitmap with
  | zero => rfl
  | succ target ih =>
    have hread (w : Nat) (hi : i < target) :
        shiftedWord (bitmap.set target w) words bits i = shiftedWord bitmap words bits i := by
      have hcarried : i - (words + 1) ≠ target := by omega
      have hmoved : i - words ≠ target := by omega
      unfold shiftedWord
      rw [getD_set (j := i - (words + 1)) hcount, getD_set (j := i - words) hcount, if_neg hcarried, if_neg hmoved]
    unfold shiftWords
    rw [ih _ (by rw [length_set]; omega), getD_set hcount]
    rcases Nat.lt_trichotomy i target with hi | hi | hi
    · rw [if_pos hi, if_pos (by omega), hread _ hi]
    · rw [if_neg (by omega), if_pos hi, if_pos (by omega), hi]
    · rw [if_neg (by omega), if_neg (by omega), if_neg (by omega)]

theorem fits_shift (h : Fits bitmap) : Fits (shift bitmap k) := by
  intro word hword
  obtain ⟨i, hi, rfl⟩ := getElem_of_mem hword
  rw [← getD_eq_getElem _ 0 hi]
  unfold shift
  dsimp only
  split_ifs
  · rw [getD_eq_getElem?_getD, List.getElem?_map]
    cases bitmap[i]? <;> exact Nat.two_pow_pos 64
  · rw [getD_shiftWords _ _ _ _ (Nat.le_refl _)]
    split_ifs
    · exact shiftedWord_lt h _ _ _
    · exact getD_lt h _

/-- A shift moves every bit further back, and brings in none. -/
theorem isSet_shift (h : Fits bitmap) (hd : d < 64 * bitmap.length) :
    isSet (shift bitmap k) d = (decide (k ≤ d) && isSet bitmap (d - k)) := by
  have hin : d / 64 < bitmap.length := by omega
  rw [isSet_eq]
  unfold shift replayBitmapWordBits
  dsimp only
  split_ifs with hout
  · have hfar : ¬ k ≤ d := by omega
    rw [decide_eq_false hfar, Bool.false_and, getD_eq_getElem?_getD, List.getElem?_map,
      List.getElem?_eq_getElem hin]
    exact Nat.zero_testBit _
  · rw [getD_shiftWords _ _ _ _ (Nat.le_refl _), if_pos hin, isSet_eq]
    have hhigh (i j : Nat) (hj : 64 ≤ j) : (bitmap.getD i 0).testBit j = false :=
      Nat.testBit_lt_two_pow ((getD_lt h i).trans_le (Nat.pow_le_pow_right (by decide) hj))
    unfold shiftedWord replayBitmapWordBits
    by_cases hk : k ≤ d
    · rw [decide_eq_true hk, Bool.true_and, if_pos (Nat.div_le_div_right hk), Nat.testBit_or, Nat.testBit_mod_two_pow,
        Nat.testBit_shiftLeft, decide_eq_true (Nat.mod_lt d (by decide)), Bool.true_and]
      by_cases hbits : k % 64 ≤ d % 64
      · -- The bit comes from the word that is moved to this one.
        have hsource : (d - k) / 64 = d / 64 - k / 64 ∧ (d - k) % 64 = d % 64 - k % 64 := by omega
        have hcarried : (if k / 64 + 1 ≤ d / 64 ∧ 0 < k % 64 then
            bitmap.getD (d / 64 - (k / 64 + 1)) 0 >>> (64 - k % 64) else 0).testBit (d % 64) = false := by
          split_ifs
          · rw [Nat.testBit_shiftRight]
            exact hhigh _ _ (by omega)
          · exact Nat.zero_testBit _
        rw [hcarried, decide_eq_true hbits, Bool.true_and, Bool.or_false, hsource.1, hsource.2]
      · -- The bit is carried over from the word before.
        have hsource : (d - k) / 64 = d / 64 - (k / 64 + 1) ∧ (d - k) % 64 = 64 - k % 64 + d % 64 := by omega
        have hcarries : k / 64 + 1 ≤ d / 64 ∧ 0 < k % 64 := by omega
        rw [if_pos hcarries, Nat.testBit_shiftRight, decide_eq_false hbits, Bool.false_and, Bool.false_or, hsource.1,
          hsource.2]
    · rw [decide_eq_false hk, Bool.false_and]
      by_cases hwords : k / 64 ≤ d / 64
      · have hbits : ¬ k % 64 ≤ d % 64 := by omega
        have hnone : ¬(k / 64 + 1 ≤ d / 64 ∧ 0 < k % 64) := by omega
        rw [if_pos hwords, if_neg hnone, Nat.testBit_or, Nat.testBit_mod_two_pow, Nat.testBit_shiftLeft,
          decide_eq_false hbits, Bool.false_and, Bool.and_false, Nat.zero_testBit]
        rfl
      · rw [if_neg hwords]
        exact Nat.zero_testBit _

namespace PacketIndexState

variable {s : PacketIndexState} {recorded : Nat → Prop} {i j : Nat}

/-- The bitmap records exactly some indices, of which the highest one is the highest index. -/
structure Exact (s : PacketIndexState) (recorded : Nat → Prop) : Prop where
  fits : Fits s.replayBitmap
  window_le : s.window ≤ 64 * s.replayBitmap.length
  window_pos : 0 < s.window
  none : s.highestIndex = none → (∀ i, ¬ recorded i) ∧
    ∀ d < 64 * s.replayBitmap.length, isSet s.replayBitmap d = false
  some : ∀ h, s.highestIndex = some h → recorded h ∧ (∀ i, recorded i → i ≤ h) ∧
    ∀ d < 64 * s.replayBitmap.length, isSet s.replayBitmap d = true ↔ d ≤ h ∧ recorded (h - d)

theorem exact_new {initialRolloverCounter window : Nat} (h : new initialRolloverCounter window = .ok s) :
    s.Exact fun _ => False := by
  unfold new at h
  split_ifs at h with hwindow
  cases h
  unfold minimumReplayWindow maximumReplayWindow at hwindow
  have hlength : (List.replicate ((window + (replayBitmapWordBits - 1)) / replayBitmapWordBits) 0).length =
      (window + 63) / 64 := length_replicate
  refine ⟨fun word hword => ?_, ?_, ?_, fun _ => ⟨fun _ hno => hno, fun d hd => ?_⟩, fun h hsome => ?_⟩
  · rw [eq_of_mem_replicate hword]
    decide
  · show window ≤ 64 * (List.replicate _ 0).length
    omega
  · show 0 < window
    omega
  · show isSet (List.replicate _ 0) d = false
    rw [isSet_eq, getD_eq_getElem?_getD, List.getElem?_replicate]
    split_ifs <;> exact Nat.zero_testBit _
  · cases hsome

theorem new_eq_ok {initialRolloverCounter window : Nat} (h : new initialRolloverCounter window = .ok s) :
    s.initialRolloverCounter = initialRolloverCounter ∧ s.window = window ∧ s.highestIndex = Option.none ∧
      window ≤ 2 ^ 15 := by
  unfold new maximumReplayWindow at h
  split_ifs at h with hwindow
  cases h
  exact ⟨rfl, rfl, rfl, by omega⟩

/-- What is recorded once an index is accepted: the index too, unless it is below the window. -/
def Records (s : PacketIndexState) (recorded : Nat → Prop) (i j : Nat) : Prop :=
  recorded j ∨ j = i ∧ ∀ h, s.highestIndex = some h → h < i + s.window

/-- The bitmap records an index that is accepted. -/
theorem exact_accept (h : s.Exact recorded) (i : Nat) : (s.accept i).Exact (s.Records recorded i) := by
  have hpos := h.window_pos
  have hle := h.window_le
  have hrecords (j : Nat) : s.Records recorded i j ↔
      recorded j ∨ j = i ∧ ∀ h, s.highestIndex = Option.some h → h < i + s.window := Iff.rfl
  unfold accept
  cases hhighest : s.highestIndex with
  | none =>
    obtain ⟨hempty, hclear⟩ := h.none hhighest
    have hnew (j : Nat) : s.Records recorded i j ↔ j = i := by
      rw [hrecords, hhighest]
      simp [hempty]
    refine ⟨fits_setBit h.fits, ?_, hpos, (fun hnone => by cases hnone), fun top htop => ?_⟩
    · show s.window ≤ 64 * (setBit s.replayBitmap 0).length
      rwa [length_setBit]
    · cases htop
      refine ⟨(hnew i).2 rfl, fun j hj => ((hnew j).1 hj).le, fun d hd => ?_⟩
      rw [length_setBit] at hd
      rw [hnew, isSet_setBit hd, hclear d hd, Bool.or_false, decide_eq_true_iff]
      omega
  | some top =>
    obtain ⟨htop, hmax, hbits⟩ := h.some top hhighest
    dsimp only
    split_ifs with habove hinside
    · -- A new highest index: everything moves back.
      have hnew (j : Nat) : s.Records recorded i j ↔ recorded j ∨ j = i := by
        rw [hrecords, hhighest]
        simp only [Option.some.injEq, forall_eq']
        exact or_congr_right (and_iff_left (by omega))
      refine ⟨fits_setBit (fits_shift h.fits), ?_, hpos, (fun hnone => by cases hnone), fun newTop hnewTop => ?_⟩
      · show s.window ≤ 64 * (setBit (shift s.replayBitmap (i - top)) 0).length
        rwa [length_setBit, length_shift]
      · cases hnewTop
        refine ⟨(hnew i).2 (Or.inr rfl), fun j hj => ?_, fun d hd => ?_⟩
        · rcases (hnew j).1 hj with hold | rfl
          · exact (hmax j hold).trans habove.le
          · exact Nat.le_refl _
        · change d < 64 * (setBit (shift s.replayBitmap (i - top)) 0).length at hd
          rw [length_setBit, length_shift] at hd
          rw [hnew, isSet_setBit (by rwa [length_shift]), isSet_shift h.fits hd, Bool.or_eq_true, Bool.and_eq_true,
            decide_eq_true_iff, decide_eq_true_iff, hbits (d - (i - top)) (by omega)]
          constructor
          · rintro (rfl | ⟨hfar, hin, hold⟩)
            · exact ⟨Nat.zero_le _, Or.inr (Nat.sub_zero i)⟩
            · refine ⟨by omega, Or.inl ?_⟩
              rwa [show i - d = top - (d - (i - top)) by omega]
          · rintro ⟨hin, hold | hsame⟩
            · have hbelow := hmax _ hold
              refine Or.inr ⟨by omega, by omega, ?_⟩
              rwa [show top - (d - (i - top)) = i - d by omega]
            · exact Or.inl (by omega)
    · -- An index inside of the window.
      have hnew (j : Nat) : s.Records recorded i j ↔ recorded j ∨ j = i := by
        rw [hrecords, hhighest]
        simp only [Option.some.injEq, forall_eq']
        exact or_congr_right (and_iff_left (by omega))
      refine ⟨fits_setBit h.fits, ?_, hpos, fun hnone => ?_, fun sameTop hsameTop => ?_⟩
      · show s.window ≤ 64 * (setBit s.replayBitmap (top - i)).length
        rwa [length_setBit]
      · cases hnone
      · cases hsameTop
        refine ⟨(hnew top).2 (Or.inl htop), fun j hj => ?_, fun d hd => ?_⟩
        · rcases (hnew j).1 hj with hold | rfl
          · exact hmax j hold
          · exact Nat.le_of_not_lt habove
        · change d < 64 * (setBit s.replayBitmap (top - i)).length at hd
          rw [length_setBit] at hd
          rw [hnew, isSet_setBit hd, Bool.or_eq_true, decide_eq_true_iff, hbits d hd]
          constructor
          · rintro (rfl | ⟨hin, hold⟩)
            · exact ⟨by omega, Or.inr (by omega)⟩
            · exact ⟨hin, Or.inl hold⟩
          · rintro ⟨hin, hold | hsame⟩
            · exact Or.inr ⟨hin, hold⟩
            · exact Or.inl (by omega)
    · -- An index below the window is not recorded.
      have hnew : s.Records recorded i = recorded := by
        funext j
        refine propext ((hrecords j).trans ⟨?_, Or.inl⟩)
        rintro (hold | ⟨-, hin⟩)
        · exact hold
        · have hlt := hin top hhighest
          omega
      rw [hnew]
      exact h

theorem check_eq_ok (h : s.Exact recorded) :
    s.check i = .ok () ↔ ∀ top, s.highestIndex = Option.some top → top < i ∨ top < i + s.window ∧ ¬ recorded i := by
  have hle := h.window_le
  unfold check
  cases hhighest : s.highestIndex with
  | none => simp
  | some top =>
    obtain ⟨htop, hmax, hbits⟩ := h.some top hhighest
    simp only [Option.some.injEq, forall_eq']
    split_ifs with habove hold hset
    · simp [habove]
    · simp only [false_iff]
      omega
    · have hrecorded := (hbits _ (by omega)).1 hset
      rw [show top - (top - i) = i by omega] at hrecorded
      simp only [false_iff]
      rintro (hlt | ⟨-, hnot⟩)
      · exact habove hlt
      · exact hnot hrecorded.2
    · simp only [true_iff]
      refine Or.inr ⟨by omega, fun hrecorded => hset ?_⟩
      rw [hbits _ (by omega), show top - (top - i) = i by omega]
      exact ⟨by omega, hrecorded⟩

/-! ## Estimates -/

theorem estimate_spec {sequence index : Nat} (hsequence : sequence < 2 ^ 16)
    (hroc : s.initialRolloverCounter < 2 ^ 32) (h : s.estimateRtpIndex sequence = .ok index) :
    index % 2 ^ 16 = sequence ∧ index < 2 ^ 48 := by
  unfold estimateRtpIndex at h
  cases hhighest : s.highestIndex with
  | none =>
    rw [hhighest] at h
    cases h
    omega
  | some highest =>
    rw [hhighest] at h
    dsimp only at h
    unfold maximumRtpPacketIndex at h
    split_ifs at h <;> cases h <;> omega

theorem estimate_near {top index : Nat} (htop : s.highestIndex = Option.some top) (hindex : index < 2 ^ 48)
    (habove : index < top + 2 ^ 15) (hbelow : top < index + 2 ^ 15) :
    s.estimateRtpIndex (index % 2 ^ 16) = .ok index := by
  unfold estimateRtpIndex sequenceHalfRange maximumRtpPacketIndex
  rw [htop]
  dsimp only
  split_ifs <;> first | omega | exact congrArg _ (by omega)

end PacketIndexState

end Glass2Glass.Srtp
