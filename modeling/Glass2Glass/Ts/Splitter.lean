import Mathlib.Data.List.Range

/-!
# The packet splitter

`TsPacketSplitter` of `g2g-plugins/src/mpegts.rs`: packets are found by their sync bytes, at the distance that the sync
bytes behind them confirm. The splitter only asks of a byte whether it is a sync byte, so it is modelled over any kind of
byte.
-/

namespace Glass2Glass.Ts

open List

inductive Stride where
  | ts
  | m2ts
  | dvbAsi
  deriving DecidableEq

def Stride.len : Stride → Nat
  | ts => 188
  | m2ts => 192
  | dvbAsi => 204

def packetStrides : List Stride := [.ts, .m2ts, .dvbAsi]

def strideLockPackets : Nat := 4

inductive StrideProbe where
  | locked (stride : Stride)
  | tentative (stride : Stride)
  | unconfirmed
  | falseSync
  deriving DecidableEq

section

variable {β : Type} (isSync : β → Bool)

/-- The loop of `confirmed_syncs`: `count` more sync bytes are looked for. -/
def confirmedFrom (packetStart : List β) (stride following : Nat) : Nat → Nat → Option Nat
  | 0, confirmed => some confirmed
  | count + 1, confirmed =>
    match packetStart[following * stride]? with
    | none => some confirmed
    | some b =>
      if isSync b then confirmedFrom packetStart stride (following + 1) count (confirmed + 1) else none

def confirmedSyncs (packetStart : List β) (stride : Nat) : Option Nat :=
  confirmedFrom isSync packetStart stride 1 strideLockPackets 0

/-- The first of the strides at which no byte but a sync byte stands. -/
def probeFrom (packetStart : List β) : List Stride → StrideProbe
  | [] => .falseSync
  | stride :: strides =>
    match confirmedSyncs isSync packetStart stride.len with
    | none => probeFrom packetStart strides
    | some confirmed =>
      if confirmed = strideLockPackets then .locked stride
      else if confirmed = 0 then .unconfirmed
      else .tentative stride

def probeStride (packetStart : List β) : StrideProbe := probeFrom isSync packetStart packetStrides

end

structure TsPacketSplitter (β : Type) where
  buffer : List β
  lockedStride : Option Stride
  /-- The last stride that a following sync byte confirmed. -/
  confirmedStride : Option Stride

/-- What is done at a sync byte. -/
inductive SplitStep where
  | wait
  | skip
  | hand (stride : Stride) (lockedStride confirmedStride : Option Stride)

/-- What a probe comes to. A sync byte in a timestamp passes for a packet until the next one shows. -/
def splitStep (endOfStream : Bool) (lockedStride confirmedStride : Option Stride) : StrideProbe → SplitStep
  | .locked stride => .hand stride (some stride) (some stride)
  | .tentative stride => .hand stride lockedStride (some stride)
  | .unconfirmed =>
    if ¬ endOfStream ∧ (confirmedStride.any fun stride => stride ≠ .ts) then .wait
    else .hand .ts lockedStride confirmedStride
  | .falseSync => .skip

theorem Stride.len_pos (stride : Stride) : 0 < stride.len := by
  cases stride <;> decide

namespace TsPacketSplitter

variable {β : Type} (isSync : β → Bool)

def new : TsPacketSplitter β := ⟨[], none, none⟩

def probe (lockedStride : Option Stride) (packetStart : List β) : StrideProbe :=
  match lockedStride with
  | some stride => .locked stride
  | none => probeStride isSync packetStart

/-- The loop of `split` over what is buffered: the packets that are handed over, and the splitter after it. -/
def split (endOfStream : Bool) (rest : List β) (lockedStride confirmedStride : Option Stride) :
    List (List β) × TsPacketSplitter β :=
  match rest.findIdx? isSync with
  | none => ([], ⟨[], lockedStride, confirmedStride⟩)
  | some skipped =>
    let lockedStride := if skipped > 0 then none else lockedStride
    let packetStart := rest.drop skipped
    if _hlength : packetStart.length < Stride.ts.len then ([], ⟨packetStart, lockedStride, confirmedStride⟩)
    else
      match splitStep endOfStream lockedStride confirmedStride (probe isSync lockedStride packetStart) with
      | .wait => ([], ⟨packetStart, lockedStride, confirmedStride⟩)
      | .skip => split endOfStream (packetStart.drop 1) lockedStride confirmedStride
      | .hand stride lockedStride confirmedStride =>
        if packetStart.length < stride.len ∧ ¬ endOfStream then ([], ⟨packetStart, lockedStride, confirmedStride⟩)
        else
          let (packets, s) :=
            split endOfStream (packetStart.drop (min stride.len packetStart.length)) lockedStride confirmedStride
          (packetStart.take Stride.ts.len :: packets, s)
termination_by rest.length
decreasing_by
  all_goals
    simp only [packetStart, length_drop, Stride.len] at _hlength ⊢
  · omega
  · have hpos := Stride.len_pos stride
    simp only [Stride.len] at hpos
    omega

def push (s : TsPacketSplitter β) (bytes : List β) : List (List β) × TsPacketSplitter β :=
  split isSync false (s.buffer ++ bytes) s.lockedStride s.confirmedStride

def finish (s : TsPacketSplitter β) : List (List β) × TsPacketSplitter β :=
  let (packets, s) := split isSync true s.buffer s.lockedStride s.confirmedStride
  (packets, { s with buffer := [] })

/-! ## One turn of the loop -/

section

variable {isSync : β → Bool} {endOfStream : Bool} {lockedStride confirmedStride : Option Stride}

@[simp] theorem split_nil :
    split isSync endOfStream [] lockedStride confirmedStride = ([], ⟨[], lockedStride, confirmedStride⟩) := by
  rw [split]
  rfl

theorem split_pass (b : β) (rest : List β) (hb : isSync b = false) :
    split isSync endOfStream (b :: rest) none confirmedStride = split isSync endOfStream rest none confirmedStride := by
  conv_lhs => rw [split]
  conv_rhs => rw [split]
  rw [List.findIdx?_cons, hb]
  cases rest.findIdx? isSync with
  | none => rfl
  | some skipped => simp

theorem split_sync (b : β) (rest : List β) (hb : isSync b = true) (hlength : 188 ≤ (b :: rest).length) :
    split isSync endOfStream (b :: rest) lockedStride confirmedStride =
      match splitStep endOfStream lockedStride confirmedStride (probe isSync lockedStride (b :: rest)) with
      | .wait => ([], ⟨b :: rest, lockedStride, confirmedStride⟩)
      | .skip => split isSync endOfStream rest lockedStride confirmedStride
      | .hand stride lockedStride confirmedStride =>
        if (b :: rest).length < stride.len ∧ ¬ endOfStream then ([], ⟨b :: rest, lockedStride, confirmedStride⟩)
        else
          let after := split isSync endOfStream ((b :: rest).drop (min stride.len (b :: rest).length)) lockedStride
            confirmedStride
          ((b :: rest).take 188 :: after.1, after.2) := by
  have hfound : (b :: rest).findIdx? isSync = some 0 := by rw [List.findIdx?_cons, hb]; rfl
  have hfits : ¬ (b :: rest).length < Stride.ts.len := by
    rw [not_lt]
    exact hlength
  conv_lhs => rw [split]
  simp only [hfound, drop_zero, gt_iff_lt, lt_irrefl, if_false, dif_neg hfits]
  rfl

theorem split_sync_short (b : β) (rest : List β) (hb : isSync b = true) (hlength : (b :: rest).length < 188) :
    split isSync endOfStream (b :: rest) lockedStride confirmedStride =
      ([], ⟨b :: rest, lockedStride, confirmedStride⟩) := by
  have hfound : (b :: rest).findIdx? isSync = some 0 := by rw [List.findIdx?_cons, hb]; rfl
  have hfits : (b :: rest).length < Stride.ts.len := hlength
  rw [split]
  simp only [hfound, drop_zero, gt_iff_lt, lt_irrefl, if_false, dif_pos hfits]

theorem split_short (rest : List β) (hlength : rest.length < 188) :
    (split isSync endOfStream rest lockedStride confirmedStride).1 = [] := by
  rw [split]
  cases rest.findIdx? isSync with
  | none => rfl
  | some skipped =>
    have hfits : (rest.drop skipped).length < Stride.ts.len := by
      rw [length_drop]
      simp only [Stride.len]
      omega
    simp only [dif_pos hfits]

end

/-! ## A stream in chunks -/

/-- Chunk after chunk. -/
def pushAll (s : TsPacketSplitter β) : List (List β) → List (List β) × TsPacketSplitter β
  | [] => ([], s)
  | bytes :: chunks =>
    let (packets, s) := s.push isSync bytes
    let (more, s) := pushAll s chunks
    (packets ++ more, s)

/-- The packets that are handed over of a stream that comes in chunks. -/
def handed (chunks : List (List β)) : List (List β) :=
  let (packets, s) := pushAll isSync new chunks
  packets ++ (s.finish isSync).1

/-! ## Renamed bytes

The splitter only asks which bytes are sync bytes: bytes that are renamed come out renamed. -/

def map {α : Type} (f : α → β) (s : TsPacketSplitter α) : TsPacketSplitter β :=
  ⟨s.buffer.map f, s.lockedStride, s.confirmedStride⟩

/-- What comes out, each byte renamed. -/
def mapped {α : Type} (f : α → β) (out : List (List α) × TsPacketSplitter α) : List (List β) × TsPacketSplitter β :=
  (out.1.map (List.map f), out.2.map f)

section

variable {α : Type} (f : α → β)

theorem confirmedFrom_map (packetStart : List α) (stride count following confirmed : ℕ) :
    confirmedFrom isSync (packetStart.map f) stride following count confirmed =
      confirmedFrom (fun a => isSync (f a)) packetStart stride following count confirmed := by
  induction count generalizing following confirmed with
  | zero => rfl
  | succ count ih =>
    rw [confirmedFrom, confirmedFrom, List.getElem?_map]
    cases packetStart[following * stride]? with
    | none => rfl
    | some a => simp only [Option.map_some, ih]

theorem probe_map (lockedStride : Option Stride) (packetStart : List α) :
    probe isSync lockedStride (packetStart.map f) = probe (fun a => isSync (f a)) lockedStride packetStart := by
  cases lockedStride with
  | some stride => rfl
  | none => simp only [probe, probeStride, packetStrides, probeFrom, confirmedSyncs, confirmedFrom_map]

theorem split_map (endOfStream : Bool) (rest : List α) (lockedStride confirmedStride : Option Stride) :
    split isSync endOfStream (rest.map f) lockedStride confirmedStride =
      mapped f (split (fun a => isSync (f a)) endOfStream rest lockedStride confirmedStride) := by
  induction hn : rest.length using Nat.strong_induction_on generalizing rest lockedStride confirmedStride with
  | _ n ih =>
    conv_lhs => rw [split]
    conv_rhs => rw [split]
    rw [List.findIdx?_map]
    change (match rest.findIdx? (fun a => isSync (f a)) with | none => _ | some skipped => _) = _
    cases hfound : rest.findIdx? (fun a => isSync (f a)) with
    | none => rfl
    | some skipped =>
      simp only [← map_drop, ← map_take, length_map, probe_map]
      by_cases hlength : (rest.drop skipped).length < Stride.ts.len
      · simp only [dif_pos hlength]
        rfl
      simp only [dif_neg hlength]
      have hlong : 188 ≤ rest.length - skipped := by simpa [Stride.len] using hlength
      split
      · rfl
      · refine ih _ ?_ _ _ _ rfl
        simp only [length_drop]
        omega
      · next stride _ _ _ =>
        split
        · rfl
        · have hpos := stride.len_pos
          rw [ih _ ?_ _ _ _ rfl]
          · rfl
          · simp only [length_drop]
            omega

theorem push_map (s : TsPacketSplitter α) (bytes : List α) :
    (s.map f).push isSync (bytes.map f) = mapped f (s.push (fun a => isSync (f a)) bytes) := by
  rw [push, push, ← split_map, map_append]
  rfl

theorem pushAll_map (s : TsPacketSplitter α) (chunks : List (List α)) :
    pushAll isSync (s.map f) (chunks.map (List.map f)) = mapped f (pushAll (fun a => isSync (f a)) s chunks) := by
  induction chunks generalizing s with
  | nil => rfl
  | cons bytes chunks ih =>
    rw [map_cons, pushAll, pushAll, push_map]
    simp only [mapped] at ih ⊢
    rw [ih, map_append]

theorem handed_map (chunks : List (List α)) :
    handed isSync (chunks.map (List.map f)) = (handed (fun a => isSync (f a)) chunks).map (List.map f) := by
  have hpushed := pushAll_map isSync f new chunks
  have hnew : (new : TsPacketSplitter α).map f = new := rfl
  rw [hnew] at hpushed
  simp only [handed, hpushed, mapped, map_append]
  congr 1
  exact congrArg Prod.fst (split_map isSync f true _ _ _)

end

end TsPacketSplitter

end Glass2Glass.Ts
