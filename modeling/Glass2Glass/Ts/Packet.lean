import Glass2Glass.Lib.Words

/-!
# Transport stream packets

`AdaptationField`, `ts_packet` and `write_pcr` (`g2g-plugins/src/mpegts.rs`), and how a packet is read:
`packet_pid`, `packet_pcr_27mhz` and the header fields of `TsDemuxer::push_packet`. A packet that its payload
fits takes 188 bytes (`length_bytes`), and what it says is read from them.
-/

namespace Glass2Glass.Ts

open List Option

open Words (byteAt)
open UInt8 (ofNat toNat_ofNat')

def tsPacketLen : Nat := 188

def tsPayloadMax : Nat := 184

def syncByte : UInt8 := 0x47

def pidNull : Nat := 0x1FFF

def systemClockTicksPer90khz : Nat := 300

def continuityCounterModulus : Nat := 16

structure AdaptationField where
  pcr27mhz : Option Nat
  randomAccess : Bool

namespace AdaptationField

def empty : AdaptationField := ⟨none, false⟩

/-- The bytes it takes from the payload: its length, its flags and the clock reference. -/
def len (a : AdaptationField) : Nat :=
  match a.pcr27mhz, a.randomAccess with
  | some _, _ => 2 + 6
  | none, true => 2
  | none, false => 0

def flags (a : AdaptationField) : UInt8 :=
  (if a.pcr27mhz.isSome then 0x10 else 0) ||| (if a.randomAccess then 0x40 else 0)

end AdaptationField

/-- The clock reference of a 27 MHz value: 33 bits at 90 kHz, six ones, and the nine bits of the remainder. -/
def writePcr (pcr27mhz : Nat) : List UInt8 :=
  let base := pcr27mhz / systemClockTicksPer90khz % 2 ^ 33
  let extension := pcr27mhz % systemClockTicksPer90khz
  [UInt8.ofNat (base / 2 ^ 25), UInt8.ofNat (base / 2 ^ 17), UInt8.ofNat (base / 2 ^ 9), UInt8.ofNat (base / 2),
    (UInt8.ofNat base &&& 1) <<< 7 ||| 0x7E ||| UInt8.ofNat (extension / 2 ^ 8), UInt8.ofNat extension]

theorem AdaptationField.len_le (a : AdaptationField) : a.len ≤ 8 := by
  unfold AdaptationField.len
  split <;> omega

theorem AdaptationField.flags_read (a : AdaptationField) :
    (a.flags &&& 0x10 != 0) = a.pcr27mhz.isSome ∧ (a.flags &&& 0x40 != 0) = a.randomAccess ∧
      (a.flags &&& 0x80 != 0) = false := by
  unfold AdaptationField.flags
  cases a.pcr27mhz.isSome <;> cases a.randomAccess <;> decide

structure TsPacket where
  pid : Nat
  pusi : Bool
  cc : Nat
  adaptation : AdaptationField
  payload : List UInt8

namespace TsPacket

/-- The adaptation field behind its length: the flags and the clock reference, filled up to `afLen` bytes. -/
def adaptationBytes (p : TsPacket) (afLen : Nat) : List UInt8 :=
  ([p.adaptation.flags] ++ (p.adaptation.pcr27mhz.map writePcr).getD [] ++ List.replicate afLen 0xFF).take afLen

/-- `ts_packet`: a payload of up to 184 bytes, which an adaptation field fills up. Without a payload the packet
is an adaptation field only. -/
def bytes (p : TsPacket) : List UInt8 :=
  let head : List UInt8 :=
    [syncByte, (if p.pusi then 0x40 else 0) ||| (UInt8.ofNat (p.pid / 2 ^ 8) &&& 0x1F), UInt8.ofNat p.pid]
  let cc := UInt8.ofNat (p.cc % continuityCounterModulus)
  if p.adaptation.len = 0 ∧ p.payload.length = tsPayloadMax then head ++ [0x10 ||| cc] ++ p.payload
  else
    let control : UInt8 := if p.payload.length = 0 then 0x20 else 0x30
    let afLen := tsPayloadMax - 1 - p.payload.length
    head ++ [control ||| cc, UInt8.ofNat afLen] ++ (if afLen = 0 then [] else p.adaptationBytes afLen) ++ p.payload

/-- The payload leaves room for the adaptation field, and the numbers fit their fields. -/
structure Fits (p : TsPacket) : Prop where
  payload : p.payload.length ≤ tsPayloadMax - p.adaptation.len
  pid : p.pid < 2 ^ 13
  cc : p.cc < continuityCounterModulus
  /-- A packet without a payload has an adaptation field to carry. -/
  nonempty : p.payload = [] → p.adaptation.len ≠ 0

end TsPacket

/-! ## Reading a packet -/

variable (pkt : List UInt8)

def packetPid : Nat := (byteAt pkt 1 &&& 0x1F).toNat * 2 ^ 8 + (byteAt pkt 2).toNat

/-- A payload unit starts in the packet. -/
def packetPusi : Bool := byteAt pkt 1 &&& 0x40 != 0

def packetContinuityCounter : Nat := (byteAt pkt 3 &&& 0x0F).toNat

def carriesPayload : Bool := byteAt pkt 3 &&& 0x10 != 0

def hasAdaptationField : Bool := byteAt pkt 3 &&& 0x20 != 0

def adaptationFlags : Option UInt8 :=
  if hasAdaptationField pkt && byteAt pkt 4 != 0 then some (byteAt pkt 5) else none

def packetPayload : List UInt8 :=
  pkt.drop (if hasAdaptationField pkt then 5 + (byteAt pkt 4).toNat else 4)

/-- The clock reference in six bytes. -/
def readPcr (b0 b1 b2 b3 b4 b5 : UInt8) : Nat :=
  let base := b0.toNat * 2 ^ 25 + b1.toNat * 2 ^ 17 + b2.toNat * 2 ^ 9 + b3.toNat * 2 + b4.toNat / 2 ^ 7
  let extension := b4.toNat % 2 * 2 ^ 8 + b5.toNat
  base * systemClockTicksPer90khz + extension

/-- The clock reference of a packet. -/
def packetPcr27mhz : Option Nat :=
  if (adaptationFlags pkt).any fun flags => flags &&& 0x10 != 0 then
    some (readPcr (byteAt pkt 6) (byteAt pkt 7) (byteAt pkt 8) (byteAt pkt 9) (byteAt pkt 10) (byteAt pkt 11))
  else none

/-- The clock references count modulo this. -/
def pcrRange : Nat := 2 ^ 33 * systemClockTicksPer90khz

/-! ## What is read is what was written -/

@[simp] theorem length_writePcr (v : Nat) : (writePcr v).length = 6 := rfl

namespace TsPacket

variable {p : TsPacket}

theorem adaptationBytes_eq {afLen : Nat} (h : p.adaptation.len ≤ afLen + 1) (hpos : afLen ≠ 0) :
    ∃ stuffing, p.adaptationBytes afLen =
        p.adaptation.flags :: ((p.adaptation.pcr27mhz.map writePcr).getD [] ++ List.replicate stuffing 0xFF) ∧
      1 + ((p.adaptation.pcr27mhz.map writePcr).getD []).length + stuffing = afLen := by
  have hroom : 1 + ((p.adaptation.pcr27mhz.map writePcr).getD []).length ≤ afLen := by
    unfold AdaptationField.len at h
    rcases hpcr : p.adaptation.pcr27mhz with _ | v
    · simp only [map_none, getD_none, length_nil]
      omega
    · rw [hpcr] at h
      simp only [map_some, getD_some, length_writePcr]
      dsimp only at h
      omega
  refine ⟨afLen - (1 + ((p.adaptation.pcr27mhz.map writePcr).getD []).length), ?_, by omega⟩
  unfold adaptationBytes
  rw [take_append, take_of_length_le, take_replicate, length_append, length_singleton, Nat.min_eq_left (Nat.sub_le _ _)]
  · rfl
  · rw [length_append, length_singleton]
    exact hroom

/-- The control bits of a header: an adaptation field and a payload. -/
def control (p : TsPacket) : UInt8 :=
  if p.adaptation.len = 0 ∧ p.payload.length = tsPayloadMax then 0x10
  else if p.payload.length = 0 then 0x20 else 0x30

/-- What stands between the header and the payload. -/
def field (p : TsPacket) : List UInt8 :=
  if p.adaptation.len = 0 ∧ p.payload.length = tsPayloadMax then []
  else
    let afLen := tsPayloadMax - 1 - p.payload.length
    UInt8.ofNat afLen :: if afLen = 0 then [] else p.adaptationBytes afLen

theorem bytes_eq (p : TsPacket) :
    p.bytes = syncByte :: ((if p.pusi then 0x40 else 0) ||| (ofNat (p.pid / 2 ^ 8) &&& 0x1F)) ::
      ofNat p.pid :: (p.control ||| ofNat (p.cc % continuityCounterModulus)) ::
      (p.field ++ p.payload) := by
  unfold bytes control field
  split_ifs <;> simp only [cons_append, nil_append]

theorem length_field (h : p.Fits) : p.field.length + p.payload.length = tsPayloadMax := by
  have hpayload := h.payload
  unfold field
  by_cases hfull : p.adaptation.len = 0 ∧ p.payload.length = tsPayloadMax
  · rw [if_pos hfull, length_nil, Nat.zero_add]
    exact hfull.2
  · rw [if_neg hfull]
    dsimp only
    have hlt : p.payload.length < tsPayloadMax := by
      rcases Nat.lt_or_ge p.payload.length tsPayloadMax with hlt | hge
      · exact hlt
      · exact absurd ⟨by unfold tsPayloadMax at *; omega, by omega⟩ hfull
    by_cases hzero : tsPayloadMax - 1 - p.payload.length = 0
    · rw [if_pos hzero, length_cons, length_nil]
      omega
    · obtain ⟨stuffing, hbytes, hlength⟩ :=
        @adaptationBytes_eq p (tsPayloadMax - 1 - p.payload.length)
          (by have := p.adaptation.len_le; unfold tsPayloadMax at *; omega) hzero
      rw [if_neg hzero, hbytes, length_cons, length_cons, length_append, length_replicate]
      omega

theorem length_bytes (h : p.Fits) : p.bytes.length = tsPacketLen := by
  rw [bytes_eq]
  simp only [length_cons, length_append, length_field h]
  rfl

theorem head_bytes (p : TsPacket) : p.bytes.head? = some syncByte := by
  rw [bytes_eq]
  rfl

theorem control_read (p : TsPacket) :
    ((p.control ||| ofNat (p.cc % continuityCounterModulus)) &&& 0x0F).toNat = p.cc % continuityCounterModulus ∧
      ((p.control ||| ofNat (p.cc % continuityCounterModulus)) &&& 0x10 != 0) = (p.control != 0x20) ∧
      ((p.control ||| ofNat (p.cc % continuityCounterModulus)) &&& 0x20 != 0) = (p.control != 0x10) := by
  have hcontrol : p.control ∈ [0x10, 0x20, 0x30] := by
    unfold control
    split_ifs <;> decide
  have hcc : p.cc % continuityCounterModulus ∈ List.range 16 :=
    List.mem_range.2 (Nat.mod_lt _ (by decide))
  have hall : ∀ c ∈ [0x10, 0x20, 0x30], ∀ n ∈ List.range 16, ((c ||| ofNat n) &&& 0x0F).toNat = n ∧
      ((c ||| ofNat n) &&& 0x10 != 0) = (c != 0x20) ∧ ((c ||| ofNat n) &&& 0x20 != 0) = (c != 0x10) := by
    decide +kernel
  exact hall _ hcontrol _ hcc

theorem packetPid_bytes (h : p.Fits) : packetPid p.bytes = p.pid := by
  have hpid := h.pid
  have hhigh : ∀ n ∈ List.range 32, ∀ u ∈ [(0x40 : UInt8), 0], ((u ||| (ofNat n &&& 0x1F)) &&& 0x1F).toNat = n := by
    decide +kernel
  have hu : (if p.pusi then (0x40 : UInt8) else 0) ∈ [(0x40 : UInt8), 0] := by split_ifs <;> decide
  rw [bytes_eq]
  change (((if p.pusi then (0x40 : UInt8) else 0) ||| (ofNat (p.pid / 2 ^ 8) &&& 0x1F)) &&& 0x1F).toNat * 2 ^ 8 +
    (ofNat p.pid).toNat = p.pid
  rw [hhigh (p.pid / 2 ^ 8) (List.mem_range.2 (by omega)) _ hu, toNat_ofNat']
  omega

theorem packetContinuityCounter_bytes (h : p.Fits) : packetContinuityCounter p.bytes = p.cc := by
  rw [bytes_eq]
  exact p.control_read.1.trans (Nat.mod_eq_of_lt h.cc)

theorem carriesPayload_bytes (p : TsPacket) : carriesPayload p.bytes = !p.payload.isEmpty := by
  have hcontrol : (p.control != 0x20) = !p.payload.isEmpty := by
    unfold control
    rcases p.payload with _ | ⟨b, payload⟩
    · rw [if_neg fun h => absurd h.2 (by decide), if_pos length_nil]
      rfl
    · have hlength : (b :: payload).length ≠ 0 := Nat.succ_ne_zero _
      rw [if_neg hlength]
      split_ifs <;> rfl
  rw [bytes_eq]
  exact p.control_read.2.1.trans hcontrol

theorem hasAdaptationField_bytes (p : TsPacket) : hasAdaptationField p.bytes = !p.field.isEmpty := by
  have hcontrol : (p.control != 0x10) = !p.field.isEmpty := by
    unfold control field
    split_ifs <;> rfl
  rw [bytes_eq]
  exact p.control_read.2.2.trans hcontrol

theorem adaptationFlags_bytes (h : p.Fits) (hroom : p.payload.length + 1 < tsPayloadMax) :
    ∃ stuffing, p.field = ofNat (tsPayloadMax - 1 - p.payload.length) :: p.adaptation.flags ::
        ((p.adaptation.pcr27mhz.map writePcr).getD [] ++ List.replicate stuffing 0xFF) ∧
      adaptationFlags p.bytes = some p.adaptation.flags := by
  have hpayload := h.payload
  have hle := p.adaptation.len_le
  have hafLen : tsPayloadMax - 1 - p.payload.length ≠ 0 := by omega
  obtain ⟨stuffing, hbytes, -⟩ := @adaptationBytes_eq p (tsPayloadMax - 1 - p.payload.length)
    (by unfold tsPayloadMax at *; omega) hafLen
  have hfield : p.field = ofNat (tsPayloadMax - 1 - p.payload.length) :: p.adaptation.flags ::
      ((p.adaptation.pcr27mhz.map writePcr).getD [] ++ List.replicate stuffing 0xFF) := by
    unfold field
    rw [if_neg fun h => absurd h.2 (by omega)]
    dsimp only
    rw [if_neg hafLen, hbytes]
  have hbyte : (byteAt p.bytes 4 != 0) = true := by
    rw [bytes_eq, hfield]
    change (ofNat (tsPayloadMax - 1 - p.payload.length) != 0) = true
    rw [bne_iff_ne, Ne, ← UInt8.toNat_inj, toNat_ofNat', Nat.mod_eq_of_lt (by unfold tsPayloadMax; omega)]
    exact hafLen
  refine ⟨stuffing, hfield, ?_⟩
  unfold adaptationFlags
  rw [hasAdaptationField_bytes, hbyte, hfield, bytes_eq, hfield]
  rfl

theorem adaptationFlags_bytes_none (h : p.Fits) (hroom : ¬p.payload.length + 1 < tsPayloadMax) :
    adaptationFlags p.bytes = none := by
  have hpayload := h.payload
  have hlen : p.adaptation.len = 0 := by
    rcases Nat.eq_zero_or_pos p.adaptation.len with hzero | hpos
    · exact hzero
    · have htwo : 2 ≤ p.adaptation.len := by
        unfold AdaptationField.len at hpos ⊢
        split at hpos <;> omega
      unfold tsPayloadMax at *
      omega
  unfold adaptationFlags
  rw [hasAdaptationField_bytes]
  by_cases hfull : p.payload.length = tsPayloadMax
  · have hfield : p.field = [] := if_pos ⟨hlen, hfull⟩
    rw [hfield]
    rfl
  · have hzero : tsPayloadMax - 1 - p.payload.length = 0 := by omega
    have hfield : p.field = [0] := by
      unfold field
      rw [if_neg fun h => hfull h.2, hzero]
      rfl
    rw [bytes_eq, hfield]
    rfl

theorem toNat_sharedByte (base extension : Nat) (hext : extension < systemClockTicksPer90khz) :
    ((ofNat base &&& 1) <<< 7 ||| 0x7E ||| ofNat (extension / 2 ^ 8)).toNat =
      base % 2 * 2 ^ 7 + 126 + extension / 2 ^ 8 := by
  have hlow : ofNat base &&& 1 = ofNat (base % 2) := by
    rw [← UInt8.toNat_inj, UInt8.toNat_and, toNat_ofNat', toNat_ofNat']
    change base % 2 ^ 8 &&& 1 = base % 2 % 2 ^ 8
    rw [Nat.and_one_is_mod]
    omega
  have hall : ∀ a ∈ List.range 2, ∀ b ∈ List.range 2,
      (ofNat a <<< 7 ||| 0x7E ||| ofNat b).toNat = a * 2 ^ 7 + 126 + b := by
    decide
  have hhigh : extension / 2 ^ 8 < 2 := by
    unfold systemClockTicksPer90khz at hext
    omega
  rw [hlow]
  exact hall _ (List.mem_range.2 (Nat.mod_lt _ (by decide))) _ (List.mem_range.2 hhigh)

theorem div_two_pow_add (n i j : Nat) : n / 2 ^ (i + j) * 2 ^ j + n / 2 ^ i % 2 ^ j = n / 2 ^ i := by
  rw [pow_add, ← Nat.div_div_eq_div_mul]
  exact Nat.div_add_mod' _ _

theorem digits_sum {base a b c e x y z w : Nat} (hb : a * 2 ^ 8 + x = b) (hc : b * 2 ^ 8 + y = c)
    (he : c * 2 ^ 8 + z = e) (hbase : e * 2 + w = base) : a * 2 ^ 25 + x * 2 ^ 17 + y * 2 ^ 9 + z * 2 + w = base := by
  subst hb hc he hbase
  ring

theorem readPcr_digits {base extension : Nat} {shared : UInt8} (hbase : base < 2 ^ 33)
    (hext : extension < systemClockTicksPer90khz)
    (hshared : shared.toNat = base % 2 * 2 ^ 7 + 126 + extension / 2 ^ 8) :
    readPcr (ofNat (base / 2 ^ 25)) (ofNat (base / 2 ^ 17)) (ofNat (base / 2 ^ 9))
      (ofNat (base / 2)) shared (ofNat extension) = base * systemClockTicksPer90khz + extension := by
  have hextension : extension < 300 := hext
  have hlow : (base % 2 * 2 ^ 7 + 126 + extension / 2 ^ 8) % 2 * 2 ^ 8 + extension % 2 ^ 8 = extension := by
    omega
  have hdigits : base / 2 ^ 25 % 2 ^ 8 * 2 ^ 25 + base / 2 ^ 17 % 2 ^ 8 * 2 ^ 17 + base / 2 ^ 9 % 2 ^ 8 * 2 ^ 9 +
      base / 2 % 2 ^ 8 * 2 + (base % 2 * 2 ^ 7 + 126 + extension / 2 ^ 8) / 2 ^ 7 = base := by
    have hfirst : base / 2 ^ 25 % 2 ^ 8 = base / 2 ^ 25 := Nat.mod_eq_of_lt (by omega)
    have hsecond : base / 2 ^ 25 * 2 ^ 8 + base / 2 ^ 17 % 2 ^ 8 = base / 2 ^ 17 := div_two_pow_add base 17 8
    have hthird : base / 2 ^ 17 * 2 ^ 8 + base / 2 ^ 9 % 2 ^ 8 = base / 2 ^ 9 := div_two_pow_add base 9 8
    have hfourth : base / 2 ^ 9 * 2 ^ 8 + base / 2 % 2 ^ 8 = base / 2 := div_two_pow_add base 1 8
    have hlast : (base % 2 * 2 ^ 7 + 126 + extension / 2 ^ 8) / 2 ^ 7 = base % 2 := by omega
    rw [hfirst, hlast]
    exact digits_sum hsecond hthird hfourth (Nat.div_add_mod' base 2)
  unfold readPcr
  simp only [toNat_ofNat', hshared]
  rw [hdigits, hlow]

theorem packetPcr27mhz_bytes {v : Nat} (h : p.Fits) (hpcr : p.adaptation.pcr27mhz = some v) :
    packetPcr27mhz p.bytes = some (v % pcrRange) := by
  have hroom : p.payload.length + 1 < tsPayloadMax := by
    have hpayload := h.payload
    unfold AdaptationField.len at hpayload
    rw [hpcr] at hpayload
    unfold tsPayloadMax at *
    dsimp only at hpayload
    omega
  have hflag : (p.adaptation.flags &&& 0x10 != 0) = true := by
    rw [p.adaptation.flags_read.1, hpcr]
    rfl
  obtain ⟨stuffing, hfield, hflags⟩ := adaptationFlags_bytes h hroom
  have hdigits := readPcr_digits (Nat.mod_lt (v / systemClockTicksPer90khz) (Nat.two_pow_pos 33))
    (Nat.mod_lt v (by decide : 0 < systemClockTicksPer90khz))
    (toNat_sharedByte (v / systemClockTicksPer90khz % 2 ^ 33) _ (Nat.mod_lt _ (by decide)))
  have hmod : v % pcrRange = v / systemClockTicksPer90khz % 2 ^ 33 * systemClockTicksPer90khz +
      v % systemClockTicksPer90khz := by
    unfold pcrRange
    rw [Nat.mul_comm, Nat.mod_mul, Nat.add_comm, Nat.mul_comm]
  unfold packetPcr27mhz
  rw [hflags, any_some, hflag, if_pos rfl, bytes_eq, hfield, hpcr, hmod, ← hdigits]
  rfl

theorem packetPcr27mhz_bytes_none (h : p.Fits) (hpcr : p.adaptation.pcr27mhz = none) :
    packetPcr27mhz p.bytes = none := by
  have hflag : (adaptationFlags p.bytes).any (fun flags => flags &&& 0x10 != 0) = false := by
    by_cases hroom : p.payload.length + 1 < tsPayloadMax
    · obtain ⟨-, -, hflags⟩ := adaptationFlags_bytes h hroom
      rw [hflags, any_some, p.adaptation.flags_read.1, hpcr]
      rfl
    · rw [adaptationFlags_bytes_none h hroom]
      rfl
  unfold packetPcr27mhz
  rw [hflag]
  rfl

end TsPacket

end Glass2Glass.Ts
