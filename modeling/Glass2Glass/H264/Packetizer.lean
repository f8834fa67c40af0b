import Glass2Glass.H264.AnnexB
import Glass2Glass.Lib.Words
import Glass2Glass.Mcu.RtpSrc

/-!
# The packetizer

`RtpHeader::to_bytes` (`g2g-core/src/rtp.rs`) and `RtpH264Packetizer` (`g2g-plugins/src/rtppay.rs`): a NAL unit
that fits a packet is sent as it is, a longer one in FU-A fragments, and the last packet of an access unit
carries the marker. `packetize` asks for no header extension, so none is written.
-/

namespace Glass2Glass.Mcu

open Words (beBytes)
open UInt8 (ofBitVec ofNat)

/-- The header as it goes on the wire. -/
def RtpHeader.toBytes (header : RtpHeader) : List UInt8 :=
  [0x80, (if header.marker then 0x80 else 0) ||| (header.payloadType &&& 0x7F)] ++ beBytes 2 header.sequence ++
    beBytes 4 header.timestamp ++ beBytes 4 header.ssrc

theorem marker_read (marker : Bool) (pt : UInt8) :
    ((((if marker then 0x80 else 0) ||| (pt &&& 0x7F)) &&& 0x80 != 0) = marker) ∧
      ((if marker then 0x80 else 0) ||| (pt &&& 0x7F)) &&& 0x7F = pt &&& 0x7F := by
  have hbits : ∀ b : BitVec 8,
      ((((if marker then 0x80 else 0) ||| (ofBitVec b &&& 0x7F)) &&& 0x80 != 0) = marker) ∧
      ((if marker then 0x80 else 0) ||| (ofBitVec b &&& 0x7F)) &&& 0x7F = ofBitVec b &&& 0x7F := by
    cases marker <;> decide
  exact hbits pt.toBitVec

theorem RtpHeader.parse_cons (b1 s1 s0 t3 t2 t1 t0 c3 c2 c1 c0 : UInt8) (payload : List UInt8) :
    parse (0x80 :: b1 :: s1 :: s0 :: t3 :: t2 :: t1 :: t0 :: c3 :: c2 :: c1 :: c0 :: payload) =
      some ⟨⟨b1 &&& 0x7F, b1 &&& 0x80 != 0, beNat [s1, s0], beNat [t3, t2, t1, t0], beNat [c3, c2, c1, c0]⟩,
        rtpHeaderLen, payload.length⟩ := by
  have hlength : ¬rtpHeaderLen > payload.length + rtpHeaderLen := by omega
  have hheader : parseHeader (0x80 :: b1 :: s1 :: s0 :: t3 :: t2 :: t1 :: t0 :: c3 :: c2 :: c1 :: c0 :: payload) =
      if rtpHeaderLen > payload.length + rtpHeaderLen then none
      else some ⟨⟨b1 &&& 0x7F, b1 &&& 0x80 != 0, beNat [s1, s0], beNat [t3, t2, t1, t0], beNat [c3, c2, c1, c0]⟩,
        rtpHeaderLen⟩ := rfl
  unfold parse
  change (if rtpHeaderLen > payload.length + rtpHeaderLen then none else some _) = _
  rfl

theorem RtpHeader.parse_extension (b1 s1 s0 t3 t2 t1 t0 c3 c2 c1 c0 p1 p0 w1 w0 : UInt8) {rest : List UInt8}
    (hwords : beNat [w1, w0] * 4 ≤ rest.length) :
    parse (0x90 :: b1 :: s1 :: s0 :: t3 :: t2 :: t1 :: t0 :: c3 :: c2 :: c1 :: c0 :: p1 :: p0 :: w1 :: w0 :: rest) =
      some ⟨⟨b1 &&& 0x7F, b1 &&& 0x80 != 0, beNat [s1, s0], beNat [t3, t2, t1, t0], beNat [c3, c2, c1, c0]⟩,
        16 + beNat [w1, w0] * 4, rest.length - beNat [w1, w0] * 4⟩ := by
  have hlength : ¬16 + beNat [w1, w0] * 4 > rest.length + 16 := by omega
  have hheader : parseHeader
      (0x90 :: b1 :: s1 :: s0 :: t3 :: t2 :: t1 :: t0 :: c3 :: c2 :: c1 :: c0 :: p1 :: p0 :: w1 :: w0 :: rest) =
      if 16 + beNat [w1, w0] * 4 > rest.length + 16 then none
      else some ⟨⟨b1 &&& 0x7F, b1 &&& 0x80 != 0, beNat [s1, s0], beNat [t3, t2, t1, t0], beNat [c3, c2, c1, c0]⟩,
        16 + beNat [w1, w0] * 4⟩ := rfl
  rw [if_neg hlength] at hheader
  unfold parse
  rw [hheader]
  have hpayload : rest.length + 16 - (16 + beNat [w1, w0] * 4) = rest.length - beNat [w1, w0] * 4 := by omega
  rw [← hpayload]
  exact if_neg hlength

/-- The header with each field in its own width. -/
def RtpHeader.onWire (header : RtpHeader) : RtpHeader where
  payloadType := header.payloadType &&& 0x7F
  marker := header.marker
  sequence := header.sequence % 2 ^ 16
  timestamp := header.timestamp % 2 ^ 32
  ssrc := header.ssrc % 2 ^ 32

theorem RtpHeader.toBytes_cons (header : RtpHeader) : ∃ b1 s1 s0 t3 t2 t1 t0 c3 c2 c1 c0 : UInt8,
    header.toBytes = [0x80, b1, s1, s0, t3, t2, t1, t0, c3, c2, c1, c0] ∧
      (⟨b1 &&& 0x7F, b1 &&& 0x80 != 0, beNat [s1, s0], beNat [t3, t2, t1, t0], beNat [c3, c2, c1, c0]⟩ : RtpHeader) =
        header.onWire := by
  have hbytes : header.toBytes =
      [0x80, (if header.marker then 0x80 else 0) ||| (header.payloadType &&& 0x7F),
        ofNat (header.sequence / 256 ^ 1), ofNat (header.sequence / 256 ^ 0),
        ofNat (header.timestamp / 256 ^ 3), ofNat (header.timestamp / 256 ^ 2),
        ofNat (header.timestamp / 256 ^ 1), ofNat (header.timestamp / 256 ^ 0),
        ofNat (header.ssrc / 256 ^ 3), ofNat (header.ssrc / 256 ^ 2), ofNat (header.ssrc / 256 ^ 1),
        ofNat (header.ssrc / 256 ^ 0)] := by
    unfold toBytes
    simp only [Words.beBytes_succ]
    rfl
  obtain ⟨hmarker, htype⟩ := marker_read header.marker header.payloadType
  refine ⟨_, _, _, _, _, _, _, _, _, _, _, hbytes, ?_⟩
  rw [hmarker, htype, onWire, mk.injEq]
  simp only [beNat, List.foldl_cons, List.foldl_nil, UInt8.toNat_ofNat', true_and]
  omega

theorem RtpHeader.onWire_eq {header : RtpHeader} (hpt : header.payloadType &&& 0x7F = header.payloadType)
    (hseq : header.sequence < 2 ^ 16) (hts : header.timestamp < 2 ^ 32) (hssrc : header.ssrc < 2 ^ 32) :
    header.onWire = header := by
  rw [onWire, hpt, Nat.mod_eq_of_lt hseq, Nat.mod_eq_of_lt hts, Nat.mod_eq_of_lt hssrc]

theorem RtpHeader.parse_toBytes {header : RtpHeader} (payload : List UInt8)
    (hpt : header.payloadType &&& 0x7F = header.payloadType) (hseq : header.sequence < 2 ^ 16)
    (hts : header.timestamp < 2 ^ 32) (hssrc : header.ssrc < 2 ^ 32) :
    parse (header.toBytes ++ payload) = some ⟨header, rtpHeaderLen, payload.length⟩ := by
  obtain ⟨b1, s1, s0, t3, t2, t1, t0, c3, c2, c1, c0, hbytes, hheader⟩ := header.toBytes_cons
  rw [hbytes]
  refine (parse_cons b1 s1 s0 t3 t2 t1 t0 c3 c2 c1 c0 payload).trans ?_
  rw [hheader, onWire_eq hpt hseq hts hssrc]

end Glass2Glass.Mcu

namespace Glass2Glass.H264

open Mcu (RtpHeader)
open Words (slice byteAt)

def fuAType : UInt8 := 28

def fuStartBit : UInt8 := 0x80

def fuEndBit : UInt8 := 0x40

def fuAHeaderLen : Nat := 2

/-- The payload of a packet: the prefix of a fragment, and what it takes from the access unit. -/
structure Payload where
  fuPrefix : List UInt8
  body : List UInt8

def Payload.whole (body : List UInt8) : Payload := ⟨[], body⟩

def Payload.bytes (payload : Payload) : List UInt8 := payload.fuPrefix ++ payload.body

structure RtpPacketWriter where
  payloadType : UInt8
  ssrc : UInt32
  sequence : UInt16

namespace RtpPacketWriter

def new (payloadType : UInt8) (ssrc : UInt32) : RtpPacketWriter :=
  { payloadType := payloadType &&& 0x7F, ssrc, sequence := 0 }

def header (w : RtpPacketWriter) (marker : Bool) (timestamp : UInt32) : RtpHeader :=
  { payloadType := w.payloadType, marker, sequence := w.sequence.toNat, timestamp := timestamp.toNat,
    ssrc := w.ssrc.toNat }

/-- A packet for every payload. The marker goes on the last, the end of the access unit. -/
def write (w : RtpPacketWriter) : List Payload → UInt32 → List (List UInt8) × RtpPacketWriter
  | [], _ => ([], w)
  | payload :: payloads, timestamp =>
    let packet := (w.header payloads.isEmpty timestamp).toBytes ++ payload.bytes
    let (packets, w) := write { w with sequence := w.sequence + 1 } payloads timestamp
    (packet :: packets, w)

end RtpPacketWriter

/-- How a codec splits a NAL unit too big for a packet. -/
structure NalFragmentation where
  nalHeaderLen : Nat
  fuPrefixLen : Nat
  /-- The prefix of a fragment, from the header of its NAL unit and its start and end bits. -/
  fuPrefix : List UInt8 → UInt8 → List UInt8

/-- The header byte goes into the FU indicator and the FU header. -/
def fuPrefix (header : UInt8) (startEnd : UInt8) : List UInt8 :=
  [header &&& 0xE0 ||| fuAType, startEnd ||| header &&& 0x1F]

def h264Fragmentation : NalFragmentation :=
  { nalHeaderLen := 1, fuPrefixLen := fuAHeaderLen, fuPrefix := fun header => fuPrefix (byteAt header 0) }

/-- `slice::chunks`: parts of `n` bytes, the last one with what is left. -/
def chunks (n : Nat) (bytes : List UInt8) : List (List UInt8) :=
  (List.range ((bytes.length + n - 1) / n)).map fun i => slice bytes (i * n) n

def fragments (nal : List UInt8) (maxPayload : Nat) (fragmentation : NalFragmentation) : List Payload :=
  let header := nal.take fragmentation.nalHeaderLen
  let parts := chunks (maxPayload - fragmentation.fuPrefixLen) (nal.drop fragmentation.nalHeaderLen)
  parts.mapIdx fun i part =>
    let start := if i = 0 then fuStartBit else 0
    let last := if i + 1 = parts.length then fuEndBit else 0
    ⟨fragmentation.fuPrefix header (start ||| last), part⟩

def payloadsOf (nal : List UInt8) (maxPayload : Nat) (fragmentation : NalFragmentation) : List Payload :=
  if nal.length ≤ maxPayload then [.whole nal] else fragments nal maxPayload fragmentation

def nalPayloads (accessUnit : List UInt8) (maxPayload : Nat) (fragmentation : NalFragmentation) : List Payload :=
  ((nalUnits accessUnit).filter fun nal => nal ≠ []).flatMap fun nal => payloadsOf nal maxPayload fragmentation

structure RtpH264Packetizer where
  writer : RtpPacketWriter
  maxPayload : Nat

namespace RtpH264Packetizer

def new (payloadType : UInt8) (ssrc : UInt32) : RtpH264Packetizer :=
  { writer := .new payloadType ssrc, maxPayload := 1400 }

/-- At least so much that a fragment carries a byte. -/
def withMaxPayload (p : RtpH264Packetizer) (bytes : Nat) : RtpH264Packetizer :=
  { p with maxPayload := max bytes (fuAHeaderLen + 1) }

def packetize (p : RtpH264Packetizer) (accessUnit : List UInt8) (rtpTimestamp : UInt32) :
    List (List UInt8) × RtpH264Packetizer :=
  let payloads := nalPayloads accessUnit p.maxPayload h264Fragmentation
  let (packets, writer) := p.writer.write payloads rtpTimestamp
  (packets, { p with writer })

/-- The packets of one access unit after the other. -/
def packetizeAll (p : RtpH264Packetizer) : List (List UInt8 × UInt32) → List (List UInt8)
  | [] => []
  | (accessUnit, rtpTimestamp) :: units =>
    let (packets, p) := p.packetize accessUnit rtpTimestamp
    packets ++ packetizeAll p units

end RtpH264Packetizer

/-! ## Fragments -/

section Chunks

variable {n : Nat} {bytes : List UInt8}

theorem chunks_nil (hn : 0 < n) : chunks n [] = [] := by
  have hcount : (0 + n - 1) / n = 0 := Nat.div_eq_of_lt (by omega)
  unfold chunks
  rw [List.length_nil, hcount]
  rfl

theorem chunks_eq_cons (hn : 0 < n) (h : bytes ≠ []) : chunks n bytes = bytes.take n :: chunks n (bytes.drop n) := by
  have hpos : 0 < bytes.length := List.length_pos_iff.2 h
  have hcount : (bytes.length + n - 1) / n = (bytes.length - n + n - 1) / n + 1 := by
    rcases Nat.lt_or_ge bytes.length n with hlt | hge
    · rw [Nat.sub_eq_zero_of_le hlt.le, Nat.div_eq_of_lt (by omega : 0 + n - 1 < n),
        Nat.div_eq_sub_div hn (by omega), Nat.div_eq_of_lt (by omega)]
    · rw [← Nat.add_div_right _ hn]
      congr 1
      omega
  unfold chunks
  rw [hcount, List.range_succ_eq_map, List.map_cons, List.map_map, List.length_drop]
  congr 1
  · rw [Nat.zero_mul]
    rfl
  · refine List.map_congr_left fun i _ => ?_
    change slice bytes ((i + 1) * n) n = _
    unfold slice
    rw [List.drop_drop, Nat.succ_mul, Nat.add_comm]

theorem flatten_chunks (hn : 0 < n) (bytes : List UInt8) : (chunks n bytes).flatten = bytes := by
  by_cases h : bytes = []
  · rw [h, chunks_nil hn]
    rfl
  · have hlt : (bytes.drop n).length < bytes.length := by
      have := List.length_pos_iff.2 h
      rw [List.length_drop]
      omega
    rw [chunks_eq_cons hn h, List.flatten_cons, flatten_chunks hn (bytes.drop n), List.take_append_drop]
termination_by bytes.length

end Chunks

/-- The packets of a NAL unit behind its first fragment. -/
def laterFragments (header : UInt8) : List (List UInt8) → List (List UInt8)
  | [] => []
  | part :: parts =>
    (fuPrefix header (if parts = [] then fuEndBit else 0) ++ part) :: laterFragments header parts

def pieces (maxPayload : Nat) (nal : Nal) : List (List UInt8) :=
  (payloadsOf nal.bytes maxPayload h264Fragmentation).map Payload.bytes

theorem map_mapIdx_later (header : UInt8) (parts : List (List UInt8)) {count k : Nat} (hk : k ≠ 0)
    (hcount : count = k + parts.length) :
    (parts.mapIdx fun i part => Payload.mk (fuPrefix header
      ((if i + k = 0 then fuStartBit else 0) ||| (if i + k + 1 = count then fuEndBit else 0))) part).map
        Payload.bytes = laterFragments header parts := by
  induction parts generalizing k with
  | nil => rfl
  | cons part parts ih =>
    have hlast : 0 + k + 1 = count ↔ parts = [] := by
      rw [hcount, List.length_cons, ← List.length_eq_zero_iff]
      omega
    have hrest := ih (k := k + 1) (Nat.succ_ne_zero k) (by rw [hcount, List.length_cons]; omega)
    rw [List.mapIdx_cons, List.map_cons, laterFragments, ← hrest, if_neg (by omega : ¬0 + k = 0), UInt8.zero_or,
      if_congr hlast rfl rfl]
    simp only [Nat.add_right_comm _ 1 k, Nat.add_assoc]
    rfl

/-- The fragments of a NAL unit: its header is in every one of them, and the rest in order. -/
theorem pieces_fragments {maxPayload : Nat} {nal : Nal} (hmax : fuAHeaderLen + 1 ≤ maxPayload)
    (hlong : ¬nal.bytes.length ≤ maxPayload) :
    ∃ first parts, parts ≠ [] ∧ nal.bytes = nal.header :: (first ++ parts.flatten) ∧
      pieces maxPayload nal = (fuPrefix nal.header fuStartBit ++ first) :: laterFragments nal.header parts := by
  obtain ⟨body, hbytes⟩ : ∃ body, nal.bytes = nal.header :: body := List.head?_eq_some_iff.1 nal.head
  have hn : 0 < maxPayload - fuAHeaderLen := by omega
  have hbody : maxPayload - fuAHeaderLen < body.length := by
    rw [hbytes, List.length_cons] at hlong
    unfold fuAHeaderLen at hmax ⊢
    omega
  have hne : body ≠ [] := List.length_pos_iff.1 (Nat.zero_lt_of_lt hbody)
  have hrest : body.drop (maxPayload - fuAHeaderLen) ≠ [] := by
    rw [← List.length_pos_iff, List.length_drop]
    exact Nat.sub_pos_of_lt hbody
  refine ⟨body.take (maxPayload - fuAHeaderLen),
    chunks (maxPayload - fuAHeaderLen) (body.drop (maxPayload - fuAHeaderLen)), ?_, ?_, ?_⟩
  · rw [chunks_eq_cons hn hrest]
    exact List.cons_ne_nil _ _
  · rw [flatten_chunks hn, List.take_append_drop, hbytes]
  · have hparts : chunks (maxPayload - h264Fragmentation.fuPrefixLen)
        (nal.bytes.drop h264Fragmentation.nalHeaderLen) =
        body.take (maxPayload - fuAHeaderLen) ::
          chunks (maxPayload - fuAHeaderLen) (body.drop (maxPayload - fuAHeaderLen)) := by
      rw [hbytes]
      exact chunks_eq_cons hn hne
    have hheader : h264Fragmentation.fuPrefix (nal.bytes.take h264Fragmentation.nalHeaderLen) =
        fuPrefix nal.header := by
      rw [hbytes]
      rfl
    have hlater := map_mapIdx_later nal.header
      (chunks (maxPayload - fuAHeaderLen) (body.drop (maxPayload - fuAHeaderLen))) Nat.one_ne_zero (Nat.add_comm _ 1)
    have hmore : 0 + 1 ≠ (chunks (maxPayload - fuAHeaderLen) (body.drop (maxPayload - fuAHeaderLen))).length + 1 := by
      rw [chunks_eq_cons hn hrest, List.length_cons]
      omega
    unfold pieces payloadsOf fragments
    rw [if_neg hlong, hparts]
    dsimp only
    rw [hheader, List.mapIdx_cons, List.map_cons, ← hlater, List.length_cons, if_pos rfl, if_neg hmore, UInt8.or_zero]
    rfl

/-! ## The packets of an access unit -/

/-- The elements of a list, each with those behind it. -/
def withRest {α : Type} : List α → List (α × List α)
  | [] => []
  | x :: xs => (x, xs) :: withRest xs

@[simp] theorem length_withRest {α : Type} (xs : List α) : (withRest xs).length = xs.length := by
  induction xs with
  | nil => rfl
  | cons x xs ih => rw [withRest, List.length_cons, ih, List.length_cons]

theorem append_of_mem_withRest {α : Type} {xs rest : List α} {x : α} (h : (x, rest) ∈ withRest xs) :
    ∃ before, xs = before ++ x :: rest := by
  induction xs with
  | nil => cases h
  | cons y ys ih =>
    rcases List.mem_cons.1 h with h | h
    · rw [Prod.mk.injEq] at h
      exact ⟨[], by rw [h.1, h.2]; rfl⟩
    · obtain ⟨before, hbefore⟩ := ih h
      exact ⟨y :: before, by rw [hbefore]; rfl⟩

namespace RtpPacketWriter

variable (w : RtpPacketWriter)

/-- The writer at the `i`-th packet from now. -/
def later (i : Nat) : RtpPacketWriter := { w with sequence := w.sequence + UInt16.ofNat i }

def packet (marker : Bool) (timestamp : UInt32) (payload : List UInt8) : List UInt8 :=
  (w.header marker timestamp).toBytes ++ payload

theorem later_zero : w.later 0 = w := by
  have hsequence : w.sequence + UInt16.ofNat 0 = w.sequence := UInt16.add_zero _
  unfold later
  rw [hsequence]

theorem later_later (i j : Nat) : (w.later i).later j = w.later (i + j) := by
  unfold later
  rw [UInt16.ofNat_add, ← UInt16.add_assoc]

theorem write_cons (payload : Payload) (payloads : List Payload) (timestamp : UInt32) :
    w.write (payload :: payloads) timestamp =
      (w.packet payloads.isEmpty timestamp payload.bytes :: ((w.later 1).write payloads timestamp).1,
        ((w.later 1).write payloads timestamp).2) := rfl

theorem write_eq (payloads : List Payload) (timestamp : UInt32) : w.write payloads timestamp =
      ((withRest (payloads.map Payload.bytes)).mapIdx fun i s => (w.later i).packet s.2.isEmpty timestamp s.1,
        w.later payloads.length) := by
  induction payloads generalizing w with
  | nil => rw [List.length_nil, later_zero]; rfl
  | cons payload payloads ih =>
    rw [write_cons, ih]
    simp only [later_later, List.map_cons, withRest, List.mapIdx_cons, List.isEmpty_map, later_zero,
      List.length_cons, Nat.add_comm 1]

theorem toNat_sequence_later (i : Nat) : (w.later i).sequence.toNat = (w.sequence.toNat + i) % 2 ^ 16 := by
  unfold later
  rw [UInt16.toNat_add, UInt16.toNat_ofNat', Nat.add_mod_mod]

end RtpPacketWriter

theorem RtpH264Packetizer.packetizeAll_cons (p : RtpH264Packetizer) (unit : List UInt8 × UInt32)
    (units : List (List UInt8 × UInt32)) : p.packetizeAll (unit :: units) =
      (p.writer.write (nalPayloads unit.1 p.maxPayload h264Fragmentation) unit.2).1 ++
        packetizeAll { p with writer := p.writer.later (nalPayloads unit.1 p.maxPayload h264Fragmentation).length }
          units := by
  have hwriter : (p.writer.write (nalPayloads unit.1 p.maxPayload h264Fragmentation) unit.2).2 =
      p.writer.later (nalPayloads unit.1 p.maxPayload h264Fragmentation).length := by
    rw [RtpPacketWriter.write_eq]
  rw [← hwriter]
  rfl

end Glass2Glass.H264
