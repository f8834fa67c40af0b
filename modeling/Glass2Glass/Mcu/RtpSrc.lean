import Glass2Glass.Mcu.Reorder

/-!
# The receive path

`RtpHeader::parse` (`g2g-core/src/rtp.rs`), `RtpSrc::next` (`g2g-mcu/src/rtprecv.rs`), and the chain of
`RtpSrc` and `JitterBuffer` that `run_source_transform_sink` drives (`g2g-core/src/staticelem.rs`). A
datagram is a list of bytes, and the datagrams the network stack hands over are a list of them; a source
whose list is at its end waits. The lengths a parser adds up stay far below a machine word, so its checked
additions are plain ones.
-/

namespace Glass2Glass.Mcu

open Machine JitterBuffer List

/-- A big-endian number. -/
def beNat (bytes : List UInt8) : Nat := bytes.foldl (fun n b => n * 256 + b.toNat) 0

/-- The fields of the fixed RTP header. -/
structure RtpHeader where
  payloadType : UInt8
  marker : Bool
  sequence : Nat
  timestamp : Nat
  ssrc : Nat
  deriving DecidableEq

/-- The header of a packet, and where it ends. -/
structure RtpParsedHeader where
  header : RtpHeader
  payloadOffset : Nat

/-- A packet: its header, and where its payload stands. -/
structure RtpParsed where
  header : RtpHeader
  payloadOffset : Nat
  payloadLen : Nat
  deriving DecidableEq

def rtpHeaderLen : Nat := 12

variable (buf : List UInt8)

/-- Where the extension ends, if the header has one after its `fixed` bytes. -/
def RtpHeader.extensionEnd (hasExtension : Bool) (fixed : Nat) : Option Nat :=
  if hasExtension then do
    let high ← buf[fixed + 2]?
    let low ← buf[fixed + 3]?
    pure (fixed + 4 + beNat [high, low] * 4)
  else some fixed

/-- Parse the header, with its list of contributing sources and its extension. -/
def RtpHeader.parseHeader : Option RtpParsedHeader := do
  let b0 : UInt8 ← buf[0]?
  if b0 >>> 6 != 2 then none
  else
    let hasExtension := b0 &&& 0x10 != 0
    let csrcCount := (b0 &&& 0x0F).toNat
    let b1 : UInt8 ← buf[1]?
    let marker := b1 &&& 0x80 != 0
    let payloadType := b1 &&& 0x7F
    let sequence := beNat [← buf[2]?, ← buf[3]?]
    let timestamp := beNat [← buf[4]?, ← buf[5]?, ← buf[6]?, ← buf[7]?]
    let ssrc := beNat [← buf[8]?, ← buf[9]?, ← buf[10]?, ← buf[11]?]
    let payloadOffset ← extensionEnd buf hasExtension (rtpHeaderLen + csrcCount * 4)
    if payloadOffset > buf.length then none
    else pure { header := { payloadType, marker, sequence, timestamp, ssrc }, payloadOffset }

/-- Where the payload ends: the last byte counts the padding, itself included. -/
def RtpHeader.payloadEnd (hasPadding : Bool) : Option Nat :=
  if hasPadding then do
    let pad ← buf.getLast?
    if buf.length < pad.toNat then none else pure (buf.length - pad.toNat)
  else some buf.length

/-- Parse a datagram: the payload stands between the header and the padding. -/
def RtpHeader.parse : Option RtpParsed := do
  let parsedHeader ← RtpHeader.parseHeader buf
  let b0 : UInt8 ← buf[0]?
  let last ← payloadEnd buf (b0 &&& 0x20 != 0)
  if parsedHeader.payloadOffset > last then none
  else
    pure
      { header := parsedHeader.header
        payloadOffset := parsedHeader.payloadOffset
        payloadLen := last - parsedHeader.payloadOffset }

theorem RtpHeader.payloadEnd_le {buf : List UInt8} {hasPadding : Bool} {last : Nat}
    (h : payloadEnd buf hasPadding = some last) : last ≤ buf.length := by
  unfold payloadEnd at h
  split_ifs at h
  · obtain ⟨pad, -, h⟩ := Option.bind_eq_some_iff.1 h
    split_ifs at h
    obtain rfl := Option.some.inj h
    exact Nat.sub_le _ _
  · obtain rfl := Option.some.inj h
    exact Nat.le_refl _

theorem RtpHeader.parse_bounds {buf : List UInt8} {parsed : RtpParsed} (h : RtpHeader.parse buf = some parsed) :
    parsed.payloadOffset + parsed.payloadLen ≤ buf.length := by
  obtain ⟨parsedHeader, -, h⟩ := Option.bind_eq_some_iff.1 h
  obtain ⟨b0, -, h⟩ := Option.bind_eq_some_iff.1 h
  obtain ⟨last, hlast, h⟩ := Option.bind_eq_some_iff.1 h
  have hle := payloadEnd_le hlast
  split_ifs at h
  obtain rfl := Option.some.inj h
  dsimp only
  omega

/-- `ticks_to_ns` (`g2g-core/src/time.rs`): to the nearest nanosecond, at most a word. -/
def ticksToNs (ticks rate : Nat) : Nat :=
  if rate = 0 then 2 ^ 64 - 1 else min ((ticks * 1000000000 + rate / 2) / rate) (2 ^ 64 - 1)

/-- A receive source, by what its calls read and write. -/
structure RtpSrc where
  /-- Which slots of the ring are lent. -/
  leased : Nat → Bool
  rateHz : Nat
  expectedPt : Option UInt8
  /-- Packets still to accept, when there is a limit. -/
  remaining : Option Nat
  malformed : Nat
  filtered : Nat

namespace RtpSrc

/-- A source over a ring with nothing lent. -/
def new (rateHz : Nat) : RtpSrc :=
  { leased := fun _ => false, rateHz, expectedPt := none, remaining := none, malformed := 0,
    filtered := 0 }

/-- Lend a slot of the ring for a payload: the frame, its slot, and what is lent now. -/
def lendSlot (SLOTS BYTES : Nat) (leased : Nat → Bool) (pts sequence : Nat) (payload : List UInt8) :
    Except G2gError (Frame × Nat × (Nat → Bool)) :=
  if payload.length > BYTES then .error .capsMismatch
  else
    match (List.range SLOTS).find? fun slot => !leased slot with
    | none => .error .poolExhausted
    | some slot => .ok (⟨.system payload, pts, sequence⟩, slot, Function.update leased slot true)

/-- What a call of `next` comes to. -/
inductive Next where
  /-- The call waits for a datagram. -/
  | waiting
  | ended
  /-- A frame, lent from a slot of the ring. -/
  | frame (frame : Frame) (slot : Nat)
  | failed (e : G2gError)

/-- Receive datagrams until one is accepted. -/
def receive (SLOTS PAYLOAD DGRAM : Nat) (src : RtpSrc) : List (List UInt8) → Next × RtpSrc × List (List UInt8)
  | [] => (.waiting, src, [])
  | datagram :: rest =>
    let skip := { src with malformed := (src.malformed + 1) % 2 ^ 32 }
    if datagram.length > DGRAM then skip.receive SLOTS PAYLOAD DGRAM rest
    else
      match RtpHeader.parse datagram with
      | none => skip.receive SLOTS PAYLOAD DGRAM rest
      | some parsed =>
        if src.expectedPt.any fun pt => parsed.header.payloadType != pt then
          { src with filtered := (src.filtered + 1) % 2 ^ 32 }.receive SLOTS PAYLOAD DGRAM rest
        else if parsed.payloadLen = 0 then skip.receive SLOTS PAYLOAD DGRAM rest
        else if parsed.payloadLen > PAYLOAD then (.failed .capsMismatch, src, rest)
        -- The payload is read from the scratch buffer.
        else if parsed.payloadOffset + parsed.payloadLen > DGRAM then
          skip.receive SLOTS PAYLOAD DGRAM rest
        else
          let payload := (datagram.drop parsed.payloadOffset).take parsed.payloadLen
          let pts := ticksToNs parsed.header.timestamp src.rateHz
          -- The frame is numbered by the 16-bit number of the packet.
          match lendSlot SLOTS PAYLOAD src.leased pts parsed.header.sequence payload with
          | .error e => (.failed e, src, rest)
          | .ok (frame, slot, leased) =>
            (.frame frame slot, { src with leased, remaining := src.remaining.map (· - 1) }, rest)

/-- The next frame received. -/
def next (SLOTS PAYLOAD DGRAM : Nat) (src : RtpSrc) (datagrams : List (List UInt8)) :
    Next × RtpSrc × List (List UInt8) :=
  if src.remaining = some 0 then (.ended, src, datagrams)
  else src.receive SLOTS PAYLOAD DGRAM datagrams

/-- A frame is dropped, and its slot is free again. -/
def release (src : RtpSrc) (slot : Nat) : RtpSrc :=
  { src with leased := Function.update src.leased slot false }

end RtpSrc

/-- The chain of a source and a jitter buffer, and the frames it handed to its sink. -/
structure Receiver where
  src : RtpSrc
  buf : JitterBuffer
  sink : List Frame

/-- A datagram that the source accepts: it fits the scratch buffer, parses, has the type asked for, and
carries a payload that fits a slot. -/
def RtpSrc.Accepts (PAYLOAD DGRAM : Nat) (src : RtpSrc) (datagram : List UInt8) (parsed : RtpParsed) : Prop :=
  RtpHeader.parse datagram = some parsed ∧ datagram.length ≤ DGRAM ∧
    (∀ pt ∈ src.expectedPt, parsed.header.payloadType = pt) ∧ 0 < parsed.payloadLen ∧
    parsed.payloadLen ≤ PAYLOAD

def RtpParsed.payload (parsed : RtpParsed) (datagram : List UInt8) : List UInt8 :=
  (datagram.drop parsed.payloadOffset).take parsed.payloadLen

def RtpParsed.frame (parsed : RtpParsed) (rateHz : Nat) (datagram : List UInt8) : Frame :=
  ⟨.system (parsed.payload datagram), ticksToNs parsed.header.timestamp rateHz, parsed.header.sequence⟩

variable {N BYTES SLOTS PAYLOAD DGRAM : Nat} {src : RtpSrc} {datagram : List UInt8} {parsed : RtpParsed}

end Glass2Glass.Mcu
