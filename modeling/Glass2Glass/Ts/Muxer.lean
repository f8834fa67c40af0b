import Glass2Glass.Ogg.Page
import Glass2Glass.Ts.Packet

/-!
# The transport stream muxer

`TsMuxer` (`g2g-plugins/src/mpegts.rs`): how `push_au_on` writes an access unit as packets, behind the tables,
the splice heartbeat, the clock references and the null packets that are due. The output of a call is kept as
the packets written to it; its length is that of their bytes. A run writes fewer than `2 ^ 64` bytes, so the
count of them is a plain number. What only a warning or a setter reads is left out.
-/

namespace Glass2Glass.Ts

open Ogg (crc32Mpeg2)
open Words (beBytes)

def u64Max : Nat := 2 ^ 64 - 1

def saturatingAdd (a b : Nat) : Nat := min (a + b) u64Max

def saturatingMul (a b : Nat) : Nat := min (a * b) u64Max

def pidPat : Nat := 0x0000

def pidSdt : Nat := 0x0011

def muxPmtPid : Nat := 0x1000

def muxEsPid : Nat := 0x0100

def psiSectionCrcInit : UInt32 := 0xFFFFFFFF

def mpegCrc32 (data : List UInt8) : UInt32 := crc32Mpeg2 psiSectionCrcInit data

/-! ## State -/

structure ServiceInfo where
  name : String
  provider : String

structure MuxStream where
  streamType : UInt8
  pid : Nat
  streamId : UInt8
  esCc : Nat
  program : Nat
  metaSeq : UInt8
  esInfo : List UInt8
  dvbSubtitle : Bool
  teletext : Bool
  opus : Bool
  deriving Inhabited

structure MuxProgram where
  number : Nat
  pmtPid : Nat
  pmtCc : Nat
  /-- The stream that carries the clock reference of the program. -/
  pcrStream : Nat
  lastPcr27mhz : Option Nat
  service : Option ServiceInfo
  deriving Inhabited

structure TsMuxer where
  streams : List MuxStream
  programs : List MuxProgram
  patCc : Nat
  sdtCc : Nat
  defaultService : Option ServiceInfo
  tablesWritten : Bool
  tableInterval90khz : Nat
  siInterval90khz : Nat
  lastTables27mhz : Option Nat
  lastSi27mhz : Option Nat
  pcrInterval90khz : Nat
  /-- Zero is variable bitrate. -/
  bitrate : Nat
  byteClockStart27mhz : Option Nat
  bytesWritten : Nat
  transportStreamId : Nat
  originalNetworkId : Nat
  tablesVersion : UInt8
  /-- The PID of the splice information and its continuity counter. -/
  splice : Option (Nat × Nat)
  spliceNullInterval90khz : Nat
  lastSplice27mhz : Option Nat

/-- A muxer, and what the call under way has written. -/
structure Writing where
  mux : TsMuxer
  out : List TsPacket

namespace TsMuxer

variable (m : TsMuxer)

def stream (i : Nat) : MuxStream := m.streams.getD i default

def program (i : Nat) : MuxProgram := m.programs.getD i default

def setStream (i : Nat) (s : MuxStream) : TsMuxer := { m with streams := m.streams.set i s }

def setProgram (i : Nat) (p : MuxProgram) : TsMuxer := { m with programs := m.programs.set i p }

def constantBitrate : Bool := 0 < m.bitrate

def decoderDelay90khz : Nat := if m.constantBitrate then 63000 else 9000

/-- The clock at a byte: the start, and the time the bytes before it take at the bitrate. -/
def byteClockAt (bytes : Nat) : Nat :=
  let start := m.byteClockStart27mhz.getD 0
  if m.constantBitrate then
    let elapsed := bytes * 8 * 27000000 / m.bitrate
    saturatingAdd start (min elapsed u64Max)
  else start

def byteClock27mhz (pending : Nat) : Nat := m.byteClockAt (m.bytesWritten + pending)

def pcrDue (programIndex now27mhz : Nat) : Bool :=
  let interval := saturatingMul m.pcrInterval90khz systemClockTicksPer90khz
  (m.program programIndex).lastPcr27mhz.all fun last => saturatingAdd last interval ≤ now27mhz

def versionByte : UInt8 := (0xC1 : UInt8) ||| (m.tablesVersion <<< 1)

/-- The service of a program: its own, else the one of the muxer. -/
def programService (i : Nat) : Option ServiceInfo := (m.program i).service.or m.defaultService

end TsMuxer

/-- No interval and no clock never repeat. -/
def cadenceDue (now27mhz last27mhz : Option Nat) (interval90khz : Nat) : Bool :=
  match now27mhz with
  | none => false
  | some now =>
    if interval90khz = 0 then false
    else
      let interval := saturatingMul interval90khz systemClockTicksPer90khz
      last27mhz.all fun last => saturatingAdd last interval ≤ now

def advanceContinuityCounter (cc : Nat) : Nat := (cc + 1) % continuityCounterModulus

/-! ## Sections and tables -/

/-- The packets of what is left of a section behind its pointer. Each takes a byte at least, so the fuel is the
length. -/
def sectionLoop (pid : Nat) : Nat → Bool → Nat → List UInt8 → List TsPacket × Nat
  | 0, _, cc, _ => ([], cc)
  | fuel + 1, pusi, cc, rest =>
    let packet : TsPacket := ⟨pid, pusi, cc, .empty, rest.take tsPayloadMax⟩
    let cc := (cc + 1) % continuityCounterModulus
    let rest := rest.drop tsPayloadMax
    if rest = [] then ([packet], cc)
    else
      let (packets, cc) := sectionLoop pid fuel false cc rest
      (packet :: packets, cc)

/-- `section_packets`: a section behind its pointer field, and the next counter of its PID. -/
def sectionPackets (pid : Nat) (bytes : List UInt8) (cc : Nat) : List TsPacket × Nat :=
  sectionLoop pid (bytes.length + 1) true cc (0 :: bytes)

/-- The section of `psi_packet`: table, length, body and checksum. -/
def psiSection (tableId : UInt8) (body : List UInt8) : List UInt8 :=
  let sectionLength := body.length + 4
  let head := [tableId, 0xB0 ||| (UInt8.ofNat (sectionLength / 2 ^ 8) &&& 0x0F), UInt8.ofNat sectionLength] ++ body
  head ++ beBytes 4 (mpegCrc32 head).toNat

def psiPacket (pid : Nat) (tableId : UInt8) (body : List UInt8) (cc : Nat) : List TsPacket × Nat :=
  sectionPackets pid (psiSection tableId body) cc

/-- A PID in two bytes, under the reserved bits. -/
def pidBytes (pid : Nat) : List UInt8 := [0xE0 ||| (UInt8.ofNat (pid / 2 ^ 8) &&& 0x1F), UInt8.ofNat pid]

namespace TsMuxer

def patBody (m : TsMuxer) : List UInt8 :=
  beBytes 2 m.transportStreamId ++ [m.versionByte, 0x00, 0x00] ++
    m.programs.flatMap fun p => beBytes 2 p.number ++ pidBytes p.pmtPid

def cueiRegistration : List UInt8 := [0x05, 4, 67, 85, 69, 73]

/-- An entry of the loop of elementary streams. -/
def esEntry (s : MuxStream) : List UInt8 :=
  [s.streamType] ++ pidBytes s.pid ++
    [0xF0 ||| (UInt8.ofNat (s.esInfo.length / 2 ^ 8) &&& 0x0F), UInt8.ofNat s.esInfo.length] ++ s.esInfo

/-- The body of a PMT: the streams of the program, and in the first program the splice information. -/
def pmtBody (m : TsMuxer) (progIdx : Nat) : List UInt8 :=
  let pcrPid := (m.stream (m.program progIdx).pcrStream).pid
  let splicePid := (m.splice.filter fun _ => progIdx = 0).map Prod.fst
  let programInfo := if splicePid.isSome then cueiRegistration else []
  beBytes 2 (m.program progIdx).number ++ [m.versionByte, 0x00, 0x00] ++ pidBytes pcrPid ++
    [0xF0, UInt8.ofNat programInfo.length] ++ programInfo ++
    (m.streams.filter fun s => s.program = progIdx).flatMap esEntry ++
    splicePid.elim [] fun pid => [0x86] ++ pidBytes pid ++ [0xF0, 0x00]

/-- The characters of a text that fit `room` bytes. -/
def charsWithin : Nat → List Char → List Char
  | _, [] => []
  | room, c :: cs => if c.utf8Size ≤ room then c :: charsWithin (room - c.utf8Size) cs else []

/-- `dvb_field`: a text cut where a character ends, so that two of them fit a descriptor. -/
def dvbField (text : String) : List UInt8 := (charsWithin 124 text.toList).flatMap String.utf8EncodeChar

def muxStreamTypeIsVideo (streamType : UInt8) : Bool := streamType ∈ [(0x1B : UInt8), 0x24, 0x10]

/-- The entry of a service: its program, and its descriptor. -/
def serviceEntry (m : TsMuxer) (i : Nat) (service : ServiceInfo) : List UInt8 :=
  let name := dvbField service.name
  let provider := dvbField service.provider
  let descLen := 3 + provider.length + name.length
  let loopLen := 2 + descLen
  let video := m.streams.any fun s => s.program = i ∧ muxStreamTypeIsVideo s.streamType
  beBytes 2 (m.program i).number ++
    [0xFC, 0x80 ||| (UInt8.ofNat (loopLen / 2 ^ 8) &&& 0x0F), UInt8.ofNat loopLen, 0x48, UInt8.ofNat descLen,
      if video then 0x01 else 0x02, UInt8.ofNat provider.length] ++ provider ++ [UInt8.ofNat name.length] ++ name

/-- The body of the SDT, empty when no program names a service. -/
def sdtBody (m : TsMuxer) : List UInt8 :=
  let entries := (List.range m.programs.length).flatMap fun i =>
    (m.programService i).elim [] fun service => m.serviceEntry i service
  if entries = [] then []
  else
    beBytes 2 m.transportStreamId ++ [m.versionByte, 0x00, 0x00] ++ beBytes 2 m.originalNetworkId ++ [0xFF] ++ entries

end TsMuxer

namespace Writing

variable (w : Writing)

def len : Nat := (w.out.flatMap TsPacket.bytes).length

def append (packets : List TsPacket) : Writing := { w with out := w.out ++ packets }

/-- The byte clock where the call has got to, `ahead` bytes on. -/
def byteClock (ahead : Nat) : Nat := w.mux.byteClock27mhz (w.len + ahead)

def patPacket : Writing :=
  let (packets, cc) := psiPacket pidPat 0x00 w.mux.patBody w.mux.patCc
  { w.append packets with mux := { w.mux with patCc := cc } }

def pmtPacket (progIdx : Nat) : Writing :=
  let p := w.mux.program progIdx
  let (packets, cc) := psiPacket p.pmtPid 0x02 (w.mux.pmtBody progIdx) p.pmtCc
  { w.append packets with mux := w.mux.setProgram progIdx { p with pmtCc := cc } }

def sdtPacket : Writing :=
  if w.mux.sdtBody = [] then w
  else
    let (packets, cc) := psiPacket pidSdt 0x42 w.mux.sdtBody w.mux.sdtCc
    { w.append packets with mux := { w.mux with sdtCc := cc } }

/-- The PAT and the PMTs on one cadence, the SDT on another, and all of them in the first call. -/
def writeTablesIfDue (now27mhz : Option Nat) : Writing :=
  let first := !w.mux.tablesWritten
  let tablesDue := first || cadenceDue now27mhz w.mux.lastTables27mhz w.mux.tableInterval90khz
  let siDue := first || cadenceDue now27mhz w.mux.lastSi27mhz w.mux.siInterval90khz
  let w :=
    if tablesDue then
      let w := (List.range w.mux.programs.length).foldl pmtPacket w.patPacket
      { w with mux := { w.mux with lastTables27mhz := now27mhz.or w.mux.lastTables27mhz } }
    else w
  let w :=
    if siDue then
      let w := w.sdtPacket
      { w with mux := { w.mux with lastSi27mhz := now27mhz.or w.mux.lastSi27mhz } }
    else w
  { w with mux := { w.mux with tablesWritten := true } }

/-- A clock reference in a packet of its own: without a payload the counter repeats. -/
def pcrOnlyPacket (programIndex pcr27mhz : Nat) : Writing :=
  let s := w.mux.stream (w.mux.program programIndex).pcrStream
  let lastCc := (s.esCc + (continuityCounterModulus - 1)) % continuityCounterModulus
  w.append [⟨s.pid, false, lastCc, ⟨some pcr27mhz, false⟩, []⟩]

/-- Note the clock reference a program sends. -/
def notePcr (programIndex pcr27mhz : Nat) : Writing :=
  let p := w.mux.program programIndex
  { w with mux := w.mux.setProgram programIndex { p with lastPcr27mhz := some pcr27mhz } }

/-- What the clock reference refers to: the byte with the last bit of its base. -/
def pcrByteOffset : Nat := 11

/-- One program of `write_due_pcr_only_packets`. A reference due on the stream that embeds its own rides its next
packet. -/
def writeDuePcr (embeddingStream : Option Nat) (state : Writing × Bool) (programIndex : Nat) : Writing × Bool :=
  let (w, wrote) := state
  if some (w.mux.program programIndex).pcrStream = embeddingStream then (w, wrote)
  else if !w.mux.pcrDue programIndex (w.byteClock 0) then (w, wrote)
  else
    let pcr := w.byteClock pcrByteOffset
    ((w.notePcr programIndex pcr).pcrOnlyPacket programIndex pcr, true)

def writeDuePcrOnlyPackets (embeddingStream : Option Nat) : Writing × Bool :=
  (List.range w.mux.programs.length).foldl (writeDuePcr embeddingStream) (w, false)

/-- A packet that carries nothing. -/
def nullPacket : TsPacket := ⟨pidNull, false, 0, .empty, List.replicate tsPayloadMax 0xFF⟩

/-- Write until the byte clock has come to the target, `none` when the fuel gives out before. -/
def padUntil (target27mhz : Nat) : Nat → Writing → Option Writing
  | 0, _ => none
  | fuel + 1, w =>
    let w := w.writeTablesIfDue (some (w.byteClock 0))
    if target27mhz ≤ w.byteClock 0 then some w
    else
      let (w, wrote) := w.writeDuePcrOnlyPackets none
      padUntil target27mhz fuel (if wrote then w else w.append [nullPacket])

end Writing

/-! ## Access units -/

/-- `splice_null`: the heartbeat of splice information. -/
def spliceNull : List UInt8 :=
  let head : List UInt8 := [0xFC, 0x30, 17] ++ List.replicate 6 0 ++ [0xFF, 0xFF, 0xF0, 0x00] ++ [0x00] ++ [0, 0]
  head ++ beBytes 4 (mpegCrc32 head).toNat

/-- A time stamp in five bytes, behind the four bits of its marker. -/
def encodeTimestamp (marker ts : Nat) : List UInt8 :=
  [UInt8.ofNat (marker * 2 ^ 4 + ts / 2 ^ 30 % 2 ^ 3 * 2 + 1), UInt8.ofNat (ts / 2 ^ 22),
    UInt8.ofNat (ts / 2 ^ 15 % 2 ^ 7 * 2 + 1), UInt8.ofNat (ts / 2 ^ 7), UInt8.ofNat (ts % 2 ^ 7 * 2 + 1)]

/-- The time stamps of a PES header, behind their flags and their length. A decode time that is the
presentation time is left out. -/
def pesTimestamps : Option Nat → Option Nat → List UInt8
  | some pts, some dts =>
    if dts ≠ pts then [0xC0, 10] ++ encodeTimestamp 0x3 pts ++ encodeTimestamp 0x1 dts
    else [0x80, 5] ++ encodeTimestamp 0x2 pts
  | some pts, none => [0x80, 5] ++ encodeTimestamp 0x2 pts
  | none, _ => [0x00, 0]

/-- The PES header of an access unit. A length that does not fit is left open. -/
def pesHeader (streamId : UInt8) (payloadLen : Nat) (pts90khz dts90khz : Option Nat) : List UInt8 :=
  let header := [0x80] ++ pesTimestamps pts90khz dts90khz
  let pesPayloadLen := header.length + payloadLen
  let lenField := if pesPayloadLen < 2 ^ 16 then pesPayloadLen else 0
  [0x00, 0x00, 0x01, streamId] ++ beBytes 2 lenField ++ header

/-- A metadata access unit in its cell. -/
def metadataAuCell (sequenceNumber : UInt8) (au : List UInt8) : List UInt8 :=
  [0x00, sequenceNumber, 0xDF] ++ beBytes 2 au.length ++ au

/-- `opus_ts_access_unit`: a packet behind its control header, with its size in bytes of 255 and a last one. -/
def opusTsAccessUnit (au : List UInt8) : List UInt8 :=
  [0x7F, 0xE0] ++ List.replicate (au.length / 0xFF) 0xFF ++ [UInt8.ofNat (au.length % 0xFF)] ++ au

/-- Where the segments of a display set end, from one on. Each takes its header, so the fuel is the length. -/
def segmentsEnd : Nat → List UInt8 → Nat → Nat
  | 0, _, fin => fin
  | fuel + 1, data, fin =>
    if data[fin]? = some 0x0F ∧ fin + 6 ≤ data.length then
      let next := fin + 6 + ((Words.byteAt data (fin + 4)).toNat * 2 ^ 8 + (Words.byteAt data (fin + 5)).toNat)
      if data.length < next then fin else segmentsEnd fuel data next
    else fin

/-- `segment_span`: the segments of a display set, without what a data field has around them. -/
def segmentSpan (data : List UInt8) : List UInt8 :=
  let start := if data.head? = some 0x20 ∧ 2 ≤ data.length then 2 else 0
  (data.drop start).take (segmentsEnd (data.length + 1) data start - start)

/-- `pes_data_field`: a display set in its data field. -/
def pesDataField (data : List UInt8) : List UInt8 := [0x20, 0x00] ++ segmentSpan data ++ [0xFF]

/-- What a stream makes of an access unit: its data field, its control header, its cell, or the unit itself. -/
def MuxStream.wrap (s : MuxStream) (au : List UInt8) : List UInt8 :=
  if s.dvbSubtitle then pesDataField au
  else if s.opus then opusTsAccessUnit au
  else if s.streamType = 0x15 ∧ au.length ≤ 0xFFFF then metadataAuCell s.metaSeq au
  else au

structure AuCall where
  stream : Nat
  au : List UInt8
  pts90khz : Option Nat
  dts90khz : Option Nat
  keyframe : Bool

/-- The clock of a call: the decode time, else the presentation time. -/
def AuCall.inputClock27mhz (call : AuCall) : Option Nat :=
  (call.dts90khz.or call.pts90khz).map fun clock => saturatingMul clock systemClockTicksPer90khz

namespace Writing

def writeSpliceNullIfDue (w : Writing) (now27mhz : Option Nat) : Writing :=
  match w.mux.splice with
  | none => w
  | some (pid, cc) =>
    if !cadenceDue now27mhz w.mux.lastSplice27mhz w.mux.spliceNullInterval90khz then w
    else
      let (packets, cc) := sectionPackets pid spliceNull cc
      { w.append packets with mux := { w.mux with splice := some (pid, cc), lastSplice27mhz := now27mhz } }

variable (w : Writing) (streamIndex : Nat)

/-- `pes_for`: the PES packet of an access unit. A cell counts the metadata units of its stream. -/
def pesFor (au : List UInt8) (pts90khz dts90khz : Option Nat) : Writing × List UInt8 :=
  let s := w.mux.stream streamIndex
  let cell := s.streamType = 0x15 ∧ au.length ≤ 0xFFFF
  let payload := s.wrap au
  let s := if cell then { s with metaSeq := s.metaSeq + 1 } else s
  ({ w with mux := w.mux.setStream streamIndex s },
    pesHeader s.streamId payload.length pts90khz dts90khz ++ payload)

/-- `embedded_pcr`: the clock reference the next packet of a stream carries. -/
def embeddedPcr (forced : Bool) : Writing × Option Nat :=
  let programIndex := (w.mux.stream streamIndex).program
  if (w.mux.program programIndex).pcrStream ≠ streamIndex then (w, none)
  else if !forced && !w.mux.pcrDue programIndex (w.byteClock 0) then (w, none)
  else
    let pcr := w.byteClock pcrByteOffset
    (w.notePcr programIndex pcr, some pcr)

/-- The clock reference of the next packet of a PES packet, and at a constant bitrate the packets of those due
on other streams. -/
def pesPcr (first forcePcr : Bool) (firstPacketPcr : Option Nat) : Writing × Option Nat :=
  if w.mux.constantBitrate then
    (w.writeDuePcrOnlyPackets (some streamIndex)).1.embeddedPcr streamIndex (first && forcePcr)
  else (w, if first then firstPacketPcr else none)

def esPacket (first : Bool) (adaptation : AdaptationField) (payload : List UInt8) : Writing :=
  let s := w.mux.stream streamIndex
  let w := w.append [⟨s.pid, first, s.esCc, adaptation, payload⟩]
  { w with mux := w.mux.setStream streamIndex { s with esCc := advanceContinuityCounter s.esCc } }

/-- The packets of what is left of a PES packet. Each takes a byte at least, so the fuel is the length. -/
def pesLoop (streamIndex : Nat) (randomAccess forcePcr : Bool) (firstPacketPcr : Option Nat) :
    Nat → Bool → Writing → List UInt8 → Writing
  | 0, _, w, _ => w
  | fuel + 1, first, w, rest =>
    if rest = [] then w
    else
      let (w, pcr) := w.pesPcr streamIndex first forcePcr firstPacketPcr
      let adaptation : AdaptationField := { pcr27mhz := pcr, randomAccess := first && randomAccess }
      let take := min rest.length (tsPayloadMax - adaptation.len)
      pesLoop streamIndex randomAccess forcePcr firstPacketPcr fuel false
        (w.esPacket streamIndex first adaptation (rest.take take)) (rest.drop take)

/-- What goes before an access unit at a constant bitrate: padding up to its clock. The bytes that the time
takes at the bitrate are more packets than are needed. -/
def padToCall (w : Writing) (inputClock27mhz : Option Nat) : Option Writing :=
  let start := w.mux.byteClockStart27mhz.getD (inputClock27mhz.getD 0)
  let target := inputClock27mhz.getD start
  padUntil target (target * w.mux.bitrate + 1)
    { w with mux := { w.mux with byteClockStart27mhz := some start } }

/-- At a variable bitrate, the clock reference due with an access unit: in a packet of its own, or in the first
packet of the unit. -/
def variablePcr (forcePcr : Bool) (inputClock27mhz : Option Nat) : Writing × Option Nat :=
  let programIndex := (w.mux.stream streamIndex).program
  match inputClock27mhz with
  | none => (w, none)
  | some now =>
    let forced := forcePcr && (w.mux.program programIndex).lastPcr27mhz.all fun last => last ≤ now
    if forced || w.mux.pcrDue programIndex now then
      let w := w.notePcr programIndex now
      if (w.mux.program programIndex).pcrStream = streamIndex then (w, some now)
      else (w.pcrOnlyPacket programIndex now, none)
    else (w, none)

end Writing

/-- `push_au_on`: the packets of an access unit, and the muxer behind them. -/
def TsMuxer.pushAuOn (m : TsMuxer) (call : AuCall) : Option (List TsPacket × TsMuxer) :=
  let clock := call.inputClock27mhz
  let w : Writing := ⟨m, []⟩
  let padded := if m.constantBitrate then w.padToCall clock else some (w.writeTablesIfDue clock)
  padded.map fun w =>
    let w := w.writeSpliceNullIfDue clock
    let s := w.mux.stream call.stream
    let onPcrStream := (w.mux.program s.program).pcrStream = call.stream
    let randomAccess := call.keyframe && !s.teletext
    let forcePcr := randomAccess && onPcrStream
    let (w, firstPacketPcr) :=
      if m.constantBitrate then (w, none) else w.variablePcr call.stream forcePcr clock
    let delay := w.mux.decoderDelay90khz
    let (w, pes) := w.pesFor call.stream call.au (call.pts90khz.map fun pts => saturatingAdd pts delay)
      (call.dts90khz.map fun dts => saturatingAdd dts delay)
    let w := w.pesLoop call.stream randomAccess forcePcr firstPacketPcr pes.length true pes
    (w.out, { w.mux with bytesWritten := w.mux.bytesWritten + w.len })

/-- The calls one after the other: what each writes, `none` when one of them pads without end. -/
def TsMuxer.pushAll (m : TsMuxer) : List AuCall → Option (List (List TsPacket) × TsMuxer)
  | [] => some ([], m)
  | call :: calls =>
    (m.pushAuOn call).bind fun r => (pushAll r.2 calls).map fun rest => (r.1 :: rest.1, rest.2)

end Glass2Glass.Ts
