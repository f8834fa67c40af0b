import Glass2Glass.Lib.SortedMap
import Glass2Glass.Srt.Sequence

/-!
# The SRT receiver

The receiver buffers data packets by their sequence numbers, gives their payloads out in order, names the sequences
that are missing, and drops what is too late (`SrtReceiver` in `g2g-plugins/src/srt.rs`). The deciphering of a payload
is a function of its sequence number.
-/

namespace Glass2Glass.Srt

def flowWindowPackets : Nat := 8192

/-- The most sequences that a loss list names. -/
def maxLossList : Nat := 2 ^ 16

def orderedPacketsPerToleranceStep : Nat := 50

def earlyReordersPerToleranceStep : Nat := 10

def earlyReorderPacketsLeft : Nat := 2

/-- A data packet as it is parsed, with a sequence number of 31 bits. -/
structure DataPacket where
  seq : Nat
  seq_lt : seq < 2 ^ 31
  retransmit : Bool
  kk : Nat
  timestamp : Nat
  dstSocketId : Nat
  payload : List UInt8

/-- A gap that is reported after some more packets. -/
structure HeldLoss where
  first : Nat
  last : Nat
  packetsLeft : Nat

namespace HeldLoss

/-- The packet is in a held gap. -/
def covers (seq : Nat) (loss : HeldLoss) : Bool := seqGe seq loss.first && seqGe loss.last seq

def without (seq : Nat) (loss : HeldLoss) : List HeldLoss :=
  match seq == loss.first, seq == loss.last with
  | true, true => []
  | true, false => [{ loss with first := seqNext seq }]
  | false, true => [{ loss with last := seqPrev seq }]
  | false, false => [{ loss with last := seqPrev seq }, { loss with first := seqNext seq }]

end HeldLoss

/-- The held gaps without a sequence, and how long the gap it was in had still to wait. -/
def removeHeldLoss (seq : Nat) : List HeldLoss → List HeldLoss × Option Nat
  | [] => ([], none)
  | loss :: losses =>
    if loss.covers seq then (loss.without seq ++ losses, some loss.packetsLeft)
    else ((loss :: (removeHeldLoss seq losses).1), (removeHeldLoss seq losses).2)

/-! ## The schedule of deliveries -/

/-- When a packet with a timestamp is delivered. -/
structure TsbpdAnchor where
  timestamp : Nat
  deliveryUs : Int
  deriving DecidableEq

/-- A word as a signed number. -/
def asSigned (bits v : Nat) : Int := if v % 2 ^ bits < 2 ^ (bits - 1) then v % 2 ^ bits else v % 2 ^ bits - 2 ^ bits

/-- When a packet with another timestamp is delivered. -/
def TsbpdAnchor.deliveryAt (a : TsbpdAnchor) (timestamp : Nat) (nowUs : Int) : Int :=
  let wrappedUs := asSigned 32 (timestamp + 2 ^ 32 - a.timestamp)
  let periods := (nowUs - a.deliveryUs - wrappedUs + 2 ^ 31) / 2 ^ 32
  a.deliveryUs + wrappedUs + periods * 2 ^ 32

def driftSamplesPerUpdate : Int := 1000

def maxDriftUs : Int := 5000

structure TsbpdDrift where
  firstRttUs : Option Int
  sampleSumUs : Int
  sampleCount : Int
  driftUs : Int

namespace TsbpdDrift

def default : TsbpdDrift := { firstRttUs := none, sampleSumUs := 0, sampleCount := 0, driftUs := 0 }

/-- One more sample, and the drift that is moved into the schedule. -/
def addSample (d : TsbpdDrift) (sampleUs : Int) : TsbpdDrift × Int :=
  let sum := d.sampleSumUs + sampleUs
  let count := d.sampleCount + 1
  if count < driftSamplesPerUpdate then ({ d with sampleSumUs := sum, sampleCount := count }, 0)
  else
    let averageUs := sum.tdiv count
    let overdriftUs := if averageUs.natAbs > maxDriftUs then maxDriftUs * averageUs.sign else 0
    ({ d with sampleSumUs := 0, sampleCount := 0, driftUs := averageUs - overdriftUs }, overdriftUs)

end TsbpdDrift

/-! ## The receiver -/

structure SrtReceiver where
  nextDeliver : Nat
  haveBase : Bool
  pending : SortedMap Nat (List UInt8 × Nat)
  maxSeen : Nat
  tsbpdLatencyUs : Option Nat
  tsbpdAnchor : Option TsbpdAnchor
  tsbpdDrift : TsbpdDrift
  cryptoEven : Option (Nat → List UInt8 → List UInt8)
  cryptoOdd : Option (Nat → List UInt8 → List UInt8)
  lossMaxTtl : Nat
  reorderTolerance : Nat
  heldLosses : List HeldLoss
  orderedStreak : Nat
  earlyReorderStreak : Nat

namespace SrtReceiver

def new : SrtReceiver :=
  { nextDeliver := 0, haveBase := false, pending := .empty, maxSeen := 0, tsbpdLatencyUs := none, tsbpdAnchor := none,
    tsbpdDrift := .default, cryptoEven := none, cryptoOdd := none, lossMaxTtl := 0, reorderTolerance := 0,
    heldLosses := [], orderedStreak := 0, earlyReorderStreak := 0 }

variable (r : SrtReceiver)

def setLossMaxTtl (packets : Nat) : SrtReceiver :=
  { r with lossMaxTtl := packets, reorderTolerance := packets }

def setTsbpd (latencyUs : Nat) : SrtReceiver := { r with tsbpdLatencyUs := some latencyUs }

/-- The clocks drift apart when acknowledgements of acknowledgements are later than the schedule. -/
def addDriftSample (senderTimestamp arrivalUs rttUs : Nat) : SrtReceiver :=
  match r.tsbpdLatencyUs, r.tsbpdAnchor with
  | some latency, some anchor =>
    let arrivalUs := asSigned 64 arrivalUs
    let rttUs := asSigned 64 rttUs
    let firstRttUs := r.tsbpdDrift.firstRttUs.getD rttUs
    let scheduledArrivalUs := anchor.deliveryAt senderTimestamp arrivalUs - latency
    let sampleUs := arrivalUs - scheduledArrivalUs - (rttUs - firstRttUs).tdiv 2
    let added := { r.tsbpdDrift with firstRttUs := some firstRttUs }.addSample sampleUs
    { r with
      tsbpdDrift := added.1
      tsbpdAnchor := some { anchor with deliveryUs := anchor.deliveryUs + added.2 } }
  | _, _ => r

/-! ### Losses -/

/-- The sequences from one to another, at or past the cursor, that have not arrived. -/
def missingIn (first last : Nat) : List Nat :=
  let start := if seqGt r.nextDeliver first then r.nextDeliver else first
  let count := if seqGe last start then seqDistance last start + 1 else 0
  (((List.range count).map fun offset => (start + offset) % 2 ^ 31).filter fun seq =>
    !r.pending.contains seq).take maxLossList

/-- The sequences between the cursor and the highest one that have not arrived. -/
def missing : List Nat := if r.haveBase then r.missingIn r.nextDeliver r.maxSeen else []

/-- How far a late packet came after later ones. -/
def reorderDistance (seq : Nat) : Nat := seqDistance r.maxSeen seq

/-- A late packet that was not sent again was reordered on the way, so later gaps wait longer. -/
def raiseTolerance (seq : Nat) (retransmit : Bool) : SrtReceiver :=
  if !retransmit && r.reorderTolerance < r.reorderDistance seq then
    { r with reorderTolerance := min (r.reorderDistance seq) r.lossMaxTtl }
  else r

/-- Count a reordered packet. Many that waited for long lower the tolerance. -/
def countReordered (raised : Bool) (packetsLeft : Option Nat) : SrtReceiver :=
  let r := { r with orderedStreak := 0 }
  if raised then { r with earlyReorderStreak := 0 }
  else if packetsLeft.any fun left => earlyReorderPacketsLeft < left then
    if earlyReordersPerToleranceStep ≤ r.earlyReorderStreak + 1 then
      { r with earlyReorderStreak := 0, reorderTolerance := r.reorderTolerance - 1 }
    else { r with earlyReorderStreak := r.earlyReorderStreak + 1 }
  else r

/-- A packet below the highest one. -/
def onLatePacket (seq : Nat) (retransmit : Bool) : SrtReceiver :=
  let raised := !retransmit && decide (r.reorderTolerance < r.reorderDistance seq)
  let r := r.raiseTolerance seq retransmit
  if r.reorderTolerance = 0 then r
  else
    let removed := removeHeldLoss seq r.heldLosses
    let r := { r with heldLosses := removed.1 }
    if retransmit then r else r.countReordered raised removed.2

def countOrderedPacket : SrtReceiver :=
  if orderedPacketsPerToleranceStep ≤ r.orderedStreak + 1 then
    { r with orderedStreak := 0, reorderTolerance := r.reorderTolerance - 1 }
  else { r with orderedStreak := r.orderedStreak + 1 }

/-- Report the held gaps at the front whose wait is over, and count down the others. -/
def releaseHeldLosses : SrtReceiver × List Nat :=
  let due := r.heldLosses.takeWhile fun loss => loss.packetsLeft = 0
  let rest := r.heldLosses.dropWhile fun loss => loss.packetsLeft = 0
  ({ r with heldLosses := rest.map fun loss => { loss with packetsLeft := loss.packetsLeft - 1 } },
    due.flatMap fun loss => r.missingIn loss.first loss.last)

/-! ### Arrival -/

/-- The first packet says where the stream begins. -/
def withBase (seq : Nat) : SrtReceiver :=
  if r.haveBase then r else { r with nextDeliver := seq, maxSeen := seqPrev seq, haveBase := true }

variable (pkt : DataPacket)

/-- The deciphered payload of a packet. -/
def decrypt : List UInt8 :=
  let slot := if pkt.kk = 1 then r.cryptoEven else if pkt.kk = 2 then r.cryptoOdd else none
  match slot with
  | some process => process pkt.seq pkt.payload
  | none => pkt.payload

/-- The gap that a packet leaves behind. -/
def gapBefore (seq : Nat) : Option (Nat × Nat) :=
  if seqGt seq (seqNext r.maxSeen) then some (seqNext r.maxSeen, seqPrev seq) else none

/-- A packet moves the highest sequence on, or is late. -/
def noteArrival : SrtReceiver :=
  if seqGt pkt.seq r.maxSeen then { r with maxSeen := pkt.seq } else r.onLatePacket pkt.seq pkt.retransmit

def store : SrtReceiver :=
  { r with pending := r.pending.insert pkt.seq (r.decrypt pkt, pkt.timestamp) }

/-- Report a new gap, or hold it if packets may still come out of order. -/
def reportGap (tolerance : Nat) : Option (Nat × Nat) → SrtReceiver × List Nat
  | none => (r, [])
  | some gap =>
    if tolerance = 0 then (r, r.missingIn gap.1 gap.2)
    else ({ r with heldLosses := r.heldLosses ++ [{ first := gap.1, last := gap.2, packetsLeft := tolerance }] }, [])

def reportHeld (tolerance : Nat) : SrtReceiver × List Nat :=
  if 0 < tolerance then r.releaseHeldLosses else (r, [])

/-- Buffer a data packet. The sequences are to be reported as lost now. -/
def onData : SrtReceiver × List Nat :=
  let r := r.withBase pkt.seq
  if !seqGe pkt.seq r.nextDeliver then (r, [])
  else if flowWindowPackets ≤ seqDistance pkt.seq r.nextDeliver then (r, [])
  else
    let noted := r.noteArrival pkt
    if noted.pending.contains pkt.seq then (noted, [])
    else
      let reported := (noted.store pkt).reportGap r.reorderTolerance (r.gapBefore pkt.seq)
      let held := reported.1.reportHeld r.reorderTolerance
      let counted := if seqGt pkt.seq r.maxSeen || pkt.retransmit then held.1.countOrderedPacket else held.1
      (counted, (reported.2 ++ held.2).take maxLossList)

/-! ### Delivery -/

/-- Take the packets at the cursor, at most `fuel`, with their sequence numbers. -/
def takeInOrder : Nat → SrtReceiver → SrtReceiver × List (Nat × List UInt8)
  | 0, r => (r, [])
  | fuel + 1, r =>
    match r.pending.get? r.nextDeliver with
    | none => (r, [])
    | some entry =>
      let rest := takeInOrder fuel
        { r with pending := r.pending.erase r.nextDeliver, nextDeliver := seqNext r.nextDeliver }
      (rest.1, (r.nextDeliver, entry.1) :: rest.2)

/-- Take the packets that are in order, with their sequence numbers. Every round takes one of the buffered ones. -/
def takeReadySeqs : SrtReceiver × List (Nat × List UInt8) := takeInOrder r.pending.size r

/-- The payloads that are in order. -/
def takeReady : SrtReceiver × List (List UInt8) :=
  (r.takeReadySeqs.1, r.takeReadySeqs.2.map Prod.snd)

/-- The first buffered packet at or past the cursor, across the wrap. -/
def firstPending : Option (Nat × List UInt8 × Nat) :=
  (r.pending.entries.find? fun e => r.nextDeliver ≤ e.1).orElse fun _ => r.pending.first?

/-- Take the packets that are due, at most `fuel`. What is missing before a packet that is due is dropped. -/
def takeDue (latency : Nat) (nowUs : Int) : Nat → SrtReceiver → SrtReceiver × List (Nat × List UInt8)
  | 0, r => (r, [])
  | fuel + 1, r =>
    match r.firstPending with
    | none => (r, [])
    | some (seq, payload, timestamp) =>
      let anchor := r.tsbpdAnchor.getD { timestamp, deliveryUs := nowUs + latency }
      let deliveryUs := anchor.deliveryAt timestamp nowUs
      let r := { r with tsbpdAnchor := some anchor }
      if nowUs < deliveryUs + r.tsbpdDrift.driftUs then (r, [])
      else
        let rest := takeDue latency nowUs fuel { r with
            pending := r.pending.erase seq
            nextDeliver := seqNext seq
            tsbpdAnchor := some { timestamp, deliveryUs } }
        (rest.1, (seq, payload) :: rest.2)

/-- Take the packets that are due, with their sequence numbers. -/
def takeReadyAtSeqs (nowUs : Nat) : SrtReceiver × List (Nat × List UInt8) :=
  match r.tsbpdLatencyUs with
  | none => r.takeReadySeqs
  | some latency => takeDue latency (asSigned 64 nowUs) (r.pending.size + 1) r

/-- The payloads that are due. -/
def takeReadyAt (nowUs : Nat) : SrtReceiver × List (List UInt8) :=
  ((r.takeReadyAtSeqs nowUs).1, (r.takeReadyAtSeqs nowUs).2.map Prod.snd)

/-- The range of a drop request has the cursor in it. -/
def coversCursor (first last : Nat) : Bool := seqGe r.nextDeliver first && seqGe last r.nextDeliver

/-- The sender no longer has some sequences. -/
def onDropRequest (first last : Nat) : SrtReceiver :=
  if !r.haveBase || !r.coversCursor first last then r
  else
    { r with
      nextDeliver := seqNext last
      maxSeen := if seqGt last r.maxSeen then last else r.maxSeen
      pending := r.pending.filter fun seq => seqGe seq (seqNext last) }

def ackSeq : Option Nat := if r.haveBase then some r.nextDeliver else none

end SrtReceiver

end Glass2Glass.Srt
