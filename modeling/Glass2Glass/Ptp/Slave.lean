import Glass2Glass.Lib.Words

/-!
# A slave's clock

The messages that `g2g-core/src/ptp/wire.rs` reads, and the state machine of `g2g-core/src/ptp/slave.rs` that makes the
four times of an exchange from them.
-/

namespace Glass2Glass.Ptp

open Words (beNat slice byteAt)

inductive PtpMessageType where
  | sync
  | delayReq
  | followUp
  | delayResp
  | announce
  | management
  | other (nibble : Nat)
  deriving DecidableEq

def PtpMessageType.fromNibble (b : UInt8) : PtpMessageType :=
  match b.toNat % 16 with
  | 0x0 => .sync
  | 0x1 => .delayReq
  | 0x8 => .followUp
  | 0x9 => .delayResp
  | 0xb => .announce
  | 0xd => .management
  | n => .other n

/-- A number of 64 bits that is read with a sign. -/
def signed64 (n : Nat) : Int := if n < 2 ^ 63 then n else (n : Int) - 2 ^ 64

structure PtpHeader where
  messageType : PtpMessageType
  version : Nat
  messageLength : Nat
  domain : UInt8
  flags : Nat
  /-- In nanoseconds, without the fraction. -/
  correctionNs : Int
  sourceClockId : List UInt8
  sourcePort : Nat
  sequenceId : Nat
  deriving DecidableEq

def headerLen : Nat := 34

def timestampLen : Nat := 10

def bodyOffset : Nat := headerLen

def PtpHeader.parse (buf : List UInt8) : Option PtpHeader :=
  if buf.length < headerLen then none
  else some {
    messageType := .fromNibble (byteAt buf 0)
    version := (byteAt buf 1).toNat % 16
    messageLength := beNat (slice buf 2 2)
    domain := byteAt buf 4
    flags := beNat (slice buf 6 2)
    correctionNs := signed64 (beNat (slice buf 8 8)) / 2 ^ 16
    sourceClockId := slice buf 20 8
    sourcePort := beNat (slice buf 28 2)
    sequenceId := beNat (slice buf 30 2) }

def PtpHeader.twoStep (h : PtpHeader) : Bool := h.flags &&& 0x0200 ≠ 0

/-- Seconds and nanoseconds as nanoseconds, unless they are not there or too many. -/
def parseTimestamp (buf : List UInt8) (off : Nat) : Option Nat :=
  if buf.length < off + timestampLen then none
  else
    let ns := beNat (slice buf off 6) * 1000000000 + beNat (slice buf (off + 6) 4)
    if ns < 2 ^ 64 then some ns else none

structure DelayResp where
  receiveTsNs : Nat
  requestingClockId : List UInt8
  requestingPort : Nat

def DelayResp.parse (buf : List UInt8) : Option DelayResp := do
  let receiveTsNs ← parseTimestamp buf bodyOffset
  let idOff := bodyOffset + timestampLen
  if buf.length < idOff + 10 then none
  else some { receiveTsNs, requestingClockId := slice buf idOff 8, requestingPort := beNat (slice buf (idOff + 8) 2) }

/-- A time and a signed number of nanoseconds. It stays at the ends of 64 bits. -/
def saturatingAddSigned (time : Nat) (ns : Int) : Nat := (min ((time : Int) + ns) (2 ^ 64 - 1)).toNat

def saturatingAddI64 (a b : Int) : Int := max (-2 ^ 63) (min (a + b) (2 ^ 63 - 1))

inductive SlaveAction where
  | idle
  | sendDelayReq (seq : Nat)
  | exchange (t1 t2 t3 t4 : Nat)
  deriving DecidableEq

structure PtpSlave where
  domain : UInt8
  ourClockId : List UInt8
  ourPort : Nat
  syncSeq : Option Nat
  twoStep : Bool
  syncCorrectionNs : Int
  t1 : Option Nat
  t2 : Option Nat
  delayReqSeq : Nat
  drSeq : Option Nat
  t3 : Option Nat

namespace PtpSlave

def new (domain : UInt8) (clockId : List UInt8) (port : Nat) : PtpSlave where
  domain
  ourClockId := clockId
  ourPort := port
  syncSeq := none
  twoStep := false
  syncCorrectionNs := 0
  t1 := none
  t2 := none
  delayReqSeq := 0
  drSeq := none
  t3 := none

variable (s : PtpSlave)

/-- The origin of a cycle is known, so its delay is asked for. -/
def beginDelayReq : SlaveAction × PtpSlave :=
  let seq := (s.delayReqSeq + 1) % 2 ^ 16
  (.sendDelayReq seq, { s with delayReqSeq := seq, drSeq := some seq, t3 := none })

def onSync (h : PtpHeader) (msg : List UInt8) (localRxNs : Nat) : SlaveAction × PtpSlave :=
  let s := { s with
    syncSeq := some h.sequenceId, twoStep := h.twoStep, syncCorrectionNs := h.correctionNs
    t2 := some localRxNs, t1 := none, drSeq := none, t3 := none }
  if s.twoStep then (.idle, s)
  else
    match parseTimestamp msg bodyOffset with
    | some origin => { s with t1 := some (saturatingAddSigned origin h.correctionNs) }.beginDelayReq
    | none => (.idle, s)

def onFollowUp (h : PtpHeader) (msg : List UInt8) : SlaveAction × PtpSlave :=
  if s.syncSeq ≠ some h.sequenceId ∨ s.twoStep = false ∨ s.t1 ≠ none then (.idle, s)
  else
    match parseTimestamp msg bodyOffset with
    | some precise =>
      let corr := saturatingAddI64 s.syncCorrectionNs h.correctionNs
      { s with t1 := some (saturatingAddSigned precise corr) }.beginDelayReq
    | none => (.idle, s)

def onDelayResp (h : PtpHeader) (msg : List UInt8) : SlaveAction × PtpSlave :=
  match DelayResp.parse msg with
  | none => (.idle, s)
  | some resp =>
    if s.drSeq ≠ some h.sequenceId ∨ resp.requestingClockId ≠ s.ourClockId ∨ resp.requestingPort ≠ s.ourPort then
      (.idle, s)
    else
      match s.t1, s.t2, s.t3 with
      | some t1, some t2, some t3 =>
        (.exchange t1 t2 t3 (saturatingAddSigned resp.receiveTsNs (-h.correctionNs)), { s with drSeq := none, t3 := none })
      | _, _, _ => (.idle, s)

def onMessage (msg : List UInt8) (localRxNs : Nat) : SlaveAction × PtpSlave :=
  match PtpHeader.parse msg with
  | none => (.idle, s)
  | some h =>
    if h.domain ≠ s.domain then (.idle, s)
    else
      match h.messageType with
      | .sync => s.onSync h msg localRxNs
      | .followUp => s.onFollowUp h msg
      | .delayResp => s.onDelayResp h msg
      | _ => (.idle, s)

def delayReqSent (seq t3 : Nat) : PtpSlave := if s.drSeq = some seq then { s with t3 := some t3 } else s

end PtpSlave

end Glass2Glass.Ptp
