import Glass2Glass.Srt.Packet

/-!
# The SRT sender

The sender numbers its packets, keeps the last of them, releases what is acknowledged and sends what is reported lost
again (`SrtSender` in `g2g-plugins/src/srt.rs`).
-/

namespace Glass2Glass.Srt

open Words

/-- The control packets that a sender answers, and its answer. -/
inductive Control where
  | keepalive
  | ack (ackNo ackSeq rttUs rttVarianceUs availableBuffer : Nat)
  | lightAck (ackSeq : Nat)
  | ackAck (ackNo : Nat)
  | nak (loss : List Nat)
  | shutdown

/-- The sequence that an acknowledgement names. -/
def Control.ackSeq? : Control → Option Nat
  | .ack _ ackSeq _ _ _ => some ackSeq
  | .lightAck ackSeq => some ackSeq
  | _ => none

def ctrlAckAck : Nat := 0x0006

/-- An answer to an acknowledgement. -/
def buildAckAck (ackNo timestamp dstSocketId : Nat) : List UInt8 :=
  beBytes 4 (0x80000000 ||| ctrlAckAck <<< 16) ++ (beBytes 4 ackNo ++ (beBytes 4 timestamp ++
    (beBytes 4 dstSocketId ++ [0, 0, 0, 0])))

/-- A packet that was sent, with its bytes after the cipher. -/
structure SentPacket where
  seq : Nat
  kk : Nat
  timestamp : Nat
  data : List UInt8

structure SrtSender where
  dstSocketId : Nat
  nextSeq : Nat
  msgNo : Nat
  buffer : List SentPacket
  capacity : Nat
  retransmits : Nat
  activeKk : Nat
  cryptoEven : Option (Nat → List UInt8 → List UInt8)
  cryptoOdd : Option (Nat → List UInt8 → List UInt8)

namespace SrtSender

def new (dstSocketId initSeq capacity : Nat) : SrtSender :=
  { dstSocketId, nextSeq := initSeq % 2 ^ 31, msgNo := 1, buffer := [], capacity := max capacity 1, retransmits := 0,
    activeKk := 0, cryptoEven := none, cryptoOdd := none }

variable (s : SrtSender)

def activeCrypto : Option (Nat → List UInt8 → List UInt8) :=
  if s.activeKk = 1 then s.cryptoEven else if s.activeKk = 2 then s.cryptoOdd else none

/-- The bytes of a payload on the wire. -/
def encodePayload (seq : Nat) (payload : List UInt8) : List UInt8 :=
  match s.activeCrypto with
  | some process => process seq payload
  | none => payload

/-- Send a payload as the next data packet, and keep it. -/
def send (payload : List UInt8) (timestamp : Nat) : SrtSender × List UInt8 :=
  let seq := s.nextSeq
  let data := s.encodePayload seq payload
  let buffer := if s.capacity ≤ s.buffer.length then s.buffer.tail else s.buffer
  ({ s with
      nextSeq := seqNext seq
      msgNo := (s.msgNo + 1) % 2 ^ 32 % 2 ^ 26
      buffer := buffer ++ [{ seq, kk := s.activeKk, timestamp, data }] },
    buildDataPacket seq s.msgNo false s.activeKk timestamp s.dstSocketId data)

/-- Everything before a sequence is received. -/
def releaseAcknowledged (ackSeq : Nat) : SrtSender :=
  { s with buffer := s.buffer.dropWhile fun sent => !seqGe sent.seq ackSeq }

/-- The packet of a sequence, by its place after the oldest one. -/
def buffered (seq : Nat) : Option SentPacket :=
  s.buffer.head?.bind fun oldest =>
    (s.buffer[seqDistance seq oldest.seq]?).filter fun entry => entry.seq == seq

/-- A packet as it is sent again, with its old key and timestamp. -/
def resend (sent : SentPacket) : List UInt8 :=
  buildDataPacket sent.seq 0 true sent.kk sent.timestamp s.dstSocketId sent.data

/-- React to a control packet. What is reported lost is sent again. -/
def onControl (ctrl : Control) (controlTimestamp : Nat) : SrtSender × List (List UInt8) :=
  match ctrl with
  | .nak loss =>
    let found := loss.filterMap s.buffered
    ({ s with retransmits := s.retransmits + found.length }, found.map s.resend)
  | .lightAck ackSeq => (s.releaseAcknowledged ackSeq, [])
  | .ack ackNo ackSeq _ _ _ => (s.releaseAcknowledged ackSeq, [buildAckAck ackNo controlTimestamp s.dstSocketId])
  | _ => (s, [])

end SrtSender

theorem parseDataPacket_buildAckAck (ackNo timestamp dstSocketId : Nat) :
    parseDataPacket (buildAckAck ackNo timestamp dstSocketId) = none := by
  have hcontrol : isControl (buildAckAck ackNo timestamp dstSocketId) = true := rfl
  unfold parseDataPacket
  rfl

end Glass2Glass.Srt
