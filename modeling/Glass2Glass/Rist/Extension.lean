import Glass2Glass.H264.Packetizer
import Glass2Glass.Lib.Blocks
import Glass2Glass.Lib.Deletion

/-!
# The header extension

The RTP header extension of `g2g-plugins/src/rist.rs`: `build_media_packet` leaves null packets out of a payload of whole
transport packets and notes in the extension which of the first seven are gone, `RistExtensionRemover` takes the
extension off and puts null packets back.
-/

namespace Glass2Glass.Rist

open Words Blocks
open Mcu (RtpHeader rtpHeaderLen)

def tsPacketLen : Nat := 188
def dvbTsPacketLen : Nat := 204
def syncByte : UInt8 := 0x47
def nullDeletionSlots : Nat := 7
def nullPacketPid : Nat := 0x1FFF
def restoredNullPacketHeader : List UInt8 := [syncByte, 0x1F, 0xFF, 0x10]
def ristExtensionProfile : Nat := 0x5249
def ristExtensionWords : Nat := 1

structure RistExtensionSettings where
  dropNullPackets : Bool
  sequenceNumberExtension : Bool

structure RistExtension where
  nullPacketsDeleted : Bool
  originalPacketCount : UInt8
  dvbPacketSize : Bool
  deletedPackets : UInt8
  sequenceHighBits : Option Nat

def deletionBit (index : Nat) : UInt8 := UInt8.ofNat (1 <<< (nullDeletionSlots - 1 - index))

def tsPacketPid (tsPacket : List UInt8) : Nat := beNat [byteAt tsPacket 1 &&& 0x1F, byteAt tsPacket 2]

def wholeTsPacketLen (payloadLen : Nat) : Option Nat :=
  [tsPacketLen, dvbTsPacketLen].find? fun tsPacketLen => payloadLen % tsPacketLen == 0

/-- The loop of `delete_null_packets`: what remains of the packets from `index` on, and which are gone. -/
def deleteFrom (index : Nat) (remaining : List UInt8) (deletedPackets : UInt8) :
    List (List UInt8) → Except Mcu.G2gError (List UInt8 × UInt8)
  | [] => .ok (remaining, deletedPackets)
  | tsPacket :: rest =>
    if index < nullDeletionSlots then
      if byteAt tsPacket 0 ≠ syncByte then .error .capsMismatch
      else if tsPacketPid tsPacket = nullPacketPid then
        deleteFrom (index + 1) remaining (deletedPackets ||| deletionBit index) rest
      else deleteFrom (index + 1) (remaining ++ tsPacket) deletedPackets rest
    else deleteFrom (index + 1) (remaining ++ tsPacket) deletedPackets rest

def deleteNullPackets (payload : List UInt8) (tsPacketLen : Nat) : Except Mcu.G2gError (List UInt8 × UInt8) :=
  deleteFrom 0 [] 0 (chunksExact tsPacketLen payload)

/-- The bytes of the extension, and the payload behind it. -/
def extensionBody (high : UInt16) (payload : List UInt8) (settings : RistExtensionSettings) :
    Except Mcu.G2gError (List UInt8 × List UInt8) := do
  let (flags, tsFlags, kept) ←
    match settings.dropNullPackets, wholeTsPacketLen payload.length with
    | true, some tsPacketLen => do
      let (remaining, deletedPackets) ← deleteNullPackets payload tsPacketLen
      let originalCount := payload.length / tsPacketLen
      let countFlags := if originalCount ≤ nullDeletionSlots then UInt8.ofNat originalCount <<< 3 else 0
      let sizeFlag := if tsPacketLen = dvbTsPacketLen then 0x80 else 0
      pure (0x80 ||| countFlags, sizeFlag ||| deletedPackets, remaining)
    | _, _ => pure (0, 0, payload)
  if settings.sequenceNumberExtension then pure ([flags ||| 0x40, tsFlags] ++ beBytes 2 high.toNat, kept)
  else pure ([flags, tsFlags, 0, 0], kept)

/-- The header carries the low half of the sequence number, the extension the high half. -/
def buildMediaPacket (header : RtpHeader) (high : UInt16) (payload : List UInt8) (settings : RistExtensionSettings) :
    Except Mcu.G2gError (List UInt8) :=
  if ¬ settings.dropNullPackets ∧ ¬ settings.sequenceNumberExtension then .ok (header.toBytes ++ payload)
  else do
    let (body, kept) ← extensionBody high payload settings
    pure (header.toBytes.modifyHead (· ||| 0x10) ++
      (beBytes 2 ristExtensionProfile ++ beBytes 2 ristExtensionWords ++ body ++ kept))

/-- Where the extension begins, and what it says. -/
def findRistExtension (packet : List UInt8) : Option (Nat × RistExtension) := do
  let first : UInt8 ← packet[0]?
  if first >>> 6 ≠ 2 ∨ first &&& 0x10 = 0 then none
  else
    let extensionStart := rtpHeaderLen + (first &&& 0x0F).toNat * 4
    if packet.length < extensionStart + 8 then none
    else
      let profile := beNat (slice packet extensionStart 2)
      let words := beNat (slice packet (extensionStart + 2) 2)
      if profile ≠ ristExtensionProfile ∨ words ≠ ristExtensionWords then none
      else
        let flags := byteAt packet (extensionStart + 4)
        let tsFlags := byteAt packet (extensionStart + 5)
        some (extensionStart,
          { nullPacketsDeleted := flags &&& 0x80 ≠ 0
            originalPacketCount := (flags >>> 3) &&& 0x07
            dvbPacketSize := tsFlags &&& 0x80 ≠ 0
            deletedPackets := tsFlags &&& 0x7F
            sequenceHighBits :=
              if flags &&& 0x40 ≠ 0 then some (beNat (slice packet (extensionStart + 6) 2)) else none })

def countOnes (b : UInt8) : Nat := (List.range 8).countP fun i => b.toNat.testBit i

/-- A null packet as it is put back. -/
def restoredNullPacket (tsPacketLen : Nat) : List UInt8 :=
  restoredNullPacketHeader ++ List.replicate (tsPacketLen - restoredNullPacketHeader.length) 0

/-- The loop of `restore_null_packets`: `count` more packets, from `index` on. There may be too few. -/
def restoreFrom (tsPacketLen : Nat) (deletedPackets : UInt8) (index count : Nat) (kept : List (List UInt8))
    (restored : List UInt8) : Option (List UInt8) :=
  match count with
  | 0 => some restored
  | count + 1 =>
    if index < nullDeletionSlots ∧ deletedPackets &&& deletionBit index ≠ 0 then
      restoreFrom tsPacketLen deletedPackets (index + 1) count kept (restored ++ restoredNullPacket tsPacketLen)
    else
      match kept with
      | [] => none
      | tsPacket :: kept =>
        restoreFrom tsPacketLen deletedPackets (index + 1) count kept (restored ++ tsPacket)

/-- The restored payload. The deleted bits and the payload's length set the number of packets. -/
def restoreNullPackets (payload : List UInt8) (extension : RistExtension) : Option (List UInt8) :=
  let size :=
    if payload = [] then some (if extension.dvbPacketSize then dvbTsPacketLen else tsPacketLen)
    else wholeTsPacketLen payload.length
  match size with
  | none => some payload
  | some tsPacketLen =>
    let packetCount := payload.length / tsPacketLen + countOnes extension.deletedPackets
    restoreFrom tsPacketLen extension.deletedPackets 0 packetCount (chunksExact tsPacketLen payload) []

structure RistExtensionRemover where
  highestExtendedSequence : Nat

namespace RistExtensionRemover

def default : RistExtensionRemover := ⟨0⟩

/-- A packet far behind the highest sequence number seen is dropped. -/
def follow (r : RistExtensionRemover) (high : Option Nat) (sequence : Nat) : Option RistExtensionRemover :=
  match high with
  | none => some r
  | some high =>
    let extended := high * 2 ^ 16 + sequence
    let behind := r.highestExtendedSequence - extended
    if behind > 2 ^ 15 - 1 then none else some ⟨max r.highestExtendedSequence extended⟩

/-- Take the extension off a packet. `none` drops the packet. -/
def strip (r : RistExtensionRemover) (packet : List UInt8) : RistExtensionRemover × Option (List UInt8) :=
  match RtpHeader.parse packet with
  | none => (r, none)
  | some parsed =>
    match findRistExtension packet with
    | none => (r, some packet)
    | some (extensionStart, extension) =>
      match r.follow extension.sequenceHighBits parsed.header.sequence with
      | none => (r, none)
      | some r =>
        let payload := slice packet parsed.payloadOffset parsed.payloadLen
        let restored :=
          if extension.nullPacketsDeleted ∧ extension.deletedPackets ≠ 0 then restoreNullPackets payload extension
          else some payload
        (r, restored.map fun payload => (packet.take extensionStart).modifyHead (· &&& ~~~(0x10 ||| 0x20)) ++ payload)

end RistExtensionRemover

end Glass2Glass.Rist
