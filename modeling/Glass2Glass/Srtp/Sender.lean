import Glass2Glass.Srtp.Keys

/-!
# The SRTP sender

A sender protects every packet under an index of its own (`SrtpSender` in `g2g-plugins/src/srtp.rs`).
-/

namespace Glass2Glass.Srtp

open Words Mcu

def maximumSrtpKeyInvocations : Nat := 2 ^ 48

def maximumSrtcpKeyInvocations : Nat := 2 ^ 31

def defaultSrtpRekeyMargin : Nat := 2 ^ 16

def defaultSrtcpRekeyMargin : Nat := 2 ^ 16

def maximumMkiLength : Nat := 128

/-- When a caller wants to be told that a key is used up. -/
structure SrtpSoftLimits where
  srtpPackets : Nat
  srtcpPackets : Nat
  deriving DecidableEq

def SrtpSoftLimits.isValid (limits : SrtpSoftLimits) : Bool :=
  decide (limits.srtpPackets < maximumSrtpKeyInvocations) && decide (limits.srtcpPackets < maximumSrtcpKeyInvocations)

def SrtpSoftLimits.default : SrtpSoftLimits where
  srtpPackets := maximumSrtpKeyInvocations - defaultSrtpRekeyMargin
  srtcpPackets := maximumSrtcpKeyInvocations - defaultSrtcpRekeyMargin

def validateSoftLimits (limits : SrtpSoftLimits) : Except SrtpError Unit :=
  if limits.isValid then .ok () else .error .invalidSoftLimit

def validatedMki (mki : List UInt8) : Except SrtpError (List UInt8) :=
  if mki = [] ∨ maximumMkiLength < mki.length then .error (.invalidMkiLength mki.length) else .ok mki

structure SrtpSender where
  keys : SessionKeys
  mki : Option (List UInt8)
  synchronizationSource : Nat
  rtpIndices : PacketIndexState
  nextSrtcpIndex : Option Nat
  softLimits : SrtpSoftLimits
  allowRepeatTransmission : Bool
  srtpKeyInvocations : Nat
  srtcpKeyInvocations : Nat
  deriving DecidableEq

namespace SrtpSender

def newWithSoftLimits (c : Crypto) (policy : SrtpPolicy) (masterKey masterSalt : List UInt8)
    (synchronizationSource : Nat) (softLimits : SrtpSoftLimits) : Except SrtpError SrtpSender := do
  validateSoftLimits softLimits
  let keys ← SessionKeys.derive c policy masterKey masterSalt
  let rtpIndices ← PacketIndexState.new 0 defaultReplayWindow
  pure
    { keys, mki := none, synchronizationSource, rtpIndices, nextSrtcpIndex := some 0, softLimits,
      allowRepeatTransmission := false, srtpKeyInvocations := 0, srtcpKeyInvocations := 0 }

def new (c : Crypto) (policy : SrtpPolicy) (masterKey masterSalt : List UInt8) (synchronizationSource : Nat) :
    Except SrtpError SrtpSender :=
  newWithSoftLimits c policy masterKey masterSalt synchronizationSource .default

variable (s : SrtpSender)

def setReplayWindow (packets : Nat) : Except SrtpError SrtpSender := do
  let rtpIndices ← s.rtpIndices.resize packets
  pure { s with rtpIndices }

def setMki : Option (List UInt8) → Except SrtpError SrtpSender
  | none => .ok { s with mki := none }
  | some mki => (validatedMki mki).map fun mki => { s with mki := some mki }

def replaceKey (c : Crypto) (s : SrtpSender) (policy : SrtpPolicy) (masterKey masterSalt : List UInt8) :
    Except SrtpError SrtpSender := do
  let keys ← SessionKeys.derive c policy masterKey masterSalt
  pure { s with keys, srtpKeyInvocations := 0, srtcpKeyInvocations := 0 }

def setSoftLimits (softLimits : SrtpSoftLimits) : Except SrtpError SrtpSender := do
  validateSoftLimits softLimits
  pure { s with softLimits }

def checkSynchronizationSource (actual : Nat) : Except SrtpError Unit :=
  if actual ≠ s.synchronizationSource then .error (.wrongSynchronizationSource s.synchronizationSource actual)
  else .ok ()

/-- A repeated index passes if repeats are allowed. -/
def checkRepeat (packetIndex : Nat) : Except SrtpError Unit :=
  if s.rtpIndices.check packetIndex = .error .repeatedPacket ∧ s.allowRepeatTransmission then .ok ()
  else s.rtpIndices.check packetIndex

/-- The index that a packet is protected under. -/
def rtpIndex (packet : List UInt8) : Except SrtpError Nat :=
  if maximumSrtpKeyInvocations ≤ s.srtpKeyInvocations then .error .keyLifetimeExhausted
  else
    match RtpHeader.parse packet with
    | none => .error .invalidRtpPacket
    | some parsed => do
      s.checkSynchronizationSource parsed.header.ssrc
      let packetIndex ← s.rtpIndices.estimateRtpIndex parsed.header.sequence
      s.checkRepeat packetIndex
      pure packetIndex

def protectRtp (c : Crypto) (s : SrtpSender) (packet : List UInt8) : Except SrtpError (SrtpSender × List UInt8) := do
  let packetIndex ← s.rtpIndex packet
  let secured ← s.keys.protectRtp c packet packetIndex s.mki
  pure ({ s with
        rtpIndices := s.rtpIndices.accept packetIndex
        srtpKeyInvocations := s.srtpKeyInvocations + 1 }, secured)

/-- The index that an RTCP packet is protected under. -/
def srtcpIndex (packet : List UInt8) : Except SrtpError Nat :=
  if maximumSrtcpKeyInvocations ≤ s.srtcpKeyInvocations then .error .keyLifetimeExhausted
  else do
    let actualSource ← validateRtcpPacket packet
    s.checkSynchronizationSource actualSource
    match s.nextSrtcpIndex with
    | none => .error .packetIndexExhausted
    | some packetIndex => .ok packetIndex

def protectRtcp (c : Crypto) (s : SrtpSender) (packet : List UInt8) (mode : RtcpProtectionMode) :
    Except SrtpError (SrtpSender × List UInt8) := do
  let packetIndex ← s.srtcpIndex packet
  let secured ← s.keys.protectRtcp c packet packetIndex mode s.mki
  pure ({ s with
        nextSrtcpIndex := if packetIndex + 1 ≤ maximumSrtcpIndex then some (packetIndex + 1) else none
        srtcpKeyInvocations := s.srtcpKeyInvocations + 1 }, secured)

end SrtpSender

end Glass2Glass.Srtp
