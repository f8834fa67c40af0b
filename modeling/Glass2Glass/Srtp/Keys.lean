import Glass2Glass.Mcu.RtpSrc
import Glass2Glass.Srtp.Replay

/-!
# Session keys

How packets are protected under the keys of a session (`FlowKeys`, `SessionKeys` in `g2g-plugins/src/srtp.rs`): the
derivation of the keys, counter mode, and the initialization vectors. The block cipher, the authenticated encryption and
the message authentication code are parameters.
-/

namespace Glass2Glass.Srtp

open Words Mcu

/-- What is taken from other packages: the encryption of a block of AES under a key, encryption and decryption in
Galois/counter mode under a key with an initialization vector and associated data, and HMAC-SHA1, with the lengths that
their types give them. -/
structure Crypto where
  encryptBlock (key block : List UInt8) : List UInt8
  gcmEncrypt (key vector associated plaintext : List UInt8) : Option (List UInt8 × List UInt8)
  gcmDecrypt (key vector associated ciphertext tag : List UInt8) : Option (List UInt8)
  mac (key message : List UInt8) : List UInt8
  length_encryptBlock : ∀ key block, (encryptBlock key block).length = 16
  length_gcmEncrypt : ∀ key vector associated plaintext ciphertext tag,
    gcmEncrypt key vector associated plaintext = some (ciphertext, tag) →
      ciphertext.length = plaintext.length ∧ tag.length = 16
  length_mac : ∀ key message, (mac key message).length = 20

/-! ## Policies -/

def authenticationTagLength : Nat := 16

def aes128KeyLength : Nat := 16

def aes256KeyLength : Nat := 32

def aesBlockLength : Nat := 16

def aeadMasterSaltLength : Nat := 12

def counterModeMasterSaltLength : Nat := 14

def sessionAuthenticationKeyLength : Nat := 20

inductive SrtpCipher where
  | null
  | aes128CounterMode
  | aes256CounterMode
  | aes128Gcm
  | aes256Gcm

namespace SrtpCipher

def masterKeyLengths : SrtpCipher → List Nat
  | .null => [aes128KeyLength, aes256KeyLength]
  | .aes128CounterMode => [aes128KeyLength]
  | .aes128Gcm => [aes128KeyLength]
  | .aes256CounterMode => [aes256KeyLength]
  | .aes256Gcm => [aes256KeyLength]

def masterSaltLength : SrtpCipher → Nat
  | .aes128Gcm => aeadMasterSaltLength
  | .aes256Gcm => aeadMasterSaltLength
  | _ => counterModeMasterSaltLength

def isAuthenticatedEncryption : SrtpCipher → Bool
  | .aes128Gcm => true
  | .aes256Gcm => true
  | _ => false

end SrtpCipher

inductive SrtpAuthentication where
  | null
  | hmacSha1Tag32
  | hmacSha1Tag80
  deriving DecidableEq

def SrtpAuthentication.tagLength : SrtpAuthentication → Nat
  | .null => 0
  | .hmacSha1Tag32 => 4
  | .hmacSha1Tag80 => 10

/-- A cipher that authenticates takes no other authentication. -/
structure SrtpPolicy where
  cipher : SrtpCipher
  authentication : SrtpAuthentication
  plain : cipher.isAuthenticatedEncryption = true → authentication = .null

/-! ## Counter mode -/

/-- Put some bytes into a block, by exclusive or. -/
def xorAt (block : List UInt8) (start : Nat) (bytes : List UInt8) : List UInt8 :=
  block.take start ++ List.zipWith (· ^^^ ·) (slice block start bytes.length) bytes ++ block.drop (start + bytes.length)

/-- The counter block of a packet: its salt, its source at byte 4 and its index at byte 8. The last two bytes are for
the number of the block. -/
def counterModeBlock (salt : List UInt8) (synchronizationSource packetIndex : Nat) : List UInt8 :=
  let block := salt ++ [0, 0]
  let block := xorAt block 4 (beBytes 4 synchronizationSource)
  xorAt block 8 ((beBytes 8 packetIndex).drop 2)

def numberedBlock (initialBlock : List UInt8) (number : Nat) : List UInt8 :=
  initialBlock.take (aesBlockLength - 2) ++ beBytes 2 number

/-- The counter blocks for some bytes. -/
def counterBlocks (initialBlock : List UInt8) (length : Nat) : List (List UInt8) :=
  (List.range ((length + (aesBlockLength - 1)) / aesBlockLength)).map (numberedBlock initialBlock)

/-- Put the keystream over some bytes. The number of a block has 16 bits. -/
def applyCounterMode (encrypt : List UInt8 → List UInt8) (initialBlock data : List UInt8) :
    Except SrtpError (List UInt8) :=
  if 2 ^ 16 < (data.length + (aesBlockLength - 1)) / aesBlockLength then .error .packetTooLarge
  else
    .ok (List.zipWith (· ^^^ ·) data ((counterBlocks initialBlock data.length).map encrypt).flatten)

/-! ## Initialization vectors -/

def rtpInitializationVector (salt : List UInt8) (synchronizationSource rolloverCounter sequence : Nat) : List UInt8 :=
  List.zipWith (· ^^^ ·) salt
    ([0, 0] ++ beBytes 4 synchronizationSource ++ beBytes 4 rolloverCounter ++ beBytes 2 sequence)

def maximumSrtcpIndex : Nat := 2 ^ 31 - 1

def rtcpInitializationVector (salt : List UInt8) (synchronizationSource srtcpIndex : Nat) : List UInt8 :=
  List.zipWith (· ^^^ ·) salt ([0, 0] ++ beBytes 4 synchronizationSource ++ [0, 0] ++ beBytes 4 (srtcpIndex % 2 ^ 31))

/-! ## Keys -/

/-- The cipher of a flow, with its key and its salt. -/
inductive FlowCipher where
  | null
  | counterMode (key salt : List UInt8)
  | authenticatedEncryption (key salt : List UInt8)
  deriving DecidableEq

structure FlowKeys where
  cipher : FlowCipher
  authentication : SrtpAuthentication
  macKey : List UInt8
  deriving DecidableEq

structure FlowLabels where
  encryptionKey : UInt8
  authenticationKey : UInt8
  salt : UInt8

def rtpLabels : FlowLabels := { encryptionKey := 0, authenticationKey := 1, salt := 2 }

def rtcpLabels : FlowLabels := { encryptionKey := 3, authenticationKey := 4, salt := 5 }

/-- A value of a session: the keystream of the master key, for a label. -/
def deriveSessionValue (c : Crypto) (master masterSalt : List UInt8) (label : UInt8) (length : Nat) :
    Except SrtpError (List UInt8) :=
  applyCounterMode (c.encryptBlock master) (xorAt (masterSalt ++ [0, 0]) 7 [label]) (List.replicate length 0)

def deriveKeyAndSalt (c : Crypto) (master masterSalt : List UInt8) (labels : FlowLabels) (keyLength saltLength : Nat)
    (cipher : List UInt8 → List UInt8 → FlowCipher) : Except SrtpError FlowCipher := do
  let key ← deriveSessionValue c master masterSalt labels.encryptionKey keyLength
  let salt ← deriveSessionValue c master masterSalt labels.salt saltLength
  pure (cipher key salt)

def FlowCipher.derive (c : Crypto) (cipher : SrtpCipher) (master masterSalt : List UInt8) (labels : FlowLabels) :
    Except SrtpError FlowCipher :=
  let keyLength := cipher.masterKeyLengths.headD 0
  match cipher with
  | .null => .ok .null
  | .aes128CounterMode =>
    deriveKeyAndSalt c master masterSalt labels keyLength counterModeMasterSaltLength .counterMode
  | .aes256CounterMode =>
    deriveKeyAndSalt c master masterSalt labels keyLength counterModeMasterSaltLength .counterMode
  | .aes128Gcm => deriveKeyAndSalt c master masterSalt labels keyLength aeadMasterSaltLength .authenticatedEncryption
  | .aes256Gcm => deriveKeyAndSalt c master masterSalt labels keyLength aeadMasterSaltLength .authenticatedEncryption

/-- The key of the authentication, zeros without one. -/
def deriveMacKey (c : Crypto) (authentication : SrtpAuthentication) (master masterSalt : List UInt8)
    (labels : FlowLabels) : Except SrtpError (List UInt8) :=
  if authentication = .null then .ok (List.replicate sessionAuthenticationKeyLength 0)
  else deriveSessionValue c master masterSalt labels.authenticationKey sessionAuthenticationKeyLength

def FlowKeys.derive (c : Crypto) (policy : SrtpPolicy) (master masterSalt : List UInt8) (labels : FlowLabels) :
    Except SrtpError FlowKeys := do
  let cipher ← FlowCipher.derive c policy.cipher master masterSalt labels
  let macKey ← deriveMacKey c policy.authentication master masterSalt labels
  pure { cipher, authentication := policy.authentication, macKey }

structure SessionKeys where
  rtp : FlowKeys
  rtcp : FlowKeys
  deriving DecidableEq

/-- The salt of 12 bytes is padded on the right. -/
def paddedMasterSalt (masterSalt : List UInt8) : List UInt8 :=
  masterSalt ++ List.replicate (counterModeMasterSaltLength - masterSalt.length) 0

def SessionKeys.derive (c : Crypto) (policy : SrtpPolicy) (masterKey masterSalt : List UInt8) :
    Except SrtpError SessionKeys :=
  if masterKey.length ∉ policy.cipher.masterKeyLengths then
    .error (.invalidMasterKeyLength (policy.cipher.masterKeyLengths.headD 0) masterKey.length)
  else if masterSalt.length ≠ policy.cipher.masterSaltLength then
    .error (.invalidMasterSaltLength policy.cipher.masterSaltLength masterSalt.length)
  else do
    let rtp ← FlowKeys.derive c policy masterKey (paddedMasterSalt masterSalt) rtpLabels
    let rtcp ← FlowKeys.derive c policy masterKey (paddedMasterSalt masterSalt) rtcpLabels
    pure { rtp, rtcp }

namespace FlowKeys

def encrypts (keys : FlowKeys) : Bool := keys.cipher ≠ .null

/-- Where the key identifier is in a protected packet: at its end, or before the tag. -/
def mkiRange (keys : FlowKeys) (packetLength mkiLength : Nat) : Option (Nat × Nat) :=
  let last :=
    match keys.cipher with
    | .authenticatedEncryption _ _ => some packetLength
    | _ =>
      if packetLength < keys.authentication.tagLength then none
      else some (packetLength - keys.authentication.tagLength)
  last.bind fun last => if last < mkiLength then none else some (last - mkiLength, last)

variable (c : Crypto) (keys : FlowKeys)

/-- Counter mode, if that is the cipher, the same in both directions. -/
def applyCipher (data : List UInt8) (synchronizationSource packetIndex : Nat) : Except SrtpError (List UInt8) :=
  match keys.cipher with
  | .counterMode key salt =>
    applyCounterMode (c.encryptBlock key) (counterModeBlock salt synchronizationSource packetIndex) data
  | _ => .ok data

/-- The tag of a message, nothing without authentication. -/
def authenticationTag (message : List UInt8) : List UInt8 :=
  (c.mac keys.macKey message).take keys.authentication.tagLength

def verifyAuthenticationTag (message tag : List UInt8) : Except SrtpError Unit :=
  if keys.authentication.tagLength = 0 then .ok ()
  else if (c.mac keys.macKey message).take tag.length = tag then .ok ()
  else .error .authenticationFailed

end FlowKeys

/-! ## Packets -/

inductive RtcpProtectionMode where
  | encrypt
  | authenticateOnly
  deriving DecidableEq

def rtcpAuthenticatedPrefixLength : Nat := 8

def srtcpIndexLength : Nat := 4

/-- The source of an RTCP packet, if it has the form of one. -/
def validateRtcpPacket (packet : List UInt8) : Except SrtpError Nat :=
  if packet.length < rtcpAuthenticatedPrefixLength ∨ packet.length % 4 ≠ 0 then .error .invalidRtcpPacket
  else if (byteAt packet 0).toNat >>> 6 ≠ 2 then .error .invalidRtcpPacket
  else .ok (Words.beNat (slice packet 4 4))

namespace SessionKeys

variable (c : Crypto) (keys : SessionKeys) (packet : List UInt8)

def protectRtp (packetIndex : Nat) (mki : Option (List UInt8)) : Except SrtpError (List UInt8) :=
  match RtpHeader.parse packet with
  | none => .error .invalidRtpPacket
  | some parsed =>
    let rolloverCounter := packetIndex / 2 ^ 16
    if 2 ^ 32 ≤ rolloverCounter then .error .packetIndexExhausted
    else
      let header := packet.take parsed.payloadOffset
      let payload := packet.drop parsed.payloadOffset
      match keys.rtp.cipher with
      | .authenticatedEncryption key salt =>
        let vector := rtpInitializationVector salt parsed.header.ssrc rolloverCounter parsed.header.sequence
        match c.gcmEncrypt key vector header payload with
        | none => .error .packetTooLarge
        | some (ciphertext, tag) => .ok (header ++ ciphertext ++ tag ++ mki.getD [])
      | _ => do
        let encrypted ← keys.rtp.applyCipher c payload parsed.header.ssrc packetIndex
        let secured := header ++ encrypted
        -- The tag is over the rollover counter, too, and the key identifier is not under it.
        let tag := keys.rtp.authenticationTag c (secured ++ beBytes 4 rolloverCounter)
        pure (secured ++ mki.getD [] ++ tag)

/-- Check and decipher a protected RTP packet under an index. -/
def unprotectRtp (packetIndex mkiLength : Nat) : Except SrtpError (List UInt8) :=
  match RtpHeader.parseHeader packet with
  | none => .error .invalidRtpPacket
  | some parsed =>
    let rolloverCounter := packetIndex / 2 ^ 16
    if 2 ^ 32 ≤ rolloverCounter then .error .packetIndexExhausted
    else
      match keys.rtp.cipher with
      | .authenticatedEncryption key salt =>
        if packet.length < mkiLength then .error .invalidRtpPacket
        else
          let bodyEnd := packet.length - mkiLength
          if bodyEnd - parsed.payloadOffset < authenticationTagLength then .error .invalidRtpPacket
          else
            let vector := rtpInitializationVector salt parsed.header.ssrc rolloverCounter parsed.header.sequence
            let tagOffset := bodyEnd - authenticationTagLength
            let header := packet.take parsed.payloadOffset
            let ciphertext := slice packet parsed.payloadOffset (tagOffset - parsed.payloadOffset)
            match c.gcmDecrypt key vector header ciphertext (slice packet tagOffset authenticationTagLength) with
            | none => .error .authenticationFailed
            | some payload =>
              match RtpHeader.parse (header ++ payload) with
              | none => .error .invalidRtpPacket
              | some _ => .ok (header ++ payload)
      | _ =>
        let tagLength := keys.rtp.authentication.tagLength
        if packet.length < tagLength + mkiLength then .error .invalidRtpPacket
        else
          let bodyEnd := packet.length - (tagLength + mkiLength)
          if bodyEnd < parsed.payloadOffset then .error .invalidRtpPacket
          else do
            let body := packet.take bodyEnd
            keys.rtp.verifyAuthenticationTag c (body ++ beBytes 4 rolloverCounter)
              (packet.drop (packet.length - tagLength))
            let payload ← keys.rtp.applyCipher c (body.drop parsed.payloadOffset) parsed.header.ssrc packetIndex
            let output := body.take parsed.payloadOffset ++ payload
            match RtpHeader.parse output with
            | none => .error .invalidRtpPacket
            | some _ => .ok output

def protectRtcpOf (synchronizationSource srtcpIndex : Nat)
    (mode : RtcpProtectionMode) (mki : Option (List UInt8)) : Except SrtpError (List UInt8) :=
  let encryptionFlag := decide (mode = .encrypt) && keys.rtcp.encrypts
  let indexWord := beBytes 4 (srtcpIndex ||| if encryptionFlag then 1 <<< 31 else 0)
  let header := packet.take rtcpAuthenticatedPrefixLength
  let body := packet.drop rtcpAuthenticatedPrefixLength
  match keys.rtcp.cipher with
  | .authenticatedEncryption key salt =>
    let vector := rtcpInitializationVector salt synchronizationSource srtcpIndex
    if encryptionFlag then
      match c.gcmEncrypt key vector (header ++ indexWord) body with
      | none => .error .packetTooLarge
      | some (ciphertext, tag) => .ok (header ++ ciphertext ++ tag ++ indexWord ++ mki.getD [])
    else
      match c.gcmEncrypt key vector (packet ++ indexWord) [] with
      | none => .error .packetTooLarge
      | some (_, tag) => .ok (packet ++ tag ++ indexWord ++ mki.getD [])
  | _ =>
    let encrypted := if encryptionFlag then keys.rtcp.applyCipher c body synchronizationSource srtcpIndex else .ok body
    encrypted.map fun encrypted =>
      let secured := header ++ encrypted ++ indexWord
      secured ++ mki.getD [] ++ keys.rtcp.authenticationTag c secured

def protectRtcp (srtcpIndex : Nat) (mode : RtcpProtectionMode)
    (mki : Option (List UInt8)) : Except SrtpError (List UInt8) := do
  let synchronizationSource ← validateRtcpPacket packet
  keys.protectRtcpOf c packet synchronizationSource srtcpIndex mode mki

end SessionKeys

end Glass2Glass.Srtp
