import Glass2Glass.Srtp.Keystream

/-!
# The SRTP receiver

A receiver chooses the key that a packet names, estimates its index, checks it, and deciphers it (`SrtpReceiver` in
`g2g-plugins/src/srtp.rs`). Under the same keys and index it undoes what the sender did
(`SessionKeys.unprotect_protect`).
-/

namespace Glass2Glass.Srtp

open Words Mcu List Option

/-- A master key with what a receiver needs to use it. -/
structure SrtpKeyingMaterial where
  policy : SrtpPolicy
  masterKey : List UInt8
  masterSalt : List UInt8
  mki : Option (List UInt8)
  initialRolloverCounter : Nat

structure KeyedSession where
  keys : SessionKeys
  mki : Option (List UInt8)
  deriving DecidableEq

def mkiLengthOf (mki : Option (List UInt8)) : Nat := (mki.getD []).length

/-- Key identifiers have one length, and several keys need some. -/
def sharedMkiLength (keys : List SrtpKeyingMaterial) : Except SrtpError Nat :=
  match keys with
  | [] => .error .missingKey
  | first :: _ =>
    let length := mkiLengthOf first.mki
    let mixed := keys.any fun key => mkiLengthOf key.mki ≠ length
    if mixed ∨ length = 0 ∧ 1 < keys.length then .error .inconsistentMki else .ok length

structure SrtpReceiver where
  sessions : List KeyedSession
  mkiLength : Nat
  synchronizationSource : Nat
  rtpIndices : PacketIndexState
  srtcpIndices : PacketIndexState
  deriving DecidableEq

namespace SrtpReceiver

def keyedSession (c : Crypto) (material : SrtpKeyingMaterial) : Except SrtpError KeyedSession := do
  let keys ← SessionKeys.derive c material.policy material.masterKey material.masterSalt
  pure { keys, mki := material.mki }

def newWithKeysAndWindow (c : Crypto) (synchronizationSource : Nat) (keys : List SrtpKeyingMaterial)
    (replayWindow : Nat) : Except SrtpError SrtpReceiver := do
  let mkiLength ← sharedMkiLength keys
  let initialRolloverCounter := (keys.head?.map (·.initialRolloverCounter)).getD 0
  let sessions ← keys.mapM (keyedSession c)
  let rtpIndices ← PacketIndexState.new initialRolloverCounter replayWindow
  let srtcpIndices ← PacketIndexState.new 0 replayWindow
  pure { sessions, mkiLength, synchronizationSource, rtpIndices, srtcpIndices }

def newWithKeys (c : Crypto) (synchronizationSource : Nat) (keys : List SrtpKeyingMaterial) :
    Except SrtpError SrtpReceiver :=
  newWithKeysAndWindow c synchronizationSource keys defaultReplayWindow

def setReplayWindow (r : SrtpReceiver) (packets : Nat) : Except SrtpError SrtpReceiver := do
  let rtpIndices ← r.rtpIndices.resize packets
  let srtcpIndices ← r.srtcpIndices.resize packets
  pure { r with rtpIndices, srtcpIndices }

variable (r : SrtpReceiver) (packet : List UInt8)

/-- Whether a packet carries the key identifier of a session, where its own policy puts it. -/
def names (session : KeyedSession) : Bool :=
  ((session.keys.rtp.mkiRange packet.length r.mkiLength).map fun range =>
    slice packet range.1 (range.2 - range.1)) = session.mki

def sessionFor : Except SrtpError KeyedSession :=
  let session := if r.mkiLength = 0 then r.sessions.head? else r.sessions.find? (r.names packet)
  match session with
  | none => .error .missingKey
  | some session => .ok session

def checkSynchronizationSource (r : SrtpReceiver) (actual : Nat) : Except SrtpError Unit :=
  if actual ≠ r.synchronizationSource then .error (.wrongSynchronizationSource r.synchronizationSource actual)
  else .ok ()

/-- The index that a packet may be deciphered under. -/
def rtpIndex : Except SrtpError Nat :=
  match RtpHeader.parseHeader packet with
  | none => .error .invalidRtpPacket
  | some parsed => do
    r.checkSynchronizationSource parsed.header.ssrc
    let packetIndex ← r.rtpIndices.estimateRtpIndex parsed.header.sequence
    r.rtpIndices.check packetIndex
    pure packetIndex

def unprotectRtp (c : Crypto) (r : SrtpReceiver) (packet : List UInt8) :
    Except SrtpError (SrtpReceiver × List UInt8) := do
  let session ← r.sessionFor packet
  let packetIndex ← r.rtpIndex packet
  let unprotected ← session.keys.unprotectRtp c packet packetIndex r.mkiLength
  pure ({ r with rtpIndices := r.rtpIndices.accept packetIndex }, unprotected)

end SrtpReceiver

/-! ## The header stays readable -/

variable {a b packet : List UInt8}

theorem extensionEnd_le {hasExtension : Bool} {fixed last : Nat}
    (h : RtpHeader.extensionEnd a hasExtension fixed = some last) :
    fixed ≤ last ∧ (hasExtension = true → fixed + 4 ≤ last) := by
  unfold RtpHeader.extensionEnd at h
  split_ifs at h with hext
  · obtain ⟨high, -, h⟩ := Option.bind_eq_some_iff.1 h
    obtain ⟨low, -, h⟩ := Option.bind_eq_some_iff.1 h
    cases h
    omega
  · cases h
    exact ⟨Nat.le_refl _, fun hyes => absurd hyes hext⟩

/-- The header of a packet is read from its own bytes, whatever follows. -/
theorem parseHeader_prefix {parsed : RtpParsedHeader} (h : RtpHeader.parseHeader (a ++ b) = some parsed)
    (ha : parsed.payloadOffset ≤ a.length) (rest : List UInt8) : RtpHeader.parseHeader (a ++ rest) = some parsed := by
  have hget {i : Nat} (hi : i < a.length) : (a ++ rest)[i]? = (a ++ b)[i]? := by
    rw [List.getElem?_append_left hi, List.getElem?_append_left hi]
  unfold RtpHeader.parseHeader at h ⊢
  obtain ⟨b0, h0, h⟩ := Option.bind_eq_some_iff.1 h
  split_ifs at h with hversion
  obtain ⟨b1, h1, h⟩ := Option.bind_eq_some_iff.1 h
  obtain ⟨b2, h2, h⟩ := Option.bind_eq_some_iff.1 h
  obtain ⟨b3, h3, h⟩ := Option.bind_eq_some_iff.1 h
  obtain ⟨b4, h4, h⟩ := Option.bind_eq_some_iff.1 h
  obtain ⟨b5, h5, h⟩ := Option.bind_eq_some_iff.1 h
  obtain ⟨b6, h6, h⟩ := Option.bind_eq_some_iff.1 h
  obtain ⟨b7, h7, h⟩ := Option.bind_eq_some_iff.1 h
  obtain ⟨b8, h8, h⟩ := Option.bind_eq_some_iff.1 h
  obtain ⟨b9, h9, h⟩ := Option.bind_eq_some_iff.1 h
  obtain ⟨b10, h10, h⟩ := Option.bind_eq_some_iff.1 h
  obtain ⟨b11, h11, h⟩ := Option.bind_eq_some_iff.1 h
  obtain ⟨payloadOffset, hoffset, h⟩ := Option.bind_eq_some_iff.1 h
  split_ifs at h with hlong
  cases h
  dsimp only at ha
  obtain ⟨hfixed, hextended⟩ := extensionEnd_le hoffset
  unfold rtpHeaderLen at hfixed hextended
  have hsame : RtpHeader.extensionEnd (a ++ rest) (b0 &&& 0x10 != 0) (rtpHeaderLen + (b0 &&& 0x0F).toNat * 4) =
      some payloadOffset := by
    rw [← hoffset]
    unfold RtpHeader.extensionEnd rtpHeaderLen
    split_ifs with hext
    · have hin := hextended hext
      rw [hget (by omega), hget (by omega)]
    · rfl
  have hfits : ¬ payloadOffset > (a ++ rest).length := by
    rw [length_append]
    omega
  rw [hget (by omega), h0]
  dsimp only [bind_eq_bind, bind_some]
  rw [if_neg hversion, hget (by omega), h1, hget (by omega), h2, hget (by omega), h3, hget (by omega), h4,
    hget (by omega), h5, hget (by omega), h6, hget (by omega), h7, hget (by omega), h8, hget (by omega), h9,
    hget (by omega), h10, hget (by omega), h11]
  rw [hsame]
  dsimp only [bind_some]
  rw [if_neg hfits]
  rfl

/-! ## Deciphering undoes enciphering -/

/-- What is encrypted in Galois/counter mode is decrypted again, under the same key, vector and associated data. -/
def Crypto.Undoes (c : Crypto) : Prop :=
  ∀ key vector associated plaintext ciphertext tag,
    c.gcmEncrypt key vector associated plaintext = some (ciphertext, tag) →
      c.gcmDecrypt key vector associated ciphertext tag = some plaintext

variable {c : Crypto} {keys : SessionKeys} {out : List UInt8} {packetIndex : Nat} {mki : Option (List UInt8)}

variable {parsed : RtpParsed}

theorem parseHeader_of_parse (h : RtpHeader.parse packet = some parsed) :
    RtpHeader.parseHeader packet = some { header := parsed.header, payloadOffset := parsed.payloadOffset } ∧
      parsed.payloadOffset ≤ packet.length := by
  have hbounds := RtpHeader.parse_bounds h
  obtain ⟨parsedHeader, hheader, h⟩ := Option.bind_eq_some_iff.1 h
  obtain ⟨b0, -, h⟩ := Option.bind_eq_some_iff.1 h
  obtain ⟨last, -, h⟩ := Option.bind_eq_some_iff.1 h
  split_ifs at h
  cases h
  exact ⟨hheader, by omega⟩

variable {data : List UInt8}

theorem zipWith_xor_xor {mask : List UInt8} (h : data.length ≤ mask.length) :
    List.zipWith (· ^^^ ·) (List.zipWith (· ^^^ ·) data mask) mask = data := by
  refine ext_getElem ?_ fun i hi hj => ?_
  · rw [length_zipWith, length_zipWith]
    omega
  · rw [getElem_zipWith, getElem_zipWith, UInt8.xor_assoc, UInt8.xor_self, UInt8.xor_zero]

theorem applyCounterMode_twice {key block : List UInt8}
    (h : applyCounterMode (c.encryptBlock key) block data = .ok out) :
    applyCounterMode (c.encryptBlock key) block out = .ok data := by
  have hlength := length_applyCounterMode h
  unfold applyCounterMode at h ⊢
  split_ifs at h with hlarge
  have hlong : data.length ≤ ((counterBlocks block data.length).map (c.encryptBlock key)).flatten.length := by
    rw [length_keystream]
    omega
  cases h
  rw [hlength.1, if_neg hlarge, zipWith_xor_xor hlong]

variable {flow : FlowKeys}

theorem applyCipher_twice {source : Nat} (h : flow.applyCipher c data source packetIndex = .ok out) :
    flow.applyCipher c out source packetIndex = .ok data ∧ out.length = data.length := by
  unfold FlowKeys.applyCipher at h ⊢
  cases hcipher : flow.cipher with
  | null | authenticatedEncryption key salt =>
    rw [hcipher] at h
    cases h
    exact ⟨rfl, rfl⟩
  | counterMode key salt =>
    rw [hcipher] at h
    exact ⟨applyCounterMode_twice h, (length_applyCounterMode h).1⟩

theorem length_authenticationTag (flow : FlowKeys) (message : List UInt8) :
    (flow.authenticationTag c message).length = flow.authentication.tagLength := by
  have htag : flow.authentication.tagLength ≤ 20 := by cases flow.authentication <;> decide
  unfold FlowKeys.authenticationTag
  rw [length_take, c.length_mac]
  omega

theorem verify_authenticationTag (flow : FlowKeys) (message : List UInt8) :
    flow.verifyAuthenticationTag c message (flow.authenticationTag c message) = .ok () := by
  have hlength := length_authenticationTag (c := c) flow message
  unfold FlowKeys.verifyAuthenticationTag
  rw [hlength]
  unfold FlowKeys.authenticationTag
  rw [if_pos rfl, ite_self]

/-- What a cipher that authenticates makes of a packet: its header, the ciphertext, the tag and the key identifier. -/
def SealedAs (c : Crypto) (keys : SessionKeys) (packet : List UInt8) (packetIndex : Nat) (parsed : RtpParsed)
    (mki : Option (List UInt8)) (out : List UInt8) : Prop :=
  ∃ key salt ciphertext tag, keys.rtp.cipher = .authenticatedEncryption key salt ∧ c.gcmEncrypt key
      (rtpInitializationVector salt parsed.header.ssrc (packetIndex / 2 ^ 16) parsed.header.sequence)
      (packet.take parsed.payloadOffset) (packet.drop parsed.payloadOffset) = some (ciphertext, tag) ∧
    out = packet.take parsed.payloadOffset ++ (ciphertext ++ (tag ++ mki.getD []))

/-- What the other ciphers make of it: the tag is behind the key identifier. -/
def SignedAs (c : Crypto) (keys : SessionKeys) (packet : List UInt8) (packetIndex : Nat) (parsed : RtpParsed)
    (mki : Option (List UInt8)) (out : List UInt8) : Prop :=
  ∃ encrypted, (∀ key salt, keys.rtp.cipher ≠ .authenticatedEncryption key salt) ∧
    keys.rtp.applyCipher c (packet.drop parsed.payloadOffset) parsed.header.ssrc packetIndex = .ok encrypted ∧
    out = packet.take parsed.payloadOffset ++ (encrypted ++ (mki.getD [] ++ keys.rtp.authenticationTag c
        (packet.take parsed.payloadOffset ++ encrypted ++ beBytes 4 (packetIndex / 2 ^ 16))))

theorem protectRtp_shape (h : keys.protectRtp c packet packetIndex mki = .ok out) :
    ∃ parsed, RtpHeader.parse packet = some parsed ∧ packetIndex / 2 ^ 16 < 2 ^ 32 ∧
      (SealedAs c keys packet packetIndex parsed mki out ∨ SignedAs c keys packet packetIndex parsed mki out) := by
  unfold SessionKeys.protectRtp at h
  cases hparse : RtpHeader.parse packet with
  | none =>
    rw [hparse] at h
    cases h
  | some parsed =>
    rw [hparse] at h
    dsimp only at h
    split_ifs at h with hexhausted
    refine ⟨parsed, rfl, not_le.1 hexhausted, ?_⟩
    cases hcipher : keys.rtp.cipher with
    | null | counterMode key salt =>
      rw [hcipher] at h
      obtain ⟨encrypted, hencrypted, h⟩ := Loop.bind_eq_ok.1 h
      cases h
      refine Or.inr ⟨encrypted, fun key salt hsame => ?_, hencrypted, ?_⟩
      · rw [hcipher] at hsame
        cases hsame
      · rw [append_assoc, append_assoc, append_assoc]
    | authenticatedEncryption key salt =>
      rw [hcipher] at h
      dsimp only at h
      cases hencrypt : c.gcmEncrypt key (rtpInitializationVector salt parsed.header.ssrc (packetIndex / 2 ^ 16)
          parsed.header.sequence) (packet.take parsed.payloadOffset) (packet.drop parsed.payloadOffset) with
      | none =>
        rw [hencrypt] at h
        cases h
      | some sealed =>
        rw [hencrypt] at h
        cases h
        refine Or.inl ⟨key, salt, sealed.1, sealed.2, hcipher, hencrypt, ?_⟩
        rw [append_assoc, append_assoc]

theorem parseHeader_protectRtp (h : keys.protectRtp c packet packetIndex mki = .ok out)
    (hparse : RtpHeader.parse packet = some parsed) :
    RtpHeader.parseHeader out = some { header := parsed.header, payloadOffset := parsed.payloadOffset } := by
  obtain ⟨parsed', hparse', -, hshape⟩ := protectRtp_shape h
  rw [hparse] at hparse'
  cases hparse'
  obtain ⟨hheader, hle⟩ := parseHeader_of_parse hparse
  have hstarts : ∃ rest, out = packet.take parsed.payloadOffset ++ rest := by
    rcases hshape with ⟨_, _, _, _, -, -, hout⟩ | ⟨_, -, -, hout⟩
    · exact ⟨_, hout⟩
    · exact ⟨_, hout⟩
  obtain ⟨rest, rfl⟩ := hstarts
  have hsplit : RtpHeader.parseHeader (packet.take parsed.payloadOffset ++ packet.drop parsed.payloadOffset) =
      some { header := parsed.header, payloadOffset := parsed.payloadOffset } := by
    rw [take_append_drop]
    exact hheader
  refine parseHeader_prefix hsplit ?_ rest
  rw [length_take]
  exact le_min (Nat.le_refl _) hle

theorem length_header (hparse : RtpHeader.parse packet = some parsed) :
    (packet.take parsed.payloadOffset).length = parsed.payloadOffset := by
  rw [length_take]
  exact min_eq_left (parseHeader_of_parse hparse).2

theorem unprotect_sealed (hc : c.Undoes) (hparse : RtpHeader.parse packet = some parsed)
    (hcounter : packetIndex / 2 ^ 16 < 2 ^ 32) (h : SealedAs c keys packet packetIndex parsed mki out)
    (hheader : RtpHeader.parseHeader out = some { header := parsed.header, payloadOffset := parsed.payloadOffset }) :
    keys.unprotectRtp c out packetIndex (mkiLengthOf mki) = .ok packet := by
  have htake := length_header hparse
  have hwhole := take_append_drop parsed.payloadOffset packet
  obtain ⟨key, salt, ciphertext, tag, hcipher, hencrypt, rfl⟩ := h
  obtain ⟨-, htag⟩ := c.length_gcmEncrypt _ _ _ _ _ _ hencrypt
  unfold SessionKeys.unprotectRtp mkiLengthOf authenticationTagLength
  rw [hheader, hcipher]
  dsimp only
  rw [if_neg (not_le.2 hcounter)]
  generalize packet.take parsed.payloadOffset = header at hencrypt htake hwhole ⊢
  generalize packet.drop parsed.payloadOffset = payload at hencrypt hwhole
  generalize mki.getD [] = m
  have hlength : (header ++ (ciphertext ++ (tag ++ m))).length - m.length =
      parsed.payloadOffset + ciphertext.length + 16 := by
    rw [length_append, length_append, length_append, htake, htag]
    omega
  have hshort : ¬(header ++ (ciphertext ++ (tag ++ m))).length < m.length := by
    omega
  have hbody : parsed.payloadOffset + ciphertext.length - parsed.payloadOffset = ciphertext.length := by omega
  have htagged : slice (header ++ (ciphertext ++ (tag ++ m))) (parsed.payloadOffset + ciphertext.length) 16 = tag := by
    rw [← append_assoc header]
    exact slice_after (by rw [length_append, htake]) htag
  rw [hlength, if_neg hshort, if_neg (by omega), Nat.add_sub_cancel, hbody, take_left' htake,
    slice_after htake rfl, htagged, hc _ _ _ _ _ _ hencrypt]
  dsimp only
  rw [hwhole, hparse]

theorem unprotect_signed (hparse : RtpHeader.parse packet = some parsed)
    (hcounter : packetIndex / 2 ^ 16 < 2 ^ 32) (h : SignedAs c keys packet packetIndex parsed mki out)
    (hheader : RtpHeader.parseHeader out = some { header := parsed.header, payloadOffset := parsed.payloadOffset }) :
    keys.unprotectRtp c out packetIndex (mkiLengthOf mki) = .ok packet := by
  have htake := length_header hparse
  have hwhole := take_append_drop parsed.payloadOffset packet
  obtain ⟨encrypted, hplain, hencrypted, rfl⟩ := h
  obtain ⟨htwice, -⟩ := applyCipher_twice hencrypted
  have hverify := verify_authenticationTag (c := c) keys.rtp
    (packet.take parsed.payloadOffset ++ encrypted ++ beBytes 4 (packetIndex / 2 ^ 16))
  have htag := length_authenticationTag (c := c) keys.rtp
    (packet.take parsed.payloadOffset ++ encrypted ++ beBytes 4 (packetIndex / 2 ^ 16))
  unfold SessionKeys.unprotectRtp mkiLengthOf
  rw [hheader]
  dsimp only
  rw [if_neg (not_le.2 hcounter)]
  generalize packet.take parsed.payloadOffset = header at hverify htag htake hwhole ⊢
  generalize keys.rtp.authenticationTag c (header ++ encrypted ++ beBytes 4 (packetIndex / 2 ^ 16)) = tag
    at hverify htag ⊢
  generalize mki.getD [] = m
  have hlength : (header ++ (encrypted ++ (m ++ tag))).length =
      parsed.payloadOffset + encrypted.length + (keys.rtp.authentication.tagLength + m.length) := by
    rw [length_append, length_append, length_append, htake, htag]
    omega
  have hbody : (header ++ (encrypted ++ (m ++ tag))).take (parsed.payloadOffset + encrypted.length) =
      header ++ encrypted := by
    rw [← append_assoc header, take_left' (by rw [length_append, htake])]
  have hend : (header ++ (encrypted ++ (m ++ tag))).drop (parsed.payloadOffset + encrypted.length +
      (keys.rtp.authentication.tagLength + m.length) - keys.rtp.authentication.tagLength) = tag := by
    rw [← append_assoc header, ← append_assoc (header ++ encrypted), drop_left']
    rw [length_append, length_append, htake]
    omega
  cases hcipher : keys.rtp.cipher with
  | authenticatedEncryption key salt => exact absurd hcipher (hplain key salt)
  | null | counterMode key salt =>
    dsimp only
    rw [hlength, if_neg (by omega), Nat.add_sub_cancel, if_neg (by omega), hbody, hend, hverify,
      take_left' htake, drop_left' htake, htwice]
    dsimp only [bind, Except.bind]
    rw [hwhole, hparse]

theorem SessionKeys.unprotect_protect (hc : c.Undoes) (h : keys.protectRtp c packet packetIndex mki = .ok out) :
    keys.unprotectRtp c out packetIndex (mkiLengthOf mki) = .ok packet := by
  obtain ⟨parsed, hparse, hcounter, hsealed | hsigned⟩ := protectRtp_shape h
  · exact unprotect_sealed hc hparse hcounter hsealed (parseHeader_protectRtp h hparse)
  · exact unprotect_signed hparse hcounter hsigned (parseHeader_protectRtp h hparse)

theorem mkiRange_sealed {key salt : List UInt8} {n count : Nat}
    (hcipher : flow.cipher = .authenticatedEncryption key salt) (hle : count ≤ n) :
    flow.mkiRange n count = some (n - count, n) := by
  unfold FlowKeys.mkiRange
  rw [hcipher]
  dsimp only [bind_some]
  rw [if_neg (not_lt.2 hle)]

theorem mkiRange_signed {n count : Nat} (hplain : ∀ key salt, flow.cipher ≠ .authenticatedEncryption key salt)
    (hle : count + flow.authentication.tagLength ≤ n) : flow.mkiRange n count =
      some (n - flow.authentication.tagLength - count, n - flow.authentication.tagLength) := by
  unfold FlowKeys.mkiRange
  cases hcipher : flow.cipher with
  | authenticatedEncryption key salt => exact absurd hcipher (hplain key salt)
  | null | counterMode key salt =>
    rw [if_neg (by omega)]
    dsimp only [bind_some]
    rw [if_neg (by omega)]

theorem names_of_range {r : SrtpReceiver} {session : KeyedSession} {x m z : List UInt8} (hout : out = x ++ (m ++ z))
    (h : session.keys.rtp.mkiRange out.length r.mkiLength = some (x.length, x.length + m.length))
    (hm : session.mki = some m) : r.names out session = true := by
  unfold SrtpReceiver.names
  rw [h, hm, decide_eq_true_eq]
  dsimp only [map_some]
  rw [hout, Nat.add_sub_cancel_left, slice_after rfl rfl]

theorem names_protectRtp {r : SrtpReceiver} {m : List UInt8} (hlength : r.mkiLength = m.length)
    (h : keys.protectRtp c packet packetIndex (some m) = .ok out) : r.names out { keys, mki := some m } = true := by
  obtain ⟨parsed, hparse, -, hsealed | hsigned⟩ := protectRtp_shape h
  · obtain ⟨key, salt, ciphertext, tag, hcipher, -, hout⟩ := hsealed
    have hsplit : out = packet.take parsed.payloadOffset ++ ciphertext ++ tag ++ (m ++ []) := by
      rw [hout, append_nil, append_assoc, append_assoc]
      rfl
    have hsize : out.length = (packet.take parsed.payloadOffset ++ ciphertext ++ tag).length + m.length := by
      rw [hsplit, append_nil, length_append]
    refine names_of_range hsplit ?_ rfl
    rw [hlength, mkiRange_sealed hcipher (by omega), hsize, Nat.add_sub_cancel]
  · obtain ⟨encrypted, hplain, -, hout⟩ := hsigned
    have htag := length_authenticationTag (c := c) keys.rtp
      (packet.take parsed.payloadOffset ++ encrypted ++ beBytes 4 (packetIndex / 2 ^ 16))
    generalize keys.rtp.authenticationTag c
      (packet.take parsed.payloadOffset ++ encrypted ++ beBytes 4 (packetIndex / 2 ^ 16)) = tag at hout htag
    have hsplit : out = packet.take parsed.payloadOffset ++ encrypted ++ (m ++ tag) := by
      rw [hout, append_assoc]
      rfl
    have hsize : out.length = (packet.take parsed.payloadOffset ++ encrypted).length + m.length +
        keys.rtp.authentication.tagLength := by
      rw [hsplit, length_append, @length_append _ m, htag, Nat.add_assoc]
    refine names_of_range hsplit ?_ rfl
    rw [hlength, mkiRange_signed hplain (by omega), hsize, Nat.add_sub_cancel, Nat.add_sub_cancel]

end Glass2Glass.Srtp
