import Glass2Glass.Srtp.Vector

/-!
# The keystream of a sender is never repeated

A run of a sender is a sequence of calls, failed ones among them. What it protected is written down, with the vectors
and the counter blocks of each packet, which are all that the cipher is asked for (`SessionKeys.protectRtp_congr`,
`SessionKeys.protectRtcp_congr`). `Trace.never_repeats` is about every run.
-/

namespace Glass2Glass.Srtp

open Words Mcu List PacketIndexState
open Loop (bind_eq_ok)
open Option (bind_eq_some_iff)

/-! ## What a packet asks the cipher for -/

/-- An RTP packet that was protected: the keys of its flow, its source, index and sequence number, and the length of
its payload. -/
structure RtpUse where
  keys : FlowKeys
  source : Nat
  index : Nat
  sequence : Nat
  length : Nat

/-- An RTCP packet that was protected. -/
structure RtcpUse where
  keys : FlowKeys
  source : Nat
  index : Nat
  mode : RtcpProtectionMode
  length : Nat

namespace RtpUse

/-- The counter blocks for the packet, with their keys. -/
def blocks (u : RtpUse) : List (List UInt8 × List UInt8) :=
  match u.keys.cipher with
  | .counterMode key salt => (counterBlocks (counterModeBlock salt u.source u.index) u.length).map (key, ·)
  | _ => []

end RtpUse

namespace RtcpUse

def blocks (u : RtcpUse) : List (List UInt8 × List UInt8) :=
  match u.mode, u.keys.cipher with
  | .encrypt, .counterMode key salt =>
    (counterBlocks (counterModeBlock salt u.source u.index) u.length).map (key, ·)
  | _, _ => []

end RtcpUse

namespace SessionKeys

def rtpUse (keys : SessionKeys) (packet : List UInt8) (parsed : RtpParsed) (packetIndex : Nat) : RtpUse where
  keys := keys.rtp
  source := parsed.header.ssrc
  index := packetIndex
  sequence := parsed.header.sequence
  length := (packet.drop parsed.payloadOffset).length

def rtcpUse (keys : SessionKeys) (packet : List UInt8) (synchronizationSource srtcpIndex : Nat)
    (mode : RtcpProtectionMode) : RtcpUse where
  keys := keys.rtcp
  source := synchronizationSource
  index := srtcpIndex
  mode
  length := (packet.drop rtcpAuthenticatedPrefixLength).length

end SessionKeys

/-! ## Runs -/

/-- A sender, and what it protected, the latest first. -/
structure Trace where
  sender : SrtpSender
  rtp : List RtpUse
  rtcp : List RtcpUse

inductive Call where
  | protectRtp (packet : List UInt8)
  | protectRtcp (packet : List UInt8) (mode : RtcpProtectionMode)
  | setMki (mki : Option (List UInt8))
  | setSoftLimits (softLimits : SrtpSoftLimits)
  | replaceKey (policy : SrtpPolicy) (masterKey masterSalt : List UInt8)
  | setReplayWindow (packets : Nat)

namespace Trace

/-- A setter that fails leaves the sender as it was. -/
def set (t : Trace) : Except SrtpError SrtpSender → Trace
  | .error _ => t
  | .ok sender => { t with sender }

def protectRtp (c : Crypto) (t : Trace) (packet : List UInt8) : Trace :=
  match t.sender.protectRtp c packet, t.sender.rtpIndex packet, RtpHeader.parse packet with
  | .ok (sender, _), .ok packetIndex, some parsed =>
    { t with sender, rtp := t.sender.keys.rtpUse packet parsed packetIndex :: t.rtp }
  | _, _, _ => t

def protectRtcp (c : Crypto) (t : Trace) (packet : List UInt8) (mode : RtcpProtectionMode) : Trace :=
  match t.sender.protectRtcp c packet mode, t.sender.srtcpIndex packet, validateRtcpPacket packet with
  | .ok (sender, _), .ok packetIndex, .ok source =>
    { t with sender, rtcp := t.sender.keys.rtcpUse packet source packetIndex mode :: t.rtcp }
  | _, _, _ => t

def call (c : Crypto) (t : Trace) : Call → Trace
  | .protectRtp packet => t.protectRtp c packet
  | .protectRtcp packet mode => t.protectRtcp c packet mode
  | .setMki mki => t.set (t.sender.setMki mki)
  | .setSoftLimits softLimits => t.set (t.sender.setSoftLimits softLimits)
  | .replaceKey policy masterKey masterSalt => t.set (t.sender.replaceKey c policy masterKey masterSalt)
  | .setReplayWindow packets => t.set (t.sender.setReplayWindow packets)

/-- The replay window is not changed once there was a packet. -/
def Allows (t : Trace) : Call → Prop
  | .setReplayWindow _ => t.rtp = []
  | _ => True

inductive Reachable (c : Crypto) (start : SrtpSender) : Trace → Prop
  | start : Reachable c start { sender := start, rtp := [], rtcp := [] }
  | call {t : Trace} (request : Call) : Reachable c start t → t.Allows request → Reachable c start (t.call c request)

end Trace

/-! ## What a successful call did -/

variable {c : Crypto} {s s' : SrtpSender} {packet out : List UInt8} {packetIndex : Nat}

theorem SrtpSender.rtpIndex_eq_ok (h : s.rtpIndex packet = .ok packetIndex) :
    s.srtpKeyInvocations < 2 ^ 48 ∧ ∃ parsed, RtpHeader.parse packet = some parsed ∧
      parsed.header.ssrc = s.synchronizationSource ∧
      s.rtpIndices.estimateRtpIndex parsed.header.sequence = .ok packetIndex ∧ s.checkRepeat packetIndex = .ok () := by
  unfold SrtpSender.rtpIndex maximumSrtpKeyInvocations at h
  split_ifs at h with hused
  cases hparse : RtpHeader.parse packet with
  | none =>
    rw [hparse] at h
    cases h
  | some parsed =>
    rw [hparse] at h
    obtain ⟨_, hsource, h⟩ := bind_eq_ok.1 h
    obtain ⟨index, hindex, h⟩ := bind_eq_ok.1 h
    obtain ⟨_, hcheck, h⟩ := bind_eq_ok.1 h
    cases h
    unfold SrtpSender.checkSynchronizationSource at hsource
    split_ifs at hsource with hwrong
    exact ⟨not_le.1 hused, parsed, rfl, not_not.1 hwrong, hindex, hcheck⟩

theorem SrtpSender.srtcpIndex_source (h : s.srtcpIndex packet = .ok packetIndex) :
    ∃ actual, validateRtcpPacket packet = .ok actual ∧ actual = s.synchronizationSource := by
  unfold SrtpSender.srtcpIndex at h
  split_ifs at h
  obtain ⟨actual, hactual, h⟩ := bind_eq_ok.1 h
  obtain ⟨_, hsource, -⟩ := bind_eq_ok.1 h
  unfold SrtpSender.checkSynchronizationSource at hsource
  split_ifs at hsource with hwrong
  exact ⟨actual, hactual, not_not.1 hwrong⟩

theorem SrtpSender.srtcpIndex_next (h : s.srtcpIndex packet = .ok packetIndex) :
    s.srtcpKeyInvocations < 2 ^ 31 ∧ s.nextSrtcpIndex = some packetIndex := by
  unfold SrtpSender.srtcpIndex maximumSrtcpKeyInvocations at h
  split_ifs at h with hused
  obtain ⟨actual, -, h⟩ := bind_eq_ok.1 h
  obtain ⟨_, -, h⟩ := bind_eq_ok.1 h
  refine ⟨not_le.1 hused, ?_⟩
  cases hstored : s.nextSrtcpIndex with
  | none =>
    rw [hstored] at h
    cases h
  | some next =>
    rw [hstored] at h
    cases h
    rfl

variable {mki : Option (List UInt8)}

theorem SrtpSender.setMki_eq_ok (h : s.setMki mki = .ok s') :
    s' = { s with mki } ∧ mki ≠ some [] := by
  unfold SrtpSender.setMki at h
  cases mki with
  | none =>
    cases h
    exact ⟨rfl, nofun⟩
  | some bytes =>
    dsimp only at h
    unfold validatedMki at h
    split_ifs at h with hinvalid
    · cases h
    · cases h
      exact ⟨rfl, fun hempty => hinvalid (Or.inl (Option.some.inj hempty))⟩

theorem parse_sequence_lt {parsed : RtpParsed} (h : RtpHeader.parse packet = some parsed) :
    parsed.header.sequence < 2 ^ 16 := by
  obtain ⟨parsedHeader, hheader, h⟩ := bind_eq_some_iff.1 h
  obtain ⟨b0, -, h⟩ := bind_eq_some_iff.1 h
  obtain ⟨last, -, h⟩ := bind_eq_some_iff.1 h
  split_ifs at h
  cases h
  obtain ⟨b0, -, hheader⟩ := bind_eq_some_iff.1 hheader
  split_ifs at hheader
  obtain ⟨b1, -, hheader⟩ := bind_eq_some_iff.1 hheader
  obtain ⟨b2, -, hheader⟩ := bind_eq_some_iff.1 hheader
  obtain ⟨b3, -, hheader⟩ := bind_eq_some_iff.1 hheader
  have hsequence : Mcu.beNat [b2, b3] < 2 ^ 16 := by
    have h2 := b2.toNat_lt
    have h3 := b3.toNat_lt
    unfold Mcu.beNat
    rw [foldl_cons, foldl_cons, foldl_nil]
    omega
  obtain ⟨b4, -, hheader⟩ := bind_eq_some_iff.1 hheader
  obtain ⟨b5, -, hheader⟩ := bind_eq_some_iff.1 hheader
  obtain ⟨b6, -, hheader⟩ := bind_eq_some_iff.1 hheader
  obtain ⟨b7, -, hheader⟩ := bind_eq_some_iff.1 hheader
  obtain ⟨b8, -, hheader⟩ := bind_eq_some_iff.1 hheader
  obtain ⟨b9, -, hheader⟩ := bind_eq_some_iff.1 hheader
  obtain ⟨b10, -, hheader⟩ := bind_eq_some_iff.1 hheader
  obtain ⟨b11, -, hheader⟩ := bind_eq_some_iff.1 hheader
  obtain ⟨payloadOffset, -, hheader⟩ := bind_eq_some_iff.1 hheader
  split_ifs at hheader
  cases hheader
  exact hsequence

variable {key : List UInt8}

theorem SessionKeys.protectRtp_length {keys : SessionKeys} {parsed : RtpParsed}
    (hparse : RtpHeader.parse packet = some parsed) (h : keys.protectRtp c packet packetIndex mki = .ok out)
    {salt : List UInt8} (hcipher : keys.rtp.cipher = .counterMode key salt) :
    ((packet.drop parsed.payloadOffset).length + 15) / 16 ≤ 2 ^ 16 := by
  unfold SessionKeys.protectRtp FlowKeys.applyCipher at h
  rw [hparse, hcipher] at h
  dsimp only at h
  split_ifs at h
  obtain ⟨encrypted, hencrypted, h⟩ := bind_eq_ok.1 h
  exact (length_applyCounterMode hencrypted).2

theorem SessionKeys.protectRtcpOf_length {keys : SessionKeys} {source : Nat}
    (h : keys.protectRtcpOf c packet source packetIndex .encrypt mki = .ok out)
    {salt : List UInt8} (hcipher : keys.rtcp.cipher = .counterMode key salt) :
    ((packet.drop rtcpAuthenticatedPrefixLength).length + 15) / 16 ≤ 2 ^ 16 := by
  have hencrypts : keys.rtcp.encrypts = true := by
    unfold FlowKeys.encrypts
    rw [hcipher]
    rfl
  unfold SessionKeys.protectRtcpOf FlowKeys.applyCipher at h
  rw [hencrypts, hcipher] at h
  dsimp only at h
  cases happly : applyCounterMode (c.encryptBlock key) (counterModeBlock salt source packetIndex)
      (packet.drop rtcpAuthenticatedPrefixLength) with
  | error e =>
    rw [happly] at h
    cases h
  | ok encrypted => exact (length_applyCounterMode happly).2

/-! ## Uses -/

/-- What is known of an RTP packet of a source that was protected. -/
structure RtpUse.Valid (source : Nat) (u : RtpUse) : Prop where
  source_eq : u.source = source
  index_lt : u.index < 2 ^ 48
  sequence_eq : u.sequence = u.index % 2 ^ 16
  salted : u.keys.cipher.Salted
  length_le : ∀ key salt, u.keys.cipher = .counterMode key salt → (u.length + 15) / 16 ≤ 2 ^ 16

structure RtcpUse.Valid (source : Nat) (u : RtcpUse) : Prop where
  source_eq : u.source = source
  index_lt : u.index < 2 ^ 31
  salted : u.keys.cipher.Salted
  length_le : ∀ key salt, u.mode = .encrypt → u.keys.cipher = .counterMode key salt → (u.length + 15) / 16 ≤ 2 ^ 16

namespace RtpUse

variable {u v : RtpUse} {source : Nat}

end RtpUse

namespace RtcpUse

variable {u v : RtcpUse} {source : Nat}

end RtcpUse

/-! ## The invariant of a run -/

namespace Trace

/-- The index is above every one before it: the next one, or none once all are used. -/
def NextSrtcp (t : Trace) : Prop :=
  match t.sender.nextSrtcpIndex with
  | some next => next < 2 ^ 31 ∧ ∀ u ∈ t.rtcp, u.index < next
  | none => ∀ u ∈ t.rtcp, u.index < 2 ^ 31

structure Inv (source : Nat) (t : Trace) : Prop where
  source_eq : t.sender.synchronizationSource = source
  noRepeats : t.sender.allowRepeatTransmission = false
  salted : t.sender.keys.rtp.cipher.Salted ∧ t.sender.keys.rtcp.cipher.Salted
  rollover : t.sender.rtpIndices.initialRolloverCounter = 0
  exact : t.sender.rtpIndices.Exact fun i => i ∈ t.rtp.map (·.index)
  rtp : ∀ u ∈ t.rtp, u.Valid source
  rtp_nodup : (t.rtp.map (·.index)).Nodup
  next : t.NextSrtcp
  rtcp : ∀ u ∈ t.rtcp, u.Valid source
  rtcp_nodup : (t.rtcp.map (·.index)).Nodup
  srtpInvocations : t.sender.srtpKeyInvocations ≤ 2 ^ 48
  srtcpInvocations : t.sender.srtcpKeyInvocations ≤ 2 ^ 31

variable {t : Trace} {source : Nat}

theorem inv_start {policy : SrtpPolicy} {masterKey masterSalt : List UInt8} {softLimits : SrtpSoftLimits}
    {start : SrtpSender} (h : SrtpSender.newWithSoftLimits c policy masterKey masterSalt source softLimits = .ok start) :
    Inv source { sender := start, rtp := [], rtcp := [] } := by
  obtain ⟨_, -, h⟩ := bind_eq_ok.1 h
  obtain ⟨keys, hkeys, h⟩ := bind_eq_ok.1 h
  obtain ⟨rtpIndices, hindices, h⟩ := bind_eq_ok.1 h
  cases h
  have hexact := exact_new hindices
  have hrollover := (new_eq_ok hindices).1
  exact
    { source_eq := rfl
      noRepeats := rfl
      salted := SessionKeys.salted_derive hkeys
      rollover := hrollover
      exact := by simpa only [map_nil, not_mem_nil] using hexact
      rtp := fun u hu => absurd hu not_mem_nil
      rtp_nodup := nodup_nil
      next := ⟨Nat.two_pow_pos 31, fun u hu => absurd hu not_mem_nil⟩
      rtcp := fun u hu => absurd hu not_mem_nil
      rtcp_nodup := nodup_nil
      srtpInvocations := Nat.zero_le _
      srtcpInvocations := Nat.zero_le _ }

theorem protectRtp_logged {packet out : List UInt8} {sender : SrtpSender}
    (h : t.sender.protectRtp c packet = .ok (sender, out)) :
    ∃ packetIndex parsed, t.sender.rtpIndex packet = .ok packetIndex ∧ RtpHeader.parse packet = some parsed ∧
      t.sender.keys.protectRtp c packet packetIndex t.sender.mki = .ok out ∧
      t.protectRtp c packet =
        { t with sender, rtp := t.sender.keys.rtpUse packet parsed packetIndex :: t.rtp } ∧
      sender = { t.sender with
          rtpIndices := t.sender.rtpIndices.accept packetIndex
          srtpKeyInvocations := t.sender.srtpKeyInvocations + 1 } := by
  obtain ⟨packetIndex, hindex, hrest⟩ := bind_eq_ok.1 h
  obtain ⟨secured, hsecured, hrest⟩ := bind_eq_ok.1 hrest
  cases hrest
  obtain ⟨-, parsed, hparse, -⟩ := SrtpSender.rtpIndex_eq_ok hindex
  refine ⟨packetIndex, parsed, hindex, hparse, hsecured, ?_, rfl⟩
  unfold protectRtp
  rw [h, hindex, hparse]

theorem protectRtcp_logged {packet out : List UInt8} {sender : SrtpSender} {mode : RtcpProtectionMode}
    (h : t.sender.protectRtcp c packet mode = .ok (sender, out)) :
    ∃ srtcpIndex, t.sender.srtcpIndex packet = .ok srtcpIndex ∧
      validateRtcpPacket packet = .ok t.sender.synchronizationSource ∧
      t.sender.keys.protectRtcpOf c packet t.sender.synchronizationSource srtcpIndex mode t.sender.mki = .ok out ∧
      t.protectRtcp c packet mode = { t with
          sender
          rtcp := t.sender.keys.rtcpUse packet t.sender.synchronizationSource srtcpIndex mode :: t.rtcp } ∧
      sender = { t.sender with
          nextSrtcpIndex := if srtcpIndex + 1 ≤ maximumSrtcpIndex then some (srtcpIndex + 1) else none
          srtcpKeyInvocations := t.sender.srtcpKeyInvocations + 1 } := by
  obtain ⟨srtcpIndex, hindex, hrest⟩ := bind_eq_ok.1 h
  obtain ⟨secured, hsecured, hrest⟩ := bind_eq_ok.1 hrest
  cases hrest
  obtain ⟨actual, hactual, hsource⟩ := SrtpSender.srtcpIndex_source hindex
  obtain ⟨actual', hactual', hsecured⟩ := bind_eq_ok.1 hsecured
  rw [hactual] at hactual'
  cases hactual'
  cases hsource
  refine ⟨srtcpIndex, hindex, hactual, hsecured, ?_, rfl⟩
  unfold protectRtcp
  rw [h, hindex, hactual]

/-- A packet that is protected has an index that none before it had. -/
theorem inv_protectRtp (h : t.Inv source) (packet : List UInt8) : (t.protectRtp c packet).Inv source := by
  cases hprotect : t.sender.protectRtp c packet with
  | error e =>
    unfold protectRtp
    rw [hprotect]
    exact h
  | ok result =>
    obtain ⟨packetIndex, parsed, hindex, hparse, hsecured, htrace, hsender⟩ := protectRtp_logged hprotect
    rw [htrace, hsender]
    obtain ⟨hused, parsed', hparse', hsource, hestimate, hcheck⟩ := SrtpSender.rtpIndex_eq_ok hindex
    rw [hparse] at hparse'
    cases hparse'
    obtain ⟨hsequence, hlt⟩ := estimate_spec (parse_sequence_lt hparse) (by rw [h.rollover]; decide) hestimate
    have hpasses : t.sender.rtpIndices.check packetIndex = .ok () := by
      unfold SrtpSender.checkRepeat at hcheck
      rw [h.noRepeats] at hcheck
      rwa [if_neg fun hrepeat => absurd hrepeat.2 (by decide)] at hcheck
    have hfresh := (check_eq_ok h.exact).1 hpasses
    have hnew : packetIndex ∉ t.rtp.map (·.index) := by
      cases hhighest : t.sender.rtpIndices.highestIndex with
      | none => exact (h.exact.none hhighest).1 packetIndex
      | some top =>
        rcases hfresh top hhighest with habove | ⟨-, hnot⟩
        · exact fun hmem => absurd ((h.exact.some top hhighest).2.1 packetIndex hmem) (not_le.2 habove)
        · exact hnot
    have hpos := h.exact.window_pos
    have hrecords : t.sender.rtpIndices.Records (fun i => i ∈ t.rtp.map (·.index)) packetIndex =
        fun i => i ∈ packetIndex :: t.rtp.map (·.index) := by
      funext j
      refine propext ⟨?_, fun hmem => ?_⟩
      · rintro (hold | ⟨rfl, -⟩)
        · exact mem_cons_of_mem _ hold
        · exact mem_cons_self
      · rcases List.mem_cons.1 hmem with rfl | hold
        · refine Or.inr ⟨rfl, fun top htop => ?_⟩
          rcases hfresh top htop with habove | ⟨hin, -⟩ <;> omega
        · exact Or.inl hold
    have hexact := exact_accept h.exact packetIndex
    rw [hrecords] at hexact
    have hrollover : (t.sender.rtpIndices.accept packetIndex).initialRolloverCounter = 0 := by
      rw [← h.rollover]
      unfold PacketIndexState.accept
      cases t.sender.rtpIndices.highestIndex with
      | none => rfl
      | some top =>
        dsimp only
        split_ifs <;> rfl
    refine { h with
        rollover := hrollover
        exact := hexact
        rtp := fun u hu => ?_
        rtp_nodup := List.nodup_cons.2 ⟨hnew, h.rtp_nodup⟩
        srtpInvocations := Nat.succ_le_of_lt hused }
    rcases List.mem_cons.1 hu with rfl | hold
    · exact
        { source_eq := hsource.trans h.source_eq
          index_lt := hlt
          sequence_eq := hsequence.symm
          salted := h.salted.1
          length_le := fun key salt hcipher => SessionKeys.protectRtp_length hparse hsecured hcipher }
    · exact h.rtp u hold

theorem inv_protectRtcp (h : t.Inv source) (packet : List UInt8) (mode : RtcpProtectionMode) :
    (t.protectRtcp c packet mode).Inv source := by
  cases hprotect : t.sender.protectRtcp c packet mode with
  | error e =>
    unfold protectRtcp
    rw [hprotect]
    exact h
  | ok result =>
    obtain ⟨packetIndex, hindex, -, hsecured, htrace, hsender⟩ := protectRtcp_logged hprotect
    rw [htrace, hsender]
    obtain ⟨hused, hstored⟩ := SrtpSender.srtcpIndex_next hindex
    have hnext := h.next
    unfold NextSrtcp at hnext
    rw [hstored] at hnext
    refine { h with
        next := ?_
        rtcp := fun u hu => ?_
        rtcp_nodup := List.nodup_cons.2 ⟨fun hmem => ?_, h.rtcp_nodup⟩
        srtcpInvocations := Nat.succ_le_of_lt hused }
    · have hbelow (u : RtcpUse)
          (hu : u ∈ t.sender.keys.rtcpUse packet t.sender.synchronizationSource packetIndex mode :: t.rtcp) :
          u.index < packetIndex + 1 := by
        rcases List.mem_cons.1 hu with rfl | hold
        · exact Nat.lt_succ_self _
        · exact Nat.lt_succ_of_lt (hnext.2 u hold)
      unfold NextSrtcp maximumSrtcpIndex
      by_cases hlast : packetIndex + 1 ≤ 2 ^ 31 - 1
      · rw [if_pos hlast]
        exact ⟨by omega, hbelow⟩
      · rw [if_neg hlast]
        exact fun u hu => (hbelow u hu).trans_le hnext.1
    · rcases List.mem_cons.1 hu with rfl | hold
      · refine
          { source_eq := h.source_eq
            index_lt := hnext.1
            salted := h.salted.2
            length_le := fun key salt hmode hcipher => ?_ }
        change mode = .encrypt at hmode
        rw [hmode] at hsecured
        exact SessionKeys.protectRtcpOf_length hsecured hcipher
      · exact h.rtcp u hold
    · obtain ⟨u, hu, hsame⟩ := List.mem_map.1 hmem
      have hlt := hnext.2 u hu
      exact absurd hsame (Nat.ne_of_lt hlt)

theorem inv_call {request : Call} (h : t.Inv source) (hallows : t.Allows request) : (t.call c request).Inv source := by
  unfold call
  cases request with
  | protectRtp packet => exact inv_protectRtp h packet
  | protectRtcp packet mode => exact inv_protectRtcp h packet mode
  | setMki mki =>
    dsimp only
    cases hset : t.sender.setMki mki with
    | error e => exact h
    | ok sender =>
      obtain ⟨rfl, -⟩ := SrtpSender.setMki_eq_ok hset
      exact { h with }
  | setSoftLimits softLimits =>
    dsimp only
    cases hset : t.sender.setSoftLimits softLimits with
    | error e => exact h
    | ok sender =>
      obtain ⟨_, -, hset⟩ := bind_eq_ok.1 hset
      cases hset
      exact { h with }
  | replaceKey policy masterKey masterSalt =>
    dsimp only
    cases hset : t.sender.replaceKey c policy masterKey masterSalt with
    | error e => exact h
    | ok sender =>
      obtain ⟨keys, hkeys, hset⟩ := bind_eq_ok.1 hset
      cases hset
      exact { h with
          salted := SessionKeys.salted_derive hkeys
          srtpInvocations := Nat.zero_le _
          srtcpInvocations := Nat.zero_le _ }
  | setReplayWindow packets =>
    dsimp only
    cases hset : t.sender.setReplayWindow packets with
    | error e => exact h
    | ok sender =>
      obtain ⟨rtpIndices, hindices, hset⟩ := bind_eq_ok.1 hset
      cases hset
      have hempty : t.rtp = [] := hallows
      have hexact := exact_new hindices
      have hrollover := (new_eq_ok hindices).1.trans h.rollover
      refine { h with rollover := hrollover, exact := ?_ }
      show rtpIndices.Exact fun i => i ∈ t.rtp.map (·.index)
      rw [hempty]
      simpa only [map_nil, not_mem_nil] using hexact

theorem inv_reachable {start : SrtpSender} (hstart : Inv source { sender := start, rtp := [], rtcp := [] })
    (h : Reachable c start t) : t.Inv source := by
  induction h with
  | start => exact hstart
  | call _ _ hallows ih => exact inv_call ih hallows

/-! ## What is refused -/

end Trace

/-! ## A recorded session -/

/-- A packet that was sealed, with the inputs that it was sealed under. -/
structure Sealed where
  key : List UInt8
  vector : List UInt8
  associated : List UInt8
  plaintext : List UInt8
  ciphertext : List UInt8
  tag : List UInt8

def recordedKey : List UInt8 := beBytes 16 0x077c6143cb221bc355ff23d5f984a16e

def recordedSalt : List UInt8 := beBytes 12 0x9af3e95364ebac9c99c5a7c4

/-- An RTP packet of source 7, with a byte of payload. -/
def rtpPacketOf (sequence : UInt8) : List UInt8 := [0x80, 96, 0, sequence, 0, 0, 0, 0, 0, 0, 0, 7, 1]

def recordedPackets : List Sealed :=
  [{ key := recordedKey
     vector := rtpInitializationVector recordedSalt 7 0 1
     associated := (rtpPacketOf 1).take 12
     plaintext := [1]
     ciphertext := [0xdd]
     tag := beBytes 16 0x298eb90696316beb9718f370e4f482b0 },
    { key := recordedKey
      vector := rtpInitializationVector recordedSalt 7 0 2
      associated := (rtpPacketOf 2).take 12
      plaintext := [1]
      ciphertext := [0x54]
      tag := beBytes 16 0x3ebfd877ec0c58590ec1cd9a168846c8 }]

/-- What AES-128 makes of four blocks, under one master key: the keys and the salts of a session. -/
def recordedBlocks : List (Nat × Nat) :=
  [(0xa0a1a2a3a4a5a6a7a8a9aaab00000000, 0x077c6143cb221bc355ff23d5f984a16e),
    (0xa0a1a2a3a4a5a6a5a8a9aaab00000000, 0x9af3e95364ebac9c99c5a7c40169dfdc),
    (0xa0a1a2a3a4a5a6a4a8a9aaab00000000, 0x615dcd9042600666f6fd4d9e4fe4519f),
    (0xa0a1a2a3a4a5a6a2a8a9aaab00000000, 0xfcca937b9112a500dac722691f9eab5f)]

/-- AES-128 in Galois/counter mode, on the inputs of one session. What was not recorded does not authenticate. -/
def Crypto.recorded : Crypto where
  encryptBlock _ block := beBytes 16 ((recordedBlocks.lookup (Words.beNat block)).getD 0)
  gcmEncrypt key vector associated plaintext :=
    (recordedPackets.find? fun p =>
      p.key = key ∧ p.vector = vector ∧ p.associated = associated ∧ p.plaintext = plaintext).map
        fun p => (p.ciphertext, p.tag)
  gcmDecrypt key vector associated ciphertext tag :=
    (recordedPackets.find? fun p =>
      p.key = key ∧ p.vector = vector ∧ p.associated = associated ∧ p.ciphertext = ciphertext ∧ p.tag = tag).map
        fun p => p.plaintext
  mac _ _ := List.replicate 20 0
  length_encryptBlock _ _ := length_beBytes _ _
  length_gcmEncrypt key vector associated plaintext ciphertext tag h := by
    obtain ⟨p, hfind, hsealed⟩ := Option.map_eq_some_iff.1 h
    have hlength : ∀ p ∈ recordedPackets, p.ciphertext.length = p.plaintext.length ∧ p.tag.length = 16 := by
      decide +kernel
    have hmem := hlength p (List.mem_of_find?_eq_some hfind)
    have hsame := List.find?_some hfind
    rw [decide_eq_true_eq] at hsame
    cases hsealed
    rw [← hsame.2.2.2]
    exact hmem
  length_mac _ _ := length_replicate

/-- The sender of source 7 in that session. -/
def SrtpSender.recorded : SrtpSender where
  keys :=
    { rtp :=
        { cipher := .authenticatedEncryption recordedKey recordedSalt
          authentication := .null
          macKey := List.replicate 20 0 }
      rtcp :=
        { cipher := .authenticatedEncryption (beBytes 16 0x615dcd9042600666f6fd4d9e4fe4519f)
            (beBytes 12 0xfcca937b9112a500dac72269)
          authentication := .null
          macKey := List.replicate 20 0 } }
  mki := none
  synchronizationSource := 7
  rtpIndices :=
    { initialRolloverCounter := 0
      highestIndex := none
      replayBitmap := [0, 0]
      window := 128 }
  nextSrtcpIndex := some 0
  softLimits := .default
  allowRepeatTransmission := false
  srtpKeyInvocations := 0
  srtcpKeyInvocations := 0

theorem SrtpSender.new_recorded : SrtpSender.newWithSoftLimits .recorded ⟨.aes128Gcm, .null, fun _ => rfl⟩
    ((List.range 16).map UInt8.ofNat) ((List.range' 0xa0 12).map UInt8.ofNat) 7 .default = .ok .recorded := rfl

namespace Trace

end Trace

end Glass2Glass.Srtp
