import Glass2Glass.Rist.NullPackets

/-!
# Building and stripping

The extension that `build_media_packet` writes is read by `RistExtensionRemover`, and what comes back is the fixed header
and the payload, restored (`strip_whole`, `strip_plain`). Null packets come back exactly where the two read the payload at
the same packet size (`null_packets_undone`).
-/

namespace Glass2Glass.Rist

open Words Blocks
open Mcu (RtpHeader rtpHeaderLen)

/-! ## The header -/

theorem toBytes_eq (header : RtpHeader) : ∃ b1 s1 s0 t3 t2 t1 t0 c3 c2 c1 c0 : UInt8,
      header.toBytes = [0x80, b1, s1, s0, t3, t2, t1, t0, c3, c2, c1, c0] ∧
      Mcu.beNat [s1, s0] = header.sequence % 2 ^ 16 := by
  obtain ⟨b1, s1, s0, t3, t2, t1, t0, c3, c2, c1, c0, hbytes, hheader⟩ := header.toBytes_cons
  exact ⟨_, _, _, _, _, _, _, _, _, _, _, hbytes, congrArg RtpHeader.sequence hheader⟩

section Bytes

variable (b1 s1 s0 t3 t2 t1 t0 c3 c2 c1 c0 flags tsFlags h1 h0 : UInt8) (kept : List UInt8)

/-- A packet with the extension, as its bytes. -/
def extended : List UInt8 :=
  [0x90, b1, s1, s0, t3, t2, t1, t0, c3, c2, c1, c0, 0x52, 0x49, 0, 1, flags, tsFlags, h1, h0] ++ kept

theorem length_extended :
    (extended b1 s1 s0 t3 t2 t1 t0 c3 c2 c1 c0 flags tsFlags h1 h0 kept).length = 20 + kept.length := List.length_append

theorem parse_extended : RtpHeader.parse (extended b1 s1 s0 t3 t2 t1 t0 c3 c2 c1 c0 flags tsFlags h1 h0 kept) =
      some ⟨⟨b1 &&& 0x7F, b1 &&& 0x80 != 0, Mcu.beNat [s1, s0], Mcu.beNat [t3, t2, t1, t0],
        Mcu.beNat [c3, c2, c1, c0]⟩, 20, kept.length⟩ :=
  @RtpHeader.parse_extension b1 s1 s0 t3 t2 t1 t0 c3 c2 c1 c0 0x52 0x49 0 1 (flags :: tsFlags :: h1 :: h0 :: kept)
    (Nat.le_add_left _ _)

theorem find_extended : findRistExtension (extended b1 s1 s0 t3 t2 t1 t0 c3 c2 c1 c0 flags tsFlags h1 h0 kept) =
      some (12,
        { nullPacketsDeleted := flags &&& 0x80 ≠ 0
          originalPacketCount := (flags >>> 3) &&& 0x07
          dvbPacketSize := tsFlags &&& 0x80 ≠ 0
          deletedPackets := tsFlags &&& 0x7F
          sequenceHighBits := if flags &&& 0x40 ≠ 0 then some (beNat [h1, h0]) else none }) := by
  have hlength := length_extended b1 s1 s0 t3 t2 t1 t0 c3 c2 c1 c0 flags tsFlags h1 h0 kept
  change (if (0x90 : UInt8) >>> 6 ≠ 2 ∨ (0x90 : UInt8) &&& 0x10 = 0 then none else _) = _
  change (if (extended b1 s1 s0 t3 t2 t1 t0 c3 c2 c1 c0 flags tsFlags h1 h0 kept).length < 12 + 8 then none else _) = _
  rfl

theorem strip_extended (r : RistExtensionRemover) :
    ∃ extension : RistExtension, extension.dvbPacketSize = decide (tsFlags &&& 0x80 ≠ 0) ∧
      extension.deletedPackets = tsFlags &&& 0x7F ∧
      r.strip (extended b1 s1 s0 t3 t2 t1 t0 c3 c2 c1 c0 flags tsFlags h1 h0 kept) =
        match r.follow (if flags &&& 0x40 ≠ 0 then some (beNat [h1, h0]) else none) (Mcu.beNat [s1, s0]) with
        | none => (r, none)
        | some r =>
          (r, (if flags &&& 0x80 ≠ 0 ∧ tsFlags &&& 0x7F ≠ 0 then restoreNullPackets kept extension else some kept).map
            ([0x80, b1, s1, s0, t3, t2, t1, t0, c3, c2, c1, c0] ++ ·)) := by
  refine ⟨⟨flags &&& 0x80 ≠ 0, (flags >>> 3) &&& 0x07, tsFlags &&& 0x80 ≠ 0, tsFlags &&& 0x7F,
    if flags &&& 0x40 ≠ 0 then some (beNat [h1, h0]) else none⟩, rfl, rfl, ?_⟩
  have hpayload : slice (extended b1 s1 s0 t3 t2 t1 t0 c3 c2 c1 c0 flags tsFlags h1 h0 kept) 20 kept.length = kept := by
    exact (slice_append_right (le_of_eq rfl)).trans (List.take_length)
  unfold RistExtensionRemover.strip
  rw [parse_extended, find_extended]
  dsimp only
  rw [hpayload]
  simp only [decide_eq_true_eq]
  rfl

end Bytes

variable {header : RtpHeader} {high : UInt16} {settings : RistExtensionSettings} {r : RistExtensionRemover}
  {payload kept : List UInt8} {flags tsFlags bits : UInt8} {size : Nat}

/-- The packet is not too far behind the highest sequence number seen. -/
def RistExtensionRemover.Accepts (r : RistExtensionRemover) (settings : RistExtensionSettings) (high : UInt16)
    (header : RtpHeader) : Prop :=
  settings.sequenceNumberExtension = true →
    r.highestExtendedSequence - (high.toNat * 2 ^ 16 + header.sequence) ≤ 2 ^ 15 - 1

/-- The last two bytes of the extension. -/
def sequenceBytes (high : UInt16) (settings : RistExtensionSettings) : List UInt8 :=
  if settings.sequenceNumberExtension then beBytes 2 high.toNat else [0, 0]

/-- The remover after a packet that it accepts. -/
def RistExtensionRemover.noted (r : RistExtensionRemover) (settings : RistExtensionSettings) (high : UInt16)
    (header : RtpHeader) : RistExtensionRemover :=
  if settings.sequenceNumberExtension then ⟨max r.highestExtendedSequence (high.toNat * 2 ^ 16 + header.sequence)⟩ else r

/-- What is left of a packet that was built with an extension. -/
theorem strip_built (hon : settings.dropNullPackets = true ∨ settings.sequenceNumberExtension = true)
    (hbody : extensionBody high payload settings = .ok (flags :: tsFlags :: sequenceBytes high settings, kept))
    (hflag : flags &&& 0x40 ≠ 0 ↔ settings.sequenceNumberExtension = true) (hsequence : header.sequence < 2 ^ 16) :
    ∃ (packet : List UInt8) (extension : RistExtension), buildMediaPacket header high payload settings = .ok packet ∧
      extension.dvbPacketSize = decide (tsFlags &&& 0x80 ≠ 0) ∧ extension.deletedPackets = tsFlags &&& 0x7F ∧
      (r.Accepts settings high header → r.strip packet = (r.noted settings high header,
        (if flags &&& 0x80 ≠ 0 ∧ tsFlags &&& 0x7F ≠ 0 then restoreNullPackets kept extension else some kept).map
          (header.toBytes ++ ·))) ∧
      (¬ r.Accepts settings high header → r.strip packet = (r, none)) := by
  obtain ⟨b1, s1, s0, t3, t2, t1, t0, c3, c2, c1, c0, hbytes, hread⟩ := toBytes_eq header
  obtain ⟨h1, h0, hhigh, hvalue⟩ : ∃ h1 h0 : UInt8, sequenceBytes high settings = [h1, h0] ∧
      (settings.sequenceNumberExtension = true → beNat [h1, h0] = high.toNat) := by
    unfold sequenceBytes
    split_ifs with hseq
    · have hbytes := beBytes_succ 1 high.toNat
      have hlow := beBytes_succ 0 high.toNat
      refine ⟨_, _, hbytes, fun _ => ?_⟩
      have hhigh : high.toNat < 256 ^ 2 := high.toNat_lt
      exact (congrArg beNat hbytes.symm).trans (beNat_beBytes hhigh)
    · exact ⟨0, 0, rfl, fun h => absurd h hseq⟩
  obtain ⟨extension, hdvb, hdeleted, hstrip⟩ :=
    strip_extended b1 s1 s0 t3 t2 t1 t0 c3 c2 c1 c0 flags tsFlags h1 h0 kept r
  -- The packet is dropped where it is too old.
  have hfollow : (r.Accepts settings high header → r.follow (if flags &&& 0x40 ≠ 0 then some (beNat [h1, h0]) else none)
        (Mcu.beNat [s1, s0]) = some (r.noted settings high header)) ∧
      (¬ r.Accepts settings high header → r.follow (if flags &&& 0x40 ≠ 0 then some (beNat [h1, h0]) else none)
        (Mcu.beNat [s1, s0]) = none) := by
    unfold RistExtensionRemover.Accepts RistExtensionRemover.noted
    by_cases hseq : settings.sequenceNumberExtension = true
    · rw [if_pos (hflag.2 hseq), hvalue hseq, hread, Nat.mod_eq_of_lt hsequence, if_pos hseq, forall_prop_of_true hseq]
      exact ⟨fun h => if_neg (not_lt.2 h), fun h => if_pos (not_le.1 h)⟩
    · rw [if_neg fun h => hseq (hflag.1 h), if_neg hseq]
      exact ⟨fun _ => rfl, fun h => absurd (fun hseq' => absurd hseq' hseq) h⟩
  refine ⟨extended b1 s1 s0 t3 t2 t1 t0 c3 c2 c1 c0 flags tsFlags h1 h0 kept, extension, ?_, hdvb, hdeleted,
    fun h => ?_, fun h => ?_⟩
  · have hsome : ¬ (¬ settings.dropNullPackets = true ∧ ¬ settings.sequenceNumberExtension = true) := by
      rintro ⟨h1, h2⟩
      exact hon.elim h1 h2
    rw [buildMediaPacket, if_neg hsome, hbody, hbytes, hhigh]
    rfl
  · rw [hstrip, hfollow.1 h, hbytes]
  · rw [hstrip, hfollow.2 h]

theorem find_toBytes (header : RtpHeader) (payload : List UInt8) : findRistExtension (header.toBytes ++ payload) = none := by
  obtain ⟨b1, s1, s0, t3, t2, t1, t0, c3, c2, c1, c0, hbytes, -⟩ := toBytes_eq header
  rfl

/-- A payload that is not touched comes back. -/
theorem strip_plain (hplain : settings.dropNullPackets = false ∨ wholeTsPacketLen payload.length = none)
    (hsequence : header.sequence < 2 ^ 16) (haccepts : r.Accepts settings high header) :
    ∃ packet, buildMediaPacket header high payload settings = .ok packet ∧
      (r.strip packet).2 = some (header.toBytes ++ payload) := by
  by_cases hon : settings.dropNullPackets = true ∨ settings.sequenceNumberExtension = true
  · obtain ⟨flags, hbody, hflag, hdeleted⟩ : ∃ flags : UInt8, extensionBody high payload settings =
        .ok (flags :: 0 :: sequenceBytes high settings, payload) ∧
        (flags &&& 0x40 ≠ 0 ↔ settings.sequenceNumberExtension = true) ∧ flags &&& 0x80 = 0 := by
      have hmatch : extensionBody high payload settings =
          if settings.sequenceNumberExtension then .ok ([0 ||| 0x40, 0] ++ beBytes 2 high.toNat, payload)
          else .ok ([0, 0, 0, 0], payload) := by
        unfold extensionBody
        rcases hplain with h | h
        · rw [h]
          rfl
        · rw [h]
          cases settings.dropNullPackets <;> rfl
      rw [hmatch]
      unfold sequenceBytes
      split_ifs with hseq
      · exact ⟨0x40, rfl, iff_of_true (by decide) hseq, rfl⟩
      · exact ⟨0, rfl, iff_of_false (by decide) hseq, rfl⟩
    obtain ⟨packet, extension, hbuild, -, -, hstrip, -⟩ := strip_built (r := r) hon hbody hflag hsequence
    rw [if_neg fun h => h.1 hdeleted] at hstrip
    exact ⟨packet, hbuild, congrArg Prod.snd (hstrip haccepts)⟩
  · rw [not_or] at hon
    refine ⟨_, if_pos hon, ?_⟩
    obtain ⟨b1, s1, s0, t3, t2, t1, t0, c3, c2, c1, c0, hbytes, -⟩ := toBytes_eq header
    have hparse : ∃ parsed, RtpHeader.parse (header.toBytes ++ payload) = some parsed := by
      rw [hbytes]
      exact ⟨_, RtpHeader.parse_cons b1 s1 s0 t3 t2 t1 t0 c3 c2 c1 c0 payload⟩
    obtain ⟨parsed, hparse⟩ := hparse
    unfold RistExtensionRemover.strip
    rw [hparse, find_toBytes]

/-- What the remover makes of whole packets. -/
theorem strip_whole (hdrop : settings.dropNullPackets = true) (hwhole : wholeTsPacketLen payload.length = some size)
    (hbits : bits < 0x80) (hdelete : deleteNullPackets payload size = .ok (kept, bits))
    (hsequence : header.sequence < 2 ^ 16) (haccepts : r.Accepts settings high header) :
    ∃ (packet : List UInt8) (extension : RistExtension), buildMediaPacket header high payload settings = .ok packet ∧
      extension.dvbPacketSize = decide (size = dvbTsPacketLen) ∧ extension.deletedPackets = bits ∧
      (r.strip packet).2 =
        (if bits ≠ 0 then restoreNullPackets kept extension else some kept).map (header.toBytes ++ ·) := by
  have hcount : ∀ n ≤ nullDeletionSlots, ((0x80 : UInt8) ||| UInt8.ofNat n <<< 3) &&& 0x40 = 0 ∧
      ((0x80 : UInt8) ||| UInt8.ofNat n <<< 3) &&& 0x80 ≠ 0 ∧
      ((0x80 : UInt8) ||| UInt8.ofNat n <<< 3 ||| 0x40) &&& 0x40 ≠ 0 ∧
      ((0x80 : UInt8) ||| UInt8.ofNat n <<< 3 ||| 0x40) &&& 0x80 ≠ 0 := by decide
  have hsize : ∀ b : UInt8, b < 0x80 → (0 ||| b) &&& 0x80 = 0 ∧ (0 ||| b) &&& 0x7F = b ∧ (0x80 ||| b) &&& 0x80 ≠ 0 ∧
      (0x80 ||| b) &&& 0x7F = b := forall_byte (by decide +kernel)
  obtain ⟨h0, h1, h2, h3⟩ := hsize bits hbits
  -- The number of packets is in the flags where it fits.
  obtain ⟨count, hle, hcounted⟩ : ∃ count ≤ nullDeletionSlots,
      (if payload.length / size ≤ nullDeletionSlots then UInt8.ofNat (payload.length / size) <<< 3 else 0) =
        UInt8.ofNat count <<< 3 := by
    split_ifs with hfits
    · exact ⟨_, hfits, rfl⟩
    · exact ⟨0, Nat.zero_le _, rfl⟩
  obtain ⟨c0, c1, c2, c3⟩ := hcount count hle
  have hmatch : extensionBody high payload settings =
      if settings.sequenceNumberExtension then
        .ok ([(0x80 : UInt8) ||| UInt8.ofNat count <<< 3 ||| 0x40, (if size = dvbTsPacketLen then 0x80 else 0) ||| bits] ++
          beBytes 2 high.toNat, kept)
      else .ok ([(0x80 : UInt8) ||| UInt8.ofNat count <<< 3, (if size = dvbTsPacketLen then 0x80 else 0) ||| bits, 0, 0], kept) := by
    unfold extensionBody
    rw [hdrop, hwhole]
    dsimp only
    rw [hdelete, ← hcounted]
    rfl
  obtain ⟨flags, hbody, hflag, hdeleted⟩ : ∃ flags : UInt8, extensionBody high payload settings =
      .ok (flags :: ((if size = dvbTsPacketLen then 0x80 else 0) ||| bits) :: sequenceBytes high settings, kept) ∧
      (flags &&& 0x40 ≠ 0 ↔ settings.sequenceNumberExtension = true) ∧ flags &&& 0x80 ≠ 0 := by
    rw [hmatch]
    unfold sequenceBytes
    by_cases hseq : settings.sequenceNumberExtension = true
    · rw [if_pos hseq, if_pos hseq]
      exact ⟨_, rfl, iff_of_true c2 hseq, c3⟩
    · rw [if_neg hseq, if_neg hseq]
      exact ⟨_, rfl, iff_of_false (not_not.2 c0) hseq, c1⟩
  obtain ⟨packet, extension, hbuild, hdvb, hbits', hstrip, -⟩ := strip_built (r := r) (Or.inl hdrop) hbody hflag hsequence
  have hread : ((if size = dvbTsPacketLen then (0x80 : UInt8) else 0) ||| bits) &&& 0x7F = bits ∧
      (((if size = dvbTsPacketLen then (0x80 : UInt8) else 0) ||| bits) &&& 0x80 ≠ 0 ↔ size = dvbTsPacketLen) := by
    split_ifs with hdvbSize
    · exact ⟨h3, iff_of_true h2 hdvbSize⟩
    · exact ⟨h1, iff_of_false (not_not.2 h0) hdvbSize⟩
  refine ⟨packet, extension, hbuild, hdvb.trans (decide_eq_decide.2 hread.2), hbits'.trans hread.1, ?_⟩
  rw [hstrip haccepts, hread.1]
  simp only [hdeleted, ne_eq, not_false_eq_true, true_and]

theorem build_error (hdrop : settings.dropNullPackets = true) (hwhole : wholeTsPacketLen payload.length = some size)
    (hdelete : deleteNullPackets payload size = .error .capsMismatch) :
    buildMediaPacket header high payload settings = .error .capsMismatch := by
  have hbody : extensionBody high payload settings = .error .capsMismatch := by
    unfold extensionBody
    rw [hdrop, hwhole]
    dsimp only
    rw [hdelete]
    rfl
  have hsome : ¬ (¬ settings.dropNullPackets = true ∧ ¬ settings.sequenceNumberExtension = true) :=
    fun h => h.1 hdrop
  rw [buildMediaPacket, if_neg hsome, hbody]
  rfl

end Glass2Glass.Rist
