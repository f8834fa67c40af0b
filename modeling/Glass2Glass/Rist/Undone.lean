import Glass2Glass.Rist.Stripping

/-!
# Null packets are undone

The payload of a stripped packet, packet by packet. With packets of 188 bytes every packet comes back. With packets of
204 bytes the lengths of the payload and of what was kept of it must not be read as packets of 188 bytes
(`null_packets_undone`).
-/

namespace Glass2Glass.Rist

open Words Blocks List Deletion Option
open Deletion (blank keep)
open Mcu (RtpHeader)

/-- A transport packet of `size` bytes. -/
structure TsBlock (size : Nat) where
  bytes : List UInt8
  length_bytes : bytes.length = size
  sync : byteAt bytes 0 = syncByte

variable {size : Nat}

def TsBlock.IsNull (packet : TsBlock size) : Prop := tsPacketPid packet.bytes = nullPacketPid

instance (packet : TsBlock size) : Decidable packet.IsNull := inferInstanceAs (Decidable (_ = _))

/-- The bytes of packets one after another. -/
def payloadOf (packets : List (TsBlock size)) : List UInt8 := (packets.map TsBlock.bytes).flatten

/-- Every packet stands where it stood, or a null packet as it is put back. -/
structure Undone (packets : List (TsBlock size)) (restored : List UInt8) : Prop where
  length : restored.length = (payloadOf packets).length
  stands : ∀ k packet, packets[k]? = some packet →
    slice restored (k * size) size = packet.bytes ∨
      packet.IsNull ∧ slice restored (k * size) size = restoredNullPacket size

/-- The packets are sent, and what is left of the packet without its extension is the same header and the packets. -/
def Undoes (header : RtpHeader) (high : UInt16) (settings : RistExtensionSettings) (r : RistExtensionRemover)
    (packets : List (TsBlock size)) : Prop :=
  ∃ packet restored, buildMediaPacket header high (payloadOf packets) settings = .ok packet ∧
    (r.strip packet).2 = some (header.toBytes ++ restored) ∧ Undone packets restored

/-! ## Packets and bytes -/

theorem byteAt_slice {bytes : List UInt8} {start count j : Nat} (hj : j < count) :
    byteAt (slice bytes start count) j = byteAt bytes (start + j) := by
  unfold byteAt slice
  rw [getD_eq_getElem?_getD, getD_eq_getElem?_getD, List.getElem?_take_of_lt hj, List.getElem?_drop]

theorem take_slice {bytes : List UInt8} {m n : Nat} (h : m ≤ n) : (slice bytes 0 n).take m = slice bytes 0 m := by
  unfold slice
  rw [take_take, Nat.min_eq_left h]

variable {packets : List (TsBlock size)}

theorem length_of_mem : ∀ bytes ∈ packets.map TsBlock.bytes, bytes.length = size := by
  intro bytes h
  obtain ⟨packet, -, rfl⟩ := List.mem_map.1 h
  exact packet.length_bytes

theorem length_payloadOf (packets : List (TsBlock size)) : (payloadOf packets).length = packets.length * size := by
  rw [payloadOf, length_flatten length_of_mem, length_map]

theorem sync_of_get {k : Nat} {bytes : List UInt8} (h : (packets.map TsBlock.bytes)[k]? = some bytes) :
    byteAt bytes 0 = syncByte := by
  rw [List.getElem?_map] at h
  obtain ⟨packet, -, rfl⟩ := Option.map_eq_some_iff.1 h
  exact packet.sync

variable {blocks : List (List UInt8)}

theorem slice_flatten (h : ∀ b ∈ blocks, b.length = size) {k : Nat} {b : List UInt8}
    (hk : blocks[k]? = some b) : slice blocks.flatten (k * size) size = b := take_drop_flatten h hk

theorem byteAt_flatten (h : ∀ b ∈ blocks, b.length = size) {k j : Nat} {b : List UInt8}
    (hk : blocks[k]? = some b) (hj : j < size) : byteAt blocks.flatten (k * size + j) = byteAt b j := by
  rw [← byteAt_slice hj, slice_flatten h hk]

theorem slice_payloadOf {k : Nat} {packet : TsBlock size} (h : packets[k]? = some packet) :
    slice (payloadOf packets) (k * size) size = packet.bytes :=
  slice_flatten length_of_mem (by rw [List.getElem?_map, h]; rfl)

theorem Undone.self (packets : List (TsBlock size)) : Undone packets (payloadOf packets) where
  length := rfl
  stands _ _ h := Or.inl (slice_payloadOf h)

theorem length_restoredNullPacket (hsize : restoredNullPacketHeader.length ≤ size) :
    (restoredNullPacket size).length = size := by
  rw [restoredNullPacket, length_append, length_replicate]
  omega

theorem length_of_mem_blank {mark : Nat → Bool} {i : Nat}
    (hsize : restoredNullPacketHeader.length ≤ size) (h : ∀ b ∈ blocks, b.length = size) :
    ∀ b ∈ blank mark (restoredNullPacket size) i blocks, b.length = size := by
  intro b hb
  obtain ⟨k, hk⟩ := mem_iff_getElem?.1 hb
  rw [blank_getElem?] at hk
  obtain ⟨b', hb', rfl⟩ := Option.map_eq_some_iff.1 hk
  split_ifs
  · exact length_restoredNullPacket hsize
  · exact h b' (mem_iff_getElem?.2 ⟨k, hb'⟩)

theorem Undone.blank (hsize : restoredNullPacketHeader.length ≤ size) (packets : List (TsBlock size)) :
    Undone packets (blank (isDeleted (packets.map TsBlock.bytes)) (restoredNullPacket size) 0
      (packets.map TsBlock.bytes)).flatten where
  length := by
    rw [length_flatten (length_of_mem_blank hsize length_of_mem), length_blank, length_payloadOf,
      length_map]
  stands k packet h := by
    have hget : (packets.map TsBlock.bytes)[k]? = some packet.bytes := by
      rw [List.getElem?_map, h]
      rfl
    rw [slice_flatten (length_of_mem_blank hsize length_of_mem)
      (by rw [blank_getElem?, hget, map_some])]
    split_ifs with hmark
    · rw [Nat.zero_add] at hmark
      obtain ⟨-, bytes, hbytes, hpid⟩ := isDeleted_iff.1 hmark
      rw [hget] at hbytes
      obtain rfl := Option.some.inj hbytes
      exact Or.inr ⟨hpid, rfl⟩
    · exact Or.inl rfl

theorem Undone.sync {restored : List UInt8} (h : Undone packets restored) (hpos : 0 < size) {k : Nat}
    (hk : k < packets.length) : byteAt restored (k * size) = syncByte := by
  have hbyte := @byteAt_slice restored (k * size) size 0 hpos
  rw [Nat.add_zero] at hbyte
  rw [← hbyte]
  rcases h.stands k packets[k] (List.getElem?_eq_getElem hk) with heq | ⟨-, heq⟩
  · rw [heq, packets[k].sync]
  · rw [heq]
    rfl

/-! ## Counting -/

/-- The null packets among the first seven. -/
def nullCount (packets : List (TsBlock size)) : Nat := (packets.take nullDeletionSlots).countP fun packet => packet.IsNull

theorem length_keep_null (packets : List (List UInt8)) (mark : Nat → Bool) (index : Nat)
    (hmark : ∀ k tsPacket, packets[k]? = some tsPacket →
      (mark (index + k) = true ↔ index + k < nullDeletionSlots ∧ tsPacketPid tsPacket = nullPacketPid)) :
    (keep mark index packets).length +
      (packets.take (nullDeletionSlots - index)).countP (fun tsPacket => tsPacketPid tsPacket = nullPacketPid) =
        packets.length := by
  induction packets generalizing index with
  | nil => rw [take_nil, keep]; rfl
  | cons tsPacket rest ih =>
    have hfirst := hmark 0 tsPacket rfl
    have hrest := ih (index + 1) fun k p hk => by
      rw [Nat.add_right_comm, Nat.add_assoc]
      exact hmark (k + 1) p hk
    rw [Nat.add_zero] at hfirst
    rw [keep, length_cons]
    by_cases hindex : index < nullDeletionSlots
    · obtain ⟨left, hleft⟩ : ∃ left, nullDeletionSlots - index = left + 1 := ⟨nullDeletionSlots - index - 1, by omega⟩
      have hleft' : nullDeletionSlots - (index + 1) = left := by omega
      rw [hleft'] at hrest
      rw [hleft, take_succ_cons, countP_cons]
      by_cases hpid : tsPacketPid tsPacket = nullPacketPid
      · rw [if_pos (hfirst.2 ⟨hindex, hpid⟩), if_pos (decide_eq_true hpid)]
        omega
      · rw [if_neg fun h => hpid (hfirst.1 h).2, if_neg fun h => hpid (of_decide_eq_true h), length_cons]
        omega
    · have hnone : nullDeletionSlots - index = 0 := by omega
      have hnone' : nullDeletionSlots - (index + 1) = 0 := by omega
      rw [hnone', take_zero, countP_nil] at hrest
      rw [if_neg fun h => hindex (hfirst.1 h).1, hnone, take_zero, countP_nil, length_cons]
      omega

theorem length_keep_packets (packets : List (TsBlock size)) :
    (keep (isDeleted (packets.map TsBlock.bytes)) 0 (packets.map TsBlock.bytes)).length + nullCount packets =
      packets.length := by
  have hcount := length_keep_null (packets.map TsBlock.bytes) (isDeleted (packets.map TsBlock.bytes)) 0
    fun k tsPacket hk => by
      rw [Nat.zero_add, isDeleted_iff, hk]
      constructor
      · rintro ⟨hk, bytes, h, hpid⟩
        obtain rfl := Option.some.inj h
        exact ⟨hk, hpid⟩
      · rintro ⟨hk, hpid⟩
        exact ⟨hk, tsPacket, rfl, hpid⟩
  rw [Nat.sub_zero, ← map_take, countP_map, length_map] at hcount
  exact hcount

theorem countOnes_eq_zero (b : UInt8) : countOnes b = 0 ↔ b = 0 := by
  have hall : ∀ b : UInt8, countOnes b = 0 ↔ b = 0 := forall_byte (by decide +kernel)
  exact hall b

/-! ## At one size -/

variable {header : RtpHeader} {high : UInt16} {settings : RistExtensionSettings} {r : RistExtensionRemover}

theorem strip_packets (hpos : 0 < size) (hblocks : ∀ b ∈ blocks, b.length = size)
    (hdrop : settings.dropNullPackets = true) (hwhole : wholeTsPacketLen blocks.flatten.length = some size)
    (hsync : ∀ k b, blocks[k]? = some b → k < nullDeletionSlots → byteAt b 0 = syncByte)
    (hsequence : header.sequence < 2 ^ 16) (haccepts : r.Accepts settings high header) :
    ∃ (packet : List UInt8) (extension : RistExtension),
      buildMediaPacket header high blocks.flatten settings = .ok packet ∧
      extension.dvbPacketSize = decide (size = dvbTsPacketLen) ∧ extension.deletedPackets < 0x80 ∧
      marked extension.deletedPackets = isDeleted blocks ∧
      (r.strip packet).2 =
        (if extension.deletedPackets ≠ 0 then
          restoreNullPackets (keep (isDeleted blocks) 0 blocks).flatten extension
        else some blocks.flatten).map (header.toBytes ++ ·) := by
  obtain ⟨bits, hbits, hdelete, hmarked⟩ := deleteNullPackets_eq hpos hblocks hsync
  obtain ⟨packet, extension, hbuild, hdvb, rfl, hstrip⟩ :=
    strip_whole hdrop hwhole hbits hdelete hsequence haccepts
  refine ⟨packet, extension, hbuild, hdvb, hbits, hmarked, ?_⟩
  rw [hstrip]
  split_ifs with hsome
  · rfl
  · -- No bit is set, so nothing was left out.
    rw [not_not] at hsome
    have hnone : ∀ k < blocks.length, isDeleted blocks (0 + k) = false := by
      intro k _
      rw [← hmarked, hsome]
      exact decide_eq_false fun h => h.2 UInt8.zero_and
    rw [keep_eq_self hnone]

/-- Where the remover reads what was kept at the builder's size, null packets stand at the marks. -/
theorem strip_same (hpos : 0 < size) (hblocks : ∀ b ∈ blocks, b.length = size)
    (hdrop : settings.dropNullPackets = true) (hwhole : wholeTsPacketLen blocks.flatten.length = some size)
    (hsync : ∀ k b, blocks[k]? = some b → k < nullDeletionSlots → byteAt b 0 = syncByte)
    (hread : ∀ extension : RistExtension, extension.dvbPacketSize = decide (size = dvbTsPacketLen) →
      (∃ k, isDeleted blocks k = true) →
      readSize (keep (isDeleted blocks) 0 blocks).flatten extension = some size)
    (hsequence : header.sequence < 2 ^ 16) (haccepts : r.Accepts settings high header) :
    ∃ packet, buildMediaPacket header high blocks.flatten settings = .ok packet ∧
      (r.strip packet).2 =
        some (header.toBytes ++ (blank (isDeleted blocks) (restoredNullPacket size) 0 blocks).flatten) := by
  obtain ⟨packet, extension, hbuild, hdvb, hbits, hmarked, hstrip⟩ :=
    strip_packets hpos hblocks hdrop hwhole hsync hsequence haccepts
  refine ⟨packet, hbuild, ?_⟩
  rw [hstrip]
  by_cases hmark : ∃ k, isDeleted blocks k = true
  · have hsome : extension.deletedPackets ≠ 0 := by
      rintro hzero
      obtain ⟨k, hk⟩ := hmark
      rw [← hmarked, hzero] at hk
      exact (of_decide_eq_true hk).2 UInt8.zero_and
    rw [if_pos hsome, restoreNullPackets_same hpos hblocks hbits hmarked (hread extension hdvb hmark), map_some]
  · have hnone : ∀ k b, blocks[k]? = some b → isDeleted blocks (0 + k) = true → b = restoredNullPacket size :=
      fun k _ _ hk => absurd ⟨_, hk⟩ hmark
    rw [blank_eq_self hnone]
    split_ifs with hsome
    · -- A bit would stand for a mark.
      refine absurd ?_ hsome
      rw [← countOnes_eq_zero, countOnes_eq hbits, countP_eq_zero]
      intro k hk hbit
      refine hmark ⟨k, ?_⟩
      rw [← hmarked]
      exact decide_eq_true ⟨List.mem_range.1 hk, of_decide_eq_true hbit⟩
    · rfl

theorem undoes_of_same (hsize : restoredNullPacketHeader.length ≤ size) (hdrop : settings.dropNullPackets = true)
    (packets : List (TsBlock size)) (hwhole : wholeTsPacketLen (payloadOf packets).length = some size)
    (hread : ∀ extension : RistExtension, extension.dvbPacketSize = decide (size = dvbTsPacketLen) →
      (∃ k, isDeleted (packets.map TsBlock.bytes) k = true) →
      readSize (keep (isDeleted (packets.map TsBlock.bytes)) 0 (packets.map TsBlock.bytes)).flatten extension =
        some size)
    (hsequence : header.sequence < 2 ^ 16) (haccepts : r.Accepts settings high header) :
    Undoes header high settings r packets := by
  have hpos : 0 < size := Nat.lt_of_lt_of_le (by decide) hsize
  obtain ⟨packet, hbuild, hstrip⟩ := strip_same hpos length_of_mem hdrop hwhole
    (fun k b hk _ => sync_of_get hk) hread hsequence haccepts
  exact ⟨packet, _, hbuild, hstrip, Undone.blank hsize packets⟩

theorem wholeTsPacketLen_of_dvd {n : Nat} (h : tsPacketLen ∣ n) : wholeTsPacketLen n = some tsPacketLen := by
  have hmod : n % tsPacketLen = 0 := Nat.mod_eq_zero_of_dvd h
  unfold wholeTsPacketLen
  rw [List.find?_cons_of_pos (by rw [hmod]; rfl)]

theorem wholeTsPacketLen_of_not_dvd {n : Nat} (h : ¬ tsPacketLen ∣ n) (hdvb : dvbTsPacketLen ∣ n) :
    wholeTsPacketLen n = some dvbTsPacketLen := by
  have hmod : ¬ n % tsPacketLen = 0 := fun hmod => h (Nat.dvd_of_mod_eq_zero hmod)
  have hmod' : n % dvbTsPacketLen = 0 := Nat.mod_eq_zero_of_dvd hdvb
  unfold wholeTsPacketLen
  rw [List.find?_cons_of_neg (by rw [beq_iff_eq]; exact hmod), List.find?_cons_of_pos (by rw [hmod']; rfl)]

theorem wholeTsPacketLen_none {n : Nat} (h : ¬ tsPacketLen ∣ n) (hdvb : ¬ dvbTsPacketLen ∣ n) :
    wholeTsPacketLen n = none := by
  have hmod : ¬ n % tsPacketLen = 0 := fun hmod => h (Nat.dvd_of_mod_eq_zero hmod)
  have hmod' : ¬ n % dvbTsPacketLen = 0 := fun hmod => hdvb (Nat.dvd_of_mod_eq_zero hmod)
  unfold wholeTsPacketLen
  rw [List.find?_cons_of_neg (by rw [beq_iff_eq]; exact hmod),
    List.find?_cons_of_neg (by rw [beq_iff_eq]; exact hmod'), List.find?_nil]

theorem dvd_dvb_iff (n : Nat) : tsPacketLen ∣ n * dvbTsPacketLen ↔ 47 ∣ n := by
  unfold tsPacketLen dvbTsPacketLen
  omega

theorem lengths_ne {n m : Nat} (hm : m ≠ 0) (hle : m ≤ n) :
    (n - m) * dvbTsPacketLen + m * tsPacketLen ≠ n * dvbTsPacketLen := by
  unfold tsPacketLen dvbTsPacketLen
  omega

theorem slots_lt {n m : Nat} (h : m * tsPacketLen = n * dvbTsPacketLen) (hn : 47 ≤ n) : nullDeletionSlots < m := by
  unfold tsPacketLen dvbTsPacketLen at h
  unfold nullDeletionSlots
  omega

theorem place_eq (i : Nat) : i * tsPacketLen + 16 * i = i * dvbTsPacketLen := by
  unfold tsPacketLen dvbTsPacketLen
  omega

theorem undoes_ts (hdrop : settings.dropNullPackets = true) (packets : List (TsBlock tsPacketLen))
    (hsequence : header.sequence < 2 ^ 16) (haccepts : r.Accepts settings high header) :
    Undoes header high settings r packets := by
  refine undoes_of_same (by decide) hdrop packets ?_ (fun extension hdvb _ => ?_) hsequence haccepts
  · rw [length_payloadOf]
    exact wholeTsPacketLen_of_dvd (Nat.dvd_mul_left _ _)
  · unfold readSize
    split_ifs with hnil hflag
    · exact absurd (hdvb.symm.trans hflag) (by decide)
    · rfl
    · rw [length_flatten fun b hb => length_of_mem b (mem_of_mem_keep hb)]
      exact wholeTsPacketLen_of_dvd (Nat.dvd_mul_left _ _)

/-! ## Packets of 204 bytes -/

theorem isDeleted_of_nullCount {packets : List (TsBlock size)} {k : Nat}
    (h : isDeleted (packets.map TsBlock.bytes) k = true) : nullCount packets ≠ 0 := by
  intro hzero
  have hkept := length_keep_packets packets
  have hcount := length_keep (isDeleted (packets.map TsBlock.bytes)) 0 (packets.map TsBlock.bytes)
  rw [length_map] at hcount
  have hnone : (List.range' 0 packets.length).countP (isDeleted (packets.map TsBlock.bytes)) = 0 := by omega
  obtain ⟨-, bytes, hget, -⟩ := isDeleted_iff.1 h
  have hlength := (List.getElem?_eq_some_iff.1 hget).1
  rw [length_map] at hlength
  rw [← range_eq_range', countP_eq_zero] at hnone
  exact hnone k (List.mem_range.2 hlength) h

/-- Packets that cannot be read as packets of 188 bytes come back where what is kept of them cannot either. -/
theorem undoes_dvb (hdrop : settings.dropNullPackets = true) (packets : List (TsBlock dvbTsPacketLen))
    (hn : ¬ 47 ∣ packets.length) (hsequence : header.sequence < 2 ^ 16) (haccepts : r.Accepts settings high header) :
    Undoes header high settings r packets ↔
      nullCount packets = 0 ∨ packets.length - nullCount packets = 0 ∨ ¬ 47 ∣ packets.length - nullCount packets := by
  have hwhole : wholeTsPacketLen (payloadOf packets).length = some dvbTsPacketLen := by
    rw [length_payloadOf]
    exact wholeTsPacketLen_of_not_dvd (fun h => hn ((dvd_dvb_iff _).1 h)) (Nat.dvd_mul_left _ _)
  have hkept := length_keep_packets packets
  have hlength : (keep (isDeleted (packets.map TsBlock.bytes)) 0 (packets.map TsBlock.bytes)).flatten.length =
      (packets.length - nullCount packets) * dvbTsPacketLen := by
    rw [length_flatten fun b hb => length_of_mem b (mem_of_mem_keep hb)]
    congr 1
    omega
  constructor
  · rintro ⟨packet, restored, hbuild, hstrip, hundone⟩
    by_contra hcon
    simp only [not_or, not_not] at hcon
    obtain ⟨hnull, hsome, hdvd⟩ := hcon
    obtain ⟨packet', extension, hbuild', -, hbits, hmarked, hstrip'⟩ :=
      strip_packets (by decide) length_of_mem hdrop hwhole (fun k b hk _ => sync_of_get hk) hsequence haccepts
    obtain rfl : packet = packet' := Except.ok.inj (hbuild.symm.trans hbuild')
    -- As many bits are set as null packets were left out.
    have hones : countOnes extension.deletedPackets = nullCount packets := by
      have hcount := countOnes_deleted hbits hmarked
      rw [length_map] at hcount
      omega
    have hset : extension.deletedPackets ≠ 0 := fun hzero => hnull (hones ▸ (countOnes_eq_zero _).2 hzero)
    rw [if_pos hset] at hstrip'
    obtain ⟨restored', hrestore, heq⟩ := Option.map_eq_some_iff.1 (hstrip'.symm.trans hstrip)
    obtain rfl := append_cancel_left heq
    -- What was kept is read as packets of 188 bytes, so too few bytes come back.
    have hdvd' : tsPacketLen ∣
        (keep (isDeleted (packets.map TsBlock.bytes)) 0 (packets.map TsBlock.bytes)).flatten.length := by
      rw [hlength]
      exact (dvd_dvb_iff _).2 hdvd
    have hne : (keep (isDeleted (packets.map TsBlock.bytes)) 0 (packets.map TsBlock.bytes)).flatten ≠ [] := by
      intro hnil
      rw [hnil, length_nil] at hlength
      rcases Nat.mul_eq_zero.1 hlength.symm with h | h
      · exact hsome h
      · exact absurd h (by decide)
    have hrestored := length_restoreNullPackets hrestore
      (by rw [readSize, if_neg hne, wholeTsPacketLen_of_dvd hdvd']) hdvd' (by decide)
    have hwant := hundone.length
    rw [length_payloadOf] at hwant
    rw [hlength, hones] at hrestored
    exact lengths_ne hnull (by omega) (hrestored.symm.trans hwant)
  · intro hcases
    refine undoes_of_same (by decide) hdrop packets hwhole (fun extension hdvb hmark => ?_) hsequence haccepts
    obtain ⟨k, hk⟩ := hmark
    have hnull := isDeleted_of_nullCount hk
    unfold readSize
    split_ifs with hnil hflag
    · rfl
    · rw [hdvb] at hflag
      exact absurd rfl hflag
    · rw [hlength]
      rcases hcases with h | h | h
      · exact absurd h hnull
      · rw [h, Nat.zero_mul] at hlength
        exact absurd (List.length_eq_zero_iff.1 hlength) hnil
      · exact wholeTsPacketLen_of_not_dvd (fun hdvd => h ((dvd_dvb_iff _).1 hdvd)) (Nat.dvd_mul_left _ _)

/-- A payload whose first seven blocks of 188 bytes look like transport packets, of which none but the first is a null
packet, and that one as it is put back. -/
structure Realigned (payload : List UInt8) : Prop where
  sync : ∀ i < nullDeletionSlots, byteAt payload (i * tsPacketLen) = syncByte
  others : ∀ i < nullDeletionSlots, i ≠ 0 → tsPacketPid (slice payload (i * tsPacketLen) tsPacketLen) ≠ nullPacketPid
  first : tsPacketPid (slice payload 0 tsPacketLen) = nullPacketPid →
    slice payload 0 tsPacketLen = restoredNullPacket tsPacketLen

/-- Packets that are read as packets of 188 bytes come back where none of these is deleted. -/
theorem undoes_realigned (hdrop : settings.dropNullPackets = true) (packets : List (TsBlock dvbTsPacketLen))
    (hn : 47 ∣ packets.length) (hne : packets ≠ []) (hsequence : header.sequence < 2 ^ 16)
    (haccepts : r.Accepts settings high header) :
    Undoes header high settings r packets ↔ Realigned (payloadOf packets) := by
  have hdvd : tsPacketLen ∣ (payloadOf packets).length := by
    rw [length_payloadOf]
    exact (dvd_dvb_iff _).2 hn
  have hwhole := wholeTsPacketLen_of_dvd hdvd
  have hmany : 47 ≤ packets.length := Nat.le_of_dvd (List.length_pos_iff.2 hne) hn
  obtain ⟨blocks, hpayload, hblocks⟩ := exists_blocks hdvd
  have hcount : nullDeletionSlots < blocks.length := by
    have hlength := length_payloadOf packets
    rw [hpayload, length_flatten hblocks] at hlength
    exact slots_lt hlength hmany
  have hget : ∀ i < nullDeletionSlots, ∃ b, blocks[i]? = some b := fun i hi => ⟨_, List.getElem?_eq_getElem (hi.trans hcount)⟩
  have hbyte : ∀ i b, blocks[i]? = some b → byteAt (payloadOf packets) (i * tsPacketLen) = byteAt b 0 := by
    intro i b hb
    have hfirst := @byteAt_flatten tsPacketLen blocks hblocks i 0 b hb (by decide)
    rw [Nat.add_zero] at hfirst
    rw [hpayload, hfirst]
  have hslice : ∀ i b, blocks[i]? = some b → slice (payloadOf packets) (i * tsPacketLen) tsPacketLen = b := by
    intro i b hb
    rw [hpayload]
    exact slice_flatten hblocks hb
  have hblank : ∀ b ∈ blank (isDeleted blocks) (restoredNullPacket tsPacketLen) 0 blocks,
      b.length = tsPacketLen := length_of_mem_blank (by decide) hblocks
  -- What the remover makes of blocks that all have the sync byte.
  have hstripped : (∀ k b, blocks[k]? = some b → k < nullDeletionSlots → byteAt b 0 = syncByte) →
      ∃ packet, buildMediaPacket header high (payloadOf packets) settings = .ok packet ∧
        (r.strip packet).2 = some (header.toBytes ++
          (blank (isDeleted blocks) (restoredNullPacket tsPacketLen) 0 blocks).flatten) := by
    intro hsync
    rw [hpayload] at hwhole ⊢
    refine strip_same (by decide) hblocks hdrop hwhole hsync (fun extension hdvb _ => ?_) hsequence haccepts
    unfold readSize
    split_ifs with hnil hflag
    · exact absurd (hdvb.symm.trans hflag) (by decide)
    · rfl
    · rw [length_flatten fun b hb => hblocks b (mem_of_mem_keep hb)]
      exact wholeTsPacketLen_of_dvd (Nat.dvd_mul_left _ _)
  constructor
  · rintro ⟨packet, restored, hbuild, hstrip, hundone⟩
    have hsync : ∀ k b, blocks[k]? = some b → k < nullDeletionSlots → byteAt b 0 = syncByte := by
      intro k b hb hk
      by_contra hbad
      have hdelete : deleteNullPackets (payloadOf packets) tsPacketLen = .error .capsMismatch := by
        rw [deleteNullPackets, hpayload, chunksExact_flatten (by decide) hblocks]
        exact deleteFrom_error hb (by omega) hbad [] 0
      rw [build_error hdrop hwhole hdelete] at hbuild
      cases hbuild
    obtain ⟨packet', hbuild', hstrip'⟩ := hstripped hsync
    obtain rfl : packet = packet' := Except.ok.inj (hbuild.symm.trans hbuild')
    obtain rfl := append_cancel_left (Option.some.inj (hstrip.symm.trans hstrip'))
    have hmark : ∀ i b, i < nullDeletionSlots → blocks[i]? = some b → tsPacketPid b = nullPacketPid →
        (blank (isDeleted blocks) (restoredNullPacket tsPacketLen) 0 blocks)[i]? =
          some (restoredNullPacket tsPacketLen) := by
      intro i b hi hb hpid
      rw [blank_getElem?, hb, map_some, Nat.zero_add,
        if_pos (isDeleted_iff.2 ⟨hi, b, hb, hpid⟩)]
    refine ⟨fun i hi => ?_, fun i hi hpos hpid => ?_, fun hpid => ?_⟩
    · obtain ⟨b, hb⟩ := hget i hi
      rw [hbyte i b hb, hsync i b hb hi]
    · -- Zeros of the block stand where a packet of 204 bytes begins.
      obtain ⟨b, hb⟩ := hget i hi
      rw [hslice i b hb] at hpid
      have hinside : 16 * i < tsPacketLen := by
        unfold nullDeletionSlots at hi
        unfold tsPacketLen
        omega
      have hzero := byteAt_flatten hblank (hmark i b hi hb hpid) hinside
      rw [place_eq, hundone.sync (by decide) (by unfold nullDeletionSlots at hi; omega)] at hzero
      have hall : ∀ i < nullDeletionSlots, i ≠ 0 → byteAt (restoredNullPacket tsPacketLen) (16 * i) = 0 := by decide
      rw [hall i hi hpos] at hzero
      exact absurd hzero (by decide)
    · obtain ⟨b, hb⟩ := hget 0 (by decide)
      have hfirst := hslice 0 b hb
      rw [Nat.zero_mul] at hfirst
      rw [hfirst] at hpid ⊢
      have hhead := slice_flatten hblank (hmark 0 b (by decide) hb hpid)
      rw [Nat.zero_mul] at hhead
      -- The next block begins with the sync byte, inside the packet.
      obtain ⟨b', hb'⟩ := hget 1 (by decide)
      have hnext : byteAt (blank (isDeleted blocks) (restoredNullPacket tsPacketLen) 0 blocks).flatten tsPacketLen =
          syncByte := by
        have hbyte := @byteAt_flatten tsPacketLen _ hblank 1 0 _
          (by rw [blank_getElem?, hb', map_some]) (by decide)
        rw [Nat.add_zero, Nat.one_mul] at hbyte
        rw [hbyte]
        split_ifs
        · rfl
        · exact hsync 1 b' hb' (by decide)
      rcases hundone.stands 0 packets[0] (List.getElem?_eq_getElem (by omega)) with heq | ⟨-, heq⟩
      · have hsame := slice_payloadOf (List.getElem?_eq_getElem (show 0 < packets.length by omega))
        rw [Nat.zero_mul] at heq hsame
        rw [← hfirst, ← hhead, ← take_slice (show tsPacketLen ≤ dvbTsPacketLen by decide), hsame, ← heq,
          take_slice (by decide)]
      · have hbyte := @byteAt_slice (blank (isDeleted blocks) (restoredNullPacket tsPacketLen) 0 blocks).flatten
          (0 * dvbTsPacketLen) dvbTsPacketLen tsPacketLen (by decide)
        rw [heq, Nat.zero_mul, Nat.zero_add, hnext] at hbyte
        have hzero : byteAt (restoredNullPacket dvbTsPacketLen) tsPacketLen = 0 := by decide
        rw [hzero] at hbyte
        exact absurd hbyte (by decide)
  · intro hrealigned
    have hsync : ∀ k b, blocks[k]? = some b → k < nullDeletionSlots → byteAt b 0 = syncByte := by
      intro k b hb hk
      rw [← hbyte k b hb, hrealigned.sync k hk]
    obtain ⟨packet, hbuild, hstrip⟩ := hstripped hsync
    refine ⟨packet, _, hbuild, hstrip, ?_⟩
    have hself : blank (isDeleted blocks) (restoredNullPacket tsPacketLen) 0 blocks = blocks := by
      refine blank_eq_self fun k b hb hmark => ?_
      rw [Nat.zero_add] at hmark
      obtain ⟨hk, b', hb', hpid⟩ := isDeleted_iff.1 hmark
      obtain rfl : b = b' := Option.some.inj (hb.symm.trans hb')
      rw [← hslice k b hb] at hpid ⊢
      by_cases hzero : k = 0
      · subst hzero
        rw [Nat.zero_mul] at hpid ⊢
        exact hrealigned.first hpid
      · exact absurd hpid (hrealigned.others k hk hzero)
    rw [hself, ← hpayload]
    exact Undone.self packets

/-- The builder and the remover read packets of 204 bytes at the same size, or no packet is touched. -/
def SizesAgree (settings : RistExtensionSettings) (packets : List (TsBlock dvbTsPacketLen)) : Prop :=
  settings.dropNullPackets = false ∨ packets = [] ∨ 47 ∣ packets.length ∧ Realigned (payloadOf packets) ∨
    ¬ 47 ∣ packets.length ∧ (nullCount packets = 0 ∨ packets.length - nullCount packets = 0 ∨
      ¬ 47 ∣ packets.length - nullCount packets)

theorem undoes_plain (hplain : settings.dropNullPackets = false) (packets : List (TsBlock size))
    (hsequence : header.sequence < 2 ^ 16) (haccepts : r.Accepts settings high header) :
    Undoes header high settings r packets := by
  obtain ⟨packet, hbuild, hstrip⟩ := strip_plain (Or.inl hplain) hsequence haccepts
  exact ⟨packet, _, hbuild, hstrip, Undone.self packets⟩

/-- Packets of 188 bytes come back, packets of 204 bytes come back exactly where the sizes agree, and what is neither is
not touched. -/
theorem null_packets_undone (header : RtpHeader) (high : UInt16) (settings : RistExtensionSettings)
    (r : RistExtensionRemover) (hsequence : header.sequence < 2 ^ 16) (haccepts : r.Accepts settings high header) :
    (∀ packets : List (TsBlock tsPacketLen), Undoes header high settings r packets) ∧
    (∀ packets : List (TsBlock dvbTsPacketLen),
      Undoes header high settings r packets ↔ SizesAgree settings packets) ∧
    ∀ payload : List UInt8, ¬ tsPacketLen ∣ payload.length → ¬ dvbTsPacketLen ∣ payload.length →
      ∃ packet, buildMediaPacket header high payload settings = .ok packet ∧
        (r.strip packet).2 = some (header.toBytes ++ payload) := by
  refine ⟨fun packets => ?_, fun packets => ?_, fun payload hts hdvb =>
    strip_plain (Or.inr (wholeTsPacketLen_none hts hdvb)) hsequence haccepts⟩
  · cases hdrop : settings.dropNullPackets with
    | false => exact undoes_plain hdrop packets hsequence haccepts
    | true => exact undoes_ts hdrop packets hsequence haccepts
  · unfold SizesAgree
    cases hdrop : settings.dropNullPackets with
    | false => exact iff_of_true (undoes_plain hdrop packets hsequence haccepts) (Or.inl rfl)
    | true =>
      by_cases hnil : packets = []
      · -- Nothing is read as packets of 188 bytes, and nothing is lost.
        obtain ⟨packet, restored, hbuild, hstrip, hundone⟩ :
            Undoes header high settings r ([] : List (TsBlock tsPacketLen)) := undoes_ts hdrop [] hsequence haccepts
        subst hnil
        refine iff_of_true ⟨packet, restored, hbuild, hstrip, hundone.length, fun k packet h => ?_⟩ (Or.inr (Or.inl rfl))
        exact absurd h.symm (some_ne_none _)
      · by_cases hn : 47 ∣ packets.length
        · rw [undoes_realigned hdrop packets hn hnil hsequence haccepts]
          simp only [Bool.true_eq_false, hnil, hn, true_and, not_true, false_and, or_false, false_or]
        · rw [undoes_dvb hdrop packets hn hsequence haccepts]
          simp only [Bool.true_eq_false, hnil, hn, not_false_eq_true, true_and, false_and, false_or]

/-- A transport packet of zeros behind its header. -/
def zeroBlock (size : Nat) (high low : UInt8) (hsize : 4 ≤ size) : TsBlock size where
  bytes := [syncByte, high, low, 0x10] ++ List.replicate (size - 4) 0
  length_bytes := by
    rw [length_append, length_replicate]
    exact Nat.add_sub_cancel' hsize
  sync := rfl

/-- Two null packets of 204 bytes come back. -/
theorem null_packets_undone_two :
    Undoes ⟨33, false, 7, 0, 1⟩ 0 ⟨true, true⟩ .default
      [zeroBlock dvbTsPacketLen 0x1F 0xFF (by decide), zeroBlock dvbTsPacketLen 0x1F 0xFF (by decide)] :=
  ((null_packets_undone ⟨33, false, 7, 0, 1⟩ 0 ⟨true, true⟩ .default (by decide) (fun _ => by decide)).2.1 _).2
    (Or.inr (Or.inr (Or.inr ⟨by decide, Or.inr (Or.inl (by decide))⟩)))

/-- Of 48 packets of 204 bytes the first is a null packet. The 47 others are read as packets of 188 bytes. -/
theorem one_of_48_null :
    ¬ Undoes ⟨33, false, 7, 0, 1⟩ 0 ⟨true, false⟩ .default
      (zeroBlock dvbTsPacketLen 0x1F 0xFF (by decide) ::
        List.replicate 47 (zeroBlock dvbTsPacketLen 0x01 0x00 (by decide))) := by
  rw [undoes_dvb rfl _ (by decide) (by decide) (fun h => absurd h (by decide))]
  decide

end Glass2Glass.Rist
