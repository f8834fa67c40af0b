import Glass2Glass.Lib.Loop
import Glass2Glass.Rist.Undone

/-!
# Numbers past 32 bits

What `RistExtensionRemover` (`g2g-plugins/src/rist.rs`) makes of a run of packets that were numbered one after
the other. It holds the highest 32-bit number and compares plain numbers, so a packet is late where its 32-bit
number is, which after the numbers wrap is not where the packet is (`timely_iff`).
-/

namespace Glass2Glass.Rist

open Words Blocks List
open Mcu (RtpHeader)

/-- The 32-bit number of the packet that is `k` packets after the one numbered `start`. -/
def number (start k : Nat) : Nat := (start + k) % 2 ^ 32

/-- A packet of the run: whatever its payload, it is built with the sequence number extension. -/
def Sent (start k : Nat) (packet : List UInt8) : Prop :=
  ∃ (header : RtpHeader) (payload : List UInt8) (settings : RistExtensionSettings),
    settings.sequenceNumberExtension = true ∧ header.sequence = number start k % 2 ^ 16 ∧
    buildMediaPacket header (UInt16.ofNat (number start k / 2 ^ 16)) payload settings = .ok packet

/-- The remover after some packets. -/
def removerAfter (delivered : List (Nat × List UInt8)) : RistExtensionRemover :=
  delivered.foldl (fun r sent => (r.strip sent.2).1) .default

/-- None of the packets is more than 32767 after packet `k`. -/
def InWindow (place : Nat → Nat) (k : Nat) (delivered : List (Nat × List UInt8)) : Prop :=
  ∀ sent ∈ delivered, place sent.1 ≤ place k + (2 ^ 15 - 1)

/-- Every packet in the window passes, and every other one is dropped and leaves the remover as it was. -/
def Timely (run : List (Nat × List UInt8)) : Prop :=
  ∀ before k packet later, run = before ++ (k, packet) :: later →
    (InWindow id k before → (((removerAfter before).strip packet).2).isSome = true) ∧
    (¬ InWindow id k before → (removerAfter before).strip packet = (removerAfter before, none))

/-- The 32-bit numbers say the same as the places of the packets in the run. -/
def NumbersAgree (start : Nat) (run : List (Nat × List UInt8)) : Prop :=
  ∀ before k packet later, run = before ++ (k, packet) :: later →
    (InWindow (number start) k before ↔ InWindow id k before)

/-! ## The payload comes back -/

theorem isSome_fill {α : Type} {mark : Nat → Bool} {filler : α} {i n : Nat} {kept : List α}
    (h : n ≤ kept.length + (List.range' i n).countP mark) : (Deletion.fill mark filler i n kept).isSome = true := by
  induction n generalizing i kept with
  | zero => rfl
  | succ n ih =>
    rw [range'_succ, countP_cons] at h
    by_cases hmark : mark i = true
    · rw [Deletion.fill_marked hmark, Option.isSome_map]
      rw [if_pos hmark] at h
      exact ih (by omega)
    · rw [if_neg hmark] at h
      cases kept with
      | nil =>
        have hle := (List.range' (i + 1) n).countP_le_length (p := mark)
        rw [length_nil] at h
        rw [length_range'] at hle
        omega
      | cons b kept =>
        rw [Deletion.fill_kept hmark, Option.isSome_map]
        rw [length_cons] at h
        exact ih (by omega)

theorem wholeTsPacketLen_cases {n size : Nat} (h : wholeTsPacketLen n = some size) :
    size ∣ n ∧ (size = tsPacketLen ∨ size = dvbTsPacketLen) := by
  have hmod := find?_some h
  have hmem := mem_of_find?_eq_some h
  rw [beq_iff_eq] at hmod
  rw [mem_cons, mem_singleton] at hmem
  exact ⟨Nat.dvd_of_mod_eq_zero hmod, hmem⟩

theorem le_count_read {kept : List UInt8} {extension : RistExtension} {count size size' : Nat}
    (hsize : size = tsPacketLen ∨ size = dvbTsPacketLen) (hkept : kept.length = count * size)
    (hread : readSize kept extension = some size') : count ≤ kept.length / size' := by
  unfold readSize at hread
  by_cases hnil : kept = []
  · rw [hnil, length_nil] at hkept
    have hpos : size ≠ 0 := by rcases hsize with rfl | rfl <;> decide
    rw [(Nat.mul_eq_zero.1 hkept.symm).resolve_right hpos]
    exact Nat.zero_le _
  · rw [if_neg hnil] at hread
    have hcases := (wholeTsPacketLen_cases hread).2
    have hle : size' ≤ size := by
      rcases hsize with rfl | rfl
      · rw [wholeTsPacketLen_of_dvd (hkept ▸ Nat.dvd_mul_left _ _)] at hread
        exact (Option.some.inj hread).ge
      · rcases hcases with rfl | rfl <;> decide
    have hpos : 0 < size' := by rcases hcases with rfl | rfl <;> decide
    rw [hkept]
    exact (Nat.le_div_iff_mul_le hpos).2 (Nat.mul_le_mul_left _ hle)

variable {start k size : Nat} {packet payload kept : List UInt8} {bits : UInt8} {extension : RistExtension}
  {r : RistExtensionRemover} {before run : List (Nat × List UInt8)}

theorem deleteNullPackets_cases (hwhole : wholeTsPacketLen payload.length = some size)
    (hdelete : deleteNullPackets payload size = .ok (kept, bits)) :
    ∃ blocks : List (List UInt8), (∀ b ∈ blocks, b.length = size) ∧ bits < 0x80 ∧ marked bits = isDeleted blocks ∧
      kept = (Deletion.keep (isDeleted blocks) 0 blocks).flatten := by
  obtain ⟨hdvd, hsize⟩ := wholeTsPacketLen_cases hwhole
  have hpos : 0 < size := by rcases hsize with rfl | rfl <;> decide
  obtain ⟨blocks, rfl, hblocks⟩ := exists_blocks hdvd
  have hsync : ∀ k b, blocks[k]? = some b → k < nullDeletionSlots → byteAt b 0 = syncByte := by
    intro k b hk hlt
    by_contra hne
    rw [deleteNullPackets, chunksExact_flatten hpos hblocks, deleteFrom_error hk (by omega) hne] at hdelete
    cases hdelete
  obtain ⟨bits', hlt, heq, hmarked⟩ := deleteNullPackets_eq hpos hblocks hsync
  rw [heq] at hdelete
  obtain ⟨rfl, rfl⟩ := Prod.mk.inj (Except.ok.inj hdelete)
  exact ⟨blocks, hblocks, hlt, hmarked, rfl⟩

theorem isSome_restore (hwhole : wholeTsPacketLen payload.length = some size)
    (hdelete : deleteNullPackets payload size = .ok (kept, extension.deletedPackets)) :
    (restoreNullPackets kept extension).isSome = true := by
  obtain ⟨blocks, hblocks, hlt, hmarked, rfl⟩ := deleteNullPackets_cases hwhole hdelete
  have hkept : (Deletion.keep (isDeleted blocks) 0 blocks).flatten.length =
      (Deletion.keep (isDeleted blocks) 0 blocks).length * size :=
    length_flatten fun b hb => hblocks b (Deletion.mem_of_mem_keep hb)
  have hcount := countOnes_deleted hlt hmarked
  have hdeleted : ∀ k, marked extension.deletedPackets k = true → k < blocks.length := by
    intro k hk
    rw [hmarked, isDeleted_iff] at hk
    obtain ⟨-, b, hget, -⟩ := hk
    exact (List.getElem?_eq_some_iff.1 hget).1
  have hslots : ∀ k, marked extension.deletedPackets k = true → k < nullDeletionSlots := fun k hk => (of_decide_eq_true hk).1
  have hones := countOnes_marked hlt
  rw [Deletion.countP_range (i := min blocks.length nullDeletionSlots)
    (fun k hk => lt_min (hdeleted k hk) (hslots k hk)) (min_le_right _ _)] at hones
  generalize hread : readSize (Deletion.keep (isDeleted blocks) 0 blocks).flatten extension = read
  have hunfold := hread
  unfold readSize at hunfold
  unfold restoreNullPackets
  rw [hunfold]
  cases read with
  | none => rfl
  | some size' =>
    have hroom := le_count_read (wholeTsPacketLen_cases hwhole).2 hkept hread
    dsimp only
    rw [restoreFrom_eq, Option.isSome_map]
    refine isSome_fill ?_
    rw [chunksExact, length_map, length_range, ← range_eq_range', Nat.add_le_add_iff_left]
    -- every bit stands for a place below the count
    rw [hones]
    exact (range_sublist.2 (by omega)).countP_le

/-! ## One packet -/

theorem extensionBody_cases {high : UInt16} {settings : RistExtensionSettings} {body : List UInt8}
    (hseq : settings.sequenceNumberExtension = true) (h : extensionBody high payload settings = .ok (body, kept)) :
    ∃ flags tsFlags : UInt8, body = flags :: tsFlags :: sequenceBytes high settings ∧ flags &&& 0x40 ≠ 0 ∧
      (flags &&& 0x80 ≠ 0 → ∃ size, wholeTsPacketLen payload.length = some size ∧
        deleteNullPackets payload size = .ok (kept, tsFlags &&& 0x7F)) := by
  have hflag : ∀ b : UInt8, (b ||| 0x40) &&& 0x40 ≠ 0 := forall_byte (by decide +kernel)
  have hbits : ∀ b : UInt8, b < 0x80 → (0 ||| b) &&& 0x7F = b ∧ (0x80 ||| b) &&& 0x7F = b :=
    forall_byte (by decide +kernel)
  unfold extensionBody at h
  unfold sequenceBytes
  simp only [hseq, if_true] at h ⊢
  split at h
  · next size hdrop hwhole =>
    obtain ⟨⟨remaining, bits⟩, hdelete, hrest⟩ := Loop.bind_eq_ok.1 h
    obtain ⟨rfl, rfl⟩ := Prod.mk.inj (Except.ok.inj hrest)
    obtain ⟨blocks, -, hlt, -⟩ := deleteNullPackets_cases hwhole hdelete
    have hmask : ((if size = dvbTsPacketLen then 0x80 else 0) ||| bits) &&& 0x7F = bits := by
      split_ifs
      · exact (hbits bits hlt).2
      · exact (hbits bits hlt).1
    exact ⟨_, _, rfl, hflag _, fun _ => ⟨size, hwhole, hdelete.trans (by dsimp only; rw [hmask])⟩⟩
  · obtain ⟨rfl, rfl⟩ := Prod.mk.inj (Except.ok.inj h)
    exact ⟨_, _, rfl, hflag _, fun h => absurd (show ((0 : UInt8) ||| 0x40) &&& 0x80 = 0 by decide) h⟩

/-- A packet of the run passes, or it is late and changes nothing. -/
theorem strip_sent (h : Sent start k packet) (r : RistExtensionRemover) :
    (r.highestExtendedSequence ≤ number start k + (2 ^ 15 - 1) →
      (r.strip packet).1 = ⟨max r.highestExtendedSequence (number start k)⟩ ∧ ((r.strip packet).2).isSome = true) ∧
    (¬ r.highestExtendedSequence ≤ number start k + (2 ^ 15 - 1) → r.strip packet = (r, none)) := by
  obtain ⟨header, payload, settings, hseq, hheader, hbuild⟩ := h
  have hnumber : number start k < 2 ^ 32 := Nat.mod_lt _ (by decide)
  have hhalf : number start k / 2 ^ 16 < 65536 := by omega
  have hsplit : (UInt16.ofNat (number start k / 2 ^ 16)).toNat * 2 ^ 16 + header.sequence = number start k := by
    rw [UInt16.toNat_ofNat_of_lt' hhalf, hheader]
    omega
  have hparts := hbuild
  rw [buildMediaPacket, if_neg fun h => h.2 hseq] at hparts
  obtain ⟨⟨body, kept⟩, hbody, -⟩ := Loop.bind_eq_ok.1 hparts
  obtain ⟨flags, tsFlags, rfl, hflag, hdeleted⟩ := extensionBody_cases hseq hbody
  obtain ⟨packet', extension, hbuild', -, hbits, hpass, hlate⟩ :=
    strip_built (r := r) (.inr hseq) hbody (iff_of_true hflag hseq) (show header.sequence < 2 ^ 16 by omega)
  obtain rfl := Except.ok.inj (hbuild'.symm.trans hbuild)
  have haccepts : r.Accepts settings (UInt16.ofNat (number start k / 2 ^ 16)) header ↔
      r.highestExtendedSequence ≤ number start k + (2 ^ 15 - 1) := by
    unfold RistExtensionRemover.Accepts
    rw [forall_prop_of_true hseq, hsplit, Nat.sub_le_iff_le_add']
  refine ⟨fun hle => ?_, fun h => hlate fun haccept => h (haccepts.1 haccept)⟩
  rw [hpass (haccepts.2 hle)]
  refine ⟨by rw [RistExtensionRemover.noted, if_pos hseq, hsplit], ?_⟩
  rw [Option.isSome_map]
  split_ifs with hnull
  · obtain ⟨size, hwhole, hdelete⟩ := hdeleted hnull.1
    exact isSome_restore hwhole (hbits ▸ hdelete)
  · rfl

/-! ## A run -/

theorem after_le_iff {n : Nat} (h : ∀ sent ∈ before, Sent start sent.1 sent.2) :
    (removerAfter before).highestExtendedSequence ≤ n ↔ ∀ sent ∈ before, number start sent.1 ≤ n := by
  induction before using List.reverseRecOn generalizing n with
  | nil => exact iff_of_true (Nat.zero_le n) nofun
  | append_singleton before sent ih =>
    have hbefore : ∀ sent ∈ before, Sent start sent.1 sent.2 := fun sent hmem => h sent (mem_append_left _ hmem)
    obtain ⟨hpass, hlate⟩ := strip_sent (h sent (mem_append_right _ mem_cons_self)) (removerAfter before)
    have hone : removerAfter (before ++ [sent]) = ((removerAfter before).strip sent.2).1 := by
      unfold removerAfter
      rw [foldl_append]
      rfl
    rw [hone, forall_mem_append, forall_mem_singleton, ← ih hbefore]
    by_cases hle : (removerAfter before).highestExtendedSequence ≤ number start sent.1 + (2 ^ 15 - 1)
    · rw [(hpass hle).1]
      exact Nat.max_le
    · rw [hlate hle]
      exact (and_iff_left_of_imp fun hn => by dsimp only at hn; omega).symm

/-- The remover treats a run as it should if and only if the numbers of its packets agree with their places. -/
theorem timely_iff (hrun : ∀ sent ∈ run, Sent start sent.1 sent.2) : Timely run ↔ NumbersAgree start run := by
  refine forall₄_congr fun before k packet later => forall_congr' fun hsplit => ?_
  subst hsplit
  have hbefore : ∀ sent ∈ before, Sent start sent.1 sent.2 := fun sent hmem => hrun sent (mem_append_left _ hmem)
  obtain ⟨hpass, hlate⟩ := strip_sent (hrun (k, packet) (mem_append_right _ mem_cons_self)) (removerAfter before)
  have hwindow : (removerAfter before).highestExtendedSequence ≤ number start k + (2 ^ 15 - 1) ↔
      InWindow (number start) k before := after_le_iff hbefore
  constructor
  · rintro ⟨hin, hout⟩
    constructor
    · intro h
      by_contra hplace
      have hsome := (hpass (hwindow.2 h)).2
      rw [hout hplace] at hsome
      cases hsome
    · intro h
      by_contra hnumber
      have hsome := hin h
      rw [hlate fun hle => hnumber (hwindow.1 hle)] at hsome
      cases hsome
  · intro hagree
    exact ⟨fun h => (hpass (hwindow.2 (hagree.2 h))).2, fun h => hlate fun hle => h (hagree.1 (hwindow.1 hle))⟩

/-- The last packet before the numbers wrap, and the next one. -/
def wrapRun : List (Nat × List UInt8) :=
  [(0, [0x90, 33, 255, 255, 0, 0, 0, 0, 0, 0, 0, 0, 0x52, 0x49, 0, 1, 0x40, 0, 255, 255]),
    (1, [0x90, 33, 0, 0, 0, 0, 0, 0, 0, 0, 0, 0, 0x52, 0x49, 0, 1, 0x40, 0, 0, 0])]

theorem sent_wrapRun : ∀ sent ∈ wrapRun, Sent (2 ^ 32 - 1) sent.1 sent.2 := by
  intro sent hsent
  rcases mem_cons.1 hsent with rfl | hsent
  · exact ⟨⟨33, false, 65535, 0, 0⟩, [], ⟨false, true⟩, rfl, by decide, by decide +kernel⟩
  · obtain rfl := mem_singleton.1 hsent
    exact ⟨⟨33, false, 0, 0, 0⟩, [], ⟨false, true⟩, rfl, by decide, by decide +kernel⟩

theorem timely_iff_wrap : Timely wrapRun ↔ NumbersAgree (2 ^ 32 - 1) wrapRun := timely_iff sent_wrapRun

/-- In order and without a loss, the packet after the wrap is dropped. -/
theorem wrap_not_timely : (∀ sent ∈ wrapRun, Sent (2 ^ 32 - 1) sent.1 sent.2) ∧ ¬ Timely wrapRun := by
  refine ⟨sent_wrapRun, fun h => ?_⟩
  have hpassed := (h [wrapRun.head!] 1 _ [] rfl).1 (forall_mem_singleton.2 (by decide))
  revert hpassed
  decide +kernel

end Glass2Glass.Rist
