import Glass2Glass.Rist.Extension

/-!
# Null packets come back

What `RistExtensionRemover` makes of a packet of `build_media_packet`. The builder cuts the payload at the size its
length stands for, the remover at the size the shortened length stands for, so null packets come back exactly where the
two agree (`null_packets_undone`).
-/

namespace Glass2Glass.Rist

open Words Blocks List
open Mcu (RtpHeader rtpHeaderLen)
open Deletion (keep fill)

/-! ## The deletion bits -/

theorem deletionBit_and {i j : Nat} (hi : i < nullDeletionSlots) (hj : j < nullDeletionSlots) :
    deletionBit i &&& deletionBit j ≠ 0 ↔ i = j := by
  have hall : ∀ i < nullDeletionSlots, ∀ j < nullDeletionSlots, (deletionBit i &&& deletionBit j ≠ 0 ↔ i = j) := by decide
  exact hall i hi j hj

theorem or_ne_zero (a b : UInt8) : a ||| b ≠ 0 ↔ a ≠ 0 ∨ b ≠ 0 := by
  simp only [ne_eq, ← UInt8.toNat_inj, UInt8.toNat_or, UInt8.toNat_zero, Nat.or_eq_zero_iff, not_and_or]

theorem or_deletionBit_and (b : UInt8) {i j : Nat} (hi : i < nullDeletionSlots) (hj : j < nullDeletionSlots) :
    (b ||| deletionBit i) &&& deletionBit j ≠ 0 ↔ b &&& deletionBit j ≠ 0 ∨ i = j := by
  rw [or_and_distrib, or_ne_zero, deletionBit_and hi hj]

theorem or_deletionBit_lt {b : UInt8} (hb : b < 0x80) {i : Nat} (hi : i < nullDeletionSlots) : b ||| deletionBit i < 0x80 := by
  have hbit : ∀ i < nullDeletionSlots, (deletionBit i).toNat < 2 ^ 7 := by decide
  exact Nat.or_lt_two_pow (UInt8.lt_iff_toNat_lt.1 hb) (hbit i hi)

theorem countOnes_eq {b : UInt8} (hb : b < 0x80) :
    countOnes b = (List.range nullDeletionSlots).countP fun i => b &&& deletionBit i ≠ 0 := by
  have hall : ∀ b : UInt8, b < 0x80 →
      countOnes b = (List.range nullDeletionSlots).countP fun i => b &&& deletionBit i ≠ 0 :=
    forall_byte (by decide +kernel)
  exact hall b hb

/-- The slots that the bits stand for. -/
def marked (deletedPackets : UInt8) (i : Nat) : Bool :=
  i < nullDeletionSlots ∧ deletedPackets &&& deletionBit i ≠ 0

theorem countOnes_marked {bits : UInt8} (hbits : bits < 0x80) :
    countOnes bits = (List.range nullDeletionSlots).countP (marked bits) := by
  rw [countOnes_eq hbits]
  refine countP_congr fun k hk => ?_
  rw [marked, decide_eq_true_iff, decide_eq_true_iff]
  exact ⟨fun h => ⟨List.mem_range.1 hk, h⟩, And.right⟩

/-! ## The loops -/

/-- The packets that are left out: null packets among the first seven. -/
def isDeleted (packets : List (List UInt8)) (i : Nat) : Bool :=
  i < nullDeletionSlots ∧ (packets[i]?.any fun tsPacket => tsPacketPid tsPacket = nullPacketPid)

/-- The loop of the builder leaves the marked packets out and sets their bits. -/
theorem deleteFrom_eq (mark : Nat → Bool) (packets : List (List UInt8)) (index : Nat) (remaining : List UInt8)
    (bits : UInt8) (hbits : bits < 0x80)
    (hsync : ∀ k tsPacket, packets[k]? = some tsPacket → index + k < nullDeletionSlots → byteAt tsPacket 0 = syncByte)
    (hmark : ∀ k tsPacket, packets[k]? = some tsPacket →
      (mark (index + k) = true ↔ index + k < nullDeletionSlots ∧ tsPacketPid tsPacket = nullPacketPid)) :
    ∃ bits' < 0x80, deleteFrom index remaining bits packets =
        .ok (remaining ++ (keep mark index packets).flatten, bits') ∧
      ∀ j < nullDeletionSlots, (bits' &&& deletionBit j ≠ 0 ↔
        bits &&& deletionBit j ≠ 0 ∨ index ≤ j ∧ j < index + packets.length ∧ mark j = true) := by
  induction packets generalizing index remaining bits with
  | nil =>
    refine ⟨bits, hbits, by rw [keep, flatten_nil, append_nil, deleteFrom], fun j _ => ?_⟩
    rw [length_nil]
    constructor
    · exact Or.inl
    · rintro (h | h)
      · exact h
      · omega
  | cons tsPacket rest ih =>
    have hfirst := hmark 0 tsPacket rfl
    rw [Nat.add_zero] at hfirst
    have hsync' : ∀ k tsPacket, rest[k]? = some tsPacket → index + 1 + k < nullDeletionSlots →
        byteAt tsPacket 0 = syncByte := fun k p hp hk => hsync (k + 1) p hp (by omega)
    have hmark' : ∀ k tsPacket, rest[k]? = some tsPacket →
        (mark (index + 1 + k) = true ↔ index + 1 + k < nullDeletionSlots ∧ tsPacketPid tsPacket = nullPacketPid) := by
      intro k p hp
      rw [Nat.add_right_comm, Nat.add_assoc]
      exact hmark (k + 1) p hp
    rw [deleteFrom, keep]
    by_cases hgone : mark index = true
    · -- A null packet in one of the slots.
      obtain ⟨hindex, hpid⟩ := hfirst.1 hgone
      obtain ⟨bits', hlt, heq, hset⟩ :=
        ih (index + 1) remaining (bits ||| deletionBit index) (or_deletionBit_lt hbits hindex) hsync' hmark'
      rw [if_pos hindex, if_neg (not_not.2 (hsync 0 tsPacket rfl hindex)), if_pos hpid, if_pos hgone]
      refine ⟨bits', hlt, heq, fun j hj => ?_⟩
      rw [hset j hj, or_deletionBit_and bits hindex hj, length_cons]
      constructor
      · rintro ((h | rfl) | ⟨h1, h2, h3⟩)
        · exact Or.inl h
        · exact Or.inr ⟨le_rfl, by omega, hgone⟩
        · exact Or.inr ⟨by omega, by omega, h3⟩
      · rintro (h | ⟨h1, h2, h3⟩)
        · exact Or.inl (Or.inl h)
        · rcases Nat.eq_or_lt_of_le h1 with h | h
          · exact Or.inl (Or.inr h)
          · exact Or.inr ⟨h, by omega, h3⟩
    · obtain ⟨bits', hlt, heq, hset⟩ := ih (index + 1) (remaining ++ tsPacket) bits hbits hsync' hmark'
      have hstep : deleteFrom index remaining bits (tsPacket :: rest) =
          deleteFrom (index + 1) (remaining ++ tsPacket) bits rest := by
        rw [deleteFrom]
        split_ifs with hindex hne hpid
        · exact absurd (hsync 0 tsPacket rfl hindex) hne
        · exact absurd (hfirst.2 ⟨hindex, hpid⟩) hgone
        · rfl
        · rfl
      rw [deleteFrom] at hstep
      rw [hstep, if_neg hgone, flatten_cons, ← append_assoc]
      refine ⟨bits', hlt, heq, fun j hj => ?_⟩
      rw [hset j hj, length_cons]
      constructor
      · rintro (h | ⟨h1, h2, h3⟩)
        · exact Or.inl h
        · exact Or.inr ⟨by omega, by omega, h3⟩
      · rintro (h | ⟨h1, h2, h3⟩)
        · exact Or.inl h
        · rcases Nat.eq_or_lt_of_le h1 with rfl | h
          · exact absurd h3 hgone
          · exact Or.inr ⟨h, by omega, h3⟩

theorem deleteFrom_error {packets : List (List UInt8)} {index k : Nat} {tsPacket : List UInt8}
    (hk : packets[k]? = some tsPacket) (hindex : index + k < nullDeletionSlots) (hsync : byteAt tsPacket 0 ≠ syncByte)
    (remaining : List UInt8) (bits : UInt8) : deleteFrom index remaining bits packets = .error .capsMismatch := by
  induction packets generalizing index k remaining bits with
  | nil => exact absurd hk.symm (Option.some_ne_none _)
  | cons first rest ih =>
    rw [deleteFrom, if_pos (by omega)]
    cases k with
    | zero =>
      obtain rfl := Option.some.inj hk
      rw [if_pos hsync]
    | succ k =>
      split_ifs
      · rfl
      · exact ih hk (by omega) remaining _
      · exact ih hk (by omega) _ bits

theorem restoreFrom_succ (size : Nat) (bits : UInt8) (index count : Nat) (kept : List (List UInt8)) (restored : List UInt8) :
    restoreFrom size bits index (count + 1) kept restored =
      if index < nullDeletionSlots ∧ bits &&& deletionBit index ≠ 0 then
        restoreFrom size bits (index + 1) count kept (restored ++ restoredNullPacket size)
      else
        match kept with
        | [] => none
        | tsPacket :: kept => restoreFrom size bits (index + 1) count kept (restored ++ tsPacket) := rfl

theorem restoreFrom_eq (size : Nat) (bits : UInt8) (index count : Nat) (kept : List (List UInt8)) (restored : List UInt8) :
    restoreFrom size bits index count kept restored =
      (fill (marked bits) (restoredNullPacket size) index count kept).map fun packets =>
        restored ++ packets.flatten := by
  induction count generalizing index kept restored with
  | zero =>
    exact congrArg some (append_nil restored).symm
  | succ count ih =>
    have hflatten : ∀ (tsPacket : List UInt8) (filled : Option (List (List UInt8))),
        (filled.map (tsPacket :: ·)).map (fun packets => restored ++ packets.flatten) =
          filled.map fun packets => restored ++ tsPacket ++ packets.flatten := by
      intro tsPacket filled
      rw [Option.map_map]
      congr 1
      funext packets
      rw [Function.comp_apply, flatten_cons, append_assoc]
    by_cases hmark : marked bits index = true
    · rw [Deletion.fill_marked hmark, hflatten, ← ih, restoreFrom_succ, if_pos (of_decide_eq_true hmark)]
    · have hmark' : ¬ (index < nullDeletionSlots ∧ bits &&& deletionBit index ≠ 0) :=
        fun h => hmark (decide_eq_true h)
      rw [restoreFrom_succ, if_neg hmark']
      cases kept with
      | nil =>
        rw [Deletion.fill.eq_def]
        dsimp only
        rw [if_neg hmark]
        rfl
      | cons tsPacket kept =>
        dsimp only
        rw [Deletion.fill_kept hmark, hflatten, ih]

/-! ## The payload -/

theorem isDeleted_iff {packets : List (List UInt8)} {i : Nat} : isDeleted packets i = true ↔
      i < nullDeletionSlots ∧ ∃ tsPacket, packets[i]? = some tsPacket ∧ tsPacketPid tsPacket = nullPacketPid := by
  unfold isDeleted
  rw [decide_eq_true_iff, Option.any_eq_true]
  simp only [decide_eq_true_eq]

variable {size : Nat} {packets : List (List UInt8)}

theorem deleteNullPackets_eq (hpos : 0 < size) (hsize : ∀ tsPacket ∈ packets, tsPacket.length = size)
    (hsync : ∀ k tsPacket, packets[k]? = some tsPacket → k < nullDeletionSlots → byteAt tsPacket 0 = syncByte) :
    ∃ bits < 0x80, deleteNullPackets packets.flatten size =
        .ok ((keep (isDeleted packets) 0 packets).flatten, bits) ∧ marked bits = isDeleted packets := by
  obtain ⟨bits, hlt, heq, hset⟩ := deleteFrom_eq (isDeleted packets) packets 0 [] 0 (by decide)
    (fun k tsPacket hk h => hsync k tsPacket hk (by omega)) fun k tsPacket hk => by
      rw [Nat.zero_add, isDeleted_iff, hk]
      constructor
      · rintro ⟨hk, tsPacket, h, hpid⟩
        obtain rfl := Option.some.inj h
        exact ⟨hk, hpid⟩
      · rintro ⟨hk, hpid⟩
        exact ⟨hk, tsPacket, rfl, hpid⟩
  refine ⟨bits, hlt, ?_, ?_⟩
  · rw [deleteNullPackets, chunksExact_flatten hpos hsize, heq, nil_append]
  · funext i
    rw [Bool.eq_iff_iff, marked, decide_eq_true_iff]
    constructor
    · rintro ⟨hi, hbit⟩
      rcases (hset i hi).1 hbit with h | ⟨-, -, h⟩
      · exact absurd (UInt8.zero_and) h
      · exact h
    · intro h
      obtain ⟨hi, tsPacket, hget, -⟩ := isDeleted_iff.1 h
      have hlength := (List.getElem?_eq_some_iff.1 hget).1
      exact ⟨hi, (hset i hi).2 (Or.inr ⟨Nat.zero_le i, by omega, h⟩)⟩

theorem countOnes_deleted {bits : UInt8} (hbits : bits < 0x80) (hmarked : marked bits = isDeleted packets) :
    (keep (isDeleted packets) 0 packets).length + countOnes bits = packets.length := by
  have hcount := Deletion.length_keep (isDeleted packets) 0 packets
  have hslots : ∀ k, isDeleted packets k = true → k < min nullDeletionSlots packets.length := by
    intro k hk
    obtain ⟨hk, tsPacket, hget, -⟩ := isDeleted_iff.1 hk
    exact Nat.lt_min.2 ⟨hk, (List.getElem?_eq_some_iff.1 hget).1⟩
  rw [← range_eq_range', Deletion.countP_range hslots (Nat.min_le_right _ _)] at hcount
  rw [countOnes_marked hbits, hmarked, Deletion.countP_range hslots (Nat.min_le_left _ _), hcount]

def readSize (payload : List UInt8) (extension : RistExtension) : Option Nat :=
  if payload = [] then some (if extension.dvbPacketSize then dvbTsPacketLen else tsPacketLen)
  else wholeTsPacketLen payload.length

theorem restoreNullPackets_same (hpos : 0 < size) (hsize : ∀ tsPacket ∈ packets, tsPacket.length = size)
    {extension : RistExtension} (hbits : extension.deletedPackets < 0x80)
    (hmarked : marked extension.deletedPackets = isDeleted packets)
    (hread : readSize (keep (isDeleted packets) 0 packets).flatten extension = some size) :
    restoreNullPackets (keep (isDeleted packets) 0 packets).flatten extension =
      some (Deletion.blank (isDeleted packets) (restoredNullPacket size) 0 packets).flatten := by
  have hkept : ∀ tsPacket ∈ keep (isDeleted packets) 0 packets, tsPacket.length = size :=
    fun tsPacket h => hsize tsPacket (Deletion.mem_of_mem_keep h)
  unfold readSize at hread
  unfold restoreNullPackets
  rw [hread]
  dsimp only
  rw [chunksExact_flatten hpos hkept, length_flatten hkept, Nat.mul_div_cancel _ hpos,
    countOnes_deleted hbits hmarked, restoreFrom_eq, hmarked, Deletion.fill_keep, Option.map_some, nil_append]

theorem length_restoreNullPackets {payload restored : List UInt8} {extension : RistExtension}
    (h : restoreNullPackets payload extension = some restored) (hread : readSize payload extension = some size)
    (hdvd : size ∣ payload.length) (hheader : restoredNullPacketHeader.length ≤ size) :
    restored.length = payload.length + countOnes extension.deletedPackets * size := by
  unfold readSize at hread
  unfold restoreNullPackets at h
  rw [hread] at h
  dsimp only at h
  rw [restoreFrom_eq] at h
  obtain ⟨filled, hfill, rfl⟩ := Option.map_eq_some_iff.1 h
  have hsize : ∀ tsPacket ∈ filled, tsPacket.length = size := by
    intro tsPacket hmem
    rcases Deletion.mem_of_fill hfill hmem with rfl | hmem
    · rw [restoredNullPacket, length_append, length_replicate]
      omega
    · exact length_of_mem_chunksExact hdvd hmem
  rw [nil_append, length_flatten hsize, Deletion.length_of_fill hfill, Nat.add_mul, Nat.div_mul_cancel hdvd]

end Glass2Glass.Rist
