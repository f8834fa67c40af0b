import Glass2Glass.Ts.Packet
import Glass2Glass.Ts.Recovery

/-!
# Packets laid out at a stride

The packets of a stream are 188 bytes that start with the sync byte; a recording puts a timestamp in front of each of them,
and a broadcast puts parity bytes behind. What is handed over is told by places, so that a run of bytes that starts
elsewhere is not taken for the packet it happens to repeat.
-/

namespace Glass2Glass.Ts

open TsPacketSplitter List

/-- One packet of a stream, and what its stride puts around it. -/
structure Slot where
  timestamp : List UInt8
  packet : List UInt8
  parity : List UInt8

def Stride.parityLen : Stride → ℕ
  | ts => 0
  | m2ts => 0
  | dvbAsi => 16

structure Slot.Fits (stride : Stride) (slot : Slot) : Prop where
  timestamp : slot.timestamp.length = stride.lead
  packet : slot.packet.length = tsPacketLen
  sync : slot.packet.head? = some syncByte
  parity : slot.parity.length = stride.parityLen

def Slot.bytes (slot : Slot) : List UInt8 := slot.timestamp ++ slot.packet ++ slot.parity

def laid (slots : List Slot) : List UInt8 := slots.flatMap Slot.bytes

def isSyncByte (b : UInt8) : Bool := b == syncByte

def byteAt (bytes : List UInt8) (p : ℕ) : UInt8 := bytes.getD p 0

def syncAt (bytes : List UInt8) (p : ℕ) : Bool := isSyncByte (byteAt bytes p)

/-- Sync bytes at a distance that a stride could have are the packets' own. -/
def OnlyOwnPairs (stride : Stride) (bytes : List UInt8) : Prop :=
  ∀ p q, syncAt bytes p → syncAt bytes q → q = p + 188 ∨ q = p + 192 ∨ q = p + 204 →
    (∃ k, p = stride.place k) ∧ ∃ k, q = stride.place k

/-- The places of the bytes that are handed over. -/
def handedPlaces (chunks : List (List UInt8)) : List (List ℕ) :=
  handed (syncAt chunks.flatten) (chunkPlaces 0 chunks)

/-! ## Bytes and their places -/

theorem map_byteAt_append (front back : List UInt8) (start len : ℕ) :
    (List.range' (front.length + start) len).map (byteAt (front ++ back)) =
      (List.range' start len).map (byteAt back) := by
  rw [← map_add_range', map_map]
  refine map_congr_left fun p _ => ?_
  rw [Function.comp_apply, byteAt, getD_append_right _ _ _ _ (Nat.le_add_right _ _), Nat.add_sub_cancel_left]
  rfl

theorem map_byteAt_self (front bytes back : List UInt8) :
    (List.range' front.length bytes.length).map (byteAt (front ++ bytes ++ back)) = bytes := by
  refine ext_getElem (by simp) fun i _ hi => ?_
  have hin : front.length + i < (front ++ bytes).length := by
    rw [length_append]
    omega
  rw [getElem_map, getElem_range', one_mul, byteAt, getD_append _ _ _ _ hin,
    getD_append_right _ _ _ _ (Nat.le_add_right _ _), Nat.add_sub_cancel_left, getD_eq_getElem]

theorem map_chunkPlaces (front : List UInt8) (chunks : List (List UInt8)) :
    (chunkPlaces front.length chunks).map (List.map (byteAt (front ++ chunks.flatten))) = chunks := by
  induction chunks generalizing front with
  | nil => rfl
  | cons bytes chunks ih =>
    have hrest := ih (front ++ bytes)
    rw [length_append, append_assoc, ← flatten_cons] at hrest
    rw [chunkPlaces, map_cons, hrest, flatten_cons, ← append_assoc, map_byteAt_self]

theorem handed_eq_map_places (chunks : List (List UInt8)) :
    handed isSyncByte chunks = (handedPlaces chunks).map (List.map (byteAt chunks.flatten)) := by
  have hchunks := map_chunkPlaces [] chunks
  conv_lhs => rw [← hchunks]
  exact handed_map isSyncByte (byteAt chunks.flatten) (chunkPlaces 0 chunks)

/-! ## The layout -/

section

variable {stride : Stride} {slots : List Slot}

theorem Slot.Fits.length_bytes {slot : Slot} (h : slot.Fits stride) : slot.bytes.length = stride.len := by
  rw [Slot.bytes, length_append, length_append, h.timestamp, h.packet, h.parity]
  cases stride <;> rfl

section

variable (h : ∀ slot ∈ slots, slot.Fits stride)

include h

theorem length_laid : (laid slots).length = stride.len * slots.length := by
  induction slots with
  | nil => rfl
  | cons slot slots ih =>
    rw [laid, flatMap_cons, length_append, ← laid, ih fun s hs => h s (mem_cons_of_mem _ hs),
      (h slot mem_cons_self).length_bytes, length_cons]
    ring

theorem map_byteAt_laid (k : ℕ) (hk : k < slots.length) :
    (List.range' (stride.place k) tsPacketLen).map (byteAt (laid slots)) = slots[k].packet := by
  induction slots generalizing k with
  | nil => exact absurd hk (Nat.not_lt_zero k)
  | cons slot slots ih =>
    have hslot := h slot mem_cons_self
    rw [laid, flatMap_cons, ← laid]
    cases k with
    | zero =>
      have hplace : stride.place 0 = slot.timestamp.length := by rw [hslot.timestamp, Stride.place, Nat.mul_zero]; rfl
      rw [hplace, ← hslot.packet, Slot.bytes, append_assoc _ slot.parity, map_byteAt_self]
      rfl
    | succ k =>
      have hplace : stride.place (k + 1) = slot.bytes.length + stride.place k := by
        rw [hslot.length_bytes, Stride.place_succ, Nat.add_comm]
      rw [hplace, map_byteAt_append]
      exact ih (fun s hs => h s (mem_cons_of_mem _ hs)) k (Nat.lt_of_succ_lt_succ hk)

theorem synced_laid (hpairs : stride ≠ .ts → OnlyOwnPairs stride (laid slots)) :
    Synced stride slots.length (syncAt (laid slots)) where
  within p hp := by
    rw [← length_laid h]
    by_contra hout
    rw [syncAt, byteAt, getD_eq_default _ _ (not_lt.mp hout)] at hp
    exact absurd hp (by decide)
  own k hk := by
    have hpacket := map_byteAt_laid h k hk
    have hfirst := (h _ (getElem_mem hk)).sync
    rw [← hpacket] at hfirst
    have hbyte : byteAt (laid slots) (stride.place k) = syncByte := Option.some.inj hfirst
    rw [syncAt, hbyte]
    rfl
  apart := hpairs

theorem map_packetPlaces :
    (packetPlaces stride 0 slots.length).map (List.map (byteAt (laid slots))) = slots.map Slot.packet := by
  refine ext_getElem (by simp [packetPlaces]) fun k _ hk => ?_
  rw [length_map] at hk
  rw [getElem_map, getElem_map, ← map_byteAt_laid h k hk]
  simp only [packetPlaces, window, getElem_map, getElem_range', Nat.zero_add, one_mul, tsPacketLen]

end

/-- However the stream is cut, the packets are handed over and nothing else, exactly if no sync byte around them passes for
a packet. At the plain stride there is nothing around them. -/
theorem packets_recovered (stride : Stride) (slots : List Slot) (chunks : List (List UInt8))
    (hslots : ∀ slot ∈ slots, slot.Fits stride) (hpairs : stride ≠ .ts → OnlyOwnPairs stride (laid slots))
    (hcut : chunks.flatten = laid slots) :
    handed isSyncByte chunks = (handedPlaces chunks).map (List.map (byteAt (laid slots))) ∧
      (handedPlaces chunks = packetPlaces stride 0 slots.length ↔
        ¬ MadeUp stride (syncAt (laid slots)) (chunkEnds 0 chunks)) ∧
      (¬ MadeUp stride (syncAt (laid slots)) (chunkEnds 0 chunks) → handed isSyncByte chunks = slots.map Slot.packet) ∧
      (stride = .ts → handed isSyncByte chunks = slots.map Slot.packet) := by
  have hs := synced_laid hslots hpairs
  have hlength : chunks.flatten.length = stride.len * slots.length := by rw [hcut, length_laid hslots]
  have hbytes := handed_eq_map_places chunks
  rw [hcut] at hbytes
  have hplaces : handedPlaces chunks = handed (syncAt (laid slots)) (chunkPlaces 0 chunks) := by
    rw [handedPlaces, hcut]
  have hright : ¬ MadeUp stride (syncAt (laid slots)) (chunkEnds 0 chunks) →
      handedPlaces chunks = packetPlaces stride 0 slots.length := fun hmade => by
    rw [hplaces]
    exact handed_of_not_madeUp hs chunks hlength hmade
  have hpackets : ¬ MadeUp stride (syncAt (laid slots)) (chunkEnds 0 chunks) →
      handed isSyncByte chunks = slots.map Slot.packet := fun hmade => by
    rw [hbytes, hright hmade, map_packetPlaces hslots]
  refine ⟨hbytes, ⟨fun heq hmade => ?_, hright⟩, hpackets, fun hts => hpackets ?_⟩
  · rw [hplaces] at heq
    exact handed_of_madeUp hs chunks hlength hmade heq
  · rintro ⟨k, q, hbetween, hlt, -⟩
    exact hbetween.ne_ts hlt hts

end

/-! ## One packet -/

theorem handed_of_unconfirmed {β : Type} {isSync : β → Bool} (b : β) (rest : List β) (hb : isSync b = true)
    (hlength : 188 ≤ (b :: rest).length) (hprobe : probeStride isSync (b :: rest) = .unconfirmed) :
    ∃ more, handed isSync [b :: rest] = (b :: rest).take 188 :: more := by
  have hstep : splitStep false none none (probe isSync none (b :: rest)) = .hand .ts none none := by
    simp [probe, hprobe, splitStep]
  have hgo : ¬ ((b :: rest).length < Stride.ts.len ∧ ¬ false = true) := fun h => absurd hlength (not_le.mpr h.1)
  have hsplit : split isSync false (b :: rest) none none = _ := split_sync b rest hb hlength
  rw [hstep] at hsplit
  simp only [if_neg hgo] at hsplit
  simp only [handed, pushAll, push, new, nil_append, hsplit]
  exact ⟨_, rfl⟩

/-- A packet of zeros behind a timestamp. -/
def zeroSlot (timestamp : List UInt8) : Slot := ⟨timestamp, syncByte :: List.replicate 187 0, []⟩

theorem zeroSlot_fits {timestamp : List UInt8} (h : timestamp.length = 4) : (zeroSlot timestamp).Fits .m2ts :=
  ⟨h, by rw [zeroSlot, length_cons, length_replicate, tsPacketLen], rfl, rfl⟩

theorem laid_zeroSlot (timestamp : List UInt8) :
    laid [zeroSlot timestamp] = timestamp ++ syncByte :: List.replicate 187 0 := by
  simp only [laid, zeroSlot, Slot.bytes, flatMap_cons, flatMap_nil, append_nil]

theorem zeroSlot_onlyOwnPairs {timestamp : List UInt8} (h : timestamp.length = 4) :
    OnlyOwnPairs .m2ts (laid [zeroSlot timestamp]) := by
  have hzero : ∀ q, 188 ≤ q → syncAt (laid [zeroSlot timestamp]) q = false := fun q hq => by
    have hlength : (timestamp ++ [syncByte]).length ≤ q := by
      rw [length_append, h]
      exact le_trans (by decide) hq
    rw [syncAt, byteAt, laid_zeroSlot, append_cons, getD_append_right _ _ _ _ hlength,
      getD_eq_getElem?_getD, List.getElem?_replicate]
    split <;> rfl
  intro p q _ hq hdistance
  rw [hzero q (by omega)] at hq
  exact absurd hq Bool.false_ne_true

theorem packets_recovered_one :
    handed isSyncByte [laid [zeroSlot [0, 0, 0, 1]]] = [(zeroSlot [0, 0, 0, 1]).packet] := by
  refine (packets_recovered .m2ts [zeroSlot [0, 0, 0, 1]] [laid [zeroSlot [0, 0, 0, 1]]] ?_ ?_ ?_).2.2.1 ?_
  · exact List.forall_mem_singleton.mpr (zeroSlot_fits rfl)
  · exact fun _ => zeroSlot_onlyOwnPairs rfl
  · exact append_nil _
  · rintro ⟨k, q, hbetween, hlt, hsync, ⟨c, hc, hlow, -⟩, -⟩
    obtain rfl : c = 192 := by
      rw [List.mem_singleton.mp hc, length_laid (List.forall_mem_singleton.mpr (zeroSlot_fits rfl))]
      rfl
    have hfirst : k = 0 := Nat.eq_zero_of_not_pos fun hk => by
      have hover := hbetween.1 0 hk
      simp only [Stride.place, Stride.lead] at hover
      omega
    subst hfirst
    have hnone : ∀ q < 4, syncAt (laid [zeroSlot [0, 0, 0, 1]]) q = false := by decide +kernel
    rw [hnone q hlt] at hsync
    exact Bool.false_ne_true hsync

/-- A timestamp that starts with a sync byte is handed over with the packet's first bytes. -/
theorem timestamp_handed_over : (∀ slot ∈ [zeroSlot [syncByte, 0, 0, 0]], slot.Fits .m2ts) ∧
      OnlyOwnPairs .m2ts (laid [zeroSlot [syncByte, 0, 0, 0]]) ∧
      handed isSyncByte [laid [zeroSlot [syncByte, 0, 0, 0]]] ≠ [zeroSlot [syncByte, 0, 0, 0]].map Slot.packet := by
  refine ⟨List.forall_mem_singleton.mpr (zeroSlot_fits rfl), zeroSlot_onlyOwnPairs rfl, fun heq => ?_⟩
  have hbytes : laid [zeroSlot [syncByte, 0, 0, 0]] =
      syncByte :: ([0, 0, 0, syncByte] ++ List.replicate 187 0) := by
    rw [laid_zeroSlot]
    simp only [cons_append, nil_append]
  obtain ⟨more, hhanded⟩ := handed_of_unconfirmed syncByte
    ([0, 0, 0, syncByte] ++ List.replicate 187 0) (show isSyncByte syncByte = true from rfl) (by decide +kernel)
    (by decide +kernel)
  rw [hbytes, hhanded] at heq
  have hfirst : (syncByte :: ([0, 0, 0, syncByte] ++ List.replicate 187 0)).take 188 =
      (zeroSlot [syncByte, 0, 0, 0]).packet := (List.cons.inj heq).1
  have hne : (syncByte :: ([0, 0, 0, syncByte] ++ List.replicate 187 0)).take 188 ≠
      (zeroSlot [syncByte, 0, 0, 0]).packet := by decide +kernel
  exact hne hfirst

end Glass2Glass.Ts
