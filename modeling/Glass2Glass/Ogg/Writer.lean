import Glass2Glass.Ogg.Stream

/-!
# The Ogg page writer

The writer (`OggPageWriter` in `g2g-plugins/src/ogg.rs`) cuts the packets that wait into segments and the segments into
pages. The pages of what waits carry exactly those packets (`OggPageWriter.emit_carries`), so a bitstream that is given
all the pages has the packets that were pushed, and the end that the last of them reaches (`OggPageWriter.Sent.flush`).
-/

namespace Glass2Glass.Ogg

open Words List
open OggLogicalStream (Turned)

/-! ## The writer -/

def pageFlushBytes : Nat := 4096

structure OggPageWriter where
  serial : Nat
  seq : Nat
  pending : List (List UInt8 × Nat)
  pendingBytes : Nat
  bosDone : Bool
  lastGranule : Nat

/-- The segments of a packet: full ones, and one that is not, which has the granule position. -/
def lace (queued : List UInt8 × Nat) : List (UInt8 × Option Nat) :=
  List.replicate (queued.1.length / 255) (255, none) ++ [(UInt8.ofNat (queued.1.length % 255), some queued.2)]

/-- The granule position of a page: that of the last packet which ends on it. -/
def groupGranule (group : List (UInt8 × Option Nat)) : Nat := (group.reverse.findSome? (·.2)).getD noGranule

/-- The bytes of the segments of a page. -/
def groupLen (group : List (UInt8 × Option Nat)) : Nat := (group.map fun entry => entry.1.toNat).sum

/-- The last packet of a page goes on. -/
def groupContinues (group : List (UInt8 × Option Nat)) : Bool := group.getLast?.elim false fun entry => entry.2.isNone

namespace OggPageWriter

def new (serial : Nat) : OggPageWriter where
  serial := serial
  seq := 0
  pending := []
  pendingBytes := 0
  bosDone := false
  lastGranule := 0

variable (w : OggPageWriter)

def writePage (segments body : List UInt8) (granule : Nat) (continued eos : Bool) : (Nat × OggPage) × OggPageWriter :=
  let headerType := (if continued then flagContinued else 0) ||| (if w.bosDone then 0 else flagBos) |||
    (if eos then flagEos else 0)
  ((w.seq, { headerType, granule, serial := w.serial, segments, body }),
    { w with bosDone := true, seq := (w.seq + 1) % 2 ^ 32 })

/-- The page of the first 255 segments. -/
def writeGroup (eos : Bool) (lacing : List (UInt8 × Option Nat)) (body : List UInt8) (continued : Bool)
    (w : OggPageWriter) : (Nat × OggPage) × OggPageWriter :=
  let group := lacing.take 255
  let granule := groupGranule group
  let w := { w with lastGranule := if granule ≠ noGranule then granule else w.lastGranule }
  w.writePage (group.map (·.1)) (body.take (groupLen group)) granule continued (eos && lacing.length ≤ 255)

/-- The pages of segments. The last page may be the last of the bitstream. -/
def emitPages (eos : Bool) : Nat → List (UInt8 × Option Nat) → List UInt8 → Bool → OggPageWriter →
    List (Nat × OggPage) × OggPageWriter
  | 0, _, _, _, w => ([], w)
  | fuel + 1, lacing, body, continued, w =>
    if lacing = [] then ([], w)
    else
      let group := lacing.take 255
      let first := writeGroup eos lacing body continued w
      let rest := emitPages eos fuel (lacing.drop 255) (body.drop (groupLen group)) (groupContinues group) first.2
      (first.1 :: rest.1, rest.2)

/-- The pages of what waits. The end of the bitstream needs a page, if only an empty one. -/
def emit (eos : Bool) : List (Nat × OggPage) × OggPageWriter :=
  let lacing := w.pending.flatMap lace
  let body := (w.pending.map (·.1)).flatten
  let cleared := { w with pending := [], pendingBytes := 0 }
  if lacing = [] then
    if eos then
      let (page, written) := cleared.writePage [] [] cleared.lastGranule false true
      ([page], written)
    else ([], cleared)
  else emitPages eos lacing.length lacing body false cleared

def pushPacket (packet : List UInt8) (granule : Nat) : List (Nat × OggPage) × OggPageWriter :=
  let queued :=
    { w with pendingBytes := w.pendingBytes + packet.length, pending := w.pending ++ [(packet, granule)] }
  if queued.pendingBytes < pageFlushBytes ∨ queued.pending.length < 2 then ([], queued)
  else
    let (pages, written) := { queued with pending := w.pending }.emit false
    (pages, { written with pendingBytes := packet.length, pending := written.pending ++ [(packet, granule)] })

def flush (eos : Bool) : List (Nat × OggPage) × OggPageWriter := w.emit eos

end OggPageWriter

/-! ## Segments of packets -/

variable {pending : List (List UInt8 × Nat)} {lacing : List (UInt8 × Option Nat)} {queued : List UInt8 × Nat}

/-- A segment is full where its packet goes on. -/
def Marks (lacing : List (UInt8 × Option Nat)) : Prop := ∀ entry ∈ lacing, entry.2 = none ↔ entry.1 = 255

theorem marks_lace (pending : List (List UInt8 × Nat)) : Marks (pending.flatMap lace) := by
  intro entry hentry
  obtain ⟨queued, -, hmem⟩ := List.mem_flatMap.1 hentry
  rcases List.mem_append.1 hmem with hfull | hlast
  · rw [(List.mem_replicate.1 hfull).2]
    exact ⟨fun _ => rfl, fun _ => rfl⟩
  · rw [List.mem_singleton.1 hlast]
    refine ⟨fun hnone => absurd hnone (Option.some_ne_none _), fun hfull => ?_⟩
    have hlt : queued.1.length % 255 < 255 := Nat.mod_lt _ (by decide)
    have hnat := congrArg UInt8.toNat hfull
    rw [UInt8.toNat_ofNat', Nat.mod_eq_of_lt (by omega)] at hnat
    have hval : (255 : UInt8).toNat = 255 := rfl
    omega

theorem laced_lace (h : ∀ queued ∈ pending, queued.1.length ≤ maxPacketBytes) :
    Laced ((pending.flatMap lace).map (·.1)) [] (pending.map (·.1)).flatten (pending.map (·.1)) [] := by
  induction pending with
  | nil => exact .nil (Nat.zero_le _)
  | cons queued pending ih =>
    have hrest := ih fun other hother => h other (mem_cons_of_mem _ hother)
    have hpacket : ([] ++ queued.1).length ≤ maxPacketBytes := h queued mem_cons_self
    have hmore := Laced.short_append hpacket hrest
    have hsegs : ((queued :: pending).flatMap lace).map (·.1) =
        List.replicate (queued.1.length / 255) 255 ++ UInt8.ofNat (queued.1.length % 255) ::
          (pending.flatMap lace).map (·.1) := by
      rw [flatMap_cons, map_append, lace, map_append, map_replicate, append_assoc]
      rfl
    rw [hsegs]
    exact hmore

theorem getLast?_lace (hlast : pending.getLast? = some queued) :
    (pending.flatMap lace).getLast? = some (UInt8.ofNat (queued.1.length % 255), some queued.2) := by
  obtain ⟨init, rfl⟩ := List.getLast?_eq_some_iff.1 hlast
  rw [flatMap_append, flatMap_singleton, lace, ← append_assoc]
  exact List.getLast?_concat

theorem lace_ne_nil (h : pending ≠ []) : pending.flatMap lace ≠ [] := by
  have hlast := getLast?_lace (List.getLast?_eq_some_getLast h)
  intro hnil
  rw [hnil] at hlast
  cases hlast

theorem groupGranule_of_last {seg : UInt8} {granule : Nat} (hlast : lacing.getLast? = some (seg, some granule)) :
    groupGranule lacing = granule := by
  obtain ⟨init, rfl⟩ := List.getLast?_eq_some_iff.1 hlast
  unfold groupGranule
  rw [reverse_concat, List.findSome?_cons_of_isSome]
  · rfl
  · rfl

/-- Granule positions that can be told from that of a page without one. -/
def Granules (lacing : List (UInt8 × Option Nat)) : Prop :=
  ∀ entry ∈ lacing, ∀ granule, entry.2 = some granule → granule < noGranule

theorem groupGranule_le (h : Granules lacing) : groupGranule lacing ≤ noGranule := by
  unfold groupGranule
  cases hfound : lacing.reverse.findSome? (·.2) with
  | none => exact le_rfl
  | some granule =>
    obtain ⟨entry, hentry, hgranule⟩ := List.exists_of_findSome?_eq_some hfound
    exact (h entry (List.mem_reverse.1 hentry) granule hgranule).le

theorem Laced.group {acc body left : List UInt8} {packets : List (List UInt8)} (hmarks : Marks lacing)
    (h : Laced (lacing.map (·.1)) acc body packets left) : ∃ packets₁ packets₂ mid, packets = packets₁ ++ packets₂ ∧
      Laced ((lacing.take 255).map (·.1)) acc (body.take (groupLen (lacing.take 255))) packets₁ mid ∧
      Laced ((lacing.drop 255).map (·.1)) mid (body.drop (groupLen (lacing.take 255))) packets₂ left ∧
      (lacing ≠ [] → groupContinues (lacing.take 255) = false → mid = []) := by
  have hparts : lacing.map (·.1) = (lacing.take 255).map (·.1) ++ (lacing.drop 255).map (·.1) := by
    rw [← map_append, take_append_drop]
  rw [hparts] at h
  obtain ⟨body₁, body₂, packets₁, packets₂, mid, rfl, rfl, hfirst, hlast⟩ := h.split
  have hlength : body₁.length = groupLen (lacing.take 255) := by
    rw [hfirst.length_body, map_map]
    rfl
  refine ⟨packets₁, packets₂, mid, rfl, ?_, ?_, fun hne hends => ?_⟩
  · rw [take_left' hlength]
    exact hfirst
  · rw [drop_left' hlength]
    exact hlast
  · have hgroup : lacing.take 255 ≠ [] := by
      cases lacing with
      | nil => exact absurd rfl hne
      | cons _ _ => exact cons_ne_nil _ _
    have hmem := mem_of_mem_take (getLast_mem hgroup)
    have hlast? := List.getLast?_eq_some_getLast hgroup
    generalize (lacing.take 255).getLast hgroup = entry at hmem hlast?
    obtain ⟨init, hsnoc⟩ := List.getLast?_eq_some_iff.1 hlast?
    unfold groupContinues at hends
    rw [hlast?] at hends
    rw [hsnoc, map_append] at hfirst
    refine hfirst.left_eq_nil fun hfull => ?_
    rw [Option.elim_some, (hmarks entry hmem).2 hfull] at hends
    cases hends

namespace OggPageWriter

variable {w : OggPageWriter} {s : OggLogicalStream} {body left : List UInt8} {packets : List (List UInt8)}
  {continued eos : Bool} {fuel : Nat}

theorem writePage_flags (w : OggPageWriter) (segments body : List UInt8) (granule : Nat) (continued eos : Bool) :
    ((w.writePage segments body granule continued eos).1.2.Flagged flagContinued ↔ continued = true) ∧
      ((w.writePage segments body granule continued eos).1.2.Flagged flagBos ↔ w.bosDone = false) ∧
      ((w.writePage segments body granule continued eos).1.2.Flagged flagEos ↔ eos = true) := by
  unfold writePage OggPage.Flagged
  dsimp only
  generalize w.bosDone = bosDone
  revert continued bosDone eos
  decide

/-- What pages that are written do to a bitstream and to the writer. -/
structure Carries (eos : Bool) (w w' : OggPageWriter) (pages : List (Nat × OggPage)) (s : OggLogicalStream)
    (packets : List (List UInt8)) (left : List UInt8) : Prop where
  turned : Turned s (pages.foldl (fun s n => s.parsePage n.2) s) packets left
  ends : (pages.foldl (fun s n => s.parsePage n.2) s).endGranulepos =
    if eos then some w'.lastGranule else s.endGranulepos
  fits : ∀ n ∈ pages, n.2.Fits ∧ n.2.serial = w.serial
  bos : w.bosDone = true → ∀ n ∈ pages, ¬ n.2.Flagged flagBos
  serial : w'.serial = w.serial
  pending : w'.pending = w.pending
  begun : w.bosDone = true ∨ pages ≠ [] → w'.bosDone = true

theorem writeGroup_carries {packets₁ : List (List UInt8)} {mid : List UInt8} (hgranules : Granules lacing)
    (hserial : w.serial < 2 ^ 32) (hresuming : s.resuming = false)
    (hcontinued : continued = false → s.partialPacket = [])
    (hlaced : Laced ((lacing.take 255).map (·.1)) s.partialPacket (body.take (groupLen (lacing.take 255))) packets₁ mid)
    (hlast : 255 < lacing.length ∨ groupGranule (lacing.take 255) < noGranule) :
    Carries (eos && lacing.length ≤ 255) w (writeGroup eos lacing body continued w).2
      [(writeGroup eos lacing body continued w).1] s packets₁ mid := by
  obtain ⟨hflagContinued, hflagBos, hflagEos⟩ := writePage_flags
    { w with lastGranule := if groupGranule (lacing.take 255) ≠ noGranule then groupGranule (lacing.take 255)
        else w.lastGranule }
    ((lacing.take 255).map (·.1)) (body.take (groupLen (lacing.take 255))) (groupGranule (lacing.take 255)) continued
    (eos && lacing.length ≤ 255)
  have hpage := @OggLogicalStream.parsePage_laced s (writeGroup eos lacing body continued w).1.2 mid packets₁ hlaced
    hresuming fun hflag => hcontinued (Bool.eq_false_iff.2 fun htrue => hflag (hflagContinued.2 htrue))
  obtain ⟨hturned, hends⟩ := hpage
  refine ⟨hturned, ?_, fun n hn => ?_, fun hbos n hn => ?_, rfl, rfl, fun _ => rfl⟩
  · rw [foldl_cons, foldl_nil, hends]
    unfold OggLogicalStream.markEnd
    by_cases heos : (eos && decide (lacing.length ≤ 255)) = true
    · have hlt : groupGranule (lacing.take 255) < noGranule := by
        refine hlast.resolve_left fun hlong => ?_
        rw [Bool.and_eq_true, decide_eq_true_iff] at heos
        omega
      rw [if_pos heos, if_pos ⟨hflagEos.2 heos, hlt.ne⟩]
      exact congrArg some (if_pos hlt.ne).symm
    · rw [if_neg heos, if_neg fun hboth => heos (hflagEos.1 hboth.1)]
  · rw [List.mem_singleton.1 hn]
    refine ⟨⟨?_, hserial, ?_, hlaced.length_body⟩, rfl⟩
    · refine Nat.lt_of_le_of_lt (groupGranule_le fun entry hentry => ?_) (by decide)
      exact hgranules entry (mem_of_mem_take hentry)
    · show ((lacing.take 255).map (·.1)).length ≤ 255
      rw [length_map, length_take]
      exact Nat.min_le_left _ _
  · rw [List.mem_singleton.1 hn]
    exact fun hflag => Bool.false_ne_true ((hflagBos.1 hflag).symm.trans hbos)

theorem Carries.trans {w₁ w₂ : OggPageWriter} {pages later : List (Nat × OggPage)} {packets₁ packets₂ : List (List UInt8)}
    {mid : List UInt8} (h : Carries false w w₁ pages s packets₁ mid)
    (h' : Carries eos w₁ w₂ later (pages.foldl (fun s n => s.parsePage n.2) s) packets₂ left) :
    Carries eos w w₂ (pages ++ later) s (packets₁ ++ packets₂) left where
  turned := by
    rw [foldl_append]
    exact h.turned.trans h'.turned
  ends := by
    rw [foldl_append, h'.ends, h.ends]
    rfl
  fits n hn := by
    rcases List.mem_append.1 hn with hfirst | hlater
    · exact h.fits n hfirst
    · obtain ⟨hfits, hserial⟩ := h'.fits n hlater
      exact ⟨hfits, hserial.trans h.serial⟩
  bos hdone n hn := by
    rcases List.mem_append.1 hn with hfirst | hlater
    · exact h.bos hdone n hfirst
    · exact h'.bos (h.begun (Or.inl hdone)) n hlater
  serial := h'.serial.trans h.serial
  pending := h'.pending.trans h.pending
  begun hany := by
    rcases hany with hdone | hpages
    · exact h'.begun (Or.inl (h.begun (Or.inl hdone)))
    · by_cases hnil : pages = []
      · refine h'.begun (Or.inr fun hlater => hpages ?_)
        rw [hnil, hlater, append_nil]
      · exact h'.begun (Or.inl (h.begun (Or.inr hnil)))

theorem emitPages_nil (eos : Bool) (fuel : Nat) (body : List UInt8) (continued : Bool) (w : OggPageWriter) :
    emitPages eos fuel [] body continued w = ([], w) := by
  cases fuel <;> rfl

/-- The pages of segments carry their packets. The last of them reaches the granule position of the last packet. -/
theorem emitPages_carries {seg : UInt8} {granule : Nat} (hfuel : lacing.length ≤ fuel) (hmarks : Marks lacing)
    (hgranules : Granules lacing) (hserial : w.serial < 2 ^ 32) (hlast : lacing.getLast? = some (seg, some granule))
    (hresuming : s.resuming = false) (hcontinued : continued = false → s.partialPacket = [])
    (hlaced : Laced (lacing.map (·.1)) s.partialPacket body packets left) :
    Carries eos w (emitPages eos fuel lacing body continued w).2 (emitPages eos fuel lacing body continued w).1 s
        packets left ∧ (emitPages eos fuel lacing body continued w).2.lastGranule = granule := by
  induction fuel generalizing lacing body continued w s packets with
  | zero =>
    rw [List.length_eq_zero_iff.1 (Nat.le_zero.1 hfuel)] at hlast
    cases hlast
  | succ fuel ih =>
    have hne : lacing ≠ [] := by
      intro hnil
      rw [hnil] at hlast
      cases hlast
    have hunfold : emitPages eos (fuel + 1) lacing body continued w =
        ((writeGroup eos lacing body continued w).1 :: (emitPages eos fuel (lacing.drop 255)
          (body.drop (groupLen (lacing.take 255))) (groupContinues (lacing.take 255))
          (writeGroup eos lacing body continued w).2).1,
        (emitPages eos fuel (lacing.drop 255) (body.drop (groupLen (lacing.take 255)))
          (groupContinues (lacing.take 255)) (writeGroup eos lacing body continued w).2).2) := if_neg hne
    obtain ⟨packets₁, packets₂, mid, rfl, hfirst, hrest, hmid⟩ := hlaced.group hmarks
    by_cases hlong : 255 < lacing.length
    · have hone := @writeGroup_carries _ w s body continued eos packets₁ mid hgranules hserial hresuming hcontinued
        hfirst (Or.inl hlong)
      have hnot : (eos && decide (lacing.length ≤ 255)) = false := by
        rw [decide_eq_false (by omega), Bool.and_false]
      rw [hnot] at hone
      have hdrop : (lacing.drop 255).getLast? = some (seg, some granule) := by
        rw [List.getLast?_drop, if_neg (by omega)]
        exact hlast
      obtain ⟨hmore, hgranule⟩ := ih (by rw [length_drop]; omega)
        (fun entry hentry => hmarks entry (mem_of_mem_drop hentry))
        (fun entry hentry => hgranules entry (mem_of_mem_drop hentry)) (hone.serial.trans_lt hserial) hdrop
        hone.turned.resuming (fun hends => hone.turned.partialPacket.trans (hmid hne hends))
        (hone.turned.partialPacket.symm ▸ hrest)
      rw [hunfold]
      exact ⟨hone.trans hmore, hgranule⟩
    · have htake : lacing.take 255 = lacing := take_of_length_le (Nat.not_lt.1 hlong)
      have hdrop : lacing.drop 255 = [] := drop_of_length_le (Nat.not_lt.1 hlong)
      have hgranule : groupGranule (lacing.take 255) = granule := by
        rw [htake]
        exact groupGranule_of_last hlast
      have hlt : groupGranule (lacing.take 255) < noGranule := by
        rw [hgranule]
        exact hgranules _ (mem_of_getLast? hlast) granule rfl
      have hone := @writeGroup_carries _ w s body continued eos packets₁ mid hgranules hserial hresuming hcontinued
        hfirst (Or.inr hlt)
      have hall : (eos && decide (lacing.length ≤ 255)) = eos := by
        rw [decide_eq_true (by omega), Bool.and_true]
      rw [hall] at hone
      rw [hdrop, map_nil] at hrest
      rw [hdrop, emitPages_nil] at hunfold
      generalize body.drop (groupLen (lacing.take 255)) = last at hrest
      cases hrest
      rw [append_nil, hunfold]
      exact ⟨hone, (if_pos hlt.ne).trans hgranule⟩

/-! ## What was pushed was sent -/

/-- A packet that can be put together again, with a granule position. -/
def Accepted (queued : List UInt8 × Nat) : Prop := queued.1.length ≤ maxPacketBytes ∧ queued.2 < noGranule

/-- The granule position that packets reach. -/
def reached (packets : List (List UInt8 × Nat)) : Nat := (packets.getLast?.map (·.2)).getD 0

theorem reached_append {packets later : List (List UInt8 × Nat)} (h : later ≠ []) :
    reached (packets ++ later) = reached later := by
  have hlast : (packets ++ later).getLast? = later.getLast? := by
    rw [List.getLast?_append_of_ne_nil _ h]
  unfold reached
  rw [hlast]

/-- The pages of what waits carry it. -/
theorem emit_carries (eos : Bool) (haccepted : ∀ queued ∈ w.pending, Accepted queued) (hserial : w.serial < 2 ^ 32)
    (hgranule : w.lastGranule < noGranule) (hresuming : s.resuming = false) (hwhole : s.partialPacket = []) :
    Carries eos { w with pending := [], pendingBytes := 0 } (w.emit eos).2 (w.emit eos).1 s (w.pending.map (·.1)) [] ∧
      (w.emit eos).2.lastGranule = if w.pending = [] then w.lastGranule else reached w.pending := by
  by_cases hnone : w.pending = []
  · have hlacing : w.pending.flatMap lace = [] := by
      rw [hnone]
      rfl
    unfold emit
    rw [if_pos hlacing, if_pos hnone, hnone]
    cases eos with
    | false => exact ⟨⟨⟨rfl, hwhole, hresuming⟩, rfl, by simp, by simp, rfl, rfl, by simp⟩, rfl⟩
    | true =>
      obtain ⟨-, hflagBos, hflagEos⟩ :=
        writePage_flags { w with pending := [], pendingBytes := 0 } [] [] w.lastGranule false true
      have hlaced : Laced [] s.partialPacket [] [] [] := by
        rw [hwhole]
        exact .nil (Nat.zero_le _)
      obtain ⟨hturned, hends⟩ := @OggLogicalStream.parsePage_laced s
        (writePage { w with pending := [], pendingBytes := 0 } [] [] w.lastGranule false true).1.2 [] [] hlaced
        hresuming fun _ => hwhole
      refine ⟨⟨hturned, ?_, fun n hn => ?_, fun hdone n hn => ?_, rfl, rfl, fun _ => rfl⟩, rfl⟩
      · refine hends.trans ?_
        unfold OggLogicalStream.markEnd
        rw [if_pos ⟨hflagEos.2 rfl, hgranule.ne⟩]
        rfl
      · rw [List.mem_singleton.1 hn]
        exact ⟨⟨hgranule.trans (by decide), hserial, Nat.zero_le _, rfl⟩, rfl⟩
      · rw [List.mem_singleton.1 hn]
        exact fun hflag => Bool.false_ne_true ((hflagBos.1 hflag).symm.trans hdone)
  · have hlacing := lace_ne_nil hnone
    have hlast := getLast?_lace (List.getLast?_eq_some_getLast hnone)
    have hgranules : Granules (w.pending.flatMap lace) := by
      intro entry hentry granule hsome
      obtain ⟨queued, hqueued, hmem⟩ := List.mem_flatMap.1 hentry
      rcases List.mem_append.1 hmem with hfull | hterminator
      · rw [(List.mem_replicate.1 hfull).2] at hsome
        cases hsome
      · rw [List.mem_singleton.1 hterminator] at hsome
        cases hsome
        exact (haccepted queued hqueued).2
    have hlaced : Laced ((w.pending.flatMap lace).map (·.1)) s.partialPacket (w.pending.map (·.1)).flatten
        (w.pending.map (·.1)) [] := by
      rw [hwhole]
      exact laced_lace fun queued hqueued => (haccepted queued hqueued).1
    obtain ⟨hcarries, hreached⟩ := @emitPages_carries _ { w with pending := [], pendingBytes := 0 } s _ _ _ false eos _
      _ _ le_rfl (marks_lace w.pending) hgranules hserial hlast hresuming (fun _ => hwhole) hlaced
    have hgoal : w.emit eos = emitPages eos (w.pending.flatMap lace).length (w.pending.flatMap lace)
        (w.pending.map (·.1)).flatten false { w with pending := [], pendingBytes := 0 } := if_neg hlacing
    rw [hgoal, if_neg hnone]
    refine ⟨hcarries, hreached.trans ?_⟩
    unfold reached
    rw [List.getLast?_eq_some_getLast hnone]
    rfl

theorem emit_single (eos : Bool) (hpending : w.pending ≠ []) (hshort : (w.pending.flatMap lace).length ≤ 255) :
    (w.emit eos).1 = [(writeGroup eos (w.pending.flatMap lace) (w.pending.map (·.1)).flatten false
      { w with pending := [], pendingBytes := 0 }).1] := by
  have hlacing := lace_ne_nil hpending
  have hdrop : (w.pending.flatMap lace).drop 255 = [] := drop_of_length_le hshort
  have hemit : w.emit eos = emitPages eos (w.pending.flatMap lace).length (w.pending.flatMap lace)
      (w.pending.map (·.1)).flatten false { w with pending := [], pendingBytes := 0 } := if_neg hlacing
  obtain ⟨fuel, hfuel⟩ := Nat.exists_eq_succ_of_ne_zero (mt List.length_eq_zero_iff.1 hlacing)
  rw [hemit, hfuel, emitPages, if_neg hlacing]
  dsimp only
  rw [hdrop, emitPages_nil]

/-- What was pushed is with the bitstream, which began as `start`, or waits. -/
structure Sent (start : OggLogicalStream) (w : OggPageWriter) (s : OggLogicalStream)
    (pushed : List (List UInt8 × Nat)) : Prop where
  serial : w.serial < 2 ^ 32
  accepted : ∀ queued ∈ pushed, Accepted queued
  partialPacket : s.partialPacket = []
  resuming : s.resuming = false
  flushed : ∃ flushed, flushed ++ w.pending = pushed ∧
    s.filed = (flushed.map (·.1)).foldl OggLogicalStream.finalize start ∧ w.lastGranule = reached flushed

variable {start : OggLogicalStream} {pushed : List (List UInt8 × Nat)}

theorem Sent.lastGranule_lt (h : Sent start w s pushed) : w.lastGranule < noGranule := by
  obtain ⟨flushed, hpushed, -, hgranule⟩ := h.flushed
  rw [hgranule]
  unfold reached
  cases hlast : flushed.getLast? with
  | none => decide
  | some queued =>
    refine (h.accepted queued ?_).2
    rw [← hpushed]
    exact mem_append_left _ (mem_of_getLast? hlast)

theorem Sent.emit (h : Sent start w s pushed) (eos : Bool) :
    Carries eos { w with pending := [], pendingBytes := 0 } (w.emit eos).2 (w.emit eos).1 s (w.pending.map (·.1)) [] ∧
      Sent start (w.emit eos).2 ((w.emit eos).1.foldl (fun s n => s.parsePage n.2) s) pushed ∧
      (w.emit eos).2.lastGranule = reached pushed := by
  obtain ⟨flushed, hpushed, hfiled, hgranule⟩ := h.flushed
  obtain ⟨hcarries, hlast⟩ := @emit_carries w s eos (fun queued hqueued => h.accepted queued (by
    rw [← hpushed]
    exact mem_append_right _ hqueued)) h.serial h.lastGranule_lt h.resuming h.partialPacket
  have hreached : (w.emit eos).2.lastGranule = reached pushed := by
    rw [hlast, ← hpushed]
    split_ifs with hnone
    · rw [hgranule, hnone, append_nil]
    · exact (reached_append hnone).symm
  refine ⟨hcarries, ⟨hcarries.serial.trans_lt h.serial, h.accepted, hcarries.turned.partialPacket,
    hcarries.turned.resuming, pushed, ?_, ?_, hreached⟩, hreached⟩
  · rw [hcarries.pending, append_nil]
  · rw [hcarries.turned.filed, hfiled, ← hpushed, map_append, foldl_append]

theorem Sent.queue (h : Sent start w s pushed) {queued : List UInt8 × Nat} (haccepted : Accepted queued) (bytes : Nat) :
    Sent start { w with pendingBytes := bytes, pending := w.pending ++ [queued] } s (pushed ++ [queued]) := by
  obtain ⟨flushed, hpushed, hfiled, hgranule⟩ := h.flushed
  refine ⟨h.serial, fun other hother => ?_, h.partialPacket, h.resuming, flushed, ?_, hfiled, hgranule⟩
  · rcases List.mem_append.1 hother with hold | hnew
    · exact h.accepted other hold
    · rw [List.mem_singleton.1 hnew]
      exact haccepted
  · rw [← hpushed, append_assoc]

/-! ## Calls -/

/-- What is done with a writer before the end. -/
inductive Call where
  | push (packet : List UInt8) (granule : Nat)
  | flush

def Call.given : Call → List (List UInt8 × Nat)
  | .push packet granule => [(packet, granule)]
  | .flush => []

def call (w : OggPageWriter) : Call → List (Nat × OggPage) × OggPageWriter
  | .push packet granule => w.pushPacket packet granule
  | .flush => w.flush false

theorem Sent.call (h : Sent start w s pushed) (hbos : w.bosDone = true) (c : Call)
    (haccepted : ∀ queued ∈ c.given, Accepted queued) :
    Sent start (w.call c).2 ((w.call c).1.foldl (fun s n => s.parsePage n.2) s) (pushed ++ c.given) ∧
      (w.call c).2.bosDone = true ∧ (w.call c).2.serial = w.serial ∧
      ∀ n ∈ (w.call c).1, n.2.Fits ∧ n.2.serial = w.serial ∧ ¬ n.2.Flagged flagBos := by
  cases c with
  | flush =>
    obtain ⟨hcarries, hsent, -⟩ := h.emit false
    rw [Call.given, append_nil]
    exact ⟨hsent, hcarries.begun (Or.inl hbos), hcarries.serial, fun n hn =>
      ⟨(hcarries.fits n hn).1, (hcarries.fits n hn).2, hcarries.bos hbos n hn⟩⟩
  | push packet granule =>
    have hone : Accepted (packet, granule) := haccepted _ (mem_singleton_self _)
    have hcall : w.call (.push packet granule) = w.pushPacket packet granule := rfl
    rw [hcall, Call.given]
    unfold pushPacket
    dsimp only
    split_ifs with hwait
    · exact ⟨h.queue hone _, hbos, rfl, fun n hn => absurd hn not_mem_nil⟩
    · have hrest : Sent start { w with pendingBytes := w.pendingBytes + packet.length } s pushed :=
        ⟨h.serial, h.accepted, h.partialPacket, h.resuming, h.flushed⟩
      obtain ⟨hcarries, hsent, -⟩ := hrest.emit false
      exact ⟨hsent.queue hone _, hcarries.begun (Or.inl hbos), hcarries.serial, fun n hn =>
        ⟨(hcarries.fits n hn).1, (hcarries.fits n hn).2, hcarries.bos hbos n hn⟩⟩

end OggPageWriter

end Glass2Glass.Ogg
