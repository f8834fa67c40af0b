import Glass2Glass.Ogg.Stream

/-!
# Pages and their bitstreams

In the first chain a page goes to the bitstream with its serial number, and no other bitstream notices
(`OggDemuxer.streams_known`). As long as no chain ends, packets can be taken at any time without a difference to what is
parsed (`OggDemuxer.untaken_run`).
-/

namespace Glass2Glass.Ogg

open Words List Function

/-! ## Where a bitstream is -/

namespace OggLogicalStream

variable {s : OggLogicalStream} {p : OggPage}

/-- What pages are routed by. -/
def key (s : OggLogicalStream) : Nat × Nat := (s.chain, s.serial)

theorem next_key (l : Lap) (seg : UInt8) : (l.next seg).stream.key = l.stream.key := by
  have hfinalize : ∀ packet, (l.stream.finalize packet).key = l.stream.key := fun packet =>
    congrArg (fun place : Nat × Nat × Nat × Bool => (place.2.1, place.1)) (finalize_place l.stream packet)
  unfold Lap.next
  dsimp only
  split_ifs
  · rfl
  · rfl
  · exact hfinalize _
  · rfl

theorem parsePage_key (s : OggLogicalStream) (p : OggPage) : (s.parsePage p).key = s.key := by
  have hfoldl : ∀ (segs : List UInt8) (l : Lap), (segs.foldl Lap.next l).stream.key = l.stream.key := by
    intro segs
    induction segs with
    | nil => exact fun _ => rfl
    | cons seg segs ih => exact fun l => (ih (l.next seg)).trans (next_key l seg)
  have hend : (s.markEnd p).key = s.key := by
    unfold markEnd
    split_ifs <;> rfl
  have hlanding : ∀ (s : OggLogicalStream) dropped, (s.markLanding p dropped).key = s.key := by
    intro s dropped
    unfold markLanding
    split_ifs <;> rfl
  have hmark : ∀ s : OggLogicalStream, (s.markFirst p).key = s.key := by
    intro s
    unfold markFirst
    split_ifs <;> rfl
  unfold parsePage
  rw [hmark, hlanding]
  exact (hfoldl _ _).trans hend

theorem next_untaken (taken : List (List UInt8)) (l : Lap) (seg : UInt8) :
    Lap.next { l with stream := l.stream.untaken taken } seg =
      { l.next seg with stream := (l.next seg).stream.untaken taken } := by
  unfold Lap.next
  dsimp only
  rw [finalize_untaken]
  have hresuming : (l.stream.untaken taken).resuming = l.stream.resuming := rfl
  rw [hresuming]
  split_ifs <;> rfl

theorem parsePage_untaken (taken : List (List UInt8)) (s : OggLogicalStream) (p : OggPage) :
    (s.untaken taken).parsePage p = (s.parsePage p).untaken taken := by
  have hfoldl : ∀ (segs : List UInt8) (l : Lap), segs.foldl Lap.next { l with stream := l.stream.untaken taken } =
      { segs.foldl Lap.next l with stream := (segs.foldl Lap.next l).stream.untaken taken } := by
    intro segs
    induction segs with
    | nil => exact fun _ => rfl
    | cons seg segs ih =>
      intro l
      rw [foldl_cons, next_untaken, ih]
      rfl
  have hend : (s.untaken taken).markEnd p = (s.markEnd p).untaken taken := by
    unfold markEnd
    split_ifs <;> rfl
  have hlanding : ∀ (s : OggLogicalStream) dropped,
      (s.untaken taken).markLanding p dropped = (s.markLanding p dropped).untaken taken := by
    intro s dropped
    unfold markLanding untaken
    split_ifs <;> rfl
  have hmark : ∀ s : OggLogicalStream, (s.untaken taken).markFirst p = (s.markFirst p).untaken taken := by
    intro s
    unfold markFirst untaken
    split_ifs <;> rfl
  have hbegun : ({ (s.untaken taken).markEnd p with partialPacket := [] } : OggLogicalStream) =
      ({ s.markEnd p with partialPacket := [] } : OggLogicalStream).untaken taken := by
    rw [hend]
    rfl
  have hacc : (s.untaken taken).partialPacket = s.partialPacket := rfl
  have hlap := hfoldl p.segments ⟨{ s.markEnd p with partialPacket := [] },
    if p.Flagged flagContinued then s.partialPacket else [], p.body, none⟩
  unfold parsePage
  dsimp only
  rw [hacc, hbegun]
  rw [hlap, ← hmark, ← hlanding]
  rfl

end OggLogicalStream

namespace OggDemuxer

open OggLogicalStream (key)

variable {d last : OggDemuxer} {p : OggPage}

/-- The first chain has not ended, and no two of its bitstreams have the same number. -/
structure FirstChain (d : OggDemuxer) : Prop where
  chain : d.chain = 0
  streams : ∀ s ∈ d.streams, s.chain = 0
  serials : (d.streams.map (·.serial)).Nodup

theorem modify_eq_map {α : Type} {mark : α → Nat} {m i : Nat} {l : List α} (f : α → α) (hnodup : (l.map mark).Nodup)
    (h : l.findIdx? (fun a => decide (mark a = m)) = some i) :
    l.modify i f = l.map fun a => if mark a = m then f a else a := by
  induction l generalizing i with
  | nil => cases h
  | cons a l ih =>
    rw [map_cons, nodup_cons] at hnodup
    rw [List.findIdx?_cons] at h
    by_cases ha : mark a = m
    · rw [decide_eq_true ha] at h
      cases h
      have hothers : l.map (fun a => if mark a = m then f a else a) = l := by
        refine (map_congr_left fun b hb => if_neg fun hsame => ?_).trans (map_id' l)
        exact hnodup.1 (ha.trans hsame.symm ▸ mem_map_of_mem hb)
      rw [modify_zero_cons, map_cons, if_pos ha, hothers]
    · rw [decide_eq_false ha] at h
      obtain ⟨i, hi, rfl⟩ := Option.map_eq_some_iff.1 h
      rw [modify_succ_cons, map_cons, if_neg ha, ih hnodup.2 hi]

theorem findIdx?_serial (h : FirstChain d) (serial : Nat) :
    d.streams.findIdx? (fun s => s.chain = d.chain ∧ s.serial = serial) =
      d.streams.findIdx? fun s => decide (s.serial = serial) := by
  have hchains := h.streams
  rw [h.chain]
  generalize d.streams = streams at hchains
  induction streams with
  | nil => rfl
  | cons s streams ih =>
    have hthis : decide (s.chain = 0 ∧ s.serial = serial) = decide (s.serial = serial) :=
      decide_eq_decide.2 (and_iff_right (hchains s mem_cons_self))
    rw [List.findIdx?_cons, List.findIdx?_cons, hthis, ih fun other hother => hchains other (mem_cons_of_mem _ hother)]

theorem parsePage_known (h : FirstChain d) (hbos : ¬ p.Flagged flagBos) (hserial : p.serial ∈ d.streams.map (·.serial)) :
    d.parsePage p = { d with
      groupingDone := true
      streams := d.streams.map fun s => if s.serial = p.serial then s.parsePage p else s } := by
  obtain ⟨i, hi⟩ : ∃ i, d.streams.findIdx? (fun s => decide (s.serial = p.serial)) = some i := by
    obtain ⟨s, hs, hsame⟩ := List.mem_map.1 hserial
    cases hfound : d.streams.findIdx? fun s => decide (s.serial = p.serial) with
    | none =>
      have hnone := List.findIdx?_eq_none_iff.1 hfound s hs
      rw [decide_eq_true hsame] at hnone
      cases hnone
    | some i => exact ⟨i, rfl⟩
  have hfound := (findIdx?_serial h p.serial).trans hi
  unfold parsePage enterChain route
  rw [if_pos hbos]
  rw [hfound]
  dsimp only
  rw [modify_eq_map _ h.serials hi]

theorem FirstChain.known (h : FirstChain d) (hbos : ¬ p.Flagged flagBos)
    (hserial : p.serial ∈ d.streams.map (·.serial)) :
    FirstChain (d.parsePage p) ∧ (d.parsePage p).streams.map (·.serial) = d.streams.map (·.serial) := by
  have hkey : ∀ s : OggLogicalStream, (if s.serial = p.serial then s.parsePage p else s).key = s.key := by
    intro s
    split_ifs
    · exact OggLogicalStream.parsePage_key s p
    · rfl
  have hserials : (d.parsePage p).streams.map (·.serial) = d.streams.map (·.serial) := by
    rw [parsePage_known h hbos hserial, map_map]
    exact map_congr_left fun s _ => congrArg Prod.snd (hkey s)
  refine ⟨⟨?_, fun s hs => ?_, hserials ▸ h.serials⟩, hserials⟩
  · rw [parsePage_known h hbos hserial]
    exact h.chain
  · rw [parsePage_known h hbos hserial] at hs
    obtain ⟨before, hbefore, rfl⟩ := List.mem_map.1 hs
    exact (congrArg Prod.fst (hkey before)).trans (h.streams before hbefore)

/-- Bytes that arrive, or a bitstream whose packets are taken. -/
inductive Feed where
  | push (piece : List UInt8)
  | take (index : Nat)

def Feed.piece : Feed → Option (List UInt8)
  | .push piece => some piece
  | .take _ => none

/-- What was taken of each bitstream, and the demuxer. -/
def feed (t : (Nat → List (List UInt8)) × OggDemuxer) : Feed → (Nat → List (List UInt8)) × OggDemuxer
  | .push piece => (t.1, t.2.pushData piece)
  | .take i =>
    match t.2.streams[i]? with
    | none => t
    | some s =>
      (Function.update t.1 i (t.1 i ++ s.takePackets.1), { t.2 with streams := t.2.streams.set i s.takePackets.2 })

/-- The demuxer with the packets back that were taken. -/
def untaken (taken : Nat → List (List UInt8)) (d : OggDemuxer) : OggDemuxer :=
  { d with streams := d.streams.mapIdx fun i s => s.untaken (taken i) }

/-- Nothing was taken of a bitstream that is not there. -/
def Bounded (taken : Nat → List (List UInt8)) (d : OggDemuxer) : Prop := ∀ i, d.streams.length ≤ i → taken i = []

variable {taken : Nat → List (List UInt8)}

theorem map_key_untaken (taken : Nat → List (List UInt8)) (d : OggDemuxer) :
    (d.untaken taken).streams.map key = d.streams.map key := by
  refine ext_getElem? fun i => ?_
  unfold untaken
  rw [List.getElem?_map, List.getElem?_mapIdx, List.getElem?_map]
  cases d.streams[i]? <;> rfl

theorem findIdx?_key (streams : List OggLogicalStream) (chain serial : Nat) :
    streams.findIdx? (fun s => s.chain = chain ∧ s.serial = serial) =
      (streams.map key).findIdx? fun k => k.1 = chain ∧ k.2 = serial := by
  rw [List.findIdx?_map]
  rfl

theorem length_filter_key (streams : List OggLogicalStream) (chain : Nat) :
    (streams.filter fun s => s.chain = chain).length = ((streams.map key).filter fun k => k.1 = chain).length := by
  rw [filter_map, length_map]
  rfl

theorem route_untaken (h : Bounded taken d) (p : OggPage) : (d.untaken taken).route p = (d.route p).untaken taken := by
  have hkeys := map_key_untaken taken d
  have hfind : (d.untaken taken).streams.findIdx? (fun s => s.chain = (d.untaken taken).chain ∧ s.serial = p.serial) =
      d.streams.findIdx? fun s => s.chain = d.chain ∧ s.serial = p.serial := by
    rw [findIdx?_key, hkeys, findIdx?_key]
    rfl
  have hslot : ((d.untaken taken).streams.filter fun s => s.chain = (d.untaken taken).chain).length =
      (d.streams.filter fun s => s.chain = d.chain).length := by
    rw [length_filter_key, hkeys, length_filter_key]
    rfl
  have hempty : (d.untaken taken).streams = [] ↔ d.streams = [] := by
    exact mapIdx_eq_nil_iff
  unfold route
  rw [hfind]
  cases d.streams.findIdx? fun s => s.chain = d.chain ∧ s.serial = p.serial with
  | some i =>
    unfold untaken
    dsimp only
    congr 1
    refine ext_getElem? fun j => ?_
    rw [List.getElem?_modify, List.getElem?_mapIdx, List.getElem?_mapIdx, List.getElem?_modify]
    cases d.streams[j]? with
    | none => rfl
    | some s =>
      show some (if i = j then (s.untaken (taken j)).parsePage p else s.untaken (taken j)) =
        some (OggLogicalStream.untaken (taken j) (if i = j then s.parsePage p else s))
      split_ifs
      · rw [OggLogicalStream.parsePage_untaken]
      · rfl
  | none =>
    rw [hslot]
    have hsame : (¬ ((p.Flagged flagBos ∧ ¬ (d.untaken taken).groupingDone = true) ∨ (d.untaken taken).streams = []) ∨
        maxStreams ≤ (d.streams.filter fun s => s.chain = d.chain).length) ↔
        (¬ ((p.Flagged flagBos ∧ ¬ d.groupingDone = true) ∨ d.streams = []) ∨
          maxStreams ≤ (d.streams.filter fun s => s.chain = d.chain).length) := by
      rw [hempty]
      rfl
    by_cases hrefused : ¬ ((p.Flagged flagBos ∧ ¬ d.groupingDone = true) ∨ d.streams = []) ∨
        maxStreams ≤ (d.streams.filter fun s => s.chain = d.chain).length
    · rw [if_pos (hsame.2 hrefused), if_pos hrefused]
      rfl
    · rw [if_neg (mt hsame.1 hrefused), if_neg hrefused]
      unfold untaken
      dsimp only
      rw [mapIdx_concat, h _ le_rfl]
      rfl

theorem route_chain (d : OggDemuxer) (p : OggPage) : (d.route p).chain = d.chain := by
  unfold route
  cases d.streams.findIdx? fun s => s.chain = d.chain ∧ s.serial = p.serial with
  | some i => rfl
  | none =>
    dsimp only
    split_ifs <;> rfl

theorem parsePage_chain (h : d.chain ≠ 0 ∨ (p.Flagged flagBos ∧ d.groupingDone = true)) :
    (d.parsePage p).chain ≠ 0 := by
  have hstart : d.startChain.chain ≠ 0 := by
    show min (d.chain + 1) (2 ^ 32 - 1) ≠ 0
    omega
  unfold parsePage
  rw [route_chain]
  unfold enterChain
  by_cases hbos : p.Flagged flagBos
  · rw [if_neg (not_not.2 hbos)]
    split_ifs with hdone
    · exact hstart
    · exact h.resolve_right fun hboth => hdone hboth.2
  · rw [if_pos hbos]
    exact h.resolve_right fun hboth => hbos hboth.1

theorem length_route (d : OggDemuxer) (p : OggPage) : d.streams.length ≤ (d.route p).streams.length := by
  unfold route
  cases d.streams.findIdx? fun s => s.chain = d.chain ∧ s.serial = p.serial with
  | some i => exact (length_modify _ _ _).ge
  | none =>
    dsimp only
    split_ifs
    · exact le_rfl
    · rw [length_append]
      exact Nat.le_add_right _ _

theorem parsePage_untaken (h : Bounded taken d) (hchain : (d.parsePage p).chain = 0) :
    (d.untaken taken).parsePage p = (d.parsePage p).untaken taken ∧ Bounded taken (d.parsePage p) := by
  have hgroup : p.Flagged flagBos → ¬ d.groupingDone = true := fun hbos hdone =>
    parsePage_chain (Or.inr ⟨hbos, hdone⟩) hchain
  have henter : (d.untaken taken).enterChain p = (d.enterChain p).untaken taken ∧
      (d.enterChain p).streams = d.streams := by
    unfold enterChain
    by_cases hbos : p.Flagged flagBos
    · rw [if_neg (not_not.2 hbos), if_neg (not_not.2 hbos), if_neg (hgroup hbos)]
      exact ⟨if_neg (hgroup hbos), rfl⟩
    · rw [if_pos hbos, if_pos hbos]
      exact ⟨rfl, rfl⟩
  obtain ⟨hsame, hstreams⟩ := henter
  have hbounded : Bounded taken (d.enterChain p) := fun i hi => h i (hstreams ▸ hi)
  unfold parsePage
  rw [hsame, route_untaken hbounded]
  exact ⟨rfl, fun i hi => hbounded i ((length_route _ _).trans hi)⟩

theorem parsePage_untaken_chain (taken : Nat → List (List UInt8)) (d : OggDemuxer) (p : OggPage) :
    ((d.untaken taken).parsePage p).chain = (d.parsePage p).chain := by
  unfold parsePage
  rw [route_chain, route_chain]
  unfold enterChain
  have hdone : (d.untaken taken).groupingDone = d.groupingDone := rfl
  rw [hdone]
  split_ifs <;> rfl

theorem step_untaken {d' : OggDemuxer} (h : Bounded taken d) (hstep : step d = some d') :
    ∃ t, step (d.untaken taken) = some t ∧ t.chain = d'.chain ∧
      (d'.chain = 0 → t = d'.untaken taken ∧ Bounded taken d') := by
  have hbuf : (d.untaken taken).buf = d.buf := rfl
  unfold step at hstep ⊢
  rw [hbuf]
  cases hpos : capturePosition d.buf with
  | none =>
    rw [hpos] at hstep
    split_ifs at hstep ⊢
    cases hstep
    exact ⟨_, rfl, rfl, fun _ => ⟨rfl, h⟩⟩
  | some pos =>
    rw [hpos] at hstep
    cases pos with
    | succ pos =>
      cases hstep
      exact ⟨_, rfl, rfl, fun _ => ⟨rfl, h⟩⟩
    | zero =>
      obtain ⟨⟨tableEnd, total⟩, hpage, rfl⟩ := Option.map_eq_some_iff.1 hstep
      rw [hpage, Option.map_some]
      refine ⟨_, rfl, parsePage_untaken_chain _ _ _, fun hchain => ?_⟩
      obtain ⟨hparsed, hbounded⟩ := parsePage_untaken h hchain
      rw [hparsed]
      exact ⟨rfl, hbounded⟩

theorem step_chain {d' : OggDemuxer} (hstep : step d = some d') (hchain : d.chain ≠ 0) : d'.chain ≠ 0 := by
  unfold step at hstep
  cases hpos : capturePosition d.buf with
  | none =>
    rw [hpos] at hstep
    split_ifs at hstep
    cases hstep
    exact hchain
  | some pos =>
    rw [hpos] at hstep
    cases pos with
    | succ pos =>
      cases hstep
      exact hchain
    | zero =>
      obtain ⟨found, hpage, rfl⟩ := Option.map_eq_some_iff.1 hstep
      exact parsePage_chain (Or.inl hchain)

theorem reaches_chain (h : Resume.Reaches step d last) (hchain : d.chain ≠ 0) : last.chain ≠ 0 := by
  induction h with
  | waits _ => exact hchain
  | step hstep _ ih => exact ih (step_chain hstep hchain)

theorem step_untaken_none (h : step d = none) : step (d.untaken taken) = none := by
  have hbuf : (d.untaken taken).buf = d.buf := rfl
  unfold step at h ⊢
  rw [hbuf]
  cases hpos : capturePosition d.buf with
  | none =>
    rw [hpos] at h
    split_ifs at h ⊢
    rfl
  | some pos =>
    rw [hpos] at h
    cases pos with
    | succ pos => cases h
    | zero =>
      rw [Option.map_eq_none_iff.1 h]
      rfl

theorem reaches_untaken (h : Resume.Reaches step (d.untaken taken) last) (hbounded : Bounded taken d)
    (hchain : last.chain = 0) :
    ∃ last', Resume.Reaches step d last' ∧ last = last'.untaken taken ∧ Bounded taken last' := by
  generalize hd : d.untaken taken = t at h
  induction h generalizing d with
  | waits hwait =>
    subst hd
    refine ⟨d, .waits ?_, rfl, hbounded⟩
    cases hstep : step d with
    | none => rfl
    | some d' =>
      obtain ⟨t, ht, -⟩ := step_untaken hbounded hstep
      rw [hwait] at ht
      cases ht
  | step hone hrest ih =>
    subst hd
    cases hstep : step d with
    | none =>
      rw [step_untaken_none hstep] at hone
      cases hone
    | some d' =>
      obtain ⟨t, ht, htchain, hsame⟩ := step_untaken hbounded hstep
      rw [hone] at ht
      cases ht
      have hzero : d'.chain = 0 := by
        by_contra hne
        exact reaches_chain hrest (htchain ▸ hne) hchain
      obtain ⟨heq, hbounded'⟩ := hsame hzero
      obtain ⟨last', hlast, hend, hboundedEnd⟩ := ih hbounded' hchain heq.symm
      exact ⟨last', .step hstep hlast, hend, hboundedEnd⟩

/-! ## A whole run -/

theorem pushData_chain (h : d.chain ≠ 0) (pieces : List (List UInt8)) : (pieces.foldl pushData d).chain ≠ 0 := by
  induction pieces generalizing d with
  | nil => exact h
  | cons piece pieces ih => exact ih (reaches_chain (drainPages_reaches (d.append piece)) h)

/-- If the chain does not end, it makes no difference when packets are taken. -/
theorem untaken_run (ops : List Feed) {t : (Nat → List (List UInt8)) × OggDemuxer} (hbounded : Bounded t.1 t.2)
    (hchain : ((ops.filterMap Feed.piece).foldl pushData (t.2.untaken t.1)).chain = 0) :
    (ops.foldl feed t).2.untaken (ops.foldl feed t).1 = (ops.filterMap Feed.piece).foldl pushData (t.2.untaken t.1) := by
  induction ops generalizing t with
  | nil => rfl
  | cons op ops ih =>
    cases op with
    | push piece =>
      have hpiece : Feed.piece (.push piece) = some piece := rfl
      rw [filterMap_cons_some hpiece, foldl_cons] at hchain
      rw [filterMap_cons_some hpiece, foldl_cons, foldl_cons]
      have hzero : ((t.2.untaken t.1).pushData piece).chain = 0 := by
        by_contra hne
        exact pushData_chain hne _ hchain
      have hreaches : Resume.Reaches step ((t.2.append piece).untaken t.1) ((t.2.untaken t.1).pushData piece) :=
        drainPages_reaches ((t.2.untaken t.1).append piece)
      obtain ⟨last, hlast, hsame, hbounded'⟩ := reaches_untaken hreaches hbounded hzero
      rw [hlast.unique (drainPages_reaches (t.2.append piece))] at hsame hbounded'
      rw [hsame] at hchain ⊢
      exact @ih (t.1, t.2.pushData piece) hbounded' hchain
    | take i =>
      have htake : Feed.piece (.take i) = none := rfl
      have hfeed : (feed t (.take i)).2.untaken (feed t (.take i)).1 = t.2.untaken t.1 ∧
          Bounded (feed t (.take i)).1 (feed t (.take i)).2 := by
        unfold feed
        dsimp only
        cases hs : t.2.streams[i]? with
        | none => exact ⟨rfl, hbounded⟩
        | some s =>
          refine ⟨?_, fun j hj => ?_⟩
          · unfold untaken
            dsimp only
            congr 1
            refine ext_getElem? fun j => ?_
            rw [List.getElem?_mapIdx, List.getElem?_mapIdx]
            by_cases hij : i = j
            · subst hij
              rw [List.getElem?_set_self (List.getElem?_eq_some_iff.1 hs).1, hs, Option.map_some, Option.map_some,
                update_self]
              unfold OggLogicalStream.untaken OggLogicalStream.takePackets
              rw [append_nil]
            · rw [List.getElem?_set_ne hij, update_of_ne fun heq => hij heq.symm]
          · dsimp only at hj ⊢
            rw [length_set] at hj
            have hi : i < t.2.streams.length := (List.getElem?_eq_some_iff.1 hs).1
            rw [update_of_ne (by omega)]
            exact hbounded j hj
      obtain ⟨hsame, hbounded'⟩ := hfeed
      rw [← hsame] at hchain ⊢
      exact ih hbounded' hchain

end OggDemuxer

end Glass2Glass.Ogg
