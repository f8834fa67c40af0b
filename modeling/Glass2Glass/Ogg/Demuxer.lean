import Glass2Glass.Lib.Resume
import Glass2Glass.Ogg.Page

/-!
# The Ogg demuxer

A logical bitstream puts its packets together from the segments of its pages and keeps those that are headers apart
(`OggLogicalStream` in `g2g-plugins/src/ogg.rs`). The demuxer (`OggDemuxer`) looks for pages and gives each to its
bitstream. It works page by page (`OggDemuxer.drainPages_reaches`), and what it skips between pages it would also skip
in pieces (`OggDemuxer.pieces_eq`).
-/

namespace Glass2Glass.Ogg

open Words List

/-! ## Logical bitstreams -/

structure OggLogicalStream where
  serial : Nat
  chain : Nat
  slot : Nat
  partialPacket : List UInt8
  info : Option OggStreamInfo
  packetsSeen : Nat
  commentHeader : Option (List UInt8)
  headHeader : Option (List UInt8)
  setupHeader : Option (List UInt8)
  endGranulepos : Option Nat
  firstData : Option (Nat × Nat × Bool)
  audioFinalized : Nat
  completed : List (List UInt8)
  resuming : Bool
  resumeAnchor : Option (Nat × List UInt8)

/-- The packets of a codec that are headers, where their number is fixed. -/
def headerCount : Option OggCodec → Nat
  | some .opus => 2
  | some .vorbis => 3
  | some .theora => 3
  | _ => 0

namespace OggLogicalStream

def new (serial chain slot : Nat) : OggLogicalStream where
  serial := serial
  chain := chain
  slot := slot
  partialPacket := []
  info := none
  packetsSeen := 0
  commentHeader := none
  headHeader := none
  setupHeader := none
  endGranulepos := none
  firstData := none
  audioFinalized := 0
  completed := []
  resuming := false
  resumeAnchor := none

variable (s : OggLogicalStream)

/-- Start again in the middle of a file: the position goes, the codec and the headers stay. -/
def resumeMidStream : OggLogicalStream :=
  { s with
    partialPacket := []
    completed := []
    firstData := none
    audioFinalized := 0
    resuming := true
    resumeAnchor := none }

def takePackets : List (List UInt8) × OggLogicalStream :=
  (s.completed, { s with completed := [] })

def codec (s : OggLogicalStream) : Option OggCodec := s.info.map (·.codec)

variable (packet : List UInt8)

/-- The first packet names the codec. -/
def identify : OggLogicalStream :=
  { s with info := s.info.or (some (detect packet)) }

def complete : OggLogicalStream :=
  { s with
    packetsSeen := s.packetsSeen + 1
    audioFinalized := s.audioFinalized + 1
    completed := s.completed ++ [packet] }

/-- A packet of a bitstream whose codec is known. -/
def file : OggLogicalStream :=
  if s.codec = some .flac then
    if s.packetsSeen = 0 then { s with headHeader := some packet, packetsSeen := s.packetsSeen + 1 }
    else if byteAt packet 0 ≠ 0xFF then
      { s with
        commentHeader := if byteAt packet 0 &&& 0x7F = 4 then some packet else s.commentHeader
        packetsSeen := s.packetsSeen + 1 }
    else s.complete packet
  else if s.codec = some .vp8 ∧ vp8HeaderMagic <+: packet then
    { s with
      headHeader := if s.packetsSeen = 0 then some packet else s.headHeader
      packetsSeen := s.packetsSeen + 1 }
  else if s.packetsSeen < headerCount s.codec then
    { s with
      headHeader := if s.packetsSeen = 0 then some packet else s.headHeader
      commentHeader := if s.packetsSeen = 1 then some packet else s.commentHeader
      setupHeader := if s.packetsSeen = 2 then some packet else s.setupHeader
      packetsSeen := s.packetsSeen + 1 }
  else s.complete packet

/-- A whole packet. An empty one counts for Theora only. -/
def finalize : OggLogicalStream :=
  if packet = [] ∧ s.codec ≠ some .theora then s else (s.identify packet).file packet

/-- What the loop over the segments of a page carries: the packet so far, what is left of the body, and the last packet
that a landing dropped. -/
structure Lap where
  stream : OggLogicalStream
  acc : List UInt8
  body : List UInt8
  dropped : Option (List UInt8)

/-- One segment. A packet ends with the first that is not full. -/
def Lap.next (l : Lap) (seg : UInt8) : Lap :=
  let acc := l.acc ++ l.body.take seg.toNat
  let body := l.body.drop seg.toNat
  if seg < 255 then
    if l.stream.resuming then { l with acc := [], body, dropped := if acc = [] then l.dropped else some acc }
    else { l with stream := l.stream.finalize acc, acc := [], body }
  else { l with acc, body }

/-- The last page of a bitstream says where the bitstream ends. -/
def markEnd (p : OggPage) : OggLogicalStream :=
  if p.Flagged flagEos ∧ p.granule ≠ noGranule then { s with endGranulepos := some p.granule } else s

/-- The first granule position after a landing. -/
def markLanding (p : OggPage) (dropped : Option (List UInt8)) : OggLogicalStream :=
  if s.resuming ∧ p.granule ≠ noGranule then
    { s with resuming := false, resumeAnchor := some (p.granule, dropped.getD []) }
  else s

/-- The first granule position of a page that has packets behind the headers. -/
def markFirst (p : OggPage) : OggLogicalStream :=
  if s.firstData = none ∧ 0 < s.audioFinalized ∧ p.granule ≠ noGranule then
    { s with firstData := some (p.granule, s.audioFinalized, p.Flagged flagEos) }
  else s

def parsePage (p : OggPage) : OggLogicalStream :=
  let acc := if p.Flagged flagContinued then s.partialPacket else []
  let l := p.segments.foldl Lap.next ⟨{ s.markEnd p with partialPacket := [] }, acc, p.body, none⟩
  -- A packet beyond the cap is given up.
  let kept := if maxPacketBytes < l.acc.length then [] else l.acc
  ({ l.stream with partialPacket := kept }.markLanding p l.dropped).markFirst p

end OggLogicalStream

/-! ## The demuxer -/

structure OggDemuxer where
  buf : List UInt8
  streams : List OggLogicalStream
  groupingDone : Bool
  chain : Nat
  foreignPage : Bool

/-- The first place where the pattern stands. -/
def capturePosition : List UInt8 → Option Nat
  | [] => none
  | b :: rest =>
    if (b :: rest).take 4 = capturePattern then some 0 else (capturePosition rest).map (· + 1)

namespace OggDemuxer

def new : OggDemuxer where
  buf := []
  streams := []
  groupingDone := false
  chain := 0
  foreignPage := false

variable (d : OggDemuxer)

/-- Start again in the middle of a file, with the bitstreams of the chain. -/
def resumeMidStream : OggDemuxer :=
  { d with
    buf := []
    streams := (d.streams.filter fun s => s.chain = d.chain).map (·.resumeMidStream)
    groupingDone := true
    foreignPage := false }

/-- The next chain. Bitstreams that hold nothing are retired, and the oldest of too many. -/
def startChain : OggDemuxer :=
  let held := d.streams.filter fun s => s.completed ≠ [] ∨ s.partialPacket ≠ []
  { d with
    chain := min (d.chain + 1) (2 ^ 32 - 1)
    groupingDone := false
    foreignPage := true
    streams := held.drop (held.length - maxRetained) }

def enterChain (p : OggPage) : OggDemuxer :=
  if ¬ p.Flagged flagBos then { d with groupingDone := true }
  else if d.groupingDone then d.startChain
  else d

/-- Give a page to its bitstream. A new one is begun by the first pages of a chain, or by the first page of all. -/
def route (p : OggPage) : OggDemuxer :=
  match d.streams.findIdx? fun s => s.chain = d.chain ∧ s.serial = p.serial with
  | some i => { d with streams := d.streams.modify i (·.parsePage p) }
  | none =>
    let slot := (d.streams.filter fun s => s.chain = d.chain).length
    if ¬ ((p.Flagged flagBos ∧ ¬ d.groupingDone) ∨ d.streams = []) ∨ maxStreams ≤ slot then
      { d with foreignPage := true }
    else { d with streams := d.streams ++ [(OggLogicalStream.new p.serial d.chain slot).parsePage p] }

def parsePage (p : OggPage) : OggDemuxer := (d.enterChain p).route p

/-- The whole pages from a place on, and how many bytes are done with. A pattern may be split, so three bytes stay. -/
def parsePages (buf : List UInt8) : Nat → Nat → OggDemuxer → OggDemuxer × Nat
  | 0, place, d => (d, place)
  | fuel + 1, place, d =>
    match capturePosition (buf.drop place) with
    | none => (d, max place (buf.length - 3))
    | some pos =>
      match pageEnd (buf.drop (place + pos)) with
      | none => (d, place + pos)
      | some (tableEnd, total) =>
        parsePages buf fuel (place + pos + total)
          (d.parsePage (readPage ((buf.drop (place + pos)).take total) tableEnd))

def drainPages : OggDemuxer :=
  let (parsed, consumed) := parsePages d.buf (d.buf.length + 1) 0 d
  { parsed with buf := d.buf.drop consumed }

def append (data : List UInt8) : OggDemuxer := { d with buf := d.buf ++ data }

def pushData (data : List UInt8) : OggDemuxer := (d.append data).drainPages

/-! ## Page by page -/

/-- Skip to a pattern, or read the page at the start. -/
def step : Option OggDemuxer :=
  match capturePosition d.buf with
  | none => if d.buf.length ≤ 3 then none else some { d with buf := d.buf.drop (d.buf.length - 3) }
  | some 0 => (pageEnd d.buf).map fun found =>
      { d.parsePage (readPage (d.buf.take found.2) found.1) with buf := d.buf.drop found.2 }
  | some (pos + 1) => some { d with buf := d.buf.drop (pos + 1) }

end OggDemuxer

/-! ## The search for a pattern -/

variable {buf : List UInt8} {pos k : Nat}

theorem capturePosition_eq_none_iff : capturePosition buf = none ↔ ∀ i, (buf.drop i).take 4 ≠ capturePattern := by
  induction buf with
  | nil =>
    refine ⟨fun _ i hpattern => ?_, fun _ => rfl⟩
    rw [drop_nil] at hpattern
    exact cons_ne_nil _ _ hpattern.symm
  | cons b rest ih =>
    unfold capturePosition
    split_ifs with hpattern
    · exact ⟨fun hsome => hsome.elim, fun hnone => absurd hpattern (hnone 0)⟩
    · rw [Option.map_eq_none_iff, ih]
      refine ⟨fun hnone i => ?_, fun hnone i => hnone (i + 1)⟩
      cases i with
      | zero => exact hpattern
      | succ i => exact hnone i

theorem capturePosition_skip (hk : k ≤ buf.length) (hnone : ∀ i < k, (buf.drop i).take 4 ≠ capturePattern) :
    capturePosition buf = (capturePosition (buf.drop k)).map (· + k) := by
  induction k generalizing buf with
  | zero =>
    exact Option.map_id'.symm
  | succ k ih =>
    cases buf with
    | nil => exact absurd hk (Nat.not_succ_le_zero k)
    | cons b rest =>
      have hrest := ih (Nat.le_of_succ_le_succ hk) fun i hi => hnone (i + 1) (Nat.succ_lt_succ hi)
      have hfirst : (b :: rest).take 4 ≠ capturePattern := hnone 0 (Nat.zero_lt_succ k)
      rw [capturePosition, if_neg hfirst, hrest, Option.map_map, drop_succ_cons]
      rfl

theorem capturePosition_of_pattern (h : buf.take 4 = capturePattern) : capturePosition buf = some 0 := by
  cases buf with
  | nil => exact absurd h.symm (cons_ne_nil _ _)
  | cons b rest => exact if_pos h

section

variable (h : capturePosition buf = some pos)

include h

theorem capturePosition_eq_some :
    (buf.drop pos).take 4 = capturePattern ∧ ∀ i < pos, (buf.drop i).take 4 ≠ capturePattern := by
  induction buf generalizing pos with
  | nil => cases h
  | cons b rest ih =>
    unfold capturePosition at h
    split_ifs at h with hpattern
    · cases h
      exact ⟨hpattern, fun i hi => absurd hi (Nat.not_lt_zero i)⟩
    · obtain ⟨pos, hrest, rfl⟩ := Option.map_eq_some_iff.1 h
      obtain ⟨hfound, hnone⟩ := ih hrest
      refine ⟨hfound, fun i hi => ?_⟩
      cases i with
      | zero => exact hpattern
      | succ i => exact hnone i (Nat.lt_of_succ_lt_succ hi)

theorem capturePosition_bound : pos + 4 ≤ buf.length := by
  have hlength := congrArg List.length (capturePosition_eq_some h).1
  rw [length_take, length_drop] at hlength
  have hfour : capturePattern.length = 4 := rfl
  omega

theorem capturePosition_drop : capturePosition (buf.drop pos) = some 0 :=
  capturePosition_of_pattern (capturePosition_eq_some h).1

theorem capturePosition_append (more : List UInt8) :
    capturePosition (buf ++ more) = some pos := by
  have hbound := capturePosition_bound h
  obtain ⟨hfound, hnone⟩ := capturePosition_eq_some h
  have hsame : ∀ i ≤ pos, ((buf ++ more).drop i).take 4 = (buf.drop i).take 4 := by
    intro i hi
    rw [drop_append_of_le_length (by omega), take_append_of_le_length (by rw [length_drop]; omega)]
  have hskip : capturePosition (buf ++ more) = (capturePosition ((buf ++ more).drop pos)).map (· + pos) :=
    capturePosition_skip (by rw [length_append]; omega) fun i hi => by
      rw [hsame i hi.le]
      exact hnone i hi
  rw [hskip, capturePosition_of_pattern ((hsame pos le_rfl).trans hfound), Option.map_some, Nat.zero_add]

end

theorem capturePosition_append_of_none (h : capturePosition buf = none) (more : List UInt8) :
    capturePosition (buf ++ more) =
      (capturePosition ((buf ++ more).drop (buf.length - 3))).map (· + (buf.length - 3)) := by
  refine capturePosition_skip (by rw [length_append]; omega) fun i hi => ?_
  rw [drop_append_of_le_length (by omega), take_append_of_le_length (by rw [length_drop]; omega)]
  exact capturePosition_eq_none_iff.1 h i

namespace OggDemuxer

variable {d last : OggDemuxer} {fuel place : Nat}

/-! ## The run and the steps -/

theorem parsePage_buf (d : OggDemuxer) (p : OggPage) (buf : List UInt8) :
    { d with buf }.parsePage p = { d.parsePage p with buf } := by
  have henter : { d with buf }.enterChain p = { d.enterChain p with buf } := by
    unfold enterChain
    split_ifs <;> rfl
  have hroute : ∀ d : OggDemuxer, { d with buf }.route p = { d.route p with buf } := by
    intro d
    unfold route
    cases d.streams.findIdx? fun s => s.chain = d.chain ∧ s.serial = p.serial with
    | some i => rfl
    | none =>
      dsimp only
      split_ifs <;> rfl
  unfold parsePage
  rw [henter, hroute]

theorem reaches_skip (h : capturePosition d.buf = some pos) :
    Resume.Reaches step d last ↔ Resume.Reaches step { d with buf := d.buf.drop pos } last := by
  cases pos with
  | zero => exact Iff.rfl
  | succ pos =>
    have hstep : step d = some { d with buf := d.buf.drop (pos + 1) } := by
      unfold step
      rw [h]
    refine ⟨fun hlast => ?_, Resume.Reaches.step hstep⟩
    cases hlast with
    | waits hwait =>
      rw [hstep] at hwait
      cases hwait
    | step hone hrest =>
      rw [hstep] at hone
      cases hone
      exact hrest

theorem reaches_none (h : capturePosition d.buf = none) :
    Resume.Reaches step d { d with buf := d.buf.drop (d.buf.length - 3) } := by
  have hwait : step { d with buf := d.buf.drop (d.buf.length - 3) } = none := by
    have hnone : capturePosition (d.buf.drop (d.buf.length - 3)) = none :=
      capturePosition_eq_none_iff.2 fun i => by
        rw [drop_drop]
        exact capturePosition_eq_none_iff.1 h _
    unfold step
    rw [hnone]
    exact if_pos (by rw [length_drop]; omega)
  by_cases hshort : d.buf.length ≤ 3
  · rw [Nat.sub_eq_zero_of_le hshort] at hwait ⊢
    exact .waits hwait
  · refine .step ?_ (.waits hwait)
    unfold step
    rw [h]
    exact if_neg hshort

theorem step_page {tableEnd total : Nat} (hpattern : capturePosition d.buf = some 0)
    (hpage : pageEnd d.buf = some (tableEnd, total)) :
    step d = some { d.parsePage (readPage (d.buf.take total) tableEnd) with buf := d.buf.drop total } := by
  unfold step
  rw [hpattern, hpage]
  rfl

theorem step_wait (hpattern : capturePosition d.buf = some 0) (hpage : pageEnd d.buf = none) : step d = none := by
  unfold step
  rw [hpattern, hpage]
  rfl

theorem parsePages_reaches (hplace : place ≤ buf.length) (hfuel : buf.length < place + fuel) :
    Resume.Reaches step { d with buf := buf.drop place }
      { (parsePages buf fuel place d).1 with buf := buf.drop (parsePages buf fuel place d).2 } := by
  induction fuel generalizing place d with
  | zero => omega
  | succ fuel ih =>
    unfold parsePages
    cases hpos : capturePosition (buf.drop place) with
    | none =>
      have hreaches := @reaches_none { d with buf := buf.drop place } hpos
      have hrest : (buf.drop place).drop ((buf.drop place).length - 3) = buf.drop (max place (buf.length - 3)) := by
        rw [drop_drop, length_drop]
        congr 1
        omega
      rwa [hrest] at hreaches
    | some pos =>
      have hbound := capturePosition_bound hpos
      have hstart := capturePosition_drop hpos
      rw [drop_drop] at hstart
      refine (@reaches_skip pos { d with buf := buf.drop place } _ hpos).2 ?_
      dsimp only
      rw [drop_drop]
      cases hpage : pageEnd (buf.drop (place + pos)) with
      | none => exact .waits (@step_wait { d with buf := buf.drop (place + pos) } hstart hpage)
      | some found =>
        obtain ⟨tableEnd, total⟩ := found
        obtain ⟨hheader, htable, htotal⟩ := pageEnd_bounds hpage
        have hlen : headerLen = 27 := rfl
        rw [length_drop] at htotal
        have hstep := @step_page { d with buf := buf.drop (place + pos) } _ _ hstart hpage
        rw [parsePage_buf] at hstep
        dsimp only at hstep
        rw [drop_drop] at hstep
        exact .step hstep (ih (by omega) (by omega))

theorem drainPages_reaches (d : OggDemuxer) : Resume.Reaches step d d.drainPages := by
  have hfuel : d.buf.length < 0 + (d.buf.length + 1) := by omega
  exact @parsePages_reaches d.buf d _ 0 (Nat.zero_le _) hfuel

/-! ## Pieces of a file -/

/-- Whatever follows, the steps so far lead to the same end. -/
theorem resumable : Resume.Resumable step append fun _ => True where
  append_nil d := by
    unfold append
    rw [append_nil]
  append_append d a b := by
    unfold append
    rw [append_assoc]
  step {d d'} hstep more _ := by
    refine ⟨trivial, fun last hlast => ?_⟩
    cases hpos : capturePosition d.buf with
    | none =>
      have hmore := capturePosition_append_of_none hpos more
      unfold step at hstep
      rw [hpos] at hstep
      split_ifs at hstep with hshort
      cases hstep
      have hlast' : Resume.Reaches step { d with buf := (d.buf ++ more).drop (d.buf.length - 3) } last := by
        rw [drop_append_of_le_length (Nat.sub_le _ _)]
        exact hlast
      cases hfound : capturePosition ((d.buf ++ more).drop (d.buf.length - 3)) with
      | some pos =>
        -- The pattern that the bytes left over make with the new ones is the first of all the bytes.
        rw [hfound, Option.map_some] at hmore
        have hrest := (@reaches_skip _ { d with buf := (d.buf ++ more).drop (d.buf.length - 3) } _ hfound).1 hlast'
        rw [drop_drop, Nat.add_comm] at hrest
        exact (@reaches_skip _ (d.append more) _ hmore).2 hrest
      | none =>
        rw [hfound, Option.map_none] at hmore
        have hwhole := @reaches_none (d.append more) hmore
        have hpart := @reaches_none { d with buf := (d.buf ++ more).drop (d.buf.length - 3) } hfound
        have hsame : ((d.buf ++ more).drop (d.buf.length - 3)).drop
            (((d.buf ++ more).drop (d.buf.length - 3)).length - 3) =
              (d.buf ++ more).drop ((d.buf ++ more).length - 3) := by
          rw [drop_drop, length_drop, length_append]
          congr 1
          omega
        rw [hsame] at hpart
        rw [hlast'.unique hpart]
        exact hwhole
    | some pos =>
      have hmore := capturePosition_append hpos more
      have hbound := capturePosition_bound hpos
      unfold step at hstep
      rw [hpos] at hstep
      cases pos with
      | succ pos =>
        cases hstep
        refine (@reaches_skip _ (d.append more) _ hmore).2 ?_
        have hdrop : (d.append more).buf.drop (pos + 1) = d.buf.drop (pos + 1) ++ more :=
          drop_append_of_le_length (by omega)
        rw [hdrop]
        exact hlast
      | zero =>
        dsimp only at hstep
        obtain ⟨⟨tableEnd, total⟩, hpage, rfl⟩ := Option.map_eq_some_iff.1 hstep
        obtain ⟨-, -, htotal⟩ := pageEnd_bounds hpage
        have hone := @step_page (d.append more) _ _ hmore (pageEnd_append hpage more)
        have htake : (d.append more).buf.take total = d.buf.take total := take_append_of_le_length htotal
        have hdrop : (d.append more).buf.drop total = d.buf.drop total ++ more :=
          drop_append_of_le_length htotal
        have hpage' : (d.append more).parsePage (readPage (d.buf.take total) tableEnd) =
            { d.parsePage (readPage (d.buf.take total) tableEnd) with buf := d.buf ++ more } :=
          parsePage_buf _ _ _
        rw [htake, hdrop, hpage'] at hone
        exact .step hone hlast

theorem reaches_pieces (hwait : step d = none) (pieces : List (List UInt8)) :
    Resume.Reaches step (d.append pieces.flatten) (pieces.foldl pushData d) :=
  Resume.reaches_pieces resumable (fun d piece => drainPages_reaches (d.append piece)) hwait pieces trivial

theorem pieces_eq {pieces pieces' : List (List UInt8)} (hwait : step d = none)
    (hsame : pieces.flatten = pieces'.flatten) : pieces.foldl pushData d = pieces'.foldl pushData d := by
  have hreaches := reaches_pieces hwait pieces
  rw [hsame] at hreaches
  exact hreaches.unique (reaches_pieces hwait pieces')

end OggDemuxer

end Glass2Glass.Ogg
