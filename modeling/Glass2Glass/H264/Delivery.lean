import Glass2Glass.H264.Depayloader
import Mathlib.Data.List.Chain

/-!
# Delivery of H.264

The packets of the packetizer, at the depayloader. In order, every access unit arrives
(`depacketizeAll_packetizeAll`). Under any other delivery `Fits` says what the buffer is worth: whole NAL units
of the access unit the last packet was of, one of them perhaps begun, and every payload keeps it so
(`Fits.step`). A packet out of order empties the buffer, which fits anywhere (`fits_anywhere`).
-/

namespace Glass2Glass.H264

open List

open Mcu (RtpHeader)

variable {maxPayload : Nat} {d : RtpH264Depayloader}

/-! ## What is left of an access unit -/

/-- What the buffer holds when `rest` are the payloads to come of an access unit, of which the NAL units `nals`
are going to be emitted. -/
inductive Fits (maxPayload : Nat) (nals : List Nal) (rest : List (List UInt8)) (d : RtpH264Depayloader) : Prop where
  /-- Between two NAL units. -/
  | boundary (collected later : List Nal) (hnals : nals = collected ++ later)
      (hrest : rest = later.flatMap (pieces maxPayload)) (hau : d.au = longForm collected)
      (hfragment : d.fragmentStart = none)
  /-- Inside a NAL unit. -/
  | started (collected later : List Nal) (nal : Nal) (got : List UInt8) (parts : List (List UInt8))
      (hnals : nals = collected ++ nal :: later)
      (hrest : rest = laterFragments nal.header parts ++ later.flatMap (pieces maxPayload)) (hparts : parts ≠ [])
      (hgot : nal.bytes = got ++ parts.flatten) (hau : d.au = longForm collected ++ annexBStartCode ++ got)
      (hfragment : d.fragmentStart = some (longForm collected).length)
  /-- Inside a NAL unit whose first fragment was lost. -/
  | skipping (header : UInt8) (parts : List (List UInt8))
      (hrest : rest = laterFragments header parts ++ nals.flatMap (pieces maxPayload)) (hparts : parts ≠ [])
      (hau : d.au = []) (hfragment : d.fragmentStart = none)

variable {nals : List Nal} {rest : List (List UInt8)}

theorem length_longForm_le {xs ys : List Nal} (h : xs <+: ys) : (longForm xs).length ≤ (longForm ys).length := by
  obtain ⟨zs, rfl⟩ := h
  rw [longForm_append, length_append]
  exact Nat.le_add_right _ _

/-- A payload takes the buffer on. -/
theorem Fits.step (hmax : fuAHeaderLen + 1 ≤ maxPayload) {piece : List UInt8}
    (h : Fits maxPayload nals (piece :: rest) d) (hlength : (longForm nals).length ≤ maxAssemblyBytes) :
    ∃ au fragmentStart, d.takePayload piece = ({ d with au, fragmentStart }, true) ∧
      Fits maxPayload nals rest { d with au, fragmentStart } := by
  cases h with
  | boundary collected later hnals hrest hau hfragment =>
    obtain ⟨nal, later, rfl⟩ : ∃ nal later', later = nal :: later' := by
      apply exists_cons_of_ne_nil
      rintro rfl
      cases hrest
    have hsplit : nals = (collected ++ [nal]) ++ later := by rw [hnals, append_assoc]; rfl
    have hfits : (d.au ++ annexBStartCode ++ nal.bytes).length ≤ maxAssemblyBytes := by
      refine (le_of_eq ?_).trans ((length_longForm_le ⟨later, hsplit.symm⟩).trans hlength)
      rw [hau, longForm_append, longForm_singleton, append_assoc]
    rw [flatMap_cons] at hrest
    by_cases hshort : nal.bytes.length ≤ maxPayload
    · have hpieces : pieces maxPayload nal = [nal.bytes] := by
        unfold pieces payloadsOf
        rw [if_pos hshort]
        rfl
      rw [hpieces, singleton_append, List.cons.injEq] at hrest
      obtain ⟨rfl, hrest⟩ := hrest
      refine ⟨_, d.fragmentStart, d.takePayload_whole nal hfragment hfits, ?_⟩
      refine .boundary (collected ++ [nal]) later hsplit hrest ?_ hfragment
      rw [longForm_append, longForm_singleton, ← append_assoc, ← hau]
    · obtain ⟨first, parts, hparts, hbytes, hpieces⟩ := pieces_fragments hmax hshort
      rw [hpieces, cons_append, List.cons.injEq] at hrest
      obtain ⟨rfl, hrest⟩ := hrest
      have hfirst : (d.au ++ annexBStartCode ++ (nal.header :: first)).length ≤ maxAssemblyBytes := by
        refine le_trans ?_ hfits
        rw [hbytes, ← cons_append, ← append_assoc _ (nal.header :: first)]
        exact (prefix_append _ _).length_le
      refine ⟨_, _, d.takePayload_first nal.header first hfragment hfirst, ?_⟩
      refine .started collected later nal (nal.header :: first) parts hnals hrest hparts hbytes ?_ ?_
      · rw [hau]
      · rw [hau]
  | started collected later nal got parts hnals hrest hparts hgot hau hfragment =>
    obtain ⟨part, parts, rfl⟩ := exists_cons_of_ne_nil hparts
    rw [laterFragments, cons_append, List.cons.injEq] at hrest
    obtain ⟨rfl, hrest⟩ := hrest
    have hsplit : nals = (collected ++ [nal]) ++ later := by rw [hnals, append_assoc]; rfl
    have hwhole : longForm (collected ++ [nal]) = d.au ++ part ++ parts.flatten := by
      rw [longForm_append, longForm_singleton, hgot, hau]
      simp only [flatten_cons, append_assoc]
    have hfits : (d.au ++ part).length ≤ maxAssemblyBytes := by
      refine le_trans ?_ ((length_longForm_le ⟨later, hsplit.symm⟩).trans hlength)
      rw [hwhole]
      exact (prefix_append _ _).length_le
    refine ⟨_, _, d.takePayload_later nal.header (parts = []) part hfragment hfits, ?_⟩
    by_cases hlast : parts = []
    · refine .boundary (collected ++ [nal]) later hsplit ?_ ?_ (if_pos hlast)
      · rw [hrest, hlast]
        rfl
      · rw [hwhole, hlast]
        exact (append_nil _).symm
    · refine .started collected later nal (got ++ part) parts hnals hrest hlast ?_ ?_ (if_neg hlast)
      · rw [hgot, flatten_cons, append_assoc]
      · rw [hau]
        exact append_assoc _ _ _
  | skipping header parts hrest hparts hau hfragment =>
    obtain ⟨part, parts, rfl⟩ := exists_cons_of_ne_nil hparts
    rw [laterFragments, cons_append, List.cons.injEq] at hrest
    obtain ⟨rfl, hrest⟩ := hrest
    refine ⟨d.au, d.fragmentStart, d.takePayload_skipped header (parts = []) part hfragment, ?_⟩
    by_cases hlast : parts = []
    · refine .boundary [] nals rfl ?_ hau hfragment
      rw [hrest, hlast]
      rfl
    · exact .skipping header parts hrest hlast hau hfragment

theorem Fits.done (hmax : fuAHeaderLen + 1 ≤ maxPayload) (h : Fits maxPayload nals [] d) :
    d.au = longForm nals ∧ d.fragmentStart = none := by
  cases h with
  | boundary collected later hnals hrest hau hfragment =>
    obtain rfl := (flatMap_pieces_eq_nil hmax).1 hrest.symm
    rw [hnals, append_nil]
    exact ⟨hau, hfragment⟩
  | started collected later nal got parts hnals hrest hparts | skipping header parts hrest hparts =>
    exact absurd (List.append_eq_nil_iff.1 hrest.symm).1 (laterFragments_ne_nil hparts)

theorem laterFragments_eq_append {header : UInt8} {parts : List (List UInt8)} {sent left : List (List UInt8)}
    (h : laterFragments header parts = sent ++ left) : ∃ parts', left = laterFragments header parts' := by
  induction sent generalizing parts with
  | nil => exact ⟨parts, h.symm⟩
  | cons piece sent ih =>
    rcases parts with _ | ⟨part, parts⟩
    · cases h
    · rw [laterFragments, cons_append, List.cons.injEq] at h
      exact ih h.2

theorem fits_anywhere (hmax : fuAHeaderLen + 1 ≤ maxPayload) {sent : List (List UInt8)} {unit : List Nal}
    (h : unit.flatMap (pieces maxPayload) = sent ++ rest) (hau : d.au = []) (hfragment : d.fragmentStart = none) :
    ∃ nals, nals <:+ unit ∧ Fits maxPayload nals rest d := by
  induction unit generalizing sent with
  | nil =>
    refine ⟨[], suffix_refl _, .boundary [] [] rfl ?_ hau hfragment⟩
    exact (List.append_eq_nil_iff.1 h.symm).2
  | cons nal unit ih =>
    rw [flatMap_cons, append_eq_append_iff] at h
    obtain ⟨sent', rfl, h⟩ | ⟨left, hpieces, rfl⟩ := h
    · obtain ⟨nals, hsuffix, hfits⟩ := ih h
      exact ⟨nals, hsuffix.trans (suffix_cons _ _), hfits⟩
    · rcases sent with _ | ⟨first, sent⟩
      · -- none of this NAL unit was sent
        refine ⟨nal :: unit, suffix_refl _, .boundary [] (nal :: unit) rfl ?_ hau hfragment⟩
        rw [flatMap_cons, hpieces, nil_append]
      · refine ⟨unit, suffix_cons _ _, ?_⟩
        by_cases hleft : left = []
        · refine .boundary [] unit rfl ?_ hau hfragment
          rw [hleft, nil_append]
        · by_cases hshort : nal.bytes.length ≤ maxPayload
          · unfold pieces payloadsOf at hpieces
            rw [if_pos hshort] at hpieces
            exact absurd (List.append_eq_nil_iff.1 (List.cons.inj hpieces).2.symm).2 hleft
          · obtain ⟨body, parts, -, -, hfragments⟩ := pieces_fragments hmax hshort
            rw [hfragments] at hpieces
            obtain ⟨parts', rfl⟩ := laterFragments_eq_append (List.cons.inj hpieces).2
            refine .skipping nal.header parts' rfl ?_ hau hfragment
            rintro rfl
            exact hleft rfl

theorem Fits.congr {d' : RtpH264Depayloader} (h : Fits maxPayload nals rest d) (hau : d'.au = d.au)
    (hfragment : d'.fragmentStart = d.fragmentStart) : Fits maxPayload nals rest d' := by
  cases h with
  | boundary collected later hnals hrest hau' hfragment' =>
    exact .boundary collected later hnals hrest (hau.trans hau') (hfragment.trans hfragment')
  | started collected later nal got parts hnals hrest hparts hgot hau' hfragment' =>
    exact .started collected later nal got parts hnals hrest hparts hgot (hau.trans hau') (hfragment.trans hfragment')
  | skipping header parts hrest hparts hau' hfragment' =>
    exact .skipping header parts hrest hparts (hau.trans hau') (hfragment.trans hfragment')

theorem Fits.piece_ne_nil {piece : List UInt8} (h : Fits maxPayload nals (piece :: rest) d)
    (hmax : fuAHeaderLen + 1 ≤ maxPayload) : piece ≠ [] := by
  cases h with
  | boundary collected later hnals hrest =>
    rcases later with _ | ⟨nal, later⟩
    · cases hrest
    · rw [flatMap_cons] at hrest
      by_cases hshort : nal.bytes.length ≤ maxPayload
      · unfold pieces payloadsOf at hrest
        rw [if_pos hshort] at hrest
        rw [(List.cons.inj hrest).1]
        exact nal.ne_nil
      · obtain ⟨first, parts, -, -, hpieces⟩ := pieces_fragments hmax hshort
        rw [hpieces] at hrest
        rw [(List.cons.inj hrest).1]
        exact cons_ne_nil _ _
  | started collected later nal got parts hnals hrest hparts | skipping header parts hrest hparts =>
    obtain ⟨part, parts, rfl⟩ := exists_cons_of_ne_nil hparts
    rw [(List.cons.inj hrest).1]
    exact cons_ne_nil _ _

/-! ## One packet -/

namespace RtpH264Depayloader

/-- Nothing is being put together. -/
def Clear (d : RtpH264Depayloader) : Prop := d.au = [] ∧ d.fragmentStart = none

/-- A packet with this sequence number is the next one. -/
def Expects (d : RtpH264Depayloader) (seq : Nat) : Prop := ∀ prev ∈ d.lastSeq, seq = (prev + 1) % 2 ^ 16

variable {seq : Nat}

theorem noteSequence_of_expects (h : d.Expects seq) : d.noteSequence seq = { d with lastSeq := some seq } := by
  unfold noteSequence
  rcases hlast : d.lastSeq with _ | prev
  · rfl
  · dsimp only
    rw [if_neg (not_not.2 (h prev hlast))]

theorem clear_noteSequence (h : d.Clear ∨ ¬d.Expects seq) : (d.noteSequence seq).Clear := by
  unfold noteSequence
  rcases hlast : d.lastSeq with _ | prev
  · rcases h with h | h
    · exact h
    · exact absurd (fun prev hprev => by rw [hlast] at hprev; cases hprev) h
  · dsimp only
    by_cases hnext : seq = (prev + 1) % 2 ^ 16
    · rw [if_neg (not_not.2 hnext)]
      rcases h with h | h
      · exact h
      · refine absurd (fun prev' hprev => ?_) h
        rw [hlast, Option.mem_some] at hprev
        rw [← hprev]
        exact hnext
    · rw [if_pos hnext]
      exact ⟨rfl, rfl⟩

theorem depacketize_packet {w : RtpPacketWriter} (hpt : w.payloadType &&& 0x7F = w.payloadType)
    {payload : List UInt8} (hpayload : payload ≠ []) (marker : Bool) (timestamp : UInt32) :
    d.depacketize (w.packet marker timestamp payload) =
      let took := { d.noteSequence w.sequence.toNat with timestamp := timestamp.toNat }.takePayload payload
      if took.2 ∧ marker then took.1.closeUnit else (took.1, none) := by
  have hparse : RtpHeader.parse ((w.header marker timestamp).toBytes ++ payload) =
      some ⟨w.header marker timestamp, Mcu.rtpHeaderLen, payload.length⟩ :=
    RtpHeader.parse_toBytes payload hpt w.sequence.toNat_lt timestamp.toNat_lt w.ssrc.toNat_lt
  have hlength : (w.header marker timestamp).toBytes.length = Mcu.rtpHeaderLen := by
    unfold Mcu.RtpHeader.toBytes
    rfl
  have hpayload' : Mcu.RtpParsed.payload ⟨w.header marker timestamp, Mcu.rtpHeaderLen, payload.length⟩
      ((w.header marker timestamp).toBytes ++ payload) = payload := by
    unfold Mcu.RtpParsed.payload
    rw [← hlength, drop_left, take_length]
  unfold depacketize RtpPacketWriter.packet
  rw [hparse]
  dsimp only
  rw [hpayload', if_neg hpayload, length_append, hlength, if_neg (Nat.lt_irrefl _)]
  rfl

end RtpH264Depayloader

open RtpH264Depayloader

/-- A packet of an access unit takes the buffer on, and the last one closes the unit, which is then emitted if
one of its NAL units is left. -/
theorem Fits.depacketize {w : RtpPacketWriter} (hpt : w.payloadType &&& 0x7F = w.payloadType)
    (hmax : fuAHeaderLen + 1 ≤ maxPayload) (timestamp : UInt32) {piece : List UInt8}
    (h : Fits maxPayload nals (piece :: rest) (d.noteSequence w.sequence.toNat))
    (hlength : (longForm nals).length ≤ maxAssemblyBytes) :
    ∃ d', d.depacketize (w.packet rest.isEmpty timestamp piece) =
        (d', if rest = [] ∧ nals ≠ [] then some ⟨longForm nals, timestamp.toNat⟩ else none) ∧
      d'.lastSeq = some w.sequence.toNat ∧ (rest = [] → d'.Clear) ∧ (rest ≠ [] → Fits maxPayload nals rest d') := by
  obtain ⟨au, fragmentStart, htake, hfits⟩ :=
    Fits.step (d := { d.noteSequence w.sequence.toNat with timestamp := timestamp.toNat }) hmax (h.congr rfl rfl)
      hlength
  rw [depacketize_packet hpt (h.piece_ne_nil hmax), htake]
  by_cases hrest : rest = []
  · obtain rfl := hrest
    obtain ⟨hau, hfragment⟩ := hfits.done hmax
    dsimp only at hau hfragment
    rw [if_pos ⟨rfl, rfl⟩, hfragment]
    unfold closeUnit abandonFragment
    by_cases hnals : nals = []
    · rw [hnals, longForm_nil] at hau
      rw [if_pos hau, if_neg (fun h => h.2 hnals)]
      exact ⟨_, rfl, rfl, fun _ => ⟨hau, rfl⟩, fun h => absurd rfl h⟩
    · have hne : au ≠ [] := by
        rw [hau]
        exact longForm_ne_nil hnals
      rw [if_neg hne, if_pos ⟨rfl, hnals⟩, hau]
      exact ⟨_, rfl, rfl, fun _ => ⟨rfl, rfl⟩, fun h => absurd rfl h⟩
  · have hempty : ¬(true = true ∧ rest.isEmpty = true) := fun h => hrest (List.isEmpty_iff.1 h.2)
    rw [if_neg hempty, if_neg (fun h => hrest h.1)]
    exact ⟨_, rfl, rfl, fun h => absurd h hrest, fun _ => hfits⟩

/-! ## In order -/

/-- An access unit to send: NAL units, each behind the start code it has in the stream, and the timestamp. -/
structure SourceUnit where
  nals : List (StartCode × Nal)
  nonempty : nals ≠ []
  timestamp : UInt32
  fits : (longForm (nals.map Prod.snd)).length ≤ maxAssemblyBytes

namespace SourceUnit

variable (unit : SourceUnit)

def nalUnits : List Nal := unit.nals.map Prod.snd

def input : List UInt8 × UInt32 := (annexB unit.nals, unit.timestamp)

/-- The same NAL units, behind start codes of four bytes. -/
def output : AccessUnit := ⟨longForm unit.nalUnits, unit.timestamp.toNat⟩

theorem nalUnits_ne_nil : unit.nalUnits ≠ [] := fun h =>
  unit.nonempty (List.map_eq_nil_iff.1 h)

/-- The payloads of an access unit, as bytes. -/
def pieces (unit : SourceUnit) (maxPayload : Nat) : List (List UInt8) :=
  unit.nalUnits.flatMap (H264.pieces maxPayload)

theorem map_nalPayloads (maxPayload : Nat) :
    (nalPayloads unit.input.1 maxPayload h264Fragmentation).map Payload.bytes = unit.pieces maxPayload := by
  have hfilter : (H264.nalUnits (annexB unit.nals)).filter (fun nal => nal ≠ []) =
      unit.nalUnits.map Nal.bytes := by
    rw [nalUnits_annexB, nalUnits, map_map]
    refine List.filter_eq_self.2 fun nal hnal => ?_
    obtain ⟨u, -, rfl⟩ := List.mem_map.1 hnal
    exact decide_eq_true u.2.ne_nil
  unfold nalPayloads input
  rw [hfilter, flatMap_map, map_flatMap]
  rfl

end SourceUnit

/-- The packets of one access unit, in order, close it. -/
theorem depacketizeAll_write {w : RtpPacketWriter} (hpt : w.payloadType &&& 0x7F = w.payloadType)
    (hmax : fuAHeaderLen + 1 ≤ maxPayload) (timestamp : UInt32) {payloads : List Payload}
    (hpayloads : payloads ≠ []) (h : Fits maxPayload nals (payloads.map Payload.bytes) d) (hnals : nals ≠ [])
    (hlength : (longForm nals).length ≤ maxAssemblyBytes) (hexpects : d.Expects w.sequence.toNat)
    (more : List (List UInt8)) : ∃ d' : RtpH264Depayloader, d.depacketizeAll ((w.write payloads timestamp).1 ++ more) =
        ⟨longForm nals, timestamp.toNat⟩ :: d'.depacketizeAll more ∧
      d'.Clear ∧ d'.Expects (w.later payloads.length).sequence.toNat := by
  induction payloads generalizing w d with
  | nil => exact absurd rfl hpayloads
  | cons payload payloads ih =>
    have hnote := noteSequence_of_expects hexpects
    have hfits : Fits maxPayload nals (payload.bytes :: payloads.map Payload.bytes)
        (d.noteSequence w.sequence.toNat) := by
      rw [hnote]
      exact h.congr rfl rfl
    obtain ⟨d', hstep, hlast, hclear, hrest⟩ := hfits.depacketize hpt hmax timestamp hlength
    rw [isEmpty_map] at hstep
    have hnext : d'.Expects (w.later 1).sequence.toNat := by
      intro prev hprev
      rw [hlast, Option.mem_some] at hprev
      rw [w.toNat_sequence_later, hprev]
    rw [RtpPacketWriter.write_cons]
    rw [cons_append, depacketizeAll, hstep]
    by_cases hempty : payloads = []
    · obtain rfl := hempty
      rw [if_pos ⟨rfl, hnals⟩]
      exact ⟨d', rfl, hclear rfl, hnext⟩
    · have hmap : payloads.map Payload.bytes ≠ [] := fun h => hempty (List.map_eq_nil_iff.1 h)
      obtain ⟨d'', hrun, hclear', hexpects'⟩ := ih (w := w.later 1) hpt hempty (hrest hmap) hnext
      rw [RtpPacketWriter.later_later, Nat.add_comm] at hexpects'
      rw [if_neg fun h => hmap h.1]
      exact ⟨d'', hrun, hclear', hexpects'⟩

theorem depacketizeAll_packetizeAll {p : RtpH264Packetizer}
    (hpt : p.writer.payloadType &&& 0x7F = p.writer.payloadType) (hmax : fuAHeaderLen + 1 ≤ p.maxPayload) (units : List SourceUnit) (hclear : d.Clear)
    (hexpects : d.Expects p.writer.sequence.toNat) :
    d.depacketizeAll (p.packetizeAll (units.map SourceUnit.input)) = units.map SourceUnit.output := by
  induction units generalizing p d with
  | nil => rfl
  | cons unit units ih =>
    have hmap := unit.map_nalPayloads p.maxPayload
    have hfits : Fits p.maxPayload unit.nalUnits ((nalPayloads unit.input.1 p.maxPayload h264Fragmentation).map
        Payload.bytes) d :=
      .boundary [] unit.nalUnits rfl hmap hclear.1 hclear.2
    have hpayloads : nalPayloads unit.input.1 p.maxPayload h264Fragmentation ≠ [] := by
      intro h
      rw [h] at hmap
      exact unit.nalUnits_ne_nil ((flatMap_pieces_eq_nil hmax).1 hmap.symm)
    obtain ⟨d', hrun, hclear', hexpects'⟩ := depacketizeAll_write hpt hmax unit.timestamp hpayloads hfits
      unit.nalUnits_ne_nil unit.fits hexpects
      (RtpH264Packetizer.packetizeAll
        { p with writer := p.writer.later (nalPayloads unit.input.1 p.maxPayload h264Fragmentation).length }
        (units.map SourceUnit.input))
    rw [map_cons, RtpH264Packetizer.packetizeAll_cons]
    refine hrun.trans ?_
    rw [ih (p := { p with writer := p.writer.later _ }) hpt hmax hclear' hexpects']
    rfl

/-! ## Any delivery -/

/-- The place of a packet: its access unit, its payload, and the payloads of the unit behind it. -/
structure Place where
  unit : SourceUnit
  payload : List UInt8
  rest : List (List UInt8)

/-- The places of the packets of a stream, in the order they are sent. -/
def places (maxPayload : Nat) (units : List SourceUnit) : List Place :=
  units.flatMap fun unit => (withRest (unit.pieces maxPayload)).map fun s => ⟨unit, s.1, s.2⟩

def Place.packet (place : Place) (w : RtpPacketWriter) : List UInt8 :=
  w.packet place.rest.isEmpty place.unit.timestamp place.payload

/-- Place `b` comes right behind place `a`. -/
def Place.Next (a b : Place) : Prop := a.rest ≠ [] → b.unit = a.unit ∧ a.rest = b.payload :: b.rest

variable {units : List SourceUnit}

theorem packetizeAll_eq (p : RtpH264Packetizer) (units : List SourceUnit) :
    p.packetizeAll (units.map SourceUnit.input) =
      (places p.maxPayload units).mapIdx fun i place => place.packet (p.writer.later i) := by
  induction units generalizing p with
  | nil => rfl
  | cons unit units ih =>
    have hlength : (nalPayloads unit.input.1 p.maxPayload h264Fragmentation).length =
        (unit.pieces p.maxPayload).length := by
      rw [← unit.map_nalPayloads, length_map]
    have hmap : ∀ pieces : List (List UInt8), (withRest pieces).mapIdx
        (fun i s => (p.writer.later i).packet s.2.isEmpty unit.timestamp s.1) =
        ((withRest pieces).map fun s => Place.mk unit s.1 s.2).mapIdx
          fun i place => place.packet (p.writer.later i) := by
      intro pieces
      refine ext_getElem? fun i => ?_
      rw [List.getElem?_mapIdx, List.getElem?_mapIdx, List.getElem?_map, Option.map_map]
      rfl
    rw [map_cons, RtpH264Packetizer.packetizeAll_cons, ih { p with writer := p.writer.later _ },
      RtpPacketWriter.write_eq, unit.map_nalPayloads, hlength]
    unfold places
    rw [flatMap_cons, mapIdx_append, length_map, length_withRest, ← hmap]
    simp only [RtpPacketWriter.later_later, Nat.add_comm]
    rfl

theorem isChain_withRest (unit : SourceUnit) (pieces : List (List UInt8)) :
    ((withRest pieces).map fun s => Place.mk unit s.1 s.2).IsChain Place.Next := by
  induction pieces with
  | nil => exact isChain_nil
  | cons piece pieces ih =>
    refine List.isChain_cons.2 ⟨fun place hplace hrest => ?_, ih⟩
    rcases pieces with _ | ⟨piece', pieces⟩
    · exact absurd rfl hrest
    · rw [withRest, map_cons, List.head?_cons, Option.mem_some] at hplace
      rw [← hplace]
      exact ⟨rfl, rfl⟩

theorem isChain_places (maxPayload : Nat) (units : List SourceUnit) : (places maxPayload units).IsChain Place.Next := by
  induction units with
  | nil => exact isChain_nil
  | cons unit units ih =>
    unfold places
    refine List.IsChain.append (isChain_withRest unit _) ih fun place hplace next _ hrest => ?_
    -- nothing stands behind the last payload of an access unit
    have hlast : ∀ pieces : List (List UInt8), ∀ s ∈ (withRest pieces).getLast?, s.2 = [] := by
      intro pieces
      induction pieces with
      | nil => exact nofun
      | cons piece pieces ih =>
        rw [withRest, List.getLast?_cons]
        intro s hs
        rcases hrest : (withRest pieces).getLast? with _ | last
        · rw [hrest] at hs
          have hnil : pieces = [] := by
            rw [← length_eq_zero_iff, ← length_withRest, List.getLast?_eq_none_iff.1 hrest]
            rfl
          rw [← Option.mem_some.1 hs]
          exact hnil
        · rw [hrest] at hs
          rw [← Option.mem_some.1 hs]
          exact ih last hrest
    rw [List.getLast?_map, Option.mem_map] at hplace
    obtain ⟨s, hs, rfl⟩ := hplace
    exact absurd (hlast _ s hs) hrest

theorem pieces_of_mem_places {place : Place} (h : place ∈ places maxPayload units) :
    place.unit ∈ units ∧ ∃ before, place.unit.pieces maxPayload = before ++ place.payload :: place.rest := by
  obtain ⟨unit, hunit, h⟩ := List.mem_flatMap.1 h
  obtain ⟨s, hs, rfl⟩ := List.mem_map.1 h
  exact ⟨hunit, append_of_mem_withRest hs⟩

/-- Packets delivered one after the other are less than half a turn of the sequence numbers apart. -/
def Near (i j : Nat) : Prop := i < j + 2 ^ 15 ∧ j < i + 2 ^ 15

instance (i j : Nat) : Decidable (Near i j) := inferInstanceAs (Decidable (_ ∧ _))

/-- What an emitted unit is: the last NAL units of one access unit, at least one, with its timestamp. -/
def IsTail (units : List SourceUnit) (out : AccessUnit) : Prop :=
  ∃ unit ∈ units, ∃ nals, nals ≠ [] ∧ nals <:+ unit.nalUnits ∧ out = ⟨longForm nals, unit.timestamp.toNat⟩

/-- The depayloader can take the packet of a place: then its buffer holds no part of another NAL unit. -/
def Ready (w : RtpPacketWriter) (maxPayload : Nat) (place : Place) (i : Nat) (d : RtpH264Depayloader) : Prop :=
  ∃ nals, nals <:+ place.unit.nalUnits ∧
    Fits maxPayload nals (place.payload :: place.rest) (d.noteSequence (w.later i).sequence.toNat)

section Delivery

variable {w : RtpPacketWriter} {place : Place} {i : Nat}

theorem ready_of_clear (hmax : fuAHeaderLen + 1 ≤ maxPayload) (hplace : place ∈ places maxPayload units)
    (h : d.Clear ∨ ¬d.Expects (w.later i).sequence.toNat) : Ready w maxPayload place i d := by
  obtain ⟨-, before, hpieces⟩ := pieces_of_mem_places hplace
  obtain ⟨hau, hfragment⟩ := clear_noteSequence h
  exact fits_anywhere hmax hpieces hau hfragment

theorem eq_succ_of_next {j : Nat} (hnear : Near i j)
    (h : (w.later j).sequence.toNat = ((w.later i).sequence.toNat + 1) % 2 ^ 16) : j = i + 1 := by
  obtain ⟨hlt, hgt⟩ := hnear
  rw [w.toNat_sequence_later, w.toNat_sequence_later] at h
  omega

/-- A packet that it can take leaves it such that it can take any packet near, and what is emitted is the end of
an access unit. -/
theorem Ready.step (hpt : w.payloadType &&& 0x7F = w.payloadType) (hmax : fuAHeaderLen + 1 ≤ maxPayload)
    (hplace : (places maxPayload units)[i]? = some place) (h : Ready w maxPayload place i d) :
    ∃ d' out, d.depacketize (place.packet (w.later i)) = (d', out) ∧ (∀ a ∈ out, IsTail units a) ∧
      ∀ j place', (places maxPayload units)[j]? = some place' → Near i j → Ready w maxPayload place' j d' := by
  obtain ⟨nals, hsuffix, hfits⟩ := h
  have hmem := mem_of_getElem? hplace
  have hlength : (longForm nals).length ≤ maxAssemblyBytes := by
    obtain ⟨before, hbefore⟩ := hsuffix
    refine le_trans ?_ place.unit.fits
    change _ ≤ (longForm place.unit.nalUnits).length
    rw [← hbefore, longForm_append, length_append]
    exact Nat.le_add_left _ _
  obtain ⟨d', hstep, hlast, hclear, hrest⟩ := hfits.depacketize (w := w.later i) hpt hmax place.unit.timestamp hlength
  refine ⟨d', _, hstep, fun a ha => ?_, fun j place' hplace' hnear => ?_⟩
  · by_cases hdone : place.rest = [] ∧ nals ≠ []
    · rw [if_pos hdone, Option.mem_some] at ha
      exact ⟨place.unit, (pieces_of_mem_places hmem).1, nals, hdone.2, hsuffix, ha.symm⟩
    · rw [if_neg hdone] at ha
      cases ha
  · have hmem' := mem_of_getElem? hplace'
    by_cases hexpects : d'.Expects (w.later j).sequence.toNat
    · by_cases hend : place.rest = []
      · exact ready_of_clear hmax hmem' (Or.inl (hclear hend))
      · -- this is the packet behind the one before, of the same access unit
        obtain rfl := eq_succ_of_next hnear (hexpects _ hlast)
        obtain ⟨hi, hget⟩ := List.getElem?_eq_some_iff.1 hplace
        obtain ⟨hj, hget'⟩ := List.getElem?_eq_some_iff.1 hplace'
        have hnext := (isChain_places maxPayload units).getElem i hj
        rw [hget, hget'] at hnext
        obtain ⟨hunit, hpayload⟩ := hnext hend
        refine ⟨nals, hunit ▸ hsuffix, ?_⟩
        rw [← hpayload, noteSequence_of_expects hexpects]
        exact (hrest hend).congr rfl rfl
    · exact ready_of_clear hmax hmem' (Or.inr hexpects)

theorem isTail_of_delivery (hpt : w.payloadType &&& 0x7F = w.payloadType) (hmax : fuAHeaderLen + 1 ≤ maxPayload)
    {delivery : List (Nat × Place)} (hplaces : ∀ s ∈ delivery, (places maxPayload units)[s.1]? = some s.2)
    (hchain : delivery.IsChain fun a b => Near a.1 b.1) (hready : ∀ s ∈ delivery.head?, Ready w maxPayload s.2 s.1 d) :
    ∀ a ∈ d.depacketizeAll (delivery.map fun s => s.2.packet (w.later s.1)), IsTail units a := by
  induction delivery generalizing d with
  | nil => exact nofun
  | cons s delivery ih =>
    obtain ⟨hs, hdelivery⟩ := List.forall_mem_cons.1 hplaces
    obtain ⟨hnear, hchain⟩ := List.isChain_cons.1 hchain
    obtain ⟨d', out, hstep, hout, hnext⟩ := (hready s rfl).step hpt hmax hs
    have hrest := ih (d := d') hdelivery hchain fun t ht =>
      hnext t.1 t.2 (hdelivery t (mem_of_mem_head? ht)) (hnear t ht)
    intro a ha
    rw [map_cons, depacketizeAll, hstep] at ha
    rcases List.mem_append.1 ha with ha | ha
    · exact hout a (Option.mem_toList.1 ha)
    · exact hrest a ha

end Delivery

/-- The packets of a stream, from a packetizer with this maximum payload, at this sequence number. -/
def packetsOf (payloadType : UInt8) (ssrc : UInt32) (maxPayload : Nat) (sequence : UInt16)
    (units : List SourceUnit) : List (List UInt8) :=
  let p := (RtpH264Packetizer.new payloadType ssrc).withMaxPayload maxPayload
  RtpH264Packetizer.packetizeAll { p with writer := { p.writer with sequence } } (units.map SourceUnit.input)

/-- In order every access unit arrives, whole and with its timestamp. Under any loss, duplication and reordering
in which packets delivered one after the other are less than half a turn apart, what arrives are ends of access
units, made of whole NAL units. -/
theorem packets_delivered (payloadType : UInt8) (ssrc : UInt32) (maxPayload : Nat) (sequence : UInt16)
    (units : List SourceUnit) :
    RtpH264Depayloader.new.depacketizeAll (packetsOf payloadType ssrc maxPayload sequence units) =
        units.map SourceUnit.output ∧
      ∀ delivery : List (Fin (packetsOf payloadType ssrc maxPayload sequence units).length),
        (delivery.IsChain fun i j => Near i.1 j.1) → ∀ out ∈ RtpH264Depayloader.new.depacketizeAll
          (delivery.map (packetsOf payloadType ssrc maxPayload sequence units).get), IsTail units out := by
  have hmax : fuAHeaderLen + 1 ≤ max maxPayload (fuAHeaderLen + 1) := Nat.le_max_right _ _
  have hpt : (payloadType &&& 0x7F) &&& 0x7F = payloadType &&& 0x7F := by
    rw [UInt8.and_assoc]
    rfl
  have hclear : RtpH264Depayloader.new.Clear := ⟨rfl, rfl⟩
  let w : RtpPacketWriter := { RtpPacketWriter.new payloadType ssrc with sequence }
  let p : RtpH264Packetizer := { writer := w, maxPayload := max maxPayload (fuAHeaderLen + 1) }
  refine ⟨depacketizeAll_packetizeAll (p := p) hpt hmax units hclear nofun, fun delivery hchain => ?_⟩
  have hsent : packetsOf payloadType ssrc maxPayload sequence units =
      (places p.maxPayload units).mapIdx fun i place => place.packet (w.later i) := packetizeAll_eq p units
  have hlength : (packetsOf payloadType ssrc maxPayload sequence units).length =
      (places p.maxPayload units).length := by
    rw [hsent, length_mapIdx]
  have hget : ∀ i (hi : i < (places p.maxPayload units).length),
      (packetsOf payloadType ssrc maxPayload sequence units)[i]? =
        some (((places p.maxPayload units).get ⟨i, hi⟩).packet (w.later i)) := fun i hi => by
    rw [hsent, List.getElem?_mapIdx, List.getElem?_eq_getElem hi]
    rfl
  have hdelivery : delivery.map (packetsOf payloadType ssrc maxPayload sequence units).get =
      (delivery.map fun i => (i.1, (places p.maxPayload units).get (i.cast hlength))).map
        fun s => s.2.packet (w.later s.1) := by
    rw [map_map]
    refine map_congr_left fun i _ => ?_
    exact (List.getElem?_eq_some_iff.1 (hget i.1 (i.2.trans_eq hlength))).2
  rw [hdelivery]
  refine isTail_of_delivery (w := w) hpt hmax ?_ ?_ ?_
  · intro s hs
    obtain ⟨i, -, rfl⟩ := List.mem_map.1 hs
    exact List.getElem?_eq_getElem (i.2.trans_eq hlength)
  · exact (isChain_map _).2 hchain
  · intro s hs
    obtain ⟨i, -, rfl⟩ := List.mem_map.1 (mem_of_mem_head? hs)
    exact ready_of_clear hmax (get_mem _ _) (Or.inl hclear)

/-- A NAL unit of a header and three bytes. -/
def sliceNal : Nal where
  bytes := [0x65, 7, 8, 9]
  header := 0x65
  head := rfl
  type := by decide
  noStartCode p h := by
    have hlt : p + 2 < 4 := h.lt_length
    have hp : p < 2 := by omega
    interval_cases p <;> exact absurd h (by decide)
  last := by decide

def sliceUnit : SourceUnit where
  nals := [(.short, sliceNal)]
  nonempty := by decide
  timestamp := 3000
  fits := by decide

/-- Its three fragments cross the wrap of the sequence numbers, and the last one comes twice. -/
theorem packets_delivered_repeated : ∀ out ∈ RtpH264Depayloader.new.depacketizeAll
      (([⟨0, by decide⟩, ⟨1, by decide⟩, ⟨2, by decide⟩, ⟨2, by decide⟩] : List (Fin 3)).map
        (packetsOf 96 5 3 65535 [sliceUnit]).get), IsTail [sliceUnit] out := by
  refine (packets_delivered 96 5 3 65535 [sliceUnit]).2 _ ?_
  exact .cons_cons (by decide) (.cons_cons (by decide) (.cons_cons (by decide) (.singleton _)))

end Glass2Glass.H264
