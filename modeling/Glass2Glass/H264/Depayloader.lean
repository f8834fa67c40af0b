import Glass2Glass.H264.Packetizer

/-!
# The depayloader

`RtpH264Depayloader` (`g2g-plugins/src/rtpdepay.rs`): NAL units and fragments are collected in one buffer, up to
the marker. A gap in the sequence numbers empties it, and a fragment that another NAL unit or the marker cuts
short is taken out of it.
-/

namespace Glass2Glass.H264

open List

open Mcu (RtpHeader beNat)

def maxAssemblyBytes : Nat := 8 * 1024 * 1024

def stapAType : UInt8 := 24

structure AccessUnit where
  data : List UInt8
  rtpTimestamp : Nat

structure RtpH264Depayloader where
  au : List UInt8
  /-- Where the fragmented NAL unit starts in `au`, while there is one. -/
  fragmentStart : Option Nat
  lastSeq : Option Nat
  timestamp : Nat

namespace RtpH264Depayloader

def new : RtpH264Depayloader := { au := [], fragmentStart := none, lastSeq := none, timestamp := 0 }

variable (d : RtpH264Depayloader)

/-- A fragment run that is cut short is dropped. -/
def abandonFragment : RtpH264Depayloader :=
  match d.fragmentStart with
  | none => d
  | some start => { d with au := d.au.take start, fragmentStart := none }

/-- Append a NAL unit behind a start code of four bytes. -/
def pushNal (nal : List UInt8) : RtpH264Depayloader :=
  if nal = [] then d
  else
    let au := d.au ++ annexBStartCode ++ nal
    { d with au := if maxAssemblyBytes < au.length then [] else au }

/-- The NAL units of a STAP-A payload, each behind its size. A unit takes its size, so the fuel is the
length. -/
def pushAggregate : Nat → RtpH264Depayloader → List UInt8 → RtpH264Depayloader
  | fuel + 1, d, high :: low :: rest =>
    let size := beNat [high, low]
    if rest.length < size then d else pushAggregate fuel (d.pushNal (rest.take size)) (rest.drop size)
  | _, d, _ => d

/-- Take a fragment, and whether the call goes on to the marker. -/
def takeFragment : List UInt8 → RtpH264Depayloader × Bool
  | indicator :: fuHeader :: body =>
    let start := fuHeader &&& 0x80 ≠ 0
    let last := fuHeader &&& 0x40 ≠ 0
    let d := if start then
        let d := d.abandonFragment
        { d with
          au := d.au ++ annexBStartCode ++ [indicator &&& 0xE0 ||| fuHeader &&& 0x1F]
          fragmentStart := some d.au.length }
      else d
    if d.fragmentStart.isSome then
      let au := d.au ++ body
      if maxAssemblyBytes < au.length then ({ d with au := [], fragmentStart := none }, false)
      else ({ d with au, fragmentStart := if last then none else d.fragmentStart }, true)
    else (d, true)
  | _ => (d, false)

/-- Take a payload that is not empty, and whether the call goes on to the marker. Other aggregates and
fragments are skipped. -/
def takePayload (payload : List UInt8) : RtpH264Depayloader × Bool :=
  let kind := payload.headD 0 &&& 0x1F
  if 1 ≤ kind ∧ kind ≤ 23 then (d.abandonFragment.pushNal payload, true)
  else if kind = stapAType then (pushAggregate payload.length d.abandonFragment payload.tail, true)
  else if kind = fuAType then d.takeFragment payload
  else (d, true)

/-- A number that does not follow the last one empties the buffer. -/
def noteSequence (seq : Nat) : RtpH264Depayloader :=
  let d := match d.lastSeq with
    | some prev => if seq ≠ (prev + 1) % 2 ^ 16 then { d with fragmentStart := none, au := [] } else d
    | none => d
  { d with lastSeq := some seq }

def closeUnit : RtpH264Depayloader × Option AccessUnit :=
  let d := d.abandonFragment
  if d.au = [] then (d, none) else ({ d with au := [] }, some ⟨d.au, d.timestamp⟩)

/-- Take a packet, and the access unit that it closes. -/
def depacketize (packet : List UInt8) : RtpH264Depayloader × Option AccessUnit :=
  match RtpHeader.parse packet with
  | none => (d, none)
  | some parsed =>
    let d := { d.noteSequence parsed.header.sequence with timestamp := parsed.header.timestamp }
    if packet.length < parsed.payloadOffset + parsed.payloadLen then (d, none)
    else
      let payload := parsed.payload packet
      if payload = [] then (d, none)
      else
        let (d, goesOn) := d.takePayload payload
        if goesOn ∧ parsed.header.marker then d.closeUnit else (d, none)

/-- Take packets one after the other, and the access units they close. -/
def depacketizeAll (d : RtpH264Depayloader) : List (List UInt8) → List AccessUnit
  | [] => []
  | packet :: packets =>
    let (d, out) := d.depacketize packet
    out.toList ++ depacketizeAll d packets

end RtpH264Depayloader

/-! ## Payloads of the packetizer -/

/-- NAL units behind start codes of four bytes. -/
def longForm (nals : List Nal) : List UInt8 := annexB (nals.map fun nal => (.long, nal))

@[simp] theorem longForm_nil : longForm [] = [] := rfl

theorem longForm_append (xs ys : List Nal) : longForm (xs ++ ys) = longForm xs ++ longForm ys := by
  unfold longForm annexB
  rw [map_append, flatMap_append]

theorem longForm_singleton (nal : Nal) : longForm [nal] = annexBStartCode ++ nal.bytes :=
  append_nil _

theorem longForm_ne_nil {nals : List Nal} (h : nals ≠ []) : longForm nals ≠ [] := by
  obtain ⟨nal, nals, rfl⟩ := exists_cons_of_ne_nil h
  exact cons_ne_nil _ _

variable {maxPayload : Nat} {d : RtpH264Depayloader}

theorem pieces_ne_nil (hmax : fuAHeaderLen + 1 ≤ maxPayload) (nal : Nal) : pieces maxPayload nal ≠ [] := by
  by_cases hshort : nal.bytes.length ≤ maxPayload
  · unfold pieces payloadsOf
    rw [if_pos hshort]
    exact cons_ne_nil _ _
  · obtain ⟨first, parts, -, -, hpieces⟩ := pieces_fragments hmax hshort
    rw [hpieces]
    exact cons_ne_nil _ _

theorem flatMap_pieces_eq_nil (hmax : fuAHeaderLen + 1 ≤ maxPayload) {nals : List Nal} :
    nals.flatMap (pieces maxPayload) = [] ↔ nals = [] := by
  refine ⟨fun h => ?_, fun h => by rw [h]; rfl⟩
  rcases nals with _ | ⟨nal, nals⟩
  · rfl
  · rw [flatMap_cons, append_eq_nil_iff] at h
    exact absurd h.1 (pieces_ne_nil hmax nal)

theorem laterFragments_ne_nil {header : UInt8} {parts : List (List UInt8)} (h : parts ≠ []) :
    laterFragments header parts ≠ [] := by
  obtain ⟨part, parts, rfl⟩ := exists_cons_of_ne_nil h
  exact cons_ne_nil _ _

theorem fuPrefix_read (header : UInt8) {startEnd : UInt8} (h : startEnd = 0 ∨ startEnd = 0x40 ∨ startEnd = 0x80) :
    (header &&& 0xE0 ||| fuAType) &&& 0x1F = fuAType ∧
      (((startEnd ||| header &&& 0x1F) &&& 0x80 ≠ 0) ↔ startEnd = 0x80) ∧
      (((startEnd ||| header &&& 0x1F) &&& 0x40 ≠ 0) ↔ startEnd = 0x40) ∧
      (header &&& 0xE0 ||| fuAType) &&& 0xE0 ||| (startEnd ||| header &&& 0x1F) &&& 0x1F = header := by
  have hbits : ∀ b : BitVec 8, ∀ s ∈ [0, 0x40, 0x80], (UInt8.ofBitVec b &&& 0xE0 ||| fuAType) &&& 0x1F = fuAType ∧
      (((s ||| UInt8.ofBitVec b &&& 0x1F) &&& 0x80 ≠ 0) ↔ s = 0x80) ∧
      (((s ||| UInt8.ofBitVec b &&& 0x1F) &&& 0x40 ≠ 0) ↔ s = 0x40) ∧
      (UInt8.ofBitVec b &&& 0xE0 ||| fuAType) &&& 0xE0 ||| (s ||| UInt8.ofBitVec b &&& 0x1F) &&& 0x1F =
        UInt8.ofBitVec b := by
    decide +kernel
  exact hbits header.toBitVec startEnd (by simpa using h)

namespace RtpH264Depayloader

variable (d : RtpH264Depayloader)

theorem takePayload_whole (nal : Nal) (hfragment : d.fragmentStart = none)
    (hfits : (d.au ++ annexBStartCode ++ nal.bytes).length ≤ maxAssemblyBytes) :
    d.takePayload nal.bytes = ({ d with au := d.au ++ annexBStartCode ++ nal.bytes }, true) := by
  obtain ⟨body, hbytes⟩ : ∃ body, nal.bytes = nal.header :: body := List.head?_eq_some_iff.1 nal.head
  have hkind : nal.bytes.headD 0 = nal.header := by rw [hbytes]; rfl
  unfold takePayload abandonFragment pushNal
  rw [hkind, if_pos nal.type, hfragment]
  dsimp only
  rw [if_neg nal.ne_nil, if_neg (Nat.not_lt.2 hfits), hfragment]

theorem takePayload_fragment (header startEnd : UInt8) (body : List UInt8) :
    d.takePayload (fuPrefix header startEnd ++ body) =
      d.takeFragment ((header &&& 0xE0 ||| fuAType) :: (startEnd ||| header &&& 0x1F) :: body) := by
  have hkind : (fuPrefix header startEnd ++ body).headD 0 &&& 0x1F = fuAType :=
    (fuPrefix_read header (Or.inl rfl)).1
  unfold takePayload
  rw [hkind, if_neg (by decide), if_neg (by decide), if_pos rfl]
  rfl

theorem takePayload_first (header : UInt8) (body : List UInt8) (hfragment : d.fragmentStart = none)
    (hfits : (d.au ++ annexBStartCode ++ (header :: body)).length ≤ maxAssemblyBytes) :
    d.takePayload (fuPrefix header fuStartBit ++ body) =
      ({ d with au := d.au ++ annexBStartCode ++ (header :: body), fragmentStart := some d.au.length }, true) := by
  obtain ⟨-, hstart, hlast, hheader⟩ := @fuPrefix_read header fuStartBit (Or.inr (Or.inr rfl))
  have hau : d.au ++ annexBStartCode ++ [header] ++ body = d.au ++ annexBStartCode ++ (header :: body) := by
    rw [append_assoc _ [header]]
    rfl
  rw [takePayload_fragment]
  unfold takeFragment abandonFragment
  dsimp only
  rw [if_pos (hstart.2 rfl), hfragment, hheader]
  rw [if_pos (Option.isSome_some), hau, if_neg (Nat.not_lt.2 hfits), if_neg (fun h => absurd (hlast.1 h) (by decide))]

theorem takePayload_later (header : UInt8) (last : Prop) [Decidable last]
    (body : List UInt8) {start : Nat} (hfragment : d.fragmentStart = some start)
    (hfits : (d.au ++ body).length ≤ maxAssemblyBytes) :
    d.takePayload (fuPrefix header (if last then fuEndBit else 0) ++ body) =
      ({ d with au := d.au ++ body, fragmentStart := if last then none else some start }, true) := by
  obtain ⟨-, hstart, hlast, -⟩ := @fuPrefix_read header (if last then fuEndBit else 0) (by split_ifs <;> decide)
  have hnot : ¬(((if last then fuEndBit else 0) ||| header &&& 0x1F) &&& 0x80 ≠ 0) := by
    rw [hstart]
    split_ifs <;> decide
  have hend : (((if last then fuEndBit else 0) ||| header &&& 0x1F) &&& 0x40 ≠ 0) ↔ last := by
    rw [hlast]
    split_ifs with h
    · exact iff_of_true rfl h
    · exact iff_of_false (by decide) h
  rw [takePayload_fragment]
  unfold takeFragment
  dsimp only
  rw [if_neg hnot, hfragment, if_pos (Option.isSome_some), if_neg (Nat.not_lt.2 hfits), if_congr hend rfl rfl]

theorem takePayload_skipped (header : UInt8) (last : Prop) [Decidable last]
    (body : List UInt8) (hfragment : d.fragmentStart = none) :
    d.takePayload (fuPrefix header (if last then fuEndBit else 0) ++ body) = (d, true) := by
  obtain ⟨-, hstart, -, -⟩ := @fuPrefix_read header (if last then fuEndBit else 0) (by split_ifs <;> decide)
  have hnot : ¬(((if last then fuEndBit else 0) ||| header &&& 0x1F) &&& 0x80 ≠ 0) := by
    rw [hstart]
    split_ifs <;> decide
  rw [takePayload_fragment]
  unfold takeFragment
  dsimp only
  rw [if_neg hnot, hfragment, if_neg (by decide)]

end RtpH264Depayloader

end Glass2Glass.H264
