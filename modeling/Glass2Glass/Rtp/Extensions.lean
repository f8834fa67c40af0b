import Glass2Glass.H264.Packetizer

/-!
# Header extensions

The extensions of an RTP header (`g2g-core/src/rtp.rs`): `write_with_extensions` picks the form with a byte or that
with two bytes before each element, and `find_extension` reads whichever is there. Every extension that is
written is found (`extensions_round_trip`).
-/

namespace Glass2Glass.Rtp

open List
open Words (beBytes slice)
open Mcu (RtpHeader rtpHeaderLen beNat)
open UInt8 (ofNat)

def extensionHeaderLen : Nat := 4

def extensionWordLen : Nat := 4

def oneByteExtensionProfile : Nat := 0xBEDE

def twoByteExtensionProfile : Nat := 0x1000

def twoByteProfileMask : Nat := 0xFFF0

def paddingByte : UInt8 := 0

structure RtpHeaderExtension where
  id : UInt8
  data : List UInt8

def fitsOneByteForm (e : RtpHeaderExtension) : Bool := 1 ≤ e.id ∧ e.id ≤ 14 ∧ 1 ≤ e.data.length ∧ e.data.length ≤ 16

def fitsTwoByteForm (e : RtpHeaderExtension) : Bool := e.id ≠ paddingByte ∧ e.data.length ≤ 255

def elementHeaderLen (oneByte : Bool) : Nat := if oneByte then 1 else 2

/-- How long the elements are, and whether they are in the form with one byte. -/
def extensionElementsLen (extensions : List RtpHeaderExtension) : Option (Nat × Bool) :=
  let oneByte := extensions.all fitsOneByteForm
  if oneByte = false ∧ extensions.all fitsTwoByteForm = false then none
  else some (extensions.foldl (fun total e => total + elementHeaderLen oneByte + e.data.length) 0, oneByte)

def extendedHeaderLen (extensions : List RtpHeaderExtension) : Option Nat :=
  if extensions = [] then some rtpHeaderLen
  else do
    let (elementsLen, _) ← extensionElementsLen extensions
    let padded := (elementsLen + extensionWordLen - 1) / extensionWordLen * extensionWordLen
    if padded / extensionWordLen < 2 ^ 16 then some (rtpHeaderLen + extensionHeaderLen + padded) else none

/-- One element: its header and its data. -/
def element (oneByte : Bool) (e : RtpHeaderExtension) : List UInt8 :=
  (if oneByte then [e.id <<< 4 ||| UInt8.ofNat (e.data.length - 1)] else [e.id, UInt8.ofNat e.data.length]) ++ e.data

/-- How many bytes of the buffer are written, and the buffer after it. -/
def writeWithExtensions (header : RtpHeader) (extensions : List RtpHeaderExtension) (out : List UInt8) :
    Option (Nat × List UInt8) := do
  let total ← extendedHeaderLen extensions
  if out.length < total then none
  else if extensions = [] then some (total, header.toBytes ++ out.drop total)
  else
    let (_, oneByte) ← extensionElementsLen extensions
    let profile := if oneByte then oneByteExtensionProfile else twoByteExtensionProfile
    let words := (total - rtpHeaderLen - extensionHeaderLen) / extensionWordLen % 2 ^ 16
    let written := header.toBytes.modifyHead (· ||| 0x10) ++ beBytes 2 profile ++ beBytes 2 words ++
      extensions.flatMap (element oneByte)
    some (total, written ++ replicate (total - written.length) paddingByte ++ out.drop total)

/-- The profile and the data of the block of a packet. -/
def extensionBlock (packet : List UInt8) : Option (Nat × List UInt8) := do
  let first : UInt8 ← packet[0]?
  if first >>> 6 ≠ 2 ∨ first &&& 0x10 = 0 then none
  else
    let start := rtpHeaderLen + (first &&& 0x0F).toNat * 4
    if packet.length < start + extensionHeaderLen then none
    else
      let profile := beNat (slice packet start 2)
      let words := beNat (slice packet (start + 2) 2)
      let dataStart := start + extensionHeaderLen
      if packet.length < dataStart + words * extensionWordLen then none
      else some (profile, slice packet dataStart (words * extensionWordLen))

/-- What is found with one element more: the first with the id stays. -/
def noted (id elementId : UInt8) (data : List UInt8) (found : Option (List UInt8)) : Option (List UInt8) :=
  if elementId = id ∧ found.isNone then some data else found

/-- The loop of `find_extension`. The form with one byte has two ids that end it. -/
def findFrom (oneByte : Bool) (id : UInt8) (found : Option (List UInt8)) : List UInt8 → Option (List UInt8)
  | [] => found
  | first :: rest =>
    if first = paddingByte then findFrom oneByte id found rest
    else if oneByte then
      let elementId := first >>> 4
      if elementId = 15 ∨ elementId = 0 then found
      else
        let len := (first &&& 0x0F).toNat + 1
        if rest.length < len then none
        else findFrom oneByte id (noted id elementId (rest.take len) found) (rest.drop len)
    else
      match rest with
      | [] => none
      | len :: body =>
        if body.length < len.toNat then none
        else findFrom oneByte id (noted id first (body.take len.toNat) found) (body.drop len.toNat)
termination_by data => data.length
decreasing_by all_goals simp only [length_cons, length_drop]; omega

def findExtension (packet : List UInt8) (id : UInt8) : Option (List UInt8) := do
  let (profile, data) ← extensionBlock packet
  let oneByte := decide (profile = oneByteExtensionProfile)
  if oneByte = false ∧ profile &&& twoByteProfileMask ≠ twoByteExtensionProfile then none
  else findFrom oneByte id none data

section

variable {oneByte : Bool} {id : UInt8} {found : Option (List UInt8)} {e : RtpHeaderExtension}
  {extensions : List RtpHeaderExtension} {header : RtpHeader} {rest payload out written : List UInt8} {n words : Nat}

/-! ## The elements -/

def Fits (oneByte : Bool) (e : RtpHeaderExtension) : Prop :=
  (if oneByte then fitsOneByteForm e else fitsTwoByteForm e) = true

theorem oneByteHeader_read {id : UInt8} {len : Nat} (hlow : 1 ≤ id) (hid : id ≤ 14) (hlen : len < 16) :
    id <<< 4 ||| ofNat len ≠ paddingByte ∧ (id <<< 4 ||| ofNat len) >>> 4 = id ∧
      ((id <<< 4 ||| ofNat len) &&& 0x0F).toNat = len := by
  have hall : ∀ i < 15, 1 ≤ i → ∀ len < 16, ofNat i <<< 4 ||| ofNat len ≠ paddingByte ∧
      (ofNat i <<< 4 ||| ofNat len) >>> 4 = ofNat i ∧
      ((ofNat i <<< 4 ||| ofNat len) &&& 0x0F).toNat = len := by decide +kernel
  have h := hall id.toNat (Nat.lt_succ_of_le (UInt8.le_iff_toNat_le.1 hid)) (UInt8.le_iff_toNat_le.1 hlow) len hlen
  rwa [UInt8.ofNat_toNat] at h

theorem noted_eq (id : UInt8) (e : RtpHeaderExtension) (found : Option (List UInt8)) :
    noted id e.id e.data found = found.or (if e.id = id then some e.data else none) := by
  cases found <;> simp [noted]

theorem findFrom_element (h : Fits oneByte e) :
    findFrom oneByte id found (element oneByte e ++ rest) = findFrom oneByte id (noted id e.id e.data found) rest := by
  cases oneByte with
  | true =>
    obtain ⟨hlow, hid, hpos, hlen⟩ := of_decide_eq_true h
    obtain ⟨hne, hshift, hmask⟩ := oneByteHeader_read hlow hid (show e.data.length - 1 < 16 by omega)
    have hend : ¬ (e.id = 15 ∨ e.id = 0) := by
      rintro (h | h) <;> rw [h] at hlow hid <;> revert hlow hid <;> decide
    have hdata : e.data.length - 1 + 1 = e.data.length := Nat.sub_add_cancel hpos
    rw [element, if_pos rfl, singleton_append, cons_append, findFrom.eq_def]
    dsimp only
    rw [if_neg hne, if_pos rfl]
    rw [hshift, hmask, if_neg hend, hdata, take_left, drop_left, if_neg (by rw [length_append]; omega)]
  | false =>
    obtain ⟨hne, hlen⟩ := of_decide_eq_true h
    have hdata : (ofNat e.data.length).toNat = e.data.length := by
      rw [UInt8.toNat_ofNat', Nat.mod_eq_of_lt (Nat.lt_succ_of_le hlen)]
    rw [element, if_neg Bool.false_ne_true, cons_append, cons_append, singleton_append, cons_append, findFrom.eq_def]
    dsimp only
    rw [if_neg hne, if_neg Bool.false_ne_true]
    rw [hdata, take_left, drop_left, if_neg (by rw [length_append]; omega)]

theorem findFrom_padding (k : Nat) : findFrom oneByte id found (replicate k paddingByte) = found := by
  induction k with
  | zero => rw [replicate_zero, findFrom.eq_def]
  | succ k ih =>
    rw [replicate_succ, findFrom.eq_def]
    exact ih

theorem findFrom_elements (h : ∀ e ∈ extensions, Fits oneByte e) (k : Nat) :
    findFrom oneByte id found (extensions.flatMap (element oneByte) ++ replicate k paddingByte) =
      found.or ((extensions.find? (·.id = id)).map (·.data)) := by
  induction extensions generalizing found with
  | nil => rw [flatMap_nil, nil_append, findFrom_padding, find?_nil, Option.map_none, Option.or_none]
  | cons e extensions ih =>
    obtain ⟨he, hrest⟩ := forall_mem_cons.1 h
    rw [flatMap_cons, append_assoc, findFrom_element he, ih hrest, noted_eq, Option.or_assoc, find?_cons]
    by_cases hid : e.id = id <;> simp [hid]

/-! ## The block -/

theorem extensionElementsLen_eq_some (h : extensionElementsLen extensions = some (n, oneByte)) :
    (∀ e ∈ extensions, Fits oneByte e) ∧ n = (extensions.flatMap (element oneByte)).length := by
  have hlength (oneByte : Bool) (e : RtpHeaderExtension) :
      (element oneByte e).length = elementHeaderLen oneByte + e.data.length := by
    cases oneByte <;> exact length_append
  have htotal (oneByte : Bool) (extensions : List RtpHeaderExtension) (start : Nat) :
      extensions.foldl (fun total e => total + elementHeaderLen oneByte + e.data.length) start =
        start + (extensions.flatMap (element oneByte)).length := by
    induction extensions generalizing start with
    | nil => rfl
    | cons e extensions ih => rw [foldl_cons, ih, flatMap_cons, length_append, hlength, add_assoc, add_assoc, add_assoc]
  unfold extensionElementsLen at h
  dsimp only at h
  split_ifs at h with hfits
  obtain ⟨rfl, rfl⟩ := Prod.mk.inj (Option.some.inj h)
  refine ⟨fun e he => ?_, by rw [htotal, zero_add]⟩
  cases hone : extensions.all fitsOneByteForm with
  | true => exact all_eq_true.1 hone e he
  | false =>
    have htwo : extensions.all fitsTwoByteForm = true := Bool.of_not_eq_false fun htwo => hfits ⟨hone, htwo⟩
    exact all_eq_true.1 htwo e he

/-- What is written, as the bytes of the header and the block. -/
structure Written (header : RtpHeader) (extensions : List RtpHeaderExtension) (n : Nat) (bytes : List UInt8)
    (oneByte : Bool) (words : Nat) : Prop where
  fits : ∀ e ∈ extensions, Fits oneByte e
  short : words < 2 ^ 16
  room : (extensions.flatMap (element oneByte)).length ≤ words * 4
  length : n = 16 + words * 4
  bytes : bytes = header.toBytes.modifyHead (· ||| 0x10) ++
    (beBytes 2 (if oneByte then oneByteExtensionProfile else twoByteExtensionProfile) ++ (beBytes 2 words ++
      (extensions.flatMap (element oneByte) ++
        replicate (words * 4 - (extensions.flatMap (element oneByte)).length) paddingByte)))

theorem exists_written (hne : extensions ≠ []) (hwrite : writeWithExtensions header extensions out = some (n, written)) :
    extendedHeaderLen extensions = some n ∧ ∃ oneByte words, Written header extensions n (written.take n) oneByte words := by
  obtain ⟨total, htotal, hwrite⟩ := Option.bind_eq_some_iff.1 hwrite
  split_ifs at hwrite
  obtain ⟨⟨len, oneByte⟩, helements, hwrite⟩ := Option.bind_eq_some_iff.1 hwrite
  obtain ⟨rfl, rfl⟩ := Prod.mk.inj (Option.some.inj hwrite)
  obtain ⟨hfits, rfl⟩ := extensionElementsLen_eq_some helements
  have hlen := htotal
  rw [extendedHeaderLen, if_neg hne, helements] at hlen
  dsimp only [Option.bind_eq_bind, Option.bind_some] at hlen
  split_ifs at hlen with hshort
  have hlen := Option.some.inj hlen
  generalize helems : extensions.flatMap (element oneByte) = elements at *
  have hwords : total = 16 + (elements.length + 3) / 4 * 4 := hlen.symm
  have hcount : (total - rtpHeaderLen - extensionHeaderLen) / extensionWordLen % 2 ^ 16 = (elements.length + 3) / 4 := by
    have hshort' : (elements.length + 3) / 4 * 4 / 4 < 2 ^ 16 := hshort
    change (total - 12 - 4) / 4 % 2 ^ 16 = _
    omega
  have hlow : (elements.length + 3) / 4 < 2 ^ 16 := hcount ▸ Nat.mod_lt _ (by decide)
  have hroom : elements.length ≤ (elements.length + 3) / 4 * 4 := by omega
  have hbytes : header.toBytes.length = 12 := by
    obtain ⟨b1, s1, s0, t3, t2, t1, t0, c3, c2, c1, c0, hbytes, -⟩ := header.toBytes_cons
    rfl
  refine ⟨htotal, oneByte, (elements.length + 3) / 4, hfits, hlow, helems.symm ▸ hroom, hwords, ?_⟩
  rw [hcount, helems, take_left' (by
    simp only [length_append, length_modifyHead, hbytes, Words.length_beBytes, length_replicate]
    omega)]
  simp only [length_append, length_modifyHead, hbytes, Words.length_beBytes, append_assoc]
  rw [show total - (12 + (2 + (2 + elements.length))) = (elements.length + 3) / 4 * 4 - elements.length by omega]

theorem extensionBlock_cons (b1 s1 s0 t3 t2 t1 t0 c3 c2 c1 c0 p1 p0 w1 w0 : UInt8) {block : List UInt8}
    (hwords : beNat [w1, w0] * 4 = block.length) :
    extensionBlock (0x90 :: b1 :: s1 :: s0 :: t3 :: t2 :: t1 :: t0 :: c3 :: c2 :: c1 :: c0 :: p1 :: p0 :: w1 :: w0 ::
      (block ++ payload)) = some (beNat [p1, p0], block) := by
  have hblock : extensionBlock (0x90 :: b1 :: s1 :: s0 :: t3 :: t2 :: t1 :: t0 :: c3 :: c2 :: c1 :: c0 :: p1 :: p0 ::
      w1 :: w0 :: (block ++ payload)) =
      if (block ++ payload).length + 16 < 16 + beNat [w1, w0] * 4 then none
      else some (beNat [p1, p0], (block ++ payload).take (beNat [w1, w0] * 4)) := rfl
  rw [hblock, hwords, if_neg (by rw [length_append]; omega), take_left]

theorem find_of_nodup (hids : (extensions.map (·.id)).Nodup) (he : e ∈ extensions) :
    extensions.find? (·.id = e.id) = some e := by
  cases hfind : extensions.find? (·.id = e.id) with
  | none => exact absurd (decide_eq_true rfl) (find?_eq_none.1 hfind e he)
  | some found =>
    have hid : found.id = e.id := by simpa using find?_some hfind
    rw [inj_on_of_nodup_map hids (mem_of_find?_eq_some hfind) he hid]

theorem exists_word {v : Nat} (hv : v < 2 ^ 16) : ∃ h l : UInt8, beBytes 2 v = [h, l] ∧ beNat [h, l] = v := by
  refine ⟨ofNat (v / 256 ^ 1), ofNat (v / 256 ^ 0), by simp only [Words.beBytes_succ]; rfl, ?_⟩
  simp only [beNat, foldl_cons, foldl_nil, UInt8.toNat_ofNat']
  omega

/-- Whatever is written is parsed, and each extension is found in it, and no other. -/
theorem extensions_round_trip (hpt : header.payloadType &&& 0x7F = header.payloadType) (hseq : header.sequence < 2 ^ 16)
    (hts : header.timestamp < 2 ^ 32) (hssrc : header.ssrc < 2 ^ 32) (hids : (extensions.map (·.id)).Nodup)
    (hwrite : writeWithExtensions header extensions out = some (n, written)) :
    RtpHeader.parse (written.take n ++ payload) = some ⟨header, n, payload.length⟩ ∧
      extendedHeaderLen extensions = some n ∧
      (∀ e ∈ extensions, findExtension (written.take n ++ payload) e.id = some e.data) ∧
      ∀ id ∉ extensions.map (·.id), findExtension (written.take n ++ payload) id = none := by
  obtain ⟨b1, s1, s0, t3, t2, t1, t0, c3, c2, c1, c0, hheader, hfields⟩ := header.toBytes_cons
  rw [RtpHeader.onWire_eq hpt hseq hts hssrc] at hfields
  by_cases hne : extensions = []
  · subst hne
    have hplain : writeWithExtensions header [] out = if out.length < rtpHeaderLen then none
        else some (rtpHeaderLen, header.toBytes ++ out.drop rtpHeaderLen) := rfl
    rw [hplain] at hwrite
    split_ifs at hwrite
    obtain ⟨rfl, rfl⟩ := Prod.mk.inj (Option.some.inj hwrite)
    rw [take_left' (by rw [hheader]; rfl)]
    refine ⟨RtpHeader.parse_toBytes payload hpt hseq hts hssrc, rfl, by simp, fun id _ => ?_⟩
    rw [hheader]
    rfl
  · obtain ⟨hlen, oneByte, words, hw⟩ := exists_written hne hwrite
    obtain ⟨p1, p0, hp, hprofile⟩ := exists_word
      (v := if oneByte then oneByteExtensionProfile else twoByteExtensionProfile) (by cases oneByte <;> decide)
    obtain ⟨w1, w0, hwb, hwords⟩ := exists_word hw.short
    have hbytes := hw.bytes
    rw [hheader, hp, hwb] at hbytes
    generalize hblock : extensions.flatMap (element oneByte) ++
      replicate (words * 4 - (extensions.flatMap (element oneByte)).length) paddingByte = block at hbytes
    have hblockLen : block.length = words * 4 := by
      rw [← hblock, length_append, length_replicate, Nat.add_sub_cancel' hw.room]
    have hpacket : written.take n ++ payload = 0x90 :: b1 :: s1 :: s0 :: t3 :: t2 :: t1 :: t0 :: c3 :: c2 :: c1 :: c0 ::
        p1 :: p0 :: w1 :: w0 :: (block ++ payload) := by
      rw [hbytes]
      rfl
    have hfind (id : UInt8) :
        findExtension (written.take n ++ payload) id = (extensions.find? (·.id = id)).map (·.data) := by
      rw [findExtension, hpacket, extensionBlock_cons b1 s1 s0 t3 t2 t1 t0 c3 c2 c1 c0 p1 p0 w1 w0
        (hwords.symm ▸ hblockLen.symm), hprofile, ← hblock]
      have hform : decide ((if oneByte then oneByteExtensionProfile else twoByteExtensionProfile) =
          oneByteExtensionProfile) = oneByte := by cases oneByte <;> rfl
      dsimp only [Option.bind_eq_bind, Option.bind_some]
      rw [hform, if_neg (by cases oneByte <;> decide), findFrom_elements hw.fits, Option.none_or]
    rw [hpacket] at hfind ⊢
    refine ⟨?_, hlen, fun e he => ?_, fun id hid => ?_⟩
    · rw [RtpHeader.parse_extension b1 s1 s0 t3 t2 t1 t0 c3 c2 c1 c0 p1 p0 w1 w0 (by
        rw [hwords, length_append, hblockLen]
        exact Nat.le_add_right _ _), hfields, hwords, length_append, hblockLen, Nat.add_sub_cancel_left, ← hw.length]
    · rw [hfind, find_of_nodup hids he]
      rfl
    · rw [hfind, find?_eq_none.2 (fun e he heq => hid (mem_map.2 ⟨e, he, of_decide_eq_true heq⟩))]
      rfl

end

def markedHeader : RtpHeader := ⟨96, true, 7, 1000, 1⟩

def twoExtensions : List RtpHeaderExtension := [⟨1, [10]⟩, ⟨2, [1, 2, 3]⟩]

/-- The two extensions with their padding. -/
theorem extensions_round_trip_two : ∃ written : List UInt8,
    RtpHeader.parse (written.take 24 ++ [9]) = some ⟨markedHeader, 24, 1⟩ ∧ extendedHeaderLen twoExtensions = some 24 ∧
      (∀ e ∈ twoExtensions, findExtension (written.take 24 ++ [9]) e.id = some e.data) ∧
      ∀ id ∉ twoExtensions.map (·.id), findExtension (written.take 24 ++ [9]) id = none :=
  ⟨[0x90, 0xE0, 0, 7, 0, 0, 3, 0xE8, 0, 0, 0, 1, 0xBE, 0xDE, 0, 2, 0x10, 10, 0x22, 1, 2, 3, 0, 0],
    @extensions_round_trip twoExtensions markedHeader [9] (replicate 24 0xFF) _ 24 (by decide) (by decide) (by decide)
      (by decide) (by decide) (by decide)⟩

end Glass2Glass.Rtp
