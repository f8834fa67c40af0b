import Glass2Glass.Fec.Xor

/-!
# The repair packets of three codes

How ULPFEC, FlexFEC and SMPTE ST 2022-1 write the XOR of a group into a repair packet and read it back
(`build_fec_packet`, `build_flexfec_packet`, `build_repair_packet` and the functions that read them, in
`g2g-plugins/src/ulpfec.rs`, `flexfec.rs` and `st2022fec.rs`). ULPFEC names the protected packets by a 16-bit
mask, FlexFEC by a mask of 15, 46 or 109 bits, ST 2022-1 by a stride and a count; there some of the fields are in
the header of the repair itself.
-/

namespace Glass2Glass.Fec

open Words Rtp

/-- The distance of a sequence number from the first one of a group. -/
def offsetFrom (snBase seq : Nat) : Nat := (seq + 2 ^ 16 - snBase) % 2 ^ 16

def repairHeader (byte0 byte1 : UInt8) (seq ts ssrc : Nat) : List UInt8 :=
  [byte0, byte1] ++ beBytes 2 seq ++ beBytes 4 ts ++ beBytes 4 ssrc

/-! ## ULPFEC -/

namespace Ulpfec

def fecHeaderLen : Nat := 10

def fecLevelHeaderLen : Nat := 4

/-- A repair with its mask and the sum of its group. -/
def layout (fecPt : UInt8) (fecSsrc fecSeq snBase mask : Nat) (f : XorFields) : List UInt8 :=
  repairHeader 0x80 (fecPt &&& 0x7F) fecSeq 0 fecSsrc ++ ([f.pxcc, f.mpt] ++ (beBytes 2 snBase ++ (beBytes 4 f.ts ++
    (beBytes 2 f.len ++ (beBytes 2 f.payload.length ++ (beBytes 2 mask ++ f.payload))))))

def buildFecPacket (media : List (List UInt8)) (fecPt : UInt8) (fecSsrc fecSeq : Nat) : Option (List UInt8) :=
  if media.isEmpty || media.length > 16 then none
  else if media.any fun p => p.length < rtpHeaderLen then none
  else
    let snBase := sequenceOf (media.headD [])
    let offsets := media.map fun p => offsetFrom snBase (sequenceOf p)
    if offsets.any fun off => off ≥ 16 then none
    else
      let mask := setBits 0 (offsets.map fun off => 15 - off)
      (XorFields.fold media).map (layout fecPt fecSsrc fecSeq snBase mask)

def protectedSeqs (fec : List UInt8) : Option (List Nat) :=
  if fec.length < rtpHeaderLen + fecHeaderLen + fecLevelHeaderLen then none
  else
    let snBase := beNat (slice fec (rtpHeaderLen + 2) 2)
    let mask := beNat (slice fec (rtpHeaderLen + fecHeaderLen + 2) 2)
    some (((List.range 16).filter fun i => hasBit mask (15 - i)).map fun i => (snBase + i) % 2 ^ 16)

def recoverPacket (fec : List UInt8) (present : List (Nat × List UInt8)) : Option (List UInt8) :=
  (protectedSeqs fec).bind fun seqs =>
  (splitGroup seqs present).bind fun split =>
    let ts := beNat (slice fec (rtpHeaderLen + 4) 4)
    let len := beNat (slice fec (rtpHeaderLen + 8) 2)
    let protLen := beNat (slice fec (rtpHeaderLen + fecHeaderLen) 2)
    let fecPayload := fec.drop (rtpHeaderLen + fecHeaderLen + fecLevelHeaderLen)
    if fecPayload.length < protLen then none
    else
      let f := XorFields.fromRepair (byteAt fec rtpHeaderLen) (byteAt fec (rtpHeaderLen + 1)) ts len
        (fecPayload.take protLen)
      (split.2.foldlM XorFields.xorIn f).bind fun f => f.toRtp split.1

end Ulpfec

/-! ## FlexFEC -/

namespace Flexfec

def flexFixed : Nat := 12

def flexSsrcPrefix : Nat := 6

/-- Where the mask is in a repair. -/
def maskOff : Nat := rtpHeaderLen + flexFixed + flexSsrcPrefix

/-- The largest offset that the mask can name. -/
def maxOffset : Nat := 108

/-- The shortest mask that names the offsets. The high bit of a word says that another one follows. -/
def encodeMask (offsets : List Nat) : Option (List UInt8) :=
  let low := (offsets.filter fun o => o ≤ 14).map fun o => 14 - o
  let mid := (offsets.filter fun o => 14 < o && o ≤ 45).map fun o => 45 - o
  let high := (offsets.filter fun o => 45 < o).map fun o => 108 - o
  offsets.max?.bind fun largest =>
    if largest ≤ 14 then some (beBytes 2 (setBits 0 low))
    else if largest ≤ 45 then some (beBytes 2 (setBits 0x8000 low) ++ beBytes 4 (setBits 0 mid))
    else if largest ≤ maxOffset then
      some (beBytes 2 (setBits 0x8000 low) ++ (beBytes 4 (setBits 0x80000000 mid) ++ beBytes 8 (setBits 0 high)))
    else none

/-- The offsets that a mask names, and its length. -/
def decodeMask (m : List UInt8) : Option (List Nat × Nat) :=
  if m.length < 2 then none
  else
    let w0 := beNat (slice m 0 2)
    let low := (List.range 15).filter fun i => hasBit w0 (14 - i)
    if w0 &&& 0x8000 = 0 then some (low, 2)
    else if m.length < 6 then none
    else
      let w1 := beNat (slice m 2 4)
      let mid := ((List.range 31).filter fun i => hasBit w1 (30 - i)).map fun i => 15 + i
      if w1 &&& 0x80000000 = 0 then some (low ++ mid, 6)
      else if m.length < 14 then none
      else
        let w2 := beNat (slice m 6 8)
        let high := ((List.range 63).filter fun i => hasBit w2 (62 - i)).map fun i => 46 + i
        some (low ++ mid ++ high, 14)

/-- A repair with its mask and the sum of its group. -/
def layout (fecPt : UInt8) (fecSsrc fecSeq : Nat) (mediaSsrc : List UInt8) (snBase : Nat) (mask : List UInt8)
    (f : XorFields) : List UInt8 :=
  repairHeader 0x80 (fecPt &&& 0x7F) fecSeq 0 fecSsrc ++ ([f.pxcc &&& 0x3F, f.mpt] ++ (beBytes 2 f.len ++
    (beBytes 4 f.ts ++ ([1, 0, 0, 0] ++ (mediaSsrc ++ (beBytes 2 snBase ++ (mask ++ f.payload)))))))

def buildFlexfecPacket (media : List (List UInt8)) (fecPt : UInt8) (fecSsrc fecSeq : Nat) : Option (List UInt8) :=
  if media.isEmpty || media.length > 109 then none
  else if media.any fun p => p.length < rtpHeaderLen then none
  else
    let snBase := sequenceOf (media.headD [])
    let mediaSsrc := ssrcOf (media.headD [])
    let offsets := media.map fun p => offsetFrom snBase (sequenceOf p)
    if offsets.any fun o => o > maxOffset then none
    else (encodeMask offsets).bind fun mask =>
      (XorFields.fold media).map (layout fecPt fecSsrc fecSeq mediaSsrc snBase mask)

/-- The protected sequence numbers of a repair, and where its payload is. -/
def flexHeader (fec : List UInt8) : Option (List Nat × Nat) :=
  if fec.length < maskOff + 2 || byteAt fec (rtpHeaderLen + 8) != 1 then none
  else
    let snBase := beNat (slice fec (rtpHeaderLen + flexFixed + 4) 2)
    (decodeMask (fec.drop maskOff)).map fun mask =>
      (mask.1.map fun o => (snBase + o) % 2 ^ 16, maskOff + mask.2)

def protectedSeqs (fec : List UInt8) : Option (List Nat) := (flexHeader fec).map Prod.fst

def recoverPacket (fec : List UInt8) (present : List (Nat × List UInt8)) : Option (List UInt8) :=
  (flexHeader fec).bind fun header =>
  (splitGroup header.1 present).bind fun split =>
    let len := beNat (slice fec (rtpHeaderLen + 2) 2)
    let ts := beNat (slice fec (rtpHeaderLen + 4) 4)
    if fec.length < header.2 then none
    else
      let f := XorFields.fromRepair (byteAt fec rtpHeaderLen &&& 0x3F) (byteAt fec (rtpHeaderLen + 1)) ts len
        (fec.drop header.2)
      (split.2.foldlM XorFields.xorIn f).bind fun f => f.toRtp split.1

end Flexfec

/-! ## ST 2022-1 -/

/-- The two repair streams of ST 2022-1. -/
inductive FecStream where
  | column
  | row

namespace St2022

structure FecHeader where
  snBase : Nat
  lenRecovery : Nat
  e : Bool
  ptRecovery : UInt8
  mask : Nat
  tsRecovery : Nat
  n : Bool
  d : Bool
  fecType : UInt8
  index : UInt8
  offset : UInt8
  na : UInt8
  snBaseExt : UInt8

def fecHeaderLen : Nat := 16

def FecHeader.parse (payload : List UInt8) : Option FecHeader :=
  if payload.length < fecHeaderLen then none
  else some
    { snBase := beNat (slice payload 0 2)
      lenRecovery := beNat (slice payload 2 2)
      e := byteAt payload 4 &&& 0x80 != 0
      ptRecovery := byteAt payload 4 &&& 0x7F
      mask := beNat (slice payload 5 3)
      tsRecovery := beNat (slice payload 8 4)
      n := byteAt payload 12 &&& 0x80 != 0
      d := byteAt payload 12 &&& 0x40 != 0
      fecType := (byteAt payload 12 >>> 3) &&& 0x07
      index := byteAt payload 12 &&& 0x07
      offset := byteAt payload 13
      na := byteAt payload 14
      snBaseExt := byteAt payload 15 }

/-- The sequence numbers that a header names. -/
def FecHeader.protectedSeqs (h : FecHeader) : Option (List Nat) :=
  if h.na = 0 ∨ h.offset = 0 ∨ h.fecType ≠ 0 then none
  else some ((List.range h.na.toNat).map fun i => (h.snBase + i * h.offset.toNat % 2 ^ 16) % 2 ^ 16)

/-- The header and the protected payload of a repair. -/
def parseRepair (fec : List UInt8) : Option (FecHeader × List UInt8) :=
  if fec.length < rtpHeaderLen then none
  else (FecHeader.parse (fec.drop rtpHeaderLen)).map fun header => (header, fec.drop (rtpHeaderLen + fecHeaderLen))

def protectedSeqs (fec : List UInt8) : Option (List Nat) := (parseRepair fec).bind fun repair => repair.1.protectedSeqs

def strideOf (stream : FecStream) (l : UInt8) : UInt8 :=
  match stream with
  | .row => 1
  | .column => l

/-- The byte of a header that tells rows from columns. -/
def streamByte : FecStream → UInt8
  | .row => 0x40
  | .column => 0x00

/-- A repair with its block descriptor and the sum of its group. Some of the sum is in the RTP header. -/
def layout (stream : FecStream) (pt : UInt8) (ssrc seq ts snBase : Nat) (offset na : UInt8) (f : XorFields) :
    List UInt8 :=
  repairHeader (0x80 ||| (f.pxcc &&& 0x3F)) ((f.mpt &&& 0x80) ||| (pt &&& 0x7F)) seq ts ssrc ++ (beBytes 2 snBase ++
    (beBytes 2 f.len ++ ([0x80 ||| (f.mpt &&& 0x7F), 0, 0, 0] ++ (beBytes 4 f.ts ++
    ([streamByte stream, offset, na, 0] ++ f.payload)))))

def buildRepairPacket (media : List (List UInt8)) (stream : FecStream) (l pt : UInt8) (ssrc seq ts : Nat) :
    Option (List UInt8) :=
  if media.isEmpty || media.length > 255 then none
  else
    let offset := strideOf stream l
    if offset = 0 then none
    -- A packet that has no sequence number is not protected.
    else if media.any fun p => p.length < 4 then none
    else
      let snBase := sequenceOf (media.headD [])
      if media.map sequenceOf =
          (List.range media.length).map fun i => (snBase + i * offset.toNat % 2 ^ 16) % 2 ^ 16 then
        (XorFields.fold media).map (layout stream pt ssrc seq ts snBase offset (UInt8.ofNat media.length))
      else none

def recoverPacket (fec : List UInt8) (present : List (Nat × List UInt8)) : Option (List UInt8) :=
  (parseRepair fec).bind fun repair =>
  repair.1.protectedSeqs.bind fun seqs =>
  (splitGroup seqs present).bind fun split =>
    -- The SSRC only comes from a survivor.
    if split.2.isEmpty then none
    else
      let mpt := (byteAt fec 1 &&& 0x80) ||| repair.1.ptRecovery
      let f := XorFields.fromRepair (byteAt fec 0) mpt repair.1.tsRecovery repair.1.lenRecovery repair.2
      (split.2.foldlM XorFields.xorIn f).bind fun f => f.toRtp split.1

end St2022

end Glass2Glass.Fec
