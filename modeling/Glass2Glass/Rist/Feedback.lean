import Glass2Glass.Lib.Words
import Mathlib.Data.List.Sort

/-!
# Requests to send again

The control packets of `g2g-plugins/src/rtcp.rs` and the two forms of a request of `g2g-plugins/src/rist.rs`: words of a
number and a mask of the sixteen after it, and ranges of a start and a count.
-/

namespace Glass2Glass.Rist

open Words (beBytes beNat slice byteAt setBits hasBit)

/-- The parts of a list that have `n` entries each. What is left at the end is no part. -/
def wholeChunks {α : Type} (n : Nat) (l : List α) : List (List α) :=
  (List.range (l.length / n)).map fun k => (l.drop (k * n)).take n

structure ReportBlock where
  ssrc : UInt32
  fractionLost : Nat
  cumulativeLost : Nat
  highestSeq : Nat
  jitter : Nat
  lastSr : Nat
  delaySinceLastSr : Nat

inductive RtcpPacket where
  | senderReport (ssrc : UInt32) (ntp rtpTs : Nat) (reports : List ReportBlock)
  | receiverReport (ssrc : UInt32) (reports : List ReportBlock)
  | nack (senderSsrc mediaSsrc : UInt32) (missing : List UInt16)
  | bye (ssrc : List UInt32)
  | other (pt : UInt8)
  | app (subtype : Nat) (ssrc : UInt32) (name data : List UInt8)

/-- A big-endian number in a byte string, if it is there. -/
def readBe (width : Nat) (data : List UInt8) (start : Nat) : Option Nat :=
  if start + width ≤ data.length then some (beNat (slice data start width)) else none

def readSsrc (data : List UInt8) (start : Nat) : Option UInt32 := (readBe 4 data start).map UInt32.ofNat

/-! ## Building -/

/-- A packet of a count, a type and a body, and its length in words. -/
def packet (count pt : UInt8) (body : List UInt8) : List UInt8 :=
  [0x80 ||| count &&& 0x1F, pt] ++ beBytes 2 ((4 + body.length) / 4 - 1) ++ body

/-- `data` up to a whole word. -/
def buildApp (subtype : UInt8) (ssrc : UInt32) (name data : List UInt8) : List UInt8 :=
  let body := beBytes 4 ssrc.toNat ++ name ++ data
  packet subtype 204 (body ++ List.replicate ((4 - body.length % 4) % 4) 0)

def dedup : List UInt16 → List UInt16
  | a :: b :: rest => if a = b then dedup (b :: rest) else a :: dedup (b :: rest)
  | l => l

/-- Whether a number goes into the mask of the one before. -/
def follows (pid sequence : UInt16) : Bool :=
  let delta := sequence - pid
  ¬ (delta = 0 ∨ delta > 16)

/-- The numbers that words stand for, each with its mask. -/
def nackWords : List UInt16 → List (UInt16 × Nat)
  | [] => []
  | pid :: rest =>
    (pid, setBits 0 ((rest.takeWhile (follows pid)).map fun sequence => (sequence - pid).toNat - 1))
      :: nackWords (rest.dropWhile (follows pid))
  termination_by l => l.length
  decreasing_by
    exact Nat.lt_succ_of_le (List.dropWhile_suffix (follows pid)).length_le

def nackWord (word : UInt16 × Nat) : List UInt8 := beBytes 4 (word.1.toNat <<< 16 ||| word.2)

def buildNack (senderSsrc mediaSsrc : UInt32) (missing : List UInt16) : List UInt8 :=
  packet 1 205 (beBytes 4 senderSsrc.toNat ++ beBytes 4 mediaSsrc.toNat
    ++ (nackWords (dedup (missing.mergeSort fun a b => decide (a ≤ b)))).flatMap nackWord)

structure SequenceRange where
  start : UInt16
  additional : UInt16

def SequenceRange.sequences (r : SequenceRange) : List UInt16 :=
  (List.range (r.additional.toNat + 1)).map fun offset => r.start + UInt16.ofNat offset

/-- A number goes into the last range, or begins one. -/
def extendRanges (ranges : List SequenceRange) (sequence : UInt16) : List SequenceRange :=
  match ranges.getLast? with
  | none => ranges ++ [{ start := sequence, additional := 0 }]
  | some last =>
    if last.start + last.additional + 1 = sequence ∧ last.additional < 0xFFFF then
      ranges.dropLast ++ [{ last with additional := last.additional + 1 }]
    else ranges ++ [{ start := sequence, additional := 0 }]

def sequenceRanges (sequences : List UInt16) : List SequenceRange := sequences.foldl extendRanges []

def ristAppName : List UInt8 := [0x52, 0x49, 0x53, 0x54]

def maxRangesPerNack : Nat := 16

def SequenceRange.entry (r : SequenceRange) : List UInt8 := beBytes 2 r.start.toNat ++ beBytes 2 r.additional.toNat

/-- A list in parts of `n` entries, the last of which may have fewer. -/
def chunks {α : Type} (n : Nat) : List α → List (List α)
  | [] => []
  | a :: l => (a :: l.take (n - 1)) :: chunks n (l.drop (n - 1))
  termination_by l => l.length
  decreasing_by
    rw [List.length_cons, List.length_drop]
    omega

def buildRangeNack (mediaSsrc : UInt32) (missing : List UInt16) : List UInt8 :=
  (chunks maxRangesPerNack (sequenceRanges missing)).flatMap fun chunk =>
    buildApp 0 mediaSsrc ristAppName (chunk.flatMap SequenceRange.entry)

/-- The shorter of the two forms. -/
def buildNackFeedback (senderSsrc mediaSsrc : UInt32) (missing : List UInt16) : List UInt8 :=
  let generic := buildNack senderSsrc mediaSsrc missing
  let range := buildRangeNack mediaSsrc missing
  if range.length < generic.length then range else generic

/-! ## Parsing -/

def parseReportBlock (b : List UInt8) : Option ReportBlock := do
  let flCum ← readBe 4 b 4
  let ssrc ← readSsrc b 0
  let highestSeq ← readBe 4 b 8
  let jitter ← readBe 4 b 12
  let lastSr ← readBe 4 b 16
  let delaySinceLastSr ← readBe 4 b 20
  some { ssrc, fractionLost := flCum / 2 ^ 24, cumulativeLost := flCum % 2 ^ 24, highestSeq, jitter, lastSr, delaySinceLastSr }

def parseReportBlocks (b : List UInt8) (count : Nat) : List ReportBlock :=
  ((wholeChunks 24 b).take count).filterMap parseReportBlock

/-- The numbers that a word stands for. -/
def wordSequences (fci : List UInt8) : List UInt16 :=
  let pid := UInt16.ofNat (beNat (slice fci 0 2))
  let blp := beNat (slice fci 2 2)
  pid :: ((List.range 16).filter (hasBit blp)).map fun bit => pid + UInt16.ofNat (bit + 1)

/-- The rest of a body, if it is that long. -/
def bodyFrom (body : List UInt8) (start : Nat) : Option (List UInt8) :=
  if start ≤ body.length then some (body.drop start) else none

/-- Nothing for a body that is too short for its type. -/
def parsePacket (pt : UInt8) (count : Nat) (body : List UInt8) : Option RtcpPacket :=
  if pt = 201 then do
    let ssrc ← readSsrc body 0
    let blocks ← bodyFrom body 4
    some (.receiverReport ssrc (parseReportBlocks blocks count))
  else if pt = 200 then do
    let ssrc ← readSsrc body 0
    let ntp ← readBe 8 body 4
    let rtpTs ← readBe 4 body 12
    let blocks ← bodyFrom body 24
    some (.senderReport ssrc ntp rtpTs (parseReportBlocks blocks count))
  else if pt = 205 ∧ count = 1 then do
    let senderSsrc ← readSsrc body 0
    let mediaSsrc ← readSsrc body 4
    let words ← bodyFrom body 8
    some (.nack senderSsrc mediaSsrc ((wholeChunks 4 words).flatMap wordSequences))
  else if pt = 203 then
    some (.bye (((wholeChunks 4 body).take count).map fun word => UInt32.ofNat (beNat word)))
  else if pt = 204 then do
    let ssrc ← readSsrc body 0
    let data ← bodyFrom body 8
    some (.app count ssrc (slice body 4 4) data)
  else some (.other pt)

def parseCompound : List UInt8 → List RtcpPacket
  | first :: pt :: high :: low :: rest =>
    let words := beNat [high, low]
    if rest.length < words * 4 then []
    else
      (parsePacket pt (first &&& 0x1F).toNat (rest.take (words * 4))).toList ++ parseCompound (rest.drop (words * 4))
  | _ => []
  termination_by buf => buf.length
  decreasing_by
    simp only [List.length_drop, List.length_cons]
    omega

/-- The stream that a packet or a request is of. -/
def mediaSsrc (ssrc : UInt32) : UInt32 := ssrc &&& ~~~1

def rangeOf (entry : List UInt8) : SequenceRange where
  start := UInt16.ofNat (beNat (slice entry 0 2))
  additional := UInt16.ofNat (beNat (slice entry 2 2))

def requestedRanges (p : RtcpPacket) (media : UInt32) : Option (List SequenceRange) :=
  match p with
  | .nack _ target missing =>
    if mediaSsrc target = media then some (missing.map fun start => { start, additional := 0 }) else none
  | .app subtype ssrc name data =>
    if subtype = 0 ∧ name = ristAppName ∧ mediaSsrc ssrc = media then some ((wholeChunks 4 data).map rangeOf) else none
  | _ => none

/-- All that a datagram asks a stream for. -/
def requested (datagram : List UInt8) (media : UInt32) : List SequenceRange :=
  ((parseCompound datagram).filterMap (requestedRanges · media)).flatten

end Glass2Glass.Rist
