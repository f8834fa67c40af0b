import Glass2Glass.Srt.Handshake
import Glass2Glass.Srt.Sender

/-!
# Control packets

How control packets are built and parsed (`build_control`, `parse_control` in `g2g-plugins/src/srt.rs`), with the loss
lists that are sent as ranges. A packet that is parsed is the one that was built, and a loss list is cut off where it
does not fit, and past a bound on the list that is read (`parseControl_buildControl`).
-/

namespace Glass2Glass.Srt

open Words List

def ctrlHandshake : Nat := 0x0000

def ctrlKeepalive : Nat := 0x0001

def ctrlAck : Nat := 0x0002

def ctrlNak : Nat := 0x0003

def ctrlShutdown : Nat := 0x0005

def ctrlDropreq : Nat := 0x0007

def ctrlUser : Nat := 0x7FFF

def lightAckCifLen : Nat := 4

def fullAckCifLen : Nat := 16

def dropRequestCifLen : Nat := 8

def emptyCifPaddingLen : Nat := 4

def ipv4UdpHeaderLen : Nat := 28

/-- A loss report fits into one packet. -/
def maxNakCifBytes : Nat := mssBytes.toNat - ipv4UdpHeaderLen - headerLen

inductive ControlPacket where
  | handshake (hs : Handshake)
  | keepalive
  | ack (ackNo ackSeq rttUs rttVarianceUs availableBuffer : Nat)
  | lightAck (ackSeq : Nat)
  | ackAck (ackNo : Nat)
  | nak (loss : List Nat)
  | shutdown
  | keyMaterial (rsp : Bool) (km : List UInt8)
  | dropRequest (messageNumber firstSequence lastSequence : Nat)

/-- A control packet that a sender answers, among all of them. -/
def Control.packet : Control → ControlPacket
  | .keepalive => .keepalive
  | .ack ackNo ackSeq rttUs rttVarianceUs availableBuffer => .ack ackNo ackSeq rttUs rttVarianceUs availableBuffer
  | .lightAck ackSeq => .lightAck ackSeq
  | .ackAck ackNo => .ackAck ackNo
  | .nak loss => .nak loss
  | .shutdown => .shutdown

/-! ## Writing -/

/-- The end of the run that goes on after `last`, and what follows it. -/
def runEnd : Nat → List Nat → Nat × List Nat
  | last, [] => (last, [])
  | last, next :: rest => if next = last + 1 then runEnd next rest else (last, next :: rest)

/-- A run of lost sequences: one word for one sequence, the marked first one and the last one for more. -/
def nakEntry (start last : Nat) : List UInt8 :=
  if last = start then beBytes 4 (start % 2 ^ 31)
  else beBytes 4 (start % 2 ^ 31 ||| 0x80000000) ++ beBytes 4 (last % 2 ^ 31)

/-- The runs of a loss list behind each other, up to the first one that does not fit. Each takes a sequence at least. -/
def buildNakFrom : Nat → List UInt8 → List Nat → List UInt8
  | fuel + 1, cif, start :: rest =>
    if maxNakCifBytes < cif.length + (if (runEnd start rest).1 = start then 4 else 8) then cif
    else buildNakFrom fuel (cif ++ nakEntry start (runEnd start rest).1) (runEnd start rest).2
  | _, cif, _ => cif

def buildNakCif (loss : List Nat) : List UInt8 := buildNakFrom loss.length [] loss

/-- A control packet behind its header. -/
def controlPacket (ctrlType typeInfo timestamp dstSocketId : Nat) (cif : List UInt8) : List UInt8 :=
  beBytes 4 (0x80000000 ||| ctrlType <<< 16) ++ (beBytes 4 typeInfo ++ (beBytes 4 timestamp ++
    (beBytes 4 dstSocketId ++ cif)))

def buildControl (ctrl : ControlPacket) (timestamp dstSocketId : Nat) : List UInt8 :=
  match ctrl with
  | .handshake hs => controlPacket ctrlHandshake 0 timestamp dstSocketId (buildHandshakeCif hs)
  | .keepalive => controlPacket ctrlKeepalive 0 timestamp dstSocketId (List.replicate emptyCifPaddingLen 0)
  | .ack ackNo ackSeq rttUs rttVarianceUs availableBuffer =>
    controlPacket ctrlAck ackNo timestamp dstSocketId
      (beBytes 4 ackSeq ++ (beBytes 4 rttUs ++ (beBytes 4 rttVarianceUs ++ beBytes 4 availableBuffer)))
  | .lightAck ackSeq => controlPacket ctrlAck 0 timestamp dstSocketId (beBytes 4 ackSeq)
  | .ackAck ackNo => controlPacket ctrlAckAck ackNo timestamp dstSocketId (List.replicate emptyCifPaddingLen 0)
  | .nak loss => controlPacket ctrlNak 0 timestamp dstSocketId (buildNakCif loss)
  | .shutdown => controlPacket ctrlShutdown 0 timestamp dstSocketId (List.replicate emptyCifPaddingLen 0)
  | .keyMaterial rsp km =>
    controlPacket ctrlUser (if rsp then extKmrsp.toNat else extKmreq.toNat) timestamp dstSocketId km
  | .dropRequest messageNumber firstSequence lastSequence =>
    controlPacket ctrlDropreq messageNumber timestamp dstSocketId (beBytes 4 firstSequence ++ beBytes 4 lastSequence)

/-! ## Reading -/

/-- The lost sequences that the rest of a report names, after those in `loss`. Each step takes four bytes at least. -/
def parseNakFrom : Nat → List Nat → List UInt8 → List Nat
  | 0, loss, _ => loss
  | fuel + 1, loss, cif =>
    if cif.length < 4 ∨ maxLossList ≤ loss.length then loss
    else if hasBit (beNat (slice cif 0 4)) 31 then
      -- The first sequence of a range, the last one is in the next word.
      if 8 ≤ cif.length then
        parseNakFrom fuel
          (loss ++ (List.range (min (seqDistance (beNat (slice cif 4 4) % 2 ^ 31) (beNat (slice cif 0 4) % 2 ^ 31) + 1)
            (maxLossList - loss.length))).map fun offset => (beNat (slice cif 0 4) % 2 ^ 31 + offset) % 2 ^ 31)
          (cif.drop 8)
      else parseNakFrom fuel (loss ++ [beNat (slice cif 0 4) % 2 ^ 31]) (cif.drop 4)
    else parseNakFrom fuel (loss ++ [beNat (slice cif 0 4) % 2 ^ 31]) (cif.drop 4)

def parseNakCif (cif : List UInt8) : List Nat := parseNakFrom cif.length [] cif

/-- The packet that the fields of the header and what follows it are parsed to. -/
def parseCif (ctrlType typeInfo : Nat) (cif : List UInt8) : Option ControlPacket :=
  if ctrlType = ctrlHandshake then (parseHandshakeCif cif).map .handshake
  else if ctrlType = ctrlKeepalive then some .keepalive
  else if ctrlType = ctrlAck ∧ cif.length = lightAckCifLen then some (.lightAck (beNat (slice cif 0 4)))
  else if ctrlType = ctrlAck ∧ fullAckCifLen ≤ cif.length then
    some (.ack typeInfo (beNat (slice cif 0 4)) (beNat (slice cif 4 4)) (beNat (slice cif 8 4))
      (beNat (slice cif 12 4)))
  else if ctrlType = ctrlAckAck then some (.ackAck typeInfo)
  else if ctrlType = ctrlNak then some (.nak (parseNakCif cif))
  else if ctrlType = ctrlShutdown then some .shutdown
  else if ctrlType = ctrlDropreq ∧ dropRequestCifLen ≤ cif.length then
    some (.dropRequest typeInfo (beNat (slice cif 0 4) % 2 ^ 31) (beNat (slice cif 4 4) % 2 ^ 31))
  else if ctrlType = ctrlUser ∧ (typeInfo = extKmreq.toNat ∨ typeInfo = extKmrsp.toNat) then
    some (.keyMaterial (typeInfo == extKmrsp.toNat) cif)
  else none

def parseControl (buf : List UInt8) : Option ControlPacket :=
  if buf.length < headerLen || !isControl buf then none
  else parseCif ((beNat (slice buf 0 4) >>> 16) &&& 0x7FFF) (beNat (slice buf 4 4)) (buf.drop headerLen)

/-! ## Loss lists -/

/-- The runs of a list that goes on after the run from `start` to `last`. -/
def runsFrom : Nat → Nat → List Nat → List (Nat × Nat)
  | start, last, [] => [(start, last)]
  | start, last, next :: rest =>
    if next = last + 1 then runsFrom start next rest else (start, last) :: runsFrom next next rest

def runs : List Nat → List (Nat × Nat)
  | [] => []
  | start :: rest => runsFrom start start rest

def members (run : Nat × Nat) : List Nat := List.range' run.1 (run.2 + 1 - run.1)

/-- A loss list as it is sent when there is room for all of it. -/
def nakEncoding (loss : List Nat) : List UInt8 := (runs loss).flatMap fun run => nakEntry run.1 run.2

variable {start last : Nat} {rest loss : List Nat}

theorem runsFrom_eq (start last : Nat) (rest : List Nat) :
    runsFrom start last rest = (start, (runEnd last rest).1) :: runs (runEnd last rest).2 := by
  induction rest generalizing last with
  | nil => rfl
  | cons next rest ih =>
    rw [runsFrom, runEnd]
    split_ifs with h
    · exact ih next
    · rfl

theorem length_runEnd (last : Nat) (rest : List Nat) : (runEnd last rest).2.length ≤ rest.length := by
  induction rest generalizing last with
  | nil => exact le_rfl
  | cons next rest ih =>
    rw [runEnd]
    split_ifs with h
    · exact (ih next).trans (Nat.le_succ _)
    · exact le_rfl

theorem range'_runEnd (h : start ≤ last) : start ≤ (runEnd last rest).1 ∧ List.range' start (last + 1 - start) ++ rest =
        List.range' start ((runEnd last rest).1 + 1 - start) ++ (runEnd last rest).2 := by
  induction rest generalizing last with
  | nil => exact ⟨h, rfl⟩
  | cons next rest ih =>
    rw [runEnd]
    split_ifs with hnext
    · have hgoes : start ≤ next := by omega
      obtain ⟨hle, heq⟩ := ih hgoes
      refine ⟨hle, heq ▸ ?_⟩
      have hlast : next + 1 - start = (last + 1 - start) + 1 := by omega
      have hend : start + (last + 1 - start) = next := by omega
      rw [hlast, List.range'_concat, Nat.one_mul, hend, append_assoc, singleton_append]
    · exact ⟨h, rfl⟩

theorem cons_eq_members (start : Nat) (rest : List Nat) : start ≤ (runEnd start rest).1 ∧
      start :: rest = members (start, (runEnd start rest).1) ++ (runEnd start rest).2 := by
  have hone : start + 1 - start = 1 := by omega
  obtain ⟨hle, heq⟩ : _ ∧ List.range' start (start + 1 - start) ++ rest = _ := range'_runEnd (le_refl start)
  rw [hone] at heq
  exact ⟨hle, heq⟩

theorem runs_induction {P : List Nat → Prop} (nil : P [])
    (cons : ∀ start rest, P (runEnd start rest).2 → P (start :: rest)) (loss : List Nat) : P loss := by
  induction hn : loss.length using Nat.strong_induction_on generalizing loss with
  | _ n ih =>
    cases loss with
    | nil => exact nil
    | cons start rest =>
      have hlt : (runEnd start rest).2.length < n := by
        rw [← hn]
        exact Nat.lt_succ_of_le (length_runEnd start rest)
      exact cons start rest (ih _ hlt _ rfl)

theorem runs_cons (start : Nat) (rest : List Nat) :
    runs (start :: rest) = (start, (runEnd start rest).1) :: runs (runEnd start rest).2 :=
  runsFrom_eq start start rest

theorem flatMap_members (loss : List Nat) : (runs loss).flatMap members = loss := by
  induction loss using runs_induction with
  | nil => rfl
  | cons start rest ih => rw [runs_cons, flatMap_cons, ih, ← (cons_eq_members start rest).2]

theorem le_of_mem_runs (loss : List Nat) : ∀ run ∈ runs loss, run.1 ≤ run.2 := by
  induction loss using runs_induction with
  | nil => exact forall_mem_nil _
  | cons start rest ih =>
    rw [runs_cons]
    exact List.forall_mem_cons.2 ⟨(cons_eq_members start rest).1, ih⟩

theorem length_nakEntry (start last : Nat) : (nakEntry start last).length = if last = start then 4 else 8 := by
  unfold nakEntry
  split_ifs <;> simp

/-- What is built are the first runs of the list, and all of them when there is room. -/
theorem buildNakFrom_eq (fuel : Nat) (cif : List UInt8) (loss : List Nat) (hfuel : loss.length ≤ fuel) :
    ∃ sent, sent <+: runs loss ∧ buildNakFrom fuel cif loss = cif ++ sent.flatMap (fun run => nakEntry run.1 run.2) ∧
      (cif.length + (nakEncoding loss).length ≤ maxNakCifBytes → sent = runs loss) := by
  induction fuel generalizing cif loss with
  | zero =>
    obtain rfl := List.length_eq_zero_iff.1 (Nat.le_zero.1 hfuel)
    exact ⟨[], nil_prefix, (append_nil cif).symm, fun _ => rfl⟩
  | succ fuel ih =>
    cases loss with
    | nil => exact ⟨[], nil_prefix, (append_nil cif).symm, fun _ => rfl⟩
    | cons start rest =>
      have hencoding : (nakEncoding (start :: rest)).length =
          (if (runEnd start rest).1 = start then 4 else 8) + (nakEncoding (runEnd start rest).2).length := by
        unfold nakEncoding
        rw [runs_cons, flatMap_cons, length_append, length_nakEntry]
      generalize hsize : (if (runEnd start rest).1 = start then 4 else 8) = size at hencoding
      rw [buildNakFrom, hencoding, hsize]
      by_cases hroom : maxNakCifBytes < cif.length + size
      · rw [if_pos hroom]
        exact ⟨[], nil_prefix, (append_nil cif).symm, fun hfits => by omega⟩
      · rw [if_neg hroom]
        have hlength := length_runEnd start rest
        rw [length_cons] at hfuel
        obtain ⟨sent, hstarts, hbuilt, hall⟩ := ih (cif ++ nakEntry start (runEnd start rest).1) (runEnd start rest).2
          (by omega)
        rw [length_append, length_nakEntry, hsize] at hall
        refine ⟨(start, (runEnd start rest).1) :: sent, ?_, ?_, fun hfits => ?_⟩
        · rw [runs_cons]
          exact List.cons_prefix_cons.2 ⟨rfl, hstarts⟩
        · rw [hbuilt, flatMap_cons, append_assoc]
        · rw [hall (by omega), runs_cons]

/-- A run that is read adds its sequences, as long as there is room for them. -/
theorem parseNakFrom_nakEntry {fuel : Nat} {acc : List Nat} {tail : List UInt8} (hle : start ≤ last) (hlast : last < 2 ^ 31)
    (hacc : acc.length < maxLossList) : parseNakFrom (fuel + 1) acc (nakEntry start last ++ tail) =
      parseNakFrom fuel (acc ++ (members (start, last)).take (maxLossList - acc.length)) tail := by
  have hstart : start % 2 ^ 31 = start := Nat.mod_eq_of_lt (by omega)
  have hlast' : last % 2 ^ 31 = last := Nat.mod_eq_of_lt hlast
  by_cases hone : last = start
  · subst hone
    have hentry : nakEntry last last = beBytes 4 last := by rw [nakEntry, if_pos rfl, hstart]
    have hword : beNat (slice (beBytes 4 last ++ tail) 0 4) = last := by
      rw [slice_append_left (length_beBytes 4 last), beNat_beBytes (by omega)]
    have hbit : hasBit last 31 = false := by rw [hasBit_eq, Nat.testBit_lt_two_pow hlast]
    have hmembers : members (last, last) = [last] := by
      unfold members
      rw [show last + 1 - last = 1 by omega]
      rfl
    rw [hentry, parseNakFrom, hword, hbit, if_neg (by rw [length_append, length_beBytes]; omega), hstart, hmembers,
      drop_left' (length_beBytes 4 last), take_of_length_le (by rw [length_singleton]; omega)]
    rfl
  · have hmark : (start ||| 0x80000000) = 2 ^ 31 + start := by
      rw [Nat.or_comm]
      exact (Nat.two_pow_add_eq_or_of_lt (i := 31) (by omega) 1).symm
    have hentry : nakEntry start last = beBytes 4 (2 ^ 31 + start) ++ beBytes 4 last := by
      rw [nakEntry, if_neg hone, hstart, hlast', hmark]
    have hword : beNat (slice (beBytes 4 (2 ^ 31 + start) ++ (beBytes 4 last ++ tail)) 0 4) = 2 ^ 31 + start := by
      rw [slice_append_left (length_beBytes 4 _), beNat_beBytes (by omega)]
    have hnext : beNat (slice (beBytes 4 (2 ^ 31 + start) ++ (beBytes 4 last ++ tail)) 4 4) = last := by
      rw [slice_after (length_beBytes 4 _) (length_beBytes 4 _), beNat_beBytes (by omega)]
    have hbit : hasBit (2 ^ 31 + start) 31 = true := by
      rw [hasBit_eq, Nat.testBit_two_pow_add_eq, Nat.testBit_lt_two_pow (by omega)]
      rfl
    have hdistance : seqDistance last start + 1 = last + 1 - start := by
      unfold seqDistance
      omega
    have hdrop : (beBytes 4 (2 ^ 31 + start) ++ (beBytes 4 last ++ tail)).drop 8 = tail := rfl
    have hlow : (2 ^ 31 + start) % 2 ^ 31 = start := by omega
    have hmembers : (List.range (min (last + 1 - start) (maxLossList - acc.length))).map
        (fun offset => (start + offset) % 2 ^ 31) = (members (start, last)).take (maxLossList - acc.length) := by
      unfold members
      rw [List.range'_eq_map_range, ← map_take, take_range, Nat.min_comm]
      refine map_congr_left fun offset hoffset => Nat.mod_eq_of_lt ?_
      have := List.mem_range.1 hoffset
      omega
    rw [hentry, append_assoc, parseNakFrom, hword, hbit, hnext, hlow, hlast', hdistance, hdrop, hmembers,
      if_neg (by simp only [length_append, length_beBytes]; omega), if_pos rfl,
      if_pos (by simp only [length_append, length_beBytes]; omega)]

theorem take_append_take {n : Nat} {as : List Nat} (bs cs : List Nat) (h : as.length ≤ n) :
    (as ++ bs.take (n - as.length) ++ cs).take n = (as ++ bs ++ cs).take n := by
  rcases Nat.le_total bs.length (n - as.length) with hroom | hfull
  · rw [take_of_length_le hroom]
  · have hcut : (as ++ bs.take (n - as.length)).length = n := by
      rw [length_append, length_take_of_le hfull]
      omega
    have hlong : n ≤ (as ++ bs).length := by
      rw [length_append]
      omega
    rw [take_append_of_le_length hcut.ge, take_append_of_le_length hlong, take_of_length_le hcut.le,
      take_append, take_of_length_le h]

theorem parseNakFrom_runs {fuel : Nat} {acc : List Nat} {sent : List (Nat × Nat)}
    (hsent : ∀ run ∈ sent, run.1 ≤ run.2 ∧ run.2 < 2 ^ 31) (hacc : acc.length ≤ maxLossList)
    (hfuel : sent.length ≤ fuel) : parseNakFrom fuel acc (sent.flatMap fun run => nakEntry run.1 run.2) =
      (acc ++ sent.flatMap members).take maxLossList := by
  induction sent generalizing fuel acc with
  | nil =>
    rw [flatMap_nil, flatMap_nil, append_nil, take_of_length_le hacc]
    cases fuel <;> rfl
  | cons run sent ih =>
    obtain ⟨fuel, rfl⟩ : ∃ n, fuel = n + 1 := Nat.exists_eq_add_of_le' (Nat.le_trans (Nat.succ_pos _) hfuel)
    obtain ⟨⟨hle, hlast⟩, hsent⟩ := List.forall_mem_cons.1 hsent
    rw [length_cons] at hfuel
    rw [flatMap_cons, flatMap_cons]
    rcases Nat.lt_or_eq_of_le hacc with hlt | heq
    · rw [parseNakFrom_nakEntry hle hlast hlt, ih hsent _ (by omega)]
      · rw [← append_assoc, take_append_take _ _ hacc]
      · rw [length_append, length_take]
        omega
    · rw [parseNakFrom, if_pos (.inr heq.ge), take_append_of_le_length heq.ge, take_of_length_le hacc]

theorem parseNakCif_buildNakCif (hloss : ∀ seq ∈ loss, seq < 2 ^ 31) : parseNakCif (buildNakCif loss) <+: loss ∧
      ((nakEncoding loss).length ≤ maxNakCifBytes →
        parseNakCif (buildNakCif loss) = loss.take maxLossList) := by
  obtain ⟨sent, hstarts, hbuilt, hall⟩ := buildNakFrom_eq loss.length [] loss le_rfl
  have hmembers : sent.flatMap members <+: loss := by
    obtain ⟨rest, hrest⟩ := hstarts
    refine ⟨rest.flatMap members, ?_⟩
    rw [← flatMap_append, hrest, flatMap_members]
  have hsent : ∀ run ∈ sent, run.1 ≤ run.2 ∧ run.2 < 2 ^ 31 := by
    intro run hrun
    have hle := le_of_mem_runs loss run (hstarts.mem hrun)
    refine ⟨hle, hloss run.2 (hmembers.mem (List.mem_flatMap.2 ⟨run, hrun, ?_⟩))⟩
    exact List.mem_range'_1.2 ⟨hle, by omega⟩
  have hentries : ∀ sent : List (Nat × Nat), sent.length ≤ (sent.flatMap fun run => nakEntry run.1 run.2).length := by
    intro sent
    induction sent with
    | nil => exact le_rfl
    | cons run sent ih =>
      rw [flatMap_cons, length_append, length_nakEntry, length_cons]
      split_ifs <;> omega
  have hread : parseNakCif (buildNakCif loss) = (sent.flatMap members).take maxLossList := by
    unfold parseNakCif buildNakCif
    rw [hbuilt, nil_append, parseNakFrom_runs hsent (Nat.zero_le _) (hentries sent), nil_append]
  rw [hread]
  refine ⟨( take_prefix _ _).trans hmembers, fun hfits => ?_⟩
  rw [hall (by rwa [length_nil, Nat.zero_add]), flatMap_members]

/-! ## Round trip -/

/-- The header of a control packet is read back. -/
theorem parseControl_controlPacket {ctrlType typeInfo : Nat} (hctrl : ctrlType < 2 ^ 15) (hinfo : typeInfo < 2 ^ 32)
    (timestamp dstSocketId : Nat) (cif : List UInt8) :
    parseControl (controlPacket ctrlType typeInfo timestamp dstSocketId cif) = parseCif ctrlType typeInfo cif := by
  have hword : (0x80000000 ||| ctrlType <<< 16) = 2 ^ 31 + ctrlType * 2 ^ 16 := by
    rw [Nat.shiftLeft_eq]
    exact (Nat.two_pow_add_eq_or_of_lt (i := 31) (by omega) 1).symm
  have hlength : ¬ (controlPacket ctrlType typeInfo timestamp dstSocketId cif).length < headerLen := by
    unfold controlPacket headerLen
    simp only [length_append, length_beBytes]
    omega
  have hcontrol : isControl (controlPacket ctrlType typeInfo timestamp dstSocketId cif) = true := by
    have hbyte : (UInt8.ofNat ((2 ^ 31 + ctrlType * 2 ^ 16) / 256 ^ 3)).toNat = 2 ^ 7 + ctrlType / 2 ^ 8 := by
      rw [UInt8.toNat_ofNat']
      omega
    unfold controlPacket
    rw [hword, beBytes_succ]
    show decide (_ &&& 2 ^ 7 ≠ 0) = true
    rw [hbyte, Nat.and_two_pow, Nat.testBit_two_pow_add_eq, Nat.testBit_lt_two_pow (by omega)]
    rfl
  have hfirst : beNat (slice (controlPacket ctrlType typeInfo timestamp dstSocketId cif) 0 4) =
      2 ^ 31 + ctrlType * 2 ^ 16 := by
    unfold controlPacket
    rw [slice_append_left (length_beBytes 4 _), hword, beNat_beBytes (by omega)]
  have hsecond : beNat (slice (controlPacket ctrlType typeInfo timestamp dstSocketId cif) 4 4) = typeInfo := by
    unfold controlPacket
    rw [slice_after (length_beBytes 4 _) (length_beBytes 4 _), beNat_beBytes hinfo]
  have hrest : (controlPacket ctrlType typeInfo timestamp dstSocketId cif).drop headerLen = cif := rfl
  have htype : (2 ^ 31 + ctrlType * 2 ^ 16) >>> 16 &&& 0x7FFF = ctrlType := by
    have hmask (x : Nat) : x &&& 0x7FFF = x % 2 ^ 15 := Nat.and_two_pow_sub_one_eq_mod x 15
    rw [hmask, Nat.shiftRight_eq_div_pow]
    omega
  unfold parseControl
  rw [hcontrol, decide_eq_false hlength, if_neg (by decide), hfirst, hsecond, hrest, htype]

/-- A handshake that comes back as it was. -/
structure Handshake.Exact (hs : Handshake) : Prop where
  fits : hs.Fits
  km : ∀ km, hs.km = some km → km.length % 4 = 0
  streamId : ∀ sid, hs.streamId = some sid → (0 : UInt8) ∉ sid.toUTF8.data.toList
  isResponse : hs.isResponse = true → hs.latencyMs.isSome ∨ hs.km.isSome
  srtFlags : hs.latencyMs = none → hs.srtFlags = 0

theorem Handshake.Exact.received_eq {hs : Handshake} (h : hs.Exact) : hs.received = hs := by
  have hstream : (hs.streamId.bind fun sid => readStreamId sid.toUTF8.data.toList) = hs.streamId := by
    rcases hsid : hs.streamId with _ | sid
    · rfl
    · exact readStreamId_toUTF8 (h.streamId sid hsid)
  have hkm : hs.km.map padWords = hs.km := by
    rcases hkm : hs.km with _ | km
    · rfl
    · exact congrArg some (padWords_of_whole (h.km km hkm))
  have hresponse : (hs.isResponse && (hs.latencyMs.isSome || hs.km.isSome)) = hs.isResponse := by
    rcases hr : hs.isResponse with _ | _
    · rfl
    · rw [Bool.true_and, Bool.or_eq_true]
      exact h.isResponse hr
  have hflags : (if hs.latencyMs.isSome then hs.srtFlags else 0) = hs.srtFlags := by
    rcases hl : hs.latencyMs with _ | latency
    · exact (h.srtFlags hl).symm
    · rfl
  unfold Handshake.received
  rw [hstream, hkm, hresponse, hflags]

/-- The fields of a control packet are words, and its sequence numbers have 31 bits. A handshake comes back as it was,
and a loss list has room. -/
def ControlPacket.Exact : ControlPacket → Prop
  | .handshake hs => hs.Exact
  | .keepalive => True
  | .ack ackNo ackSeq rttUs rttVarianceUs availableBuffer =>
    ackNo < 2 ^ 32 ∧ ackSeq < 2 ^ 31 ∧ rttUs < 2 ^ 32 ∧ rttVarianceUs < 2 ^ 32 ∧ availableBuffer < 2 ^ 32
  | .lightAck ackSeq => ackSeq < 2 ^ 31
  | .ackAck ackNo => ackNo < 2 ^ 32
  | .nak loss => (∀ seq ∈ loss, seq < 2 ^ 31) ∧ (nakEncoding loss).length ≤ maxNakCifBytes ∧ loss.length ≤ maxLossList
  | .shutdown => True
  | .keyMaterial _ _ => True
  | .dropRequest messageNumber firstSequence lastSequence =>
    messageNumber < 2 ^ 32 ∧ firstSequence < 2 ^ 31 ∧ lastSequence < 2 ^ 31

/-- A control packet that was built is parsed to itself. -/
theorem parseControl_build {ctrl : ControlPacket} (h : ctrl.Exact) (timestamp dstSocketId : Nat) :
    parseControl (buildControl ctrl timestamp dstSocketId) = some ctrl := by
  have hzero : (0 : Nat) < 2 ^ 32 := by decide
  cases ctrl with
  | handshake hs =>
    rw [buildControl, parseControl_controlPacket (by decide) hzero, parseCif, if_pos rfl,
      parseHandshakeCif_buildHandshakeCif hs h.fits, h.received_eq]
    rfl
  | keepalive | shutdown => exact parseControl_controlPacket (by decide) hzero timestamp dstSocketId _
  | ack ackNo ackSeq rttUs rttVarianceUs availableBuffer =>
    obtain ⟨hno, hseq, hrtt, hvariance, hbuffer⟩ := h
    have hwords (a b c d : Nat) (ha : a < 2 ^ 32) (hb : b < 2 ^ 32) (hc : c < 2 ^ 32) (hd : d < 2 ^ 32) :
        parseCif ctrlAck ackNo (beBytes 4 a ++ (beBytes 4 b ++ (beBytes 4 c ++ beBytes 4 d))) =
          some (.ack ackNo a b c d) := by
      have h0 : beNat (beBytes 4 a) = a := beNat_beBytes ha
      have h4 : beNat (beBytes 4 b) = b := beNat_beBytes hb
      have h8 : beNat (beBytes 4 c) = c := beNat_beBytes hc
      have h12 : beNat (beBytes 4 d) = d := beNat_beBytes hd
      show some (ControlPacket.ack ackNo (beNat (beBytes 4 a)) (beNat (beBytes 4 b)) (beNat (beBytes 4 c))
        (beNat (beBytes 4 d))) = _
      rw [h0, h4, h8, h12]
    rw [buildControl, parseControl_controlPacket (by decide) hno]
    exact hwords _ _ _ _ (by omega) hrtt hvariance hbuffer
  | lightAck ackSeq =>
    have hseq : beNat (beBytes 4 ackSeq) = ackSeq := beNat_beBytes (Nat.lt_trans h (by decide))
    rw [buildControl, parseControl_controlPacket (by decide) hzero]
    show some (ControlPacket.lightAck (beNat (beBytes 4 ackSeq))) = _
    rw [hseq]
  | ackAck ackNo => exact parseControl_controlPacket (by decide) h timestamp dstSocketId _
  | nak loss =>
    obtain ⟨hloss, hfits, hlength⟩ := h
    rw [buildControl, parseControl_controlPacket (by decide) hzero]
    show some (ControlPacket.nak (parseNakCif (buildNakCif loss))) = _
    rw [(parseNakCif_buildNakCif hloss).2 hfits, take_of_length_le hlength]
  | keyMaterial rsp km =>
    rw [buildControl, parseControl_controlPacket (by decide) (by cases rsp <;> decide)]
    cases rsp <;> rfl
  | dropRequest messageNumber firstSequence lastSequence =>
    obtain ⟨hmessage, hfirst, hlast⟩ := h
    have h0 : beNat (beBytes 4 firstSequence) = firstSequence := beNat_beBytes (Nat.lt_trans hfirst (by decide))
    have h4 : beNat (beBytes 4 lastSequence) = lastSequence := beNat_beBytes (Nat.lt_trans hlast (by decide))
    rw [buildControl, parseControl_controlPacket (by decide) hmessage]
    show some (ControlPacket.dropRequest messageNumber (beNat (beBytes 4 firstSequence) % 2 ^ 31)
      (beNat (beBytes 4 lastSequence) % 2 ^ 31)) = _
    rw [h0, h4, Nat.mod_eq_of_lt hfirst, Nat.mod_eq_of_lt hlast]

/-- A control packet that was built is parsed to itself. A loss list of any length is parsed to a part from its start. -/
theorem parseControl_buildControl (timestamp dstSocketId : Nat) :
    (∀ ctrl : ControlPacket, ctrl.Exact → parseControl (buildControl ctrl timestamp dstSocketId) = some ctrl) ∧
      ∀ loss : List Nat, (∀ seq ∈ loss, seq < 2 ^ 31) →
        ∃ read, parseControl (buildControl (.nak loss) timestamp dstSocketId) = some (.nak read) ∧ read <+: loss := by
  refine ⟨fun ctrl h => parseControl_build h timestamp dstSocketId, fun loss hloss => ?_⟩
  refine ⟨parseNakCif (buildNakCif loss), ?_, (parseNakCif_buildNakCif hloss).1⟩
  exact parseControl_controlPacket (by decide) (by decide) timestamp dstSocketId _

/-- A range past the end of the numbers is read as two, and one that is dropped keeps its ends. -/
theorem parseControl_buildControl_wrap : parseControl (buildControl (.nak [2 ^ 31 - 2, 2 ^ 31 - 1, 0, 1, 7]) 0 0) =
        some (.nak [2 ^ 31 - 2, 2 ^ 31 - 1, 0, 1, 7]) ∧
      ∃ read, parseControl (buildControl (.nak [5, 3]) 0 0) = some (.nak read) ∧ read <+: [5, 3] :=
  ⟨(parseControl_buildControl 0 0).1 (.nak [2 ^ 31 - 2, 2 ^ 31 - 1, 0, 1, 7]) (by
      refine ⟨by decide, by decide, by decide⟩),
    (parseControl_buildControl 0 0).2 [5, 3] (by decide)⟩

theorem runEnd_range' (start n : Nat) : runEnd start (List.range' (start + 1) n) = (start + n, []) := by
  induction n generalizing start with
  | zero => rfl
  | succ n ih =>
    rw [List.range'_succ, runEnd, if_pos rfl, ih]
    exact congrArg (·, []) (by omega)

/-- One range holds more sequences than are read. -/
theorem nak_longer_than_read : (∀ seq ∈ List.range (maxLossList + 1), seq < 2 ^ 31) ∧
      (nakEncoding (List.range (maxLossList + 1))).length ≤ maxNakCifBytes ∧
      parseControl (buildControl (.nak (List.range (maxLossList + 1))) 0 0) ≠
        some (.nak (List.range (maxLossList + 1))) := by
  have hseq : ∀ seq ∈ List.range (maxLossList + 1), seq < 2 ^ 31 := fun seq hseq =>
    Nat.lt_of_lt_of_le (List.mem_range.1 hseq) (by decide)
  have hrange : List.range (maxLossList + 1) = 0 :: List.range' 1 maxLossList := by
    rw [range_eq_range', List.range'_succ]
  have hencoding : (nakEncoding (List.range (maxLossList + 1))).length = 8 := by
    unfold nakEncoding
    rw [hrange, runs_cons, runEnd_range' 0 maxLossList, runs, flatMap_singleton, length_nakEntry,
      if_neg (by decide)]
  have hfits : (nakEncoding (List.range (maxLossList + 1))).length ≤ maxNakCifBytes := by
    rw [hencoding]
    decide
  refine ⟨hseq, hfits, fun heq => ?_⟩
  have hread : parseControl (buildControl (.nak (List.range (maxLossList + 1))) 0 0) =
      some (.nak ((List.range (maxLossList + 1)).take maxLossList)) := by
    rw [← (parseNakCif_buildNakCif hseq).2 hfits]
    exact parseControl_controlPacket (by decide) (by decide) 0 0 _
  have hlist := ControlPacket.nak.inj (Option.some.inj (hread.symm.trans heq))
  have hlength := congrArg List.length hlist
  rw [length_take, length_range] at hlength
  omega

end Glass2Glass.Srt
