import Glass2Glass.Lib.Words
import Glass2Glass.Wire.Packet

/-!
# Framed recordings

A recording is a row of packets, each behind the length of its body. `readRecords` walks the lengths
and stops at the first record that is not all there, so a recording that is cut off anywhere is read up
to its last whole record (`readRecords_cut`).
-/

namespace Glass2Glass.Wire

open Codec Words List

/-! ## The code -/

/-- Width of a record's length prefix. -/
def recordLengthPrefixBytes : Nat := 4

/-- The length prefix of a body, unless the body is too long for it. -/
def recordLengthPrefix (payloadLen : Nat) : Except WireError (List UInt8) :=
  if payloadLen < 2 ^ 32 then .ok (leBytes recordLengthPrefixBytes payloadLen) else .error .unsupportedDomain

/-- `readRecords` from place `i` on. -/
def readRecordsFrom (buf : List UInt8) (i : Nat) : Except WireError (List PipelinePacket) :=
  if i + recordLengthPrefixBytes ≤ buf.length then
    let len := leNat (slice buf i recordLengthPrefixBytes)
    let start := i + recordLengthPrefixBytes
    -- An end past the address space is past the buffer as well, so `checked_add` needs no branch.
    if start + len ≤ buf.length then do
      let packet ← decodePacket (slice buf start len)
      let rest ← readRecordsFrom buf (start + len)
      return packet :: rest
    else .ok []
  else .ok []
termination_by buf.length - i
decreasing_by
  simp only [recordLengthPrefixBytes] at *
  omega

/-- Split a recording into its packets; a truncated last record is dropped. -/
def readRecords (buf : List UInt8) : Except WireError (List PipelinePacket) := readRecordsFrom buf 0

/-! ## Recordings -/

/-- The recording of a row of bodies. -/
def recording : List (List UInt8) → Except WireError (List UInt8)
  | [] => .ok []
  | body :: bodies => do
    let length ← recordLengthPrefix body.length
    let rest ← recording bodies
    return length ++ (body ++ rest)

/-- Where the records of a row of bodies end, the first of them starting at `start`. -/
def recordEnds : Nat → List (List UInt8) → List Nat
  | _, [] => []
  | start, body :: bodies =>
    let recordEnd := start + recordLengthPrefixBytes + body.length
    recordEnd :: recordEnds recordEnd bodies

/-- The packets of the records that lie within the first `k` bytes. -/
def packetsWithin (bodies : List (List UInt8)) (packets : List PipelinePacket) (start k : Nat) : List PipelinePacket :=
  ((packets.zip (recordEnds start bodies)).filter fun record => record.2 ≤ k).map (·.1)

theorem le_of_mem_recordEnds {bodies : List (List UInt8)} {start recordEnd : Nat}
    (h : recordEnd ∈ recordEnds start bodies) : start ≤ recordEnd := by
  induction bodies generalizing start with
  | nil => cases h
  | cons body bodies ih =>
    rcases List.mem_cons.1 h with rfl | h
    · omega
    · have := ih h
      omega

theorem packetsWithin_eq_nil {bodies : List (List UInt8)} {packets : List PipelinePacket} {start k : Nat}
    (h : ∀ recordEnd ∈ recordEnds start bodies, k < recordEnd) : packetsWithin bodies packets start k = [] := by
  unfold packetsWithin
  rw [map_eq_nil_iff, filter_eq_nil_iff]
  intro record hrecord hle
  have hend := h record.2 (of_mem_zip hrecord).2
  have hle' : record.2 ≤ k := of_decide_eq_true hle
  omega

/-! ## The walk -/

variable {buf done body tail : List UInt8} {packet : PipelinePacket} {i : Nat}

theorem readRecordsFrom_short (h : buf.length < i + recordLengthPrefixBytes) : readRecordsFrom buf i = .ok [] := by
  rw [readRecordsFrom, if_neg (by omega)]

theorem readRecordsFrom_truncated
    (h : buf.length < i + recordLengthPrefixBytes + leNat (slice buf i recordLengthPrefixBytes)) :
    readRecordsFrom buf i = .ok [] := by
  rw [readRecordsFrom]
  split_ifs
  · dsimp only
    rw [if_neg (by omega)]
  · rfl

theorem readRecordsFrom_whole (hlen : body.length < 2 ^ 32) (hdecode : decodePacket body = .ok packet) :
    readRecordsFrom (done ++ (leBytes recordLengthPrefixBytes body.length ++ (body ++ tail))) done.length =
      (readRecordsFrom ((done ++ (leBytes recordLengthPrefixBytes body.length ++ body)) ++ tail)
        (done ++ (leBytes recordLengthPrefixBytes body.length ++ body)).length).map (packet :: ·) := by
  have hwidth : (leBytes recordLengthPrefixBytes body.length).length = recordLengthPrefixBytes := length_leBytes _ _
  have hstarts : slice (done ++ (leBytes recordLengthPrefixBytes body.length ++ (body ++ tail))) done.length
      recordLengthPrefixBytes = leBytes recordLengthPrefixBytes body.length := slice_after rfl hwidth
  have hvalue : leNat (leBytes recordLengthPrefixBytes body.length) = body.length := leNat_leBytes _ _ hlen
  have hbody : slice (done ++ (leBytes recordLengthPrefixBytes body.length ++ (body ++ tail)))
      (done.length + recordLengthPrefixBytes) body.length = body := by
    rw [← append_assoc]
    exact slice_after (by rw [length_append, hwidth]) rfl
  have happend : done ++ (leBytes recordLengthPrefixBytes body.length ++ (body ++ tail)) =
      (done ++ (leBytes recordLengthPrefixBytes body.length ++ body)) ++ tail := by
    simp only [append_assoc]
  have hnext : (done ++ (leBytes recordLengthPrefixBytes body.length ++ body)).length =
      done.length + recordLengthPrefixBytes + body.length := by
    rw [length_append, length_append, hwidth]
    omega
  have hall : (done ++ (leBytes recordLengthPrefixBytes body.length ++ (body ++ tail))).length =
      done.length + recordLengthPrefixBytes + body.length + tail.length := by
    rw [happend, length_append, hnext]
  rw [readRecordsFrom, hstarts, hvalue, if_pos (by omega)]
  rw [if_pos (by omega), hbody, hdecode, hnext, ← happend]
  cases readRecordsFrom _ _ <;> rfl

theorem readRecordsFrom_cut (hlen : body.length < 2 ^ 32) {k : Nat} (hk : k < recordLengthPrefixBytes + body.length) :
    readRecordsFrom (done ++ (leBytes recordLengthPrefixBytes body.length ++ (body ++ tail)).take k) done.length =
      .ok [] := by
  have hwidth : (leBytes recordLengthPrefixBytes body.length).length = recordLengthPrefixBytes := length_leBytes _ _
  have hall : (done ++ (leBytes recordLengthPrefixBytes body.length ++ (body ++ tail)).take k).length =
      done.length + k := by
    simp only [length_append, length_take, hwidth]
    omega
  by_cases hshort : k < recordLengthPrefixBytes
  · -- The cut falls inside the length.
    apply readRecordsFrom_short
    omega
  · -- The length is there, and what it promises is not.
    have hstarts : slice (done ++ (leBytes recordLengthPrefixBytes body.length ++ (body ++ tail)).take k) done.length
        recordLengthPrefixBytes = leBytes recordLengthPrefixBytes body.length := by
      rw [take_append, hwidth, take_of_length_le (by omega)]
      exact slice_after rfl hwidth
    apply readRecordsFrom_truncated
    rw [hstarts, leNat_leBytes _ _ hlen, hall]
    omega

variable {bodies : List (List UInt8)} {packets : List PipelinePacket} {R : List UInt8}

theorem recordLengthPrefix_eq (hlen : body.length < 2 ^ 32) :
    recordLengthPrefix body.length = .ok (leBytes recordLengthPrefixBytes body.length) := if_pos hlen

theorem exists_recording (hlen : ∀ body ∈ bodies, body.length < 2 ^ 32) : ∃ R, recording bodies = .ok R := by
  induction bodies with
  | nil => exact ⟨[], rfl⟩
  | cons body bodies ih =>
    obtain ⟨rest, hrest⟩ := ih fun b hb => hlen b (mem_cons_of_mem _ hb)
    rw [recording, recordLengthPrefix_eq (hlen body mem_cons_self), hrest]
    exact ⟨_, rfl⟩

/-- From a record's start, what is read of a recording cut off `k` bytes behind it is the packets of the records
that are all there. -/
theorem readRecordsFrom_recording (h : List.Forall₂ (fun body packet => decodePacket body = .ok packet) bodies packets)
    (hlen : ∀ body ∈ bodies, body.length < 2 ^ 32) (hR : recording bodies = .ok R) (done : List UInt8) (k : Nat) :
    readRecordsFrom (done ++ R.take k) done.length =
      .ok (packetsWithin bodies packets done.length (done.length + k)) := by
  induction h generalizing R done k with
  | nil =>
    obtain rfl := Except.ok.inj hR
    apply readRecordsFrom_short
    simp [recordLengthPrefixBytes]
  | @cons body packet bodies packets hdecode _ ih =>
    have hbody := hlen body mem_cons_self
    have hrestLen : ∀ b ∈ bodies, b.length < 2 ^ 32 := fun b hb => hlen b (mem_cons_of_mem _ hb)
    obtain ⟨rest, hrest⟩ := exists_recording hrestLen
    rw [recording, recordLengthPrefix_eq hbody, hrest] at hR
    obtain rfl := Except.ok.inj hR
    have hwidth : (leBytes recordLengthPrefixBytes body.length).length = recordLengthPrefixBytes := length_leBytes _ _
    by_cases hk : k < recordLengthPrefixBytes + body.length
    · -- The cut falls inside this record.
      rw [readRecordsFrom_cut hbody hk, packetsWithin_eq_nil]
      intro recordEnd hend
      rcases List.mem_cons.1 hend with rfl | hend
      · omega
      · have := le_of_mem_recordEnds hend
        omega
    · -- This record is whole, and the cut falls in what follows it.
      obtain ⟨j, rfl⟩ : ∃ j, k = (recordLengthPrefixBytes + body.length) + j := ⟨_, (Nat.add_sub_of_le (by omega)).symm⟩
      have htake : (leBytes recordLengthPrefixBytes body.length ++ (body ++ rest)).take
          (recordLengthPrefixBytes + body.length + j) =
          leBytes recordLengthPrefixBytes body.length ++ (body ++ rest.take j) := by
        rw [take_append, hwidth, take_of_length_le (by omega), take_append, take_of_length_le (by omega)]
        congr 3
        omega
      have hnext : (done ++ (leBytes recordLengthPrefixBytes body.length ++ body)).length =
          done.length + recordLengthPrefixBytes + body.length := by
        rw [length_append, length_append, hwidth]
        omega
      have hwithin : packetsWithin (body :: bodies) (packet :: packets) done.length
          (done.length + (recordLengthPrefixBytes + body.length + j)) =
          packet :: packetsWithin bodies packets (done.length + recordLengthPrefixBytes + body.length)
            (done.length + recordLengthPrefixBytes + body.length + j) := by
        unfold packetsWithin
        rw [recordEnds, zip_cons_cons, filter_cons_of_pos (by simp; omega), map_cons]
        simp only [Nat.add_assoc]
      rw [htake, readRecordsFrom_whole hbody hdecode, ih hrestLen hrest, hwithin, hnext]
      rfl

theorem recordEnds_le (hlen : ∀ body ∈ bodies, body.length < 2 ^ 32) (hR : recording bodies = .ok R) {start recordEnd : Nat}
    (h : recordEnd ∈ recordEnds start bodies) : recordEnd ≤ start + R.length := by
  induction bodies generalizing R start with
  | nil => cases h
  | cons body bodies ih =>
    have hrestLen : ∀ b ∈ bodies, b.length < 2 ^ 32 := fun b hb => hlen b (mem_cons_of_mem _ hb)
    obtain ⟨rest, hrest⟩ := exists_recording hrestLen
    rw [recording, recordLengthPrefix_eq (hlen body mem_cons_self), hrest] at hR
    obtain rfl := Except.ok.inj hR
    simp only [length_append, length_leBytes]
    rcases List.mem_cons.1 h with rfl | h
    · omega
    · have := ih hrestLen hrest h
      omega

theorem length_recordEnds (start : Nat) (bodies : List (List UInt8)) :
    (recordEnds start bodies).length = bodies.length := by
  induction bodies generalizing start with
  | nil => rfl
  | cons body bodies ih => rw [recordEnds, length_cons, ih, length_cons]

theorem packetsWithin_all (hlen : ∀ body ∈ bodies, body.length < 2 ^ 32) (hR : recording bodies = .ok R)
    (hcount : packets.length = bodies.length) : packetsWithin bodies packets 0 R.length = packets := by
  unfold packetsWithin
  rw [List.filter_eq_self.2, map_fst_zip (by rw [length_recordEnds, hcount])]
  intro record hrecord
  have hle := recordEnds_le hlen hR (of_mem_zip hrecord).2
  rw [Nat.zero_add] at hle
  exact decide_eq_true hle

/-! ## Crash-cut recordings -/

/-- A recording cut off anywhere is read as the packets of the records that lie wholly before the cut, in their
order; one that is not cut off is read as all of its packets. -/
theorem readRecords_cut (h : List.Forall₂ (fun body packet => decodePacket body = .ok packet) bodies packets)
    (hlen : ∀ body ∈ bodies, body.length < 2 ^ 32) : ∃ R, recording bodies = .ok R ∧ readRecords R = .ok packets ∧
      ∀ k ≤ R.length, readRecords (R.take k) = .ok (packetsWithin bodies packets 0 k) := by
  obtain ⟨R, hR⟩ := exists_recording hlen
  have hcut : ∀ k, readRecords (R.take k) = .ok (packetsWithin bodies packets 0 k) := by
    intro k
    have hread := readRecordsFrom_recording h hlen hR [] k
    rw [nil_append, length_nil, Nat.zero_add] at hread
    exact hread
  have hall := hcut R.length
  rw [take_length, packetsWithin_all hlen hR h.length_eq.symm] at hall
  exact ⟨R, hR, hall, fun k _ => hcut k⟩

/-- Two packets without a body. -/
theorem readRecords_cut_two : ∃ R, recording [[3, 2], [3, 3]] = .ok R ∧ readRecords R = .ok [.eos, .flush] ∧
      ∀ k ≤ R.length, readRecords (R.take k) = .ok (packetsWithin [[3, 2], [3, 3]] [.eos, .flush] 0 k) :=
  readRecords_cut (.cons (by decide) (.cons (by decide) .nil)) (by decide)

end Glass2Glass.Wire
