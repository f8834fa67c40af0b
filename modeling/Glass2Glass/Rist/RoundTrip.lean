import Glass2Glass.Rist.Feedback
import Mathlib.Data.List.Induction
import Mathlib.Data.List.TakeWhile

/-!
# What a request asks for

Both forms of a request stand for the numbers that were missing: the ranges for their list (`requested_range`), the words
for the list in order (`requested_generic`).
-/

namespace Glass2Glass.Rist

open List Nat

open Words (beBytes beNat slice byteAt setBits hasBit)
open SequenceRange (entry)
open Words (length_beBytes beNat_beBytes)

/-! ## Ranges -/

theorem SequenceRange.sequences_single (sequence : UInt16) :
    SequenceRange.sequences { start := sequence, additional := 0 } = [sequence] := by
  simp [SequenceRange.sequences]

theorem SequenceRange.sequences_extend (r : SequenceRange) (h : r.additional < 0xFFFF) :
    SequenceRange.sequences { r with additional := r.additional + 1 }
      = r.sequences ++ [r.start + r.additional + 1] := by
  have hlt : r.additional.toNat < 0xFFFF := by simpa [UInt16.lt_iff_toNat_lt] using h
  have hnext : (r.additional + 1).toNat = r.additional.toNat + 1 := by
    simp only [UInt16.toNat_add, UInt16.toNat_one]
    omega
  rw [sequences, sequences, hnext, range_succ, map_append, map_singleton]
  congr 2
  rw [UInt16.add_assoc]
  congr 1

theorem flatMap_sequenceRanges (sequences : List UInt16) :
    (sequenceRanges sequences).flatMap SequenceRange.sequences = sequences := by
  induction sequences using List.reverseRecOn with
  | nil => rfl
  | append_singleton sequences sequence ih =>
    have hsnoc : sequenceRanges (sequences ++ [sequence]) = extendRanges (sequenceRanges sequences) sequence := by
      simp [sequenceRanges]
    rw [hsnoc, extendRanges]
    cases hlast : (sequenceRanges sequences).getLast? with
    | none =>
      rw [flatMap_append, ih, flatMap_singleton, SequenceRange.sequences_single]
    | some last =>
      dsimp only
      split_ifs with hextends
      · obtain ⟨hfollows, hmore⟩ := hextends
        obtain ⟨earlier, hearlier⟩ := List.getLast?_eq_some_iff.mp hlast
        rw [hearlier, dropLast_concat, flatMap_append, flatMap_singleton,
          SequenceRange.sequences_extend last hmore, hfollows, ← append_assoc]
        rw [hearlier, flatMap_append, flatMap_singleton] at ih
        rw [ih]
      · rw [flatMap_append, ih, flatMap_singleton, SequenceRange.sequences_single]

/-! ## Words -/

theorem nackWord_eq (pid : UInt16) {blp : Nat} (h : blp < 2 ^ 16) :
    nackWord (pid, blp) = beBytes 2 pid.toNat ++ beBytes 2 blp := by
  have hword : pid.toNat <<< 16 ||| blp = pid.toNat * 2 ^ 16 + blp := by
    rw [← shiftLeft_add_eq_or_of_lt h, shiftLeft_eq]
  have hhigh : (pid.toNat * 2 ^ 16 + blp) / 256 ^ 2 = pid.toNat := by omega
  have hlow : beBytes 2 (pid.toNat * 2 ^ 16 + blp) = beBytes 2 blp := by
    have hmod : beNat (beBytes 2 (pid.toNat * 2 ^ 16 + blp)) = beNat (beBytes 2 blp) := by
      rw [Words.beNat_beBytes_mod, Words.beNat_beBytes_mod]
      omega
    rw [← Words.beBytes_beNat (length_beBytes 2 (pid.toNat * 2 ^ 16 + blp)), hmod,
      Words.beBytes_beNat (length_beBytes 2 blp)]
  rw [nackWord, hword, Words.beBytes_add 2 2, hhigh, hlow]

theorem filter_hasBit {bits : List Nat} (hsorted : bits.Pairwise (· < ·)) (hlt : ∀ b ∈ bits, b < 16) :
    (List.range 16).filter (hasBit (setBits 0 bits)) = bits := by
  refine (List.pairwise_lt_range.filter _).eq_of_mem_iff hsorted fun b => ?_
  rw [List.mem_filter, mem_range, Words.hasBit_eq, Words.testBit_setBits]
  simp only [zero_testBit, Bool.false_or, decide_eq_true_eq]
  exact ⟨fun h => h.2, fun h => ⟨hlt b h, h⟩⟩

/-- A word stands for its number and the numbers in its mask. -/
theorem wordSequences_nackWord {pid : UInt16} {taken : List UInt16} (hsorted : taken.Pairwise (· < ·))
    (hpid : ∀ sequence ∈ taken, pid < sequence) (hfollows : ∀ sequence ∈ taken, follows pid sequence = true) :
    wordSequences (nackWord (pid, setBits 0 (taken.map fun sequence => (sequence - pid).toNat - 1))) = pid :: taken := by
  have hdelta : ∀ sequence ∈ taken, (sequence - pid).toNat = sequence.toNat - pid.toNat
      ∧ pid.toNat < sequence.toNat ∧ sequence.toNat - pid.toNat ≤ 16 := by
    intro sequence hmem
    have hlt := hpid sequence hmem
    have hsub := UInt16.toNat_sub_of_le sequence pid (UInt16.le_of_lt hlt)
    have hnear := hfollows sequence hmem
    simp only [follows, decide_eq_true_eq, not_or, UInt16.not_lt, UInt16.le_iff_toNat_le, hsub] at hnear
    exact ⟨hsub, hlt, hnear.2⟩
  -- The bits of the mask, one less than the distances.
  have hbits : (taken.map fun sequence => (sequence - pid).toNat - 1).Pairwise (· < ·) := by
    rw [pairwise_map]
    refine hsorted.imp_of_mem fun {a b} ha hb hab => ?_
    obtain ⟨hda, hpa, -⟩ := hdelta a ha
    obtain ⟨hdb, -, -⟩ := hdelta b hb
    have hab' : a.toNat < b.toNat := hab
    omega
  have hsmall : ∀ bit ∈ taken.map fun sequence => (sequence - pid).toNat - 1, bit < 16 := by
    intro bit hbit
    obtain ⟨sequence, hmem, rfl⟩ := List.mem_map.mp hbit
    have := hdelta sequence hmem
    omega
  have hblp : setBits 0 (taken.map fun sequence => (sequence - pid).toNat - 1) < 2 ^ 16 :=
    Words.setBits_lt (by decide) hsmall
  have hslice : ∀ a b : List UInt8, a.length = 2 → b.length = 2 → slice (a ++ b) 0 2 = a ∧ slice (a ++ b) 2 2 = b := by
    intro a b ha hb
    refine ⟨Words.slice_append_left ha, ?_⟩
    rw [Words.slice_append_right (by rw [ha]), ha]
    exact take_of_length_le (by simp [hb])
  obtain ⟨hhigh, hlow⟩ := hslice (beBytes 2 pid.toNat)
    (beBytes 2 (setBits 0 (taken.map fun sequence => (sequence - pid).toNat - 1))) (by simp) (by simp)
  rw [wordSequences, nackWord_eq pid hblp, hhigh, hlow, beNat_beBytes pid.toNat_lt, beNat_beBytes hblp,
    filter_hasBit hbits hsmall, map_map]
  congr 1
  · exact UInt16.ofNat_toNat
  · calc taken.map _ = taken.map id := by
          refine map_congr_left fun sequence hmem => ?_
          obtain ⟨hsub, hlt, -⟩ := hdelta sequence hmem
          have hdistance : (sequence - pid).toNat - 1 + 1 = (sequence - pid).toNat := by omega
          rw [Function.comp_apply, UInt16.ofNat_toNat, hdistance, UInt16.ofNat_toNat, id, UInt16.add_comm,
            UInt16.sub_add_cancel]
      _ = taken := map_id taken

variable {sorted : List UInt16}

theorem flatMap_nackWords (hsorted : sorted.Pairwise (· < ·)) :
    (nackWords sorted).flatMap (fun word => wordSequences (nackWord word)) = sorted := by
  induction sorted using nackWords.induct with
  | case1 => rw [nackWords]; rfl
  | case2 pid rest ih =>
    obtain ⟨hpid, hrest⟩ := List.pairwise_cons.mp hsorted
    have htaken : ∀ sequence ∈ rest.takeWhile (follows pid), sequence ∈ rest :=
      fun sequence hmem => ( takeWhile_prefix _).subset hmem
    rw [nackWords, flatMap_cons, ih (hrest.sublist (dropWhile_sublist _)),
      wordSequences_nackWord (hrest.sublist (takeWhile_sublist _)) (fun sequence hmem => hpid _ (htaken _ hmem))
        (fun sequence hmem => mem_takeWhile_imp hmem),
      cons_append, takeWhile_append_dropWhile]

theorem dedup_of_sorted (hsorted : sorted.Pairwise (· < ·)) : dedup sorted = sorted := by
  induction sorted using dedup.induct with
  | case1 a rest ih => exact absurd ((List.pairwise_cons.mp hsorted).1 a mem_cons_self) (UInt16.lt_irrefl a)
  | case2 a b rest hne ih => rw [dedup, if_neg hne, ih (List.pairwise_cons.mp hsorted).2]
  | case3 l hl =>
    rcases l with _ | ⟨a, _ | ⟨b, rest⟩⟩
    · rfl
    · rfl
    · exact absurd rfl (hl a b rest)

variable {missing : List UInt16}

theorem sorted_of_nodup (h : missing.Nodup) : (missing.mergeSort fun a b => decide (a ≤ b)).Pairwise (· < ·) := by
  have hperm := mergeSort_perm missing fun a b => decide (a ≤ b)
  have hle : (missing.mergeSort fun a b => decide (a ≤ b)).Pairwise (· ≤ ·) := pairwise_mergeSort' (· ≤ ·) missing
  have hne : (missing.mergeSort fun a b => decide (a ≤ b)).Pairwise (· ≠ ·) := hperm.nodup_iff.mpr h
  exact (hle.and hne).imp fun h => UInt16.lt_of_le_of_ne h.1 h.2

/-! ## Datagrams -/

theorem parseCompound_packet (count pt : UInt8) {body : List UInt8} (hwhole : body.length % 4 = 0)
    (hshort : body.length < 2 ^ 18) (rest : List UInt8) :
    parseCompound (packet count pt body ++ rest)
      = (parsePacket pt ((0x80 ||| count &&& 0x1F) &&& 0x1F).toNat body).toList ++ parseCompound rest := by
  obtain ⟨high, low, hlength⟩ : ∃ high low, beBytes 2 ((4 + body.length) / 4 - 1) = [high, low] :=
    List.length_eq_two.mp (length_beBytes 2 _)
  have hwords : beNat [high, low] * 4 = body.length := by
    rw [← hlength, beNat_beBytes (by omega)]
    omega
  rw [packet, hlength]
  simp only [cons_append, nil_append]
  rw [parseCompound, hwords, length_append, if_neg (by omega), take_left, drop_left]

theorem readBe_append {width : Nat} {data : List UInt8} {v : Nat} (hv : v < 256 ^ width) (before : List UInt8) :
    readBe width (before ++ (beBytes width v ++ data)) before.length = some v := by
  rw [readBe, if_pos (by simp), Words.slice_append_right le_rfl, Nat.sub_self,
    Words.slice_append_left (length_beBytes width v), beNat_beBytes hv]

theorem readSsrc_append (ssrc : UInt32) (before data : List UInt8) :
    readSsrc (before ++ (beBytes 4 ssrc.toNat ++ data)) before.length = some ssrc := by
  rw [readSsrc, readBe_append ssrc.toNat_lt, Option.map_some, UInt32.ofNat_toNat]

variable {α : Type}

theorem wholeChunks_flatMap {β : Type} {n : Nat} (hn : 0 < n) {f : β → List α} (hf : ∀ b, (f b).length = n)
    (l : List β) : wholeChunks n (l.flatMap f) = l.map f := by
  have hlength : ∀ l : List β, (l.flatMap f).length = l.length * n := by
    intro l
    induction l with
    | nil => simp
    | cons b l ih => rw [flatMap_cons, length_append, ih, hf, length_cons, succ_mul, Nat.add_comm]
  rw [wholeChunks, hlength, Nat.mul_div_cancel _ hn]
  induction l with
  | nil => rfl
  | cons b l ih =>
    rw [length_cons, range_succ_eq_map, map_cons, map_map, map_cons, ← ih]
    have hdrop : ∀ k, (f b ++ l.flatMap f).drop ((k + 1) * n) = (l.flatMap f).drop (k * n) := by
      intro k
      rw [drop_append, hf b, drop_eq_nil_of_le (by rw [hf b, succ_mul]; omega), nil_append, succ_mul,
        Nat.add_sub_cancel]
    congr 1
    · rw [zero_mul, drop_zero, flatMap_cons, take_append_of_le_length (hf b).ge, take_of_length_le (hf b).le]
    · refine map_congr_left fun k _ => ?_
      rw [Function.comp_apply, flatMap_cons, succ_eq_add_one, hdrop]

theorem flatten_chunks (n : Nat) (l : List α) : (chunks n l).flatten = l := by
  induction l using chunks.induct n with
  | case1 => rw [chunks]; rfl
  | case2 a l ih => rw [chunks, flatten_cons, ih, cons_append, take_append_drop]

theorem length_of_mem_chunks {n : Nat} (hn : 0 < n) {l chunk : List α} (h : chunk ∈ chunks n l) : chunk.length ≤ n := by
  induction l using chunks.induct n with
  | case1 => rw [chunks] at h; cases h
  | case2 a l ih =>
    rw [chunks, mem_cons] at h
    rcases h with rfl | h
    · rw [length_cons, length_take]
      omega
    · exact ih h

@[simp] theorem mediaSsrc_mediaSsrc (ssrc : UInt32) : mediaSsrc (mediaSsrc ssrc) = mediaSsrc ssrc := by
  rw [mediaSsrc, mediaSsrc, UInt32.and_assoc, UInt32.and_self]

theorem length_entries (chunk : List SequenceRange) : (chunk.flatMap entry).length = 4 * chunk.length := by
  induction chunk with
  | nil => rfl
  | cons r chunk ih =>
    rw [flatMap_cons, length_append, ih, entry, length_append, length_beBytes,
      length_beBytes, length_cons]
    omega

theorem rangeOf_entry (r : SequenceRange) : rangeOf r.entry = r := by
  have hstart : slice r.entry 0 2 = beBytes 2 r.start.toNat := Words.slice_append_left (length_beBytes 2 _)
  have hadditional : slice r.entry 2 2 = beBytes 2 r.additional.toNat := by
    rw [entry, Words.slice_append_right (by simp), length_beBytes]
    exact take_of_length_le (by simp)
  rw [rangeOf, hstart, hadditional, beNat_beBytes r.start.toNat_lt, beNat_beBytes r.additional.toNat_lt,
    UInt16.ofNat_toNat, UInt16.ofNat_toNat]

theorem parse_rangePacket (media : UInt32) {chunk : List SequenceRange} (hchunk : chunk.length ≤ maxRangesPerNack)
    (rest : List UInt8) : parseCompound (buildApp 0 media ristAppName (chunk.flatMap entry) ++ rest)
      = .app 0 media ristAppName (chunk.flatMap entry) :: parseCompound rest := by
  have hentries := length_entries chunk
  rw [maxRangesPerNack] at hchunk
  generalize chunk.flatMap entry = data at *
  have hlength : (beBytes 4 media.toNat ++ ristAppName ++ data).length = 8 + data.length := by
    rw [length_append, length_append, length_beBytes]
    rfl
  have happ : buildApp 0 media ristAppName data = packet 0 204 (beBytes 4 media.toNat ++ ristAppName ++ data) := by
    have hpad : (4 - (beBytes 4 media.toNat ++ ristAppName ++ data).length % 4) % 4 = 0 := by
      omega
    simp only [buildApp]
    rw [hpad, replicate_zero, append_nil]
  have hssrc : readSsrc (beBytes 4 media.toNat ++ ristAppName ++ data) 0 = some media := by
    exact readSsrc_append media [] (ristAppName ++ data)
  have hname : slice (beBytes 4 media.toNat ++ ristAppName ++ data) 4 4 = ristAppName := by
    exact Words.slice_append_left rfl
  have hdata : bodyFrom (beBytes 4 media.toNat ++ ristAppName ++ data) 8 = some data := by
    rw [bodyFrom, if_pos (by rw [hlength]; omega), drop_left' (by simp [ristAppName])]
  rw [happ, parseCompound_packet 0 204 (by rw [hlength]; omega) (by rw [hlength]; omega)]
  have hparse : parsePacket 204 ((0x80 ||| 0 &&& 0x1F) &&& 0x1F : UInt8).toNat (beBytes 4 media.toNat ++ ristAppName ++ data)
      = some (.app 0 media ristAppName data) := by
    simp only [parsePacket]
    rw [if_neg (by decide), if_neg (by decide), if_neg (by decide), if_neg (by decide), if_pos trivial, hssrc, hdata, hname]
    rfl
  rw [hparse]
  rfl

theorem requested_range (ssrc : UInt32) (missing : List UInt16) :
    requested (buildRangeNack (mediaSsrc ssrc) missing) (mediaSsrc ssrc) = sequenceRanges missing := by
  rw [buildRangeNack]
  have hparse : ∀ parts : List (List SequenceRange), (∀ part ∈ parts, part.length ≤ maxRangesPerNack) →
      requested (parts.flatMap fun chunk => buildApp 0 (mediaSsrc ssrc) ristAppName (chunk.flatMap entry))
        (mediaSsrc ssrc) = parts.flatten := by
    intro parts
    induction parts with
    | nil => intro _; rw [requested, flatMap_nil, parseCompound]; rfl; simp
    | cons chunk parts ih =>
      intro hparts
      obtain ⟨hchunk, hrest⟩ := List.forall_mem_cons.mp hparts
      have hranges : requestedRanges (.app 0 (mediaSsrc ssrc) ristAppName (chunk.flatMap entry))
          (mediaSsrc ssrc) = some chunk := by
        rw [requestedRanges, if_pos ⟨rfl, rfl, mediaSsrc_mediaSsrc ssrc⟩,
          wholeChunks_flatMap (by decide) (fun r => by simp [entry]), map_map]
        simp [Function.comp_def, rangeOf_entry]
      rw [requested, flatMap_cons, parse_rangePacket _ hchunk, filterMap_cons]
      simp only [hranges]
      rw [flatten_cons, flatten_cons, ← ih hrest, requested]
  rw [hparse _ fun chunk hmem => length_of_mem_chunks (by decide) hmem, flatten_chunks]

theorem add_le_of_dropWhile {pid : UInt16} {rest : List UInt16} (hpid : ∀ sequence ∈ rest, pid < sequence)
    (hsorted : rest.Pairwise (· < ·)) : ∀ sequence ∈ rest.dropWhile (follows pid), pid.toNat + 17 ≤ sequence.toNat := by
  intro sequence hmem
  have hsuffix : rest.dropWhile (follows pid) <:+ rest := dropWhile_suffix _
  cases hdrop : rest.dropWhile (follows pid) with
  | nil => rw [hdrop] at hmem; cases hmem
  | cons first later =>
    have hfirst : follows pid first = false := by
      have hhead := List.head?_dropWhile_not (follows pid) rest
      rw [hdrop] at hhead
      simpa using hhead
    have hlt := hpid first (hsuffix.subset (by rw [hdrop]; exact mem_cons_self))
    have hsub := UInt16.toNat_sub_of_le first pid (UInt16.le_of_lt hlt)
    have hfar : pid.toNat + 17 ≤ first.toNat := by
      have hlt' : pid.toNat < first.toNat := hlt
      simp only [follows, decide_eq_false_iff_not, not_not, UInt16.lt_iff_toNat_lt, ← UInt16.toNat_inj, hsub] at hfirst
      rcases hfirst with hzero | hfar
      · simp only [UInt16.toNat_zero] at hzero
        omega
      · have : (16 : UInt16).toNat = 16 := rfl
        omega
    rw [hdrop] at hmem hsuffix
    rcases List.mem_cons.mp hmem with rfl | hlater
    · exact hfar
    · have hlt' : first.toNat < sequence.toNat :=
        (List.pairwise_cons.mp (hsorted.sublist hsuffix.sublist)).1 sequence hlater
      omega

theorem length_nackWords_le (hsorted : sorted.Pairwise (· < ·)) {lowest : Nat}
    (hlowest : ∀ sequence ∈ sorted, lowest ≤ sequence.toNat) (hfits : lowest ≤ 65552) :
    17 * (nackWords sorted).length ≤ 65552 - lowest := by
  induction sorted using nackWords.induct generalizing lowest with
  | case1 => rw [nackWords]; exact Nat.zero_le _
  | case2 pid rest ih =>
    obtain ⟨hpid, hrest⟩ := List.pairwise_cons.mp hsorted
    have hlow := hlowest pid mem_cons_self
    have hlt := pid.toNat_lt
    have hlater := ih (hrest.sublist (dropWhile_sublist _)) (add_le_of_dropWhile hpid hrest) (by omega)
    rw [nackWords, length_cons]
    omega

/-- Words ask for what is missing, in order. -/
theorem requested_generic (senderSsrc ssrc : UInt32) (hmissing : missing.Nodup) :
    requested (buildNack senderSsrc (mediaSsrc ssrc) missing) (mediaSsrc ssrc)
      = (missing.mergeSort fun a b => decide (a ≤ b)).map fun start => { start, additional := 0 } := by
  have hsorted := sorted_of_nodup hmissing
  generalize hsort : (missing.mergeSort fun a b => decide (a ≤ b)) = sorted at *
  have hfew := length_nackWords_le hsorted (fun _ _ => Nat.zero_le _) (Nat.zero_le _)
  have hword : ∀ word, (nackWord word).length = 4 := fun word => length_beBytes 4 _
  have hwords : ∀ words : List (UInt16 × Nat), (words.flatMap nackWord).length = 4 * words.length := by
    intro words
    induction words with
    | nil => rfl
    | cons word words ih =>
      rw [flatMap_cons, length_append, ih, hword, length_cons]
      omega
  obtain ⟨body, hdef⟩ : ∃ body, body =
      beBytes 4 senderSsrc.toNat ++ beBytes 4 (mediaSsrc ssrc).toNat ++ (nackWords sorted).flatMap nackWord := ⟨_, rfl⟩
  have hlength : body.length = 8 + 4 * (nackWords sorted).length := by
    rw [hdef, length_append, length_append, length_beBytes, length_beBytes, hwords]
  have hsender : readSsrc body 0 = some senderSsrc := by
    rw [hdef, append_assoc]
    exact readSsrc_append senderSsrc [] _
  have hmedia : readSsrc body 4 = some (mediaSsrc ssrc) := by
    rw [hdef, append_assoc]
    exact readSsrc_append (mediaSsrc ssrc) (beBytes 4 senderSsrc.toNat) _
  have hbody : bodyFrom body 8 = some ((nackWords sorted).flatMap nackWord) := by
    rw [bodyFrom, if_pos (by rw [hlength]; omega), hdef, drop_left' (by simp)]
  have hparse : parsePacket 205 ((0x80 ||| 1 &&& 0x1F) &&& 0x1F : UInt8).toNat body
      = some (.nack senderSsrc (mediaSsrc ssrc) sorted) := by
    simp only [parsePacket]
    rw [if_neg (by decide), if_neg (by decide), if_pos (by decide), hsender, hmedia, hbody]
    simp only [Option.bind_eq_bind, Option.bind_some]
    rw [wholeChunks_flatMap (by decide) hword, flatMap_map, flatMap_nackWords hsorted]
  have hnil : parseCompound [] = [] := by
    rw [parseCompound]
    simp
  have hcompound := @parseCompound_packet 1 205 body (by rw [hlength]; omega) (by rw [hlength]; omega) []
  rw [append_nil, hparse, hnil] at hcompound
  rw [requested, buildNack, hsort, dedup_of_sorted hsorted, ← hdef, hcompound]
  simp [requestedRanges]

theorem requested_perm (senderSsrc ssrc : UInt32) (hmissing : missing.Nodup) :
    ((requested (buildNackFeedback senderSsrc (mediaSsrc ssrc) missing) (mediaSsrc ssrc)).flatMap
      SequenceRange.sequences).Perm missing := by
  rw [buildNackFeedback]
  split_ifs
  · rw [requested_range, flatMap_sequenceRanges]
  · rw [requested_generic senderSsrc ssrc hmissing, flatMap_map]
    simp only [SequenceRange.sequences_single, flatMap_singleton']
    exact mergeSort_perm missing _

end Glass2Glass.Rist
