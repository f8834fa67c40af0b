import Glass2Glass.Fec.Formats
import Mathlib.Data.List.Nodup

/-!
# The repairs give back the lost packet

Each of the three formats carries the numbers of the members and the sum of the group (`Carries`), so a repair and
all the members but one give that one. Only the SSRC is not in the sum, and it is taken from a survivor: a group of
one member has none. ST 2022-1 then recovers nothing, ULPFEC and FlexFEC a packet with SSRC zero (`exact_iff`).
-/

namespace Glass2Glass.Fec

open Words Rtp List

variable {media : List (List UInt8)}

@[simp] theorem length_repairHeader (byte0 byte1 : UInt8) (seq ts ssrc : Nat) :
    (repairHeader byte0 byte1 seq ts ssrc).length = 12 := by
  simp [repairHeader]

theorem le_protectionLen {p : List UInt8} (hp : p ∈ media) :
    p.length - rtpHeaderLen ≤ XorFields.protectionLen media := by
  unfold XorFields.protectionLen
  induction media with
  | nil => cases hp
  | cons q media ih =>
    rcases List.mem_cons.1 hp with rfl | hp
    · exact Nat.le_max_left _ _
    · exact Nat.le_trans (ih hp) (Nat.le_max_right _ _)

theorem protectionLen_lt (h : ∀ p ∈ media, IsMedia p) : XorFields.protectionLen media < 2 ^ 16 := by
  unfold XorFields.protectionLen
  induction media with
  | nil => decide
  | cons q media ih =>
    exact Nat.max_lt.2 ⟨(h q mem_cons_self).payload, ih fun p hp => h p (mem_cons_of_mem _ hp)⟩

theorem fold_eq (h : ∀ p ∈ media, IsMedia p) :
    ∃ f, XorFields.fold media = some f ∧ f.Fits ∧ f.payload.length = XorFields.protectionLen media ∧
      f.toRecoveryFields = media.foldl RecoveryFields.add (XorFields.zero (XorFields.protectionLen media)) := by
  have hheader : ∀ p ∈ media, rtpHeaderLen ≤ p.length := fun p hp => (h p hp).header
  refine ⟨_, foldlM_xorIn hheader, fits_foldl (fits_zero _) hheader, ?_, rfl⟩
  rw [length_foldl]
  exact length_replicate

theorem mem_mirrored {w off : Nat} {offsets : List Nat} (hoffsets : ∀ o ∈ offsets, o ≤ w) (hoff : off ≤ w) :
    w - off ∈ offsets.map (fun o => w - o) ↔ off ∈ offsets := by
  constructor
  · intro h
    obtain ⟨o, ho, heq⟩ := List.mem_map.1 h
    have hle := hoffsets o ho
    obtain rfl : o = off := by omega
    exact ho
  · exact fun h => mem_map_of_mem h

structure Names (offs : List Nat) (P : Nat → Prop) : Prop where
  nodup : offs.Nodup
  mem : ∀ o, o ∈ offs ↔ P o

theorem Names.append {offs offs' : List Nat} {P Q : Nat → Prop} (h : Names offs P) (h' : Names offs' Q)
    (hdisjoint : ∀ o, P o → ¬Q o) : Names (offs ++ offs') fun o => P o ∨ Q o where
  nodup := by
    refine List.nodup_append.2 ⟨h.nodup, h'.nodup, fun o ho o' ho' heq => ?_⟩
    exact hdisjoint o ((h.mem o).1 ho) (heq ▸ (h'.mem o').1 ho')
  mem o := by rw [mem_append, h.mem, h'.mem]

theorem names_word {b w init : Nat} {l offsets : List Nat} (hinit : ∀ j ≤ w, init.testBit j = false)
    (hl : ∀ o, o ∈ l ↔ o ∈ offsets ∧ b ≤ o ∧ o ≤ b + w) :
    Names (((List.range (w + 1)).filter fun i => hasBit (setBits init (l.map fun o => b + w - o)) (w - i)).map
      fun i => b + i) fun o => o ∈ offsets ∧ b ≤ o ∧ o ≤ b + w where
  nodup := (List.nodup_range.filter _).map_on fun _ _ _ _ heq => Nat.add_left_cancel heq
  mem o := by
    have hbit : ∀ i ≤ w, hasBit (setBits init (l.map fun o => b + w - o)) (w - i) = true ↔ b + i ∈ l := by
      intro i hi
      have hmirror : w - i = b + w - (b + i) := by omega
      rw [hasBit_eq, testBit_setBits, hinit _ (Nat.sub_le w i), Bool.false_or, decide_eq_true_iff, hmirror]
      exact mem_mirrored (fun o ho => ((hl o).1 ho).2.2) (Nat.add_le_add_left hi b)
    rw [← hl, List.mem_map]
    constructor
    · rintro ⟨i, hi, rfl⟩
      rw [List.mem_filter, mem_range, Nat.lt_succ_iff] at hi
      exact (hbit i hi.1).1 hi.2
    · intro ho
      have hbounds := ((hl o).1 ho).2
      obtain ⟨i, rfl⟩ := Nat.exists_eq_add_of_le hbounds.1
      have hi : i ≤ w := Nat.add_le_add_iff_left.1 hbounds.2
      exact ⟨i, List.mem_filter.2 ⟨List.mem_range.2 (Nat.lt_succ_of_le hi), (hbit i hi).2 ho⟩, rfl⟩

theorem word_lt {b w init n : Nat} {l : List Nat} (hinit : init < 2 ^ n) (hw : w < n) (hl : ∀ o ∈ l, b ≤ o) :
    setBits init (l.map fun o => b + w - o) < 2 ^ n := by
  refine setBits_lt hinit fun j hj => ?_
  obtain ⟨o, ho, rfl⟩ := List.mem_map.1 hj
  have hle := hl o ho
  omega

theorem follows_iff {b w init : Nat} {l : List Nat} (hl : ∀ o ∈ l, b ≤ o) :
    setBits init (l.map fun o => b + w - o) &&& 2 ^ (w + 1) = 0 ↔ init.testBit (w + 1) = false := by
  have hbit := hasBit_eq (setBits init (l.map fun o => b + w - o)) (w + 1)
  have habsent : w + 1 ∉ l.map fun o => b + w - o := by
    intro hmem
    obtain ⟨o, ho, heq⟩ := List.mem_map.1 hmem
    have hle := hl o ho
    omega
  rw [testBit_setBits, decide_eq_false habsent, Bool.or_false] at hbit
  unfold hasBit at hbit
  rw [Nat.one_shiftLeft] at hbit
  rw [← hbit, decide_eq_false_iff_not, not_not]

theorem Names.seqs {snBase : Nat} {offs : List Nat} (hbase : snBase < 2 ^ 16)
    (h : Names offs fun o => o ∈ media.map fun p => offsetFrom snBase (sequenceOf p)) :
    Names (offs.map fun o => (snBase + o) % 2 ^ 16) fun s => s ∈ media.map sequenceOf where
  nodup := by
    have hlt : ∀ o ∈ offs, o < 2 ^ 16 := by
      intro o ho
      obtain ⟨p, -, rfl⟩ := List.mem_map.1 ((h.mem o).1 ho)
      exact Nat.mod_lt _ (by decide)
    refine List.Nodup.map_on (fun a ha b hb heq => ?_) h.nodup
    have hltA := hlt a ha
    have hltB := hlt b hb
    omega
  mem s := by
    have hround : ∀ seq, seq < 2 ^ 16 → (snBase + offsetFrom snBase seq) % 2 ^ 16 = seq := by
      intro seq hseq
      unfold offsetFrom
      omega
    constructor
    · intro hs
      obtain ⟨o, ho, rfl⟩ := List.mem_map.1 hs
      obtain ⟨p, hp, rfl⟩ := List.mem_map.1 ((h.mem o).1 ho)
      rw [hround _ (sequenceOf_lt p)]
      exact mem_map_of_mem hp
    · intro hs
      obtain ⟨p, hp, rfl⟩ := List.mem_map.1 hs
      refine List.mem_map.2 ⟨_, (h.mem _).2 (mem_map_of_mem hp), hround _ (sequenceOf_lt p)⟩

/-- What a repair must carry: the numbers of the members and the sum of the group. -/
structure Carries (media : List (List UInt8)) (seqs : List Nat) (f : XorFields) : Prop where
  names : Names seqs fun s => s ∈ media.map sequenceOf
  sum : ∃ length, f.toRecoveryFields = media.foldl RecoveryFields.add (XorFields.zero length) ∧
    ∀ p ∈ media, p.length - rtpHeaderLen ≤ length
  ssrc : f.ssrc = List.replicate 4 0

/-- A repair is read as the numbers and the sum of its group. Where the SSRC must come from a survivor, there has
to be one. -/
def ReadsAs (media : List (List UInt8)) (needsSurvivor : Bool) (protectedSeqs : Option (List Nat))
    (recover : List (Nat × List UInt8) → Option (List UInt8)) : Prop :=
  ∃ seqs f, protectedSeqs = some seqs ∧ Carries media seqs f ∧ ∀ present, recover present =
    (splitGroup seqs present).bind fun split =>
      if needsSurvivor && split.2.isEmpty then none
      else (split.2.foldlM XorFields.xorIn f).bind fun f => f.toRtp split.1

theorem fromRepair_eq {f : XorFields} {pxcc mpt : UInt8} {ts len : Nat} {payload : List UInt8} (hfits : f.Fits)
    (hpxcc : pxcc &&& 0x3F = f.pxcc &&& 0x3F) (hmpt : mpt = f.mpt) (hts : ts = beNat (beBytes 4 f.ts))
    (hlen : len = beNat (beBytes 2 f.len)) (hpayload : payload = f.payload) :
    XorFields.fromRepair pxcc mpt ts len payload =
      { toRecoveryFields := f.toRecoveryFields, ssrc := List.replicate 4 0 } := by
  unfold XorFields.fromRepair
  rw [hpxcc, hfits.pxcc, hmpt, hts, hlen, hpayload, beNat_beBytes hfits.ts, beNat_beBytes hfits.len]

namespace Ulpfec

section Layout

variable (fecPt : UInt8) (fecSsrc fecSeq snBase mask : Nat) (f : XorFields)

theorem length_layout : (layout fecPt fecSsrc fecSeq snBase mask f).length = 26 + f.payload.length := by
  simp [layout]
  omega

theorem layout_fields : byteAt (layout fecPt fecSsrc fecSeq snBase mask f) 12 = f.pxcc ∧
    byteAt (layout fecPt fecSsrc fecSeq snBase mask f) 13 = f.mpt ∧
    slice (layout fecPt fecSsrc fecSeq snBase mask f) 14 2 = beBytes 2 snBase ∧
    slice (layout fecPt fecSsrc fecSeq snBase mask f) 16 4 = beBytes 4 f.ts ∧
    slice (layout fecPt fecSsrc fecSeq snBase mask f) 20 2 = beBytes 2 f.len ∧
    slice (layout fecPt fecSsrc fecSeq snBase mask f) 22 2 = beBytes 2 f.payload.length ∧
    slice (layout fecPt fecSsrc fecSeq snBase mask f) 24 2 = beBytes 2 mask ∧
    (layout fecPt fecSsrc fecSeq snBase mask f).drop 26 = f.payload := by
  unfold layout
  refine ⟨?_, ?_, ?_, ?_, ?_, ?_, ?_, ?_⟩
  · rw [byteAt_append_right (by simp)]
    simp [byteAt]
  · rw [byteAt_append_right (by simp)]
    simp [byteAt]
  all_goals simp [slice_append_right, slice_append_left, drop_append_right]

end Layout

theorem names_mask {offsets : List Nat} (hoffsets : ∀ o ∈ offsets, o < 16) :
    Names ((List.range 16).filter fun i => hasBit (setBits 0 (offsets.map fun off => 15 - off)) (15 - i))
      fun o => o ∈ offsets := by
  have hl : ∀ o, o ∈ offsets ↔ o ∈ offsets ∧ 0 ≤ o ∧ o ≤ 0 + 15 := by
    intro o
    refine (and_iff_left_of_imp fun ho => ?_).symm
    have hlt := hoffsets o ho
    omega
  have hnames := names_word (fun j _ => Nat.zero_testBit j) hl
  simp only [← hl, Nat.zero_add, map_id'] at hnames
  exact hnames

theorem readsAs {fecPt : UInt8} {fecSsrc fecSeq : Nat} {fec : List UInt8}
    (hgroup : IsGroup media) (hbuild : buildFecPacket media fecPt fecSsrc fecSeq = some fec) :
    ReadsAs media false (protectedSeqs fec) (recoverPacket fec) := by
  obtain ⟨f, hfold, hfits, hlength, hsum⟩ := fold_eq hgroup.member
  have hbase := sequenceOf_lt (media.headD [])
  unfold buildFecPacket at hbuild
  rw [hfold] at hbuild
  dsimp only [Option.map_some] at hbuild
  split_ifs at hbuild with _ _ hwide
  obtain rfl := Option.some.inj hbuild
  have hoffsets : ∀ o ∈ media.map fun p => offsetFrom (sequenceOf (media.headD [])) (sequenceOf p), o < 16 := by
    simpa using hwide
  generalize sequenceOf (media.headD []) = snBase at hbase hoffsets
  generalize hmask : setBits 0 ((media.map fun p => offsetFrom snBase (sequenceOf p)).map fun off => 15 - off) = mask
  have hmaskLt : mask < 256 ^ 2 := by
    rw [← hmask]
    refine setBits_lt (w := 16) (by decide) fun i hi => ?_
    obtain ⟨o, ho, rfl⟩ := List.mem_map.1 hi
    omega
  have hprotLt : f.payload.length < 256 ^ 2 := hlength ▸ protectionLen_lt hgroup.member
  obtain ⟨hpxcc, hmpt, hsn, hts, hlen, hprot, hbits, hpayload⟩ := layout_fields fecPt fecSsrc fecSeq snBase mask f
  have hseqs : protectedSeqs (layout fecPt fecSsrc fecSeq snBase mask f) =
      some (((List.range 16).filter fun i => hasBit mask (15 - i)).map fun i => (snBase + i) % 2 ^ 16) := by
    unfold protectedSeqs
    simp only [rtpHeaderLen, fecHeaderLen, fecLevelHeaderLen, Nat.reduceAdd, length_layout]
    rw [if_neg (by omega), hsn, hbits, beNat_beBytes hmaskLt, beNat_beBytes hbase]
  refine ⟨_, { toRecoveryFields := f.toRecoveryFields, ssrc := List.replicate 4 0 }, hseqs,
    ⟨Names.seqs hbase (hmask ▸ names_mask hoffsets), ⟨_, hsum, fun p hp => le_protectionLen hp⟩, rfl⟩,
    fun present => ?_⟩
  · unfold recoverPacket
    rw [hseqs, Option.bind_some]
    simp only [rtpHeaderLen, fecHeaderLen, fecLevelHeaderLen, Nat.reduceAdd, hpxcc, hmpt, hts, hlen, hprot, hpayload]
    simp only [beNat_beBytes hprotLt, Nat.lt_irrefl, if_false, take_length,
      fromRepair_eq hfits rfl rfl rfl rfl rfl, Bool.false_and, Bool.false_eq_true]

end Ulpfec

namespace Flexfec

/-- A mask names its offsets, whatever comes after it. -/
theorem decodeMask_encodeMask {offsets : List Nat} {mask : List UInt8} (hencode : encodeMask offsets = some mask)
    (rest : List UInt8) :
    ∃ offs, decodeMask (mask ++ rest) = some (offs, mask.length) ∧ Names offs fun o => o ∈ offsets := by
  obtain ⟨largest, hlargest, hencode⟩ := Option.bind_eq_some_iff.1 hencode
  have hmax : ∀ o ∈ offsets, o ≤ largest := fun o ho => (List.max?_eq_some_iff.1 hlargest).2 o ho
  -- The three words, each with the offsets that it has room for.
  generalize hlow : offsets.filter (fun o => o ≤ 14) = low at hencode
  generalize hmid : offsets.filter (fun o => 14 < o && o ≤ 45) = mid at hencode
  generalize hhigh : offsets.filter (fun o => 45 < o) = high at hencode
  have hinLow : ∀ o, o ∈ low ↔ o ∈ offsets ∧ 0 ≤ o ∧ o ≤ 0 + 14 := by simp [← hlow]
  have hinMid : ∀ o, o ∈ mid ↔ o ∈ offsets ∧ 15 ≤ o ∧ o ≤ 15 + 30 := by simp [← hmid, Nat.lt_iff_add_one_le]
  have hmidFrom : ∀ o ∈ mid, 15 ≤ o := fun o ho => ((hinMid o).1 ho).2.1
  have hhighFrom : ∀ o ∈ high, 46 ≤ o := by
    rw [← hhigh]
    intro o ho
    exact of_decide_eq_true (List.mem_filter.1 ho).2
  have hlowWord : ∀ init, init < 2 ^ 16 → beNat (beBytes 2 (setBits init (low.map fun o => 14 - o))) =
      setBits init (low.map fun o => 14 - o) := fun init hinit =>
    beNat_beBytes (word_lt (b := 0) (w := 14) (n := 16) hinit (by decide) fun o _ => Nat.zero_le o)
  have hmidWord : ∀ init, init < 2 ^ 32 → beNat (beBytes 4 (setBits init (mid.map fun o => 45 - o))) =
      setBits init (mid.map fun o => 45 - o) := fun init hinit =>
    beNat_beBytes (word_lt (b := 15) (w := 30) (n := 32) hinit (by decide) hmidFrom)
  have hhighWord : beNat (beBytes 8 (setBits 0 (high.map fun o => 108 - o))) =
      setBits 0 (high.map fun o => 108 - o) :=
    beNat_beBytes (word_lt (b := 46) (w := 62) (n := 64) (by decide) (by decide) hhighFrom)
  have hlowNames : ∀ init, (∀ j ≤ 14, init.testBit j = false) → Names
      ((List.range 15).filter fun i => hasBit (setBits init (low.map fun o => 14 - o)) (14 - i))
      fun o => o ∈ offsets ∧ 0 ≤ o ∧ o ≤ 0 + 14 := by
    intro init hinit
    have hnames := names_word hinit hinLow
    simp only [Nat.zero_add, map_id'] at hnames
    exact hnames
  have hmidNames : ∀ init, (∀ j ≤ 30, init.testBit j = false) → Names
      (((List.range 31).filter fun i => hasBit (setBits init (mid.map fun o => 45 - o)) (30 - i)).map fun i => 15 + i)
      fun o => o ∈ offsets ∧ 15 ≤ o ∧ o ≤ 15 + 30 := fun init hinit => names_word hinit hinMid
  have hlowEnds : ∀ init, setBits init (low.map fun o => 14 - o) &&& 0x8000 = 0 ↔ init.testBit 15 = false :=
    fun init => follows_iff (b := 0) (w := 14) fun o _ => Nat.zero_le o
  have hmidEnds : ∀ init, setBits init (mid.map fun o => 45 - o) &&& 0x80000000 = 0 ↔ init.testBit 31 = false :=
    fun init => follows_iff (b := 15) (w := 30) hmidFrom
  have hlowMore : ¬setBits 0x8000 (low.map fun o => 14 - o) &&& 0x8000 = 0 := by
    rw [hlowEnds]
    decide
  have hmidMore : ¬setBits 0x80000000 (mid.map fun o => 45 - o) &&& 0x80000000 = 0 := by
    rw [hmidEnds]
    decide
  have hzero : ∀ w, ∀ j ≤ w, (0 : Nat).testBit j = false := fun _ j _ => Nat.zero_testBit j
  have hfirst : ∀ j ≤ 14, (0x8000 : Nat).testBit j = false := by decide
  have hsecond : ∀ j ≤ 30, (0x80000000 : Nat).testBit j = false := by decide
  unfold decodeMask
  split_ifs at hencode with hshort hmiddle hlong
  · obtain rfl := Option.some.inj hencode
    simp only [slice_append_left (length_beBytes 2 _), hlowWord 0 (by decide), length_append, length_beBytes]
    rw [if_neg (by omega), if_pos ((hlowEnds 0).2 rfl)]
    have hnames := hlowNames 0 (hzero 14)
    refine ⟨_, rfl, hnames.nodup, fun o => (hnames.mem o).trans (and_iff_left_of_imp fun ho => ?_)⟩
    have hle := hmax o ho
    omega
  · obtain rfl := Option.some.inj hencode
    rw [append_assoc]
    simp only [slice_append_left (length_beBytes _ _), hlowWord 0x8000 (by decide),
      slice_append_right (length_beBytes 2 _).le, Nat.sub_self,
      hmidWord 0 (by decide), length_append, length_beBytes]
    rw [if_neg (by omega), if_neg hlowMore, if_neg (by omega), if_pos ((hmidEnds 0).2 rfl)]
    have hnames := (hlowNames 0x8000 hfirst).append (hmidNames 0 (hzero 30)) (by omega)
    refine ⟨_, rfl, hnames.nodup, fun o => (hnames.mem o).trans ⟨fun h => h.elim And.left And.left, fun ho => ?_⟩⟩
    have hle := hmax o ho
    rw [← and_or_left]
    exact ⟨ho, by omega⟩
  · obtain rfl := Option.some.inj hencode
    unfold maxOffset at hlong
    have hinHigh : ∀ o, o ∈ high ↔ o ∈ offsets ∧ 46 ≤ o ∧ o ≤ 46 + 62 := by
      intro o
      rw [← hhigh, List.mem_filter, decide_eq_true_iff]
      refine and_congr_right fun ho => ?_
      have hle := hmax o ho
      omega
    rw [append_assoc, append_assoc]
    simp only [slice_append_left (length_beBytes _ _), hlowWord 0x8000 (by decide),
      slice_append_right (length_beBytes 2 _).le, Nat.sub_self, hmidWord 0x80000000 (by decide),
      slice_append_right (show (beBytes 2 _).length ≤ 6 by simp), Nat.reduceSub,
      slice_append_right (length_beBytes 4 _).le, hhighWord, length_append, length_beBytes]
    rw [if_neg (by omega), if_neg hlowMore, if_neg (by omega), if_neg hmidMore, if_neg (by omega)]
    have hnames := ((hlowNames 0x8000 hfirst).append (hmidNames 0x80000000 hsecond) (by omega)).append
      (names_word (b := 46) (w := 62) (hzero 62) hinHigh) (by omega)
    refine ⟨_, rfl, hnames.nodup, fun o => (hnames.mem o).trans
      ⟨fun h => h.elim (fun h => h.elim And.left And.left) And.left, fun ho => ?_⟩⟩
    have hle := hmax o ho
    rw [← and_or_left, ← and_or_left]
    exact ⟨ho, by omega⟩

theorem two_le_decodeMask {m : List UInt8} {offs : List Nat} {n : Nat} (h : decodeMask m = some (offs, n)) : 2 ≤ n := by
  unfold decodeMask at h
  dsimp only at h
  split_ifs at h
  all_goals
    have hn := congrArg Prod.snd (Option.some.inj h)
    omega

section Layout

variable (fecPt : UInt8) (fecSsrc fecSeq : Nat) (mediaSsrc : List UInt8) (snBase : Nat) (mask : List UInt8)
  (f : XorFields)

theorem layout_fields (hssrc : mediaSsrc.length = 4) :
    (layout fecPt fecSsrc fecSeq mediaSsrc snBase mask f).length = 30 + mask.length + f.payload.length ∧
    byteAt (layout fecPt fecSsrc fecSeq mediaSsrc snBase mask f) 12 = f.pxcc &&& 0x3F ∧
    byteAt (layout fecPt fecSsrc fecSeq mediaSsrc snBase mask f) 13 = f.mpt ∧
    slice (layout fecPt fecSsrc fecSeq mediaSsrc snBase mask f) 14 2 = beBytes 2 f.len ∧
    slice (layout fecPt fecSsrc fecSeq mediaSsrc snBase mask f) 16 4 = beBytes 4 f.ts ∧
    byteAt (layout fecPt fecSsrc fecSeq mediaSsrc snBase mask f) 20 = 1 ∧
    slice (layout fecPt fecSsrc fecSeq mediaSsrc snBase mask f) 28 2 = beBytes 2 snBase ∧
    (layout fecPt fecSsrc fecSeq mediaSsrc snBase mask f).drop 30 = mask ++ f.payload := by
  unfold layout
  refine ⟨?_, ?_, ?_, ?_, ?_, ?_, ?_, ?_⟩
  · simp [hssrc]
    omega
  · rw [byteAt_append_right (by simp)]
    simp [byteAt]
  · rw [byteAt_append_right (by simp)]
    simp [byteAt]
  · simp [slice_append_right, slice_append_left]
  · simp [slice_append_right, slice_append_left]
  · rw [byteAt_append_right (by simp), byteAt_append_right (by simp), byteAt_append_right (by simp),
      byteAt_append_right (by simp)]
    simp [byteAt]
  · simp [slice_append_right, slice_append_left, hssrc]
  · simp [drop_append_right, hssrc]

end Layout

theorem readsAs {fecPt : UInt8} {fecSsrc fecSeq : Nat} {fec : List UInt8}
    (hgroup : IsGroup media) (hbuild : buildFlexfecPacket media fecPt fecSsrc fecSeq = some fec) :
    ReadsAs media false (protectedSeqs fec) (recoverPacket fec) := by
  obtain ⟨f, hfold, hfits, hlength, hsum⟩ := fold_eq hgroup.member
  have hbase := sequenceOf_lt (media.headD [])
  unfold buildFlexfecPacket at hbuild
  dsimp only at hbuild
  split_ifs at hbuild with hempty hshort hwide
  obtain ⟨mask, hencode, hbuild⟩ := Option.bind_eq_some_iff.1 hbuild
  rw [hfold, Option.map_some] at hbuild
  obtain rfl := Option.some.inj hbuild
  have hssrc : (ssrcOf (media.headD [])).length = 4 := by
    rcases media with _ | ⟨p, media⟩
    · simp at hempty
    · have hheader := (hgroup.member p mem_cons_self).header
      unfold rtpHeaderLen at hheader
      rw [headD_cons, ssrcOf, slice, length_take, length_drop]
      omega
  generalize sequenceOf (media.headD []) = snBase at hbase hencode
  generalize ssrcOf (media.headD []) = mediaSsrc at hssrc
  obtain ⟨offs, hdecode, hnames⟩ := decodeMask_encodeMask hencode f.payload
  obtain ⟨hsize, hpxcc, hmpt, hlen, hts, hcount, hsn, hrest⟩ :=
    layout_fields fecPt fecSsrc fecSeq mediaSsrc snBase mask f hssrc
  have hlong := two_le_decodeMask hdecode
  have hheader : flexHeader (layout fecPt fecSsrc fecSeq mediaSsrc snBase mask f) =
      some (offs.map fun o => (snBase + o) % 2 ^ 16, 30 + mask.length) := by
    unfold flexHeader
    simp only [maskOff, rtpHeaderLen, flexFixed, flexSsrcPrefix, Nat.reduceAdd, hsize, hcount, hsn, hrest, hdecode,
      beNat_beBytes (show snBase < 256 ^ 2 from hbase), Option.map_some]
    simp
    omega
  have hpayload : (layout fecPt fecSsrc fecSeq mediaSsrc snBase mask f).drop (30 + mask.length) = f.payload := by
    rw [← drop_drop, hrest, drop_left]
  refine ⟨_, { toRecoveryFields := f.toRecoveryFields, ssrc := List.replicate 4 0 }, ?_,
    ⟨Names.seqs hbase hnames, ⟨_, hsum, fun p hp => le_protectionLen hp⟩, rfl⟩, fun present => ?_⟩
  · rw [protectedSeqs, hheader, Option.map_some]
  · have hmasked : f.pxcc &&& 0x3F &&& 0x3F &&& 0x3F = f.pxcc &&& 0x3F := by
      rw [UInt8.and_assoc, UInt8.and_self, UInt8.and_assoc, UInt8.and_self]
    have hread := fromRepair_eq hfits hmasked rfl rfl rfl rfl
    have hin : ¬30 + mask.length + f.payload.length < 30 + mask.length := by omega
    unfold recoverPacket
    rw [hheader, Option.bind_some]
    simp only [rtpHeaderLen, Nat.reduceAdd, hpxcc, hmpt, hts, hlen, hsize, hpayload, hin, if_false, hread,
      Bool.false_and, Bool.false_eq_true]

end Flexfec

namespace St2022

section Layout

variable (stream : FecStream) (pt : UInt8) (ssrc seq ts snBase : Nat) (offset na : UInt8) (f : XorFields)

theorem layout_fields :
    byteAt (layout stream pt ssrc seq ts snBase offset na f) 0 = 0x80 ||| (f.pxcc &&& 0x3F) ∧
    byteAt (layout stream pt ssrc seq ts snBase offset na f) 1 = (f.mpt &&& 0x80) ||| (pt &&& 0x7F) ∧
    (layout stream pt ssrc seq ts snBase offset na f).length = 28 + f.payload.length ∧
    (layout stream pt ssrc seq ts snBase offset na f).drop 12 = beBytes 2 snBase ++ (beBytes 2 f.len ++
      ([0x80 ||| (f.mpt &&& 0x7F), 0, 0, 0] ++ (beBytes 4 f.ts ++ ([streamByte stream, offset, na, 0] ++ f.payload)))) ∧
    (layout stream pt ssrc seq ts snBase offset na f).drop 28 = f.payload := by
  unfold layout
  refine ⟨rfl, rfl, ?_, ?_, ?_⟩
  · simp
    omega
  · simp
  · simp [drop_append_right]

theorem parseRepair_layout : parseRepair (layout stream pt ssrc seq ts snBase offset na f) = some
      ({ snBase := beNat (beBytes 2 snBase)
         lenRecovery := beNat (beBytes 2 f.len)
         e := (0x80 ||| (f.mpt &&& 0x7F)) &&& 0x80 != 0
         ptRecovery := (0x80 ||| (f.mpt &&& 0x7F)) &&& 0x7F
         mask := 0
         tsRecovery := beNat (beBytes 4 f.ts)
         n := streamByte stream &&& 0x80 != 0
         d := streamByte stream &&& 0x40 != 0
         fecType := streamByte stream >>> 3 &&& 0x07
         index := streamByte stream &&& 0x07
         offset
         na
         snBaseExt := 0 }, f.payload) := by
  obtain ⟨-, -, hlength, hheader, hpayload⟩ := layout_fields stream pt ssrc seq ts snBase offset na f
  unfold parseRepair FecHeader.parse
  simp only [rtpHeaderLen, fecHeaderLen, Nat.reduceAdd, hpayload, hheader, hlength]
  rw [if_neg (by omega), if_neg (by simp; omega)]
  rfl

end Layout

theorem pxcc_read : ∀ pxcc : UInt8, (0x80 ||| (pxcc &&& 0x3F)) &&& 0x3F = pxcc &&& 0x3F := by
  refine forall_byte ?_
  decide +kernel

theorem mpt_read (mpt pt : UInt8) :
    (((mpt &&& 0x80) ||| (pt &&& 0x7F)) &&& 0x80) ||| ((0x80 ||| (mpt &&& 0x7F)) &&& 0x7F) = mpt := by
  have hmarker : ((mpt &&& 0x80) ||| (pt &&& 0x7F)) &&& 0x80 = mpt &&& 0x80 := by
    have hpt : pt &&& (0x7F &&& 0x80) = 0 := UInt8.and_zero
    rw [or_and_distrib, UInt8.and_assoc, UInt8.and_assoc, hpt, UInt8.or_zero]
    rfl
  have hbits : ∀ mpt : UInt8, (mpt &&& 0x80) ||| ((0x80 ||| (mpt &&& 0x7F)) &&& 0x7F) = mpt := by
    refine forall_byte ?_
    decide +kernel
  rw [hmarker, hbits]

theorem readsAs {stream : FecStream} {l pt : UInt8} {ssrc seq ts : Nat} {fec : List UInt8} (hgroup : IsGroup media)
    (hbuild : buildRepairPacket media stream l pt ssrc seq ts = some fec) :
    ReadsAs media true (protectedSeqs fec) (recoverPacket fec) := by
  obtain ⟨f, hfold, hfits, hlength, hsum⟩ := fold_eq hgroup.member
  have hbase := sequenceOf_lt (media.headD [])
  unfold buildRepairPacket at hbuild
  dsimp only at hbuild
  split_ifs at hbuild with hempty hstride hshort hspaced
  rw [hfold, Option.map_some] at hbuild
  obtain rfl := Option.some.inj hbuild
  generalize sequenceOf (media.headD []) = snBase at hbase hspaced
  generalize strideOf stream l = offset at hstride hspaced
  obtain ⟨hbyte0, hbyte1, -⟩ := layout_fields stream pt ssrc seq ts snBase offset (UInt8.ofNat media.length) f
  have hparse := parseRepair_layout stream pt ssrc seq ts snBase offset (UInt8.ofNat media.length) f
  rw [beNat_beBytes (show snBase < 256 ^ 2 from hbase)] at hparse
  have hcount : (UInt8.ofNat media.length).toNat = media.length := by
    rw [UInt8.toNat_ofNat', Nat.mod_eq_of_lt]
    simp at hempty
    omega
  have hseqs : (parseRepair (layout stream pt ssrc seq ts snBase offset (UInt8.ofNat media.length) f)).bind
      (fun repair => repair.1.protectedSeqs) = some (media.map sequenceOf) := by
    have hnone : UInt8.ofNat media.length ≠ 0 := by
      intro hzero
      rw [hzero] at hcount
      simp at hempty
      exact hempty.1 (List.length_eq_zero_iff.1 hcount.symm)
    have htype : streamByte stream >>> 3 &&& 0x07 = 0 := by cases stream <;> rfl
    rw [hparse, Option.bind_some, FecHeader.protectedSeqs]
    rw [htype, if_neg, hcount, hspaced]
    simp [hnone, hstride]
  have hread := fromRepair_eq hfits (pxcc_read f.pxcc) (mpt_read f.mpt pt) rfl rfl rfl
  refine ⟨_, { toRecoveryFields := f.toRecoveryFields, ssrc := List.replicate 4 0 }, hseqs,
    ⟨⟨hgroup.distinct, fun s => Iff.rfl⟩, ⟨_, hsum, fun p hp => le_protectionLen hp⟩, rfl⟩, fun present => ?_⟩
  unfold recoverPacket
  rw [hparse, Option.bind_some] at hseqs ⊢
  simp only [hseqs, Option.bind_some, hbyte0, hbyte1, hread, Bool.true_and]

end St2022

/-! ## All three formats -/

/-- The format of a repair. -/
inductive Scheme where
  | ulpfec
  | flexfec
  /-- A row or a column of a block with `l` columns. -/
  | st2022 (stream : FecStream) (l : UInt8)

namespace Scheme

def build (scheme : Scheme) (media : List (List UInt8)) (pt : UInt8) (ssrc seq ts : Nat) : Option (List UInt8) :=
  match scheme with
  | ulpfec => Ulpfec.buildFecPacket media pt ssrc seq
  | flexfec => Flexfec.buildFlexfecPacket media pt ssrc seq
  | st2022 stream l => St2022.buildRepairPacket media stream l pt ssrc seq ts

def protectedSeqs : Scheme → List UInt8 → Option (List Nat)
  | ulpfec => Ulpfec.protectedSeqs
  | flexfec => Flexfec.protectedSeqs
  | st2022 _ _ => St2022.protectedSeqs

def recover : Scheme → List UInt8 → List (Nat × List UInt8) → Option (List UInt8)
  | ulpfec => Ulpfec.recoverPacket
  | flexfec => Flexfec.recoverPacket
  | st2022 _ _ => St2022.recoverPacket

/-- ST 2022-1 says that it needs a survivor. -/
def needsSurvivor : Scheme → Bool
  | ulpfec => false
  | flexfec => false
  | st2022 _ _ => true

theorem readsAs {scheme : Scheme} {pt : UInt8} {ssrc seq ts : Nat} {fec : List UInt8}
    (hgroup : IsGroup media) (hbuild : scheme.build media pt ssrc seq ts = some fec) :
    ReadsAs media scheme.needsSurvivor (scheme.protectedSeqs fec) (scheme.recover fec) := by
  cases scheme with
  | ulpfec => exact Ulpfec.readsAs hgroup hbuild
  | flexfec => exact Flexfec.readsAs hgroup hbuild
  | st2022 stream l => exact St2022.readsAs hgroup hbuild

/-- A repair names the members of its group. It gives back one lost member byte for byte, or nothing where the
format needs a survivor and there is none, and nothing when more are lost. -/
structure Exact (scheme : Scheme) (media : List (List UInt8)) (fec : List UInt8) : Prop where
  names : ∃ seqs, scheme.protectedSeqs fec = some seqs ∧ seqs.Nodup ∧ ∀ s, s ∈ seqs ↔ s ∈ media.map sequenceOf
  one : ∀ lost kept, (lost :: kept).Perm media →
    if scheme.needsSurvivor && kept.isEmpty then scheme.recover fec (tagged kept) = none
    else scheme.recover fec (tagged kept) = some lost
  more : ∀ kept rest, (kept ++ rest).Perm media → 2 ≤ rest.length → scheme.recover fec (tagged kept) = none

/-- Recovery is exact unless the only member of an ULPFEC or FlexFEC group is lost and its SSRC is not zero. -/
theorem exact_iff {scheme : Scheme} {media : List (List UInt8)} {pt : UInt8} {ssrc seq ts : Nat} {fec : List UInt8}
    (hgroup : IsGroup media) (hbuild : scheme.build media pt ssrc seq ts = some fec) : scheme.Exact media fec ↔
      scheme.needsSurvivor = true ∨ 2 ≤ media.length ∨ ∀ p ∈ media, ssrcOf p = List.replicate 4 0 := by
  obtain ⟨seqs, f, hseqs, ⟨hnames, ⟨length, hsum, hfit⟩, hssrc⟩, hrecover⟩ := readsAs hgroup hbuild
  have hsplit : ∀ lost kept, (lost :: kept).Perm media →
      splitGroup seqs (tagged kept) = some (sequenceOf lost, kept) :=
    fun lost kept hperm => splitGroup_eq hgroup.distinct hnames.nodup hnames.mem hperm
  have hone : ∀ lost kept, (lost :: kept).Perm media → (scheme.needsSurvivor && kept.isEmpty) = false →
      (scheme.recover fec (tagged kept) = some lost ↔ 2 ≤ media.length ∨ ssrcOf lost = List.replicate 4 0) := by
    intro lost kept hperm hsurvivor
    rw [hrecover, hsplit lost kept hperm, Option.bind_some, hsurvivor]
    exact recover_eq_iff hgroup hperm hsum (hfit lost (hperm.subset mem_cons_self)) hssrc
  constructor
  · intro hexact
    by_cases hsurvivor : scheme.needsSurvivor = true
    · exact Or.inl hsurvivor
    by_cases hsize : 2 ≤ media.length
    · exact Or.inr (Or.inl hsize)
    -- The group has one member, and there is nothing to take its SSRC from.
    refine Or.inr (Or.inr fun p hp => ?_)
    have hperm : ([p] : List (List UInt8)).Perm media := by
      rcases media with _ | ⟨q, _ | ⟨r, media⟩⟩
      · cases hp
      · rw [List.mem_singleton.1 hp]
      · simp at hsize
    have halone : (scheme.needsSurvivor && ([] : List (List UInt8)).isEmpty) = false := by
      rw [Bool.not_eq_true] at hsurvivor
      rw [hsurvivor, Bool.false_and]
    have hlost := hexact.one p [] hperm
    rw [halone, if_neg Bool.false_ne_true, hone p [] hperm halone] at hlost
    exact hlost.resolve_left hsize
  · intro hcond
    refine ⟨⟨seqs, hseqs, hnames.nodup, hnames.mem⟩, fun lost kept hperm => ?_, fun kept rest hperm hrest => ?_⟩
    · split
      · next hnone => rw [hrecover, hsplit lost kept hperm, Option.bind_some, hnone, if_pos rfl]
      · next hsome =>
        rw [Bool.not_eq_true] at hsome
        rw [hone lost kept hperm hsome]
        rcases hcond with hsurvivor | hsize | hzero
        · have hkept : kept ≠ [] := by
            rintro rfl
            rw [hsurvivor] at hsome
            cases hsome
          have hpos := List.length_pos_iff.2 hkept
          have hlength := hperm.length_eq
          rw [length_cons] at hlength
          exact Or.inl (by omega)
        · exact Or.inl hsize
        · exact Or.inr (hzero lost (hperm.subset mem_cons_self))
    · rw [hrecover, splitGroup_eq_none hgroup.distinct hnames.nodup hnames.mem hperm hrest, Option.bind_none]

/-- A packet of one payload byte, with SSRC one. -/
def samplePacket (seq : Nat) : List UInt8 := [0x80, 96] ++ beBytes 2 seq ++ beBytes 4 9000 ++ [0, 0, 0, 1] ++ [7]

theorem exact_pair : ∃ fec, flexfec.build [samplePacket 65535, samplePacket 0] 100 1 0 0 = some fec ∧
    flexfec.Exact [samplePacket 65535, samplePacket 0] fec := by
  have hbuild : (flexfec.build [samplePacket 65535, samplePacket 0] 100 1 0 0).isSome = true := by decide +kernel
  have hgroup : IsGroup [samplePacket 65535, samplePacket 0] := by decide +kernel
  obtain ⟨fec, hfec⟩ := Option.isSome_iff_exists.1 hbuild
  exact ⟨fec, hfec, (exact_iff hgroup hfec).2 (Or.inr (Or.inl (Nat.le_refl 2)))⟩

/-- A group of one packet with SSRC one: ULPFEC gives back a packet with SSRC zero. -/
theorem lone_member_loses_ssrc : ∃ media fec, IsGroup media ∧ ulpfec.build media 100 1 0 0 = some fec ∧
    (∃ p, ulpfec.recover fec (tagged []) = some p ∧ ssrcOf p = [0, 0, 0, 0] ∧ p ∉ media) ∧ ¬ulpfec.Exact media fec := by
  have hgroup : IsGroup [samplePacket 7] := by decide +kernel
  have hbuild : ((ulpfec.build [samplePacket 7] 100 1 0 0).map fun fec => ulpfec.recover fec (tagged [])) =
      some (some ([0x80, 96] ++ beBytes 2 7 ++ beBytes 4 9000 ++ [0, 0, 0, 0] ++ [7])) := by decide +kernel
  obtain ⟨fec, hfec, hrecover⟩ := Option.map_eq_some_iff.1 hbuild
  refine ⟨_, fec, hgroup, hfec, ⟨_, hrecover, rfl, by decide⟩, fun hexact => ?_⟩
  have hlost := hexact.one (samplePacket 7) [] (List.Perm.refl _)
  have hdiffer : ulpfec.recover fec (tagged []) = some (samplePacket 7) := hlost
  rw [hrecover] at hdiffer
  revert hdiffer
  decide

end Scheme

end Glass2Glass.Fec
