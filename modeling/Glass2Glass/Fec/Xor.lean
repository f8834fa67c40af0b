import Glass2Glass.Lib.Parity
import Glass2Glass.Lib.Words
import Glass2Glass.Rtp.Sequence

/-!
# The XOR of RTP packets

What all packet-XOR codes share (`XorFields` and `split_group` in `g2g-plugins/src/ulpfec.rs`): the XOR of the
header fields and payloads of a group of media packets. To fold a packet in and to take it out is the same
operation, so the fields of a group and all its members but one give that member (`recover_eq`). The SSRC is not
part of the sum: it is that of the last packet folded in.
-/

namespace Glass2Glass.Fec

open Words Rtp List

structure RecoveryFields where
  /-- P, X and CC: the low 6 bits of the first byte. -/
  pxcc : UInt8
  /-- M and PT: the second byte. -/
  mpt : UInt8
  ts : Nat
  /-- The XOR of the payload lengths. -/
  len : Nat
  /-- The XOR of the payloads, padded with zeros. -/
  payload : List UInt8

/-- The sum, and the SSRC of the last packet in it. -/
structure XorFields extends RecoveryFields where
  ssrc : List UInt8

/-- XOR a byte string into another, as far as that goes. -/
def xorPayload : List UInt8 → List UInt8 → List UInt8
  | d :: dst, s :: src => (d ^^^ s) :: xorPayload dst src
  | dst, _ => dst

def timestampOf (p : List UInt8) : Nat := beNat (slice p 4 4)

def ssrcOf (p : List UInt8) : List UInt8 := slice p 8 4

def payloadOf (p : List UInt8) : List UInt8 := p.drop rtpHeaderLen

/-- Fold the fields of a packet in. -/
def RecoveryFields.add (f : RecoveryFields) (p : List UInt8) : RecoveryFields :=
  { pxcc := f.pxcc ^^^ (byteAt p 0 &&& 0x3F)
    mpt := f.mpt ^^^ byteAt p 1
    ts := f.ts ^^^ timestampOf p
    len := f.len ^^^ (p.length - rtpHeaderLen) % 2 ^ 16
    payload := xorPayload f.payload (payloadOf p) }

namespace XorFields

/-- Fold a packet in, unless it is shorter than a header. -/
def xorIn (f : XorFields) (p : List UInt8) : Option XorFields :=
  if p.length < rtpHeaderLen then none
  else some { toRecoveryFields := f.toRecoveryFields.add p, ssrc := ssrcOf p }

/-- The length of the longest payload. -/
def protectionLen (media : List (List UInt8)) : Nat := (media.map fun p => p.length - rtpHeaderLen).foldr max 0

/-- The sum of nothing, for payloads up to a length. -/
def zero (length : Nat) : RecoveryFields :=
  { pxcc := 0, mpt := 0, ts := 0, len := 0, payload := List.replicate length 0 }

/-- Fold a group of packets. -/
def fold (media : List (List UInt8)) : Option XorFields :=
  media.foldlM xorIn { toRecoveryFields := zero (protectionLen media), ssrc := List.replicate 4 0 }

def fromRepair (pxcc mpt : UInt8) (ts len : Nat) (payload : List UInt8) : XorFields :=
  { pxcc := pxcc &&& 0x3F, mpt, ts, len, payload, ssrc := List.replicate 4 0 }

/-- The packet that the fields describe, with a sequence number. -/
def toRtp (f : XorFields) (seq : Nat) : Option (List UInt8) :=
  if f.len > f.payload.length then none
  else some ([0x80 ||| (f.pxcc &&& 0x3F), f.mpt] ++ beBytes 2 seq ++ beBytes 4 f.ts ++ f.ssrc ++ f.payload.take f.len)

end XorFields

/-- The members of a group that are present, and the sequence number of the one that is not. `none` unless
exactly one is absent. -/
def splitGroup (seqs : List Nat) (present : List (Nat × List UInt8)) : Option (Nat × List (List UInt8)) :=
  match seqs.filter fun s => !present.any fun p => p.1 == s with
  | [missing] => some (missing, (present.filter fun p => seqs.contains p.1).map Prod.snd)
  | _ => none

/-! ## The sum is a parity -/

theorem length_xorPayload (dst src : List UInt8) : (xorPayload dst src).length = dst.length := by
  induction dst generalizing src with
  | nil => cases src <;> rfl
  | cons d dst ih =>
    cases src with
    | nil => rfl
    | cons s src => rw [xorPayload, length_cons, length_cons, ih]

theorem xorPayload_comm (dst a b : List UInt8) :
    xorPayload (xorPayload dst a) b = xorPayload (xorPayload dst b) a := by
  induction dst generalizing a b with
  | nil => cases a <;> cases b <;> rfl
  | cons d dst ih =>
    cases a with
    | nil => cases b <;> rfl
    | cons x a =>
      cases b with
      | nil => rfl
      | cons y b =>
        simp only [xorPayload]
        rw [ih, UInt8.xor_assoc, UInt8.xor_comm x y, ← UInt8.xor_assoc]

theorem xorPayload_self (dst a : List UInt8) : xorPayload (xorPayload dst a) a = dst := by
  induction dst generalizing a with
  | nil => cases a <;> rfl
  | cons d dst ih =>
    cases a with
    | nil => rfl
    | cons x a =>
      simp only [xorPayload]
      rw [ih, UInt8.xor_assoc, UInt8.xor_self, UInt8.xor_zero]

theorem xorPayload_replicate (length : Nat) (src : List UInt8) (h : src.length ≤ length) :
    xorPayload (List.replicate length 0) src = src ++ List.replicate (length - src.length) 0 := by
  induction src generalizing length with
  | nil => cases length <;> rfl
  | cons s src ih =>
    cases length with
    | zero => cases h
    | succ length =>
      rw [length_cons, Nat.add_le_add_iff_right] at h
      rw [replicate_succ, xorPayload, ih length h, UInt8.zero_xor, length_cons, Nat.add_sub_add_right]
      rfl

theorem lawful_add : Parity.Lawful RecoveryFields.add where
  comm f p q := by
    unfold RecoveryFields.add
    simp only [RecoveryFields.mk.injEq]
    refine ⟨?_, ?_, ?_, ?_, xorPayload_comm _ _ _⟩
    · rw [UInt8.xor_assoc, UInt8.xor_comm (byteAt p 0 &&& 0x3F), ← UInt8.xor_assoc]
    · rw [UInt8.xor_assoc, UInt8.xor_comm (byteAt p 1), ← UInt8.xor_assoc]
    · exact Nat.xor_right_comm _ _ _
    · exact Nat.xor_right_comm _ _ _
  self f p := by
    unfold RecoveryFields.add
    simp only [xorPayload_self, UInt8.xor_assoc, UInt8.xor_self, UInt8.xor_zero, Nat.xor_assoc, Nat.xor_self,
      Nat.xor_zero]

/-- The fields fit their places in a repair. -/
structure RecoveryFields.Fits (f : RecoveryFields) : Prop where
  pxcc : f.pxcc &&& 0x3F = f.pxcc
  ts : f.ts < 256 ^ 4
  len : f.len < 256 ^ 2

variable {p : List UInt8}

theorem RecoveryFields.Fits.add {f : RecoveryFields} (h : f.Fits) (hp : rtpHeaderLen ≤ p.length) :
    (f.add p).Fits where
  pxcc := by
    unfold RecoveryFields.add
    rw [xor_and_distrib, h.pxcc, UInt8.and_assoc]
    rfl
  ts := by
    have hlength : (slice p 4 4).length = 4 := by
      unfold rtpHeaderLen at hp
      unfold slice
      rw [length_take, length_drop]
      omega
    exact Nat.xor_lt_two_pow (n := 32) h.ts (beNat_lt hlength)
  len := Nat.xor_lt_two_pow (n := 16) h.len (Nat.mod_lt _ (by decide))

theorem fits_foldl {f : RecoveryFields} (h : f.Fits) {media : List (List UInt8)}
    (hmedia : ∀ p ∈ media, rtpHeaderLen ≤ p.length) : (media.foldl RecoveryFields.add f).Fits := by
  induction media generalizing f with
  | nil => exact h
  | cons p media ih =>
    exact ih (h.add (hmedia p mem_cons_self)) fun q hq => hmedia q (mem_cons_of_mem _ hq)

theorem length_foldl (f : RecoveryFields) (media : List (List UInt8)) :
    (media.foldl RecoveryFields.add f).payload.length = f.payload.length := by
  induction media generalizing f with
  | nil => rfl
  | cons p media ih => rw [foldl_cons, ih, RecoveryFields.add, length_xorPayload]

theorem fits_zero (length : Nat) : (XorFields.zero length).Fits :=
  ⟨UInt8.zero_and, Nat.zero_lt_succ _, Nat.zero_lt_succ _⟩

variable {f : XorFields}

theorem foldlM_xorIn {media : List (List UInt8)} (hmedia : ∀ p ∈ media, rtpHeaderLen ≤ p.length) :
    media.foldlM XorFields.xorIn f = some
      { toRecoveryFields := media.foldl RecoveryFields.add f.toRecoveryFields
        ssrc := (media.getLast?.map ssrcOf).getD f.ssrc } := by
  induction media generalizing f with
  | nil => rfl
  | cons p media ih =>
    have hp := hmedia p mem_cons_self
    rw [foldlM_cons, XorFields.xorIn, if_neg (Nat.not_lt.2 hp), Option.bind_eq_bind, Option.bind_some,
      ih fun q hq => hmedia q (mem_cons_of_mem _ hq), foldl_cons]
    rcases media with _ | ⟨q, media⟩
    · rfl
    · rw [List.getLast?_cons_cons]
      rcases hlast : (q :: media).getLast? with _ | last
      · simp at hlast
      · rfl

/-! ## The packet that the fields describe -/

theorem packet_eq (hp : rtpHeaderLen ≤ p.length) :
    p = [byteAt p 0, byteAt p 1] ++ beBytes 2 (sequenceOf p) ++ beBytes 4 (timestampOf p) ++ ssrcOf p ++ payloadOf p := by
  rcases p with _ | ⟨b0, _ | ⟨b1, _ | ⟨b2, _ | ⟨b3, rest⟩⟩⟩⟩
  iterate 4 simp [rtpHeaderLen] at hp
  have hrest : 8 ≤ rest.length := by simpa [rtpHeaderLen] using hp
  have hseq : beBytes 2 (sequenceOf (b0 :: b1 :: b2 :: b3 :: rest)) = [b2, b3] := by
    have heq : sequenceOf (b0 :: b1 :: b2 :: b3 :: rest) = beNat [b2, b3] := by
      simp [sequenceOf, beNat, Codec.leNat]
      omega
    have hlength : [b2, b3].length = 2 := rfl
    rw [heq, beBytes_beNat hlength]
  have hts : beBytes 4 (timestampOf (b0 :: b1 :: b2 :: b3 :: rest)) = rest.take 4 := by
    have hfour : (rest.take 4).length = 4 := by
      rw [length_take]
      omega
    exact beBytes_beNat hfour
  have htail : ssrcOf (b0 :: b1 :: b2 :: b3 :: rest) ++ payloadOf (b0 :: b1 :: b2 :: b3 :: rest) = rest.drop 4 := by
    have hdrop : payloadOf (b0 :: b1 :: b2 :: b3 :: rest) = (rest.drop 4).drop 4 := by
      rw [drop_drop]
      rfl
    rw [hdrop]
    exact take_append_drop 4 (rest.drop 4)
  rw [hseq, hts, append_assoc, htail, append_assoc, take_append_drop]
  rfl

variable {length : Nat}

theorem toRtp_add_zero {ssrc : List UInt8}
    (hversion : byteAt p 0 &&& 0xC0 = 0x80) (hpayload : p.length - rtpHeaderLen < 2 ^ 16)
    (hlength : p.length - rtpHeaderLen ≤ length) :
    XorFields.toRtp { toRecoveryFields := (XorFields.zero length).add p, ssrc } (sequenceOf p) =
      some ([byteAt p 0, byteAt p 1] ++ beBytes 2 (sequenceOf p) ++ beBytes 4 (timestampOf p) ++ ssrc ++
        payloadOf p) := by
  have hbits : ∀ b : UInt8, b &&& 0xC0 = 0x80 → 0x80 ||| ((0 ^^^ (b &&& 0x3F)) &&& 0x3F) = b := by
    refine forall_byte ?_
    decide +kernel
  have hmpt : 0 ^^^ byteAt p 1 = byteAt p 1 := UInt8.zero_xor
  have hlen : (payloadOf p).length = p.length - rtpHeaderLen := length_drop
  unfold XorFields.toRtp RecoveryFields.add XorFields.zero
  dsimp only
  rw [hbits _ hversion, hmpt, Nat.zero_xor, Nat.zero_xor, Nat.mod_eq_of_lt hpayload,
    xorPayload_replicate length _ (hlen ▸ hlength), if_neg, take_left' hlen]
  rw [length_append, hlen]
  omega

/-! ## Groups -/

/-- A media packet that the codes can protect. -/
structure IsMedia (p : List UInt8) : Prop where
  header : rtpHeaderLen ≤ p.length
  version : byteAt p 0 &&& 0xC0 = 0x80
  payload : p.length - rtpHeaderLen < 2 ^ 16

/-- Media packets of one stream with sequence numbers of their own. -/
structure IsGroup (media : List (List UInt8)) : Prop where
  member : ∀ p ∈ media, IsMedia p
  ssrc : ∀ p ∈ media, ∀ q ∈ media, ssrcOf p = ssrcOf q
  distinct : (media.map sequenceOf).Nodup

instance (p : List UInt8) : Decidable (IsMedia p) :=
  decidable_of_iff (rtpHeaderLen ≤ p.length ∧ byteAt p 0 &&& 0xC0 = 0x80 ∧ p.length - rtpHeaderLen < 2 ^ 16)
    ⟨fun h => ⟨h.1, h.2.1, h.2.2⟩, fun h => ⟨h.header, h.version, h.payload⟩⟩

instance (media : List (List UInt8)) : Decidable (IsGroup media) :=
  decidable_of_iff ((∀ p ∈ media, IsMedia p) ∧ (∀ p ∈ media, ∀ q ∈ media, ssrcOf p = ssrcOf q) ∧
    (media.map sequenceOf).Nodup) ⟨fun h => ⟨h.1, h.2.1, h.2.2⟩, fun h => ⟨h.member, h.ssrc, h.distinct⟩⟩

/-- The survivors of a group, with their sequence numbers. -/
def tagged (kept : List (List UInt8)) : List (Nat × List UInt8) := kept.map fun p => (sequenceOf p, p)

variable {media kept : List (List UInt8)} {lost : List UInt8} {seqs : List Nat}

theorem filter_absent (hdistinct : (media.map sequenceOf).Nodup) (hseqs : seqs.Nodup)
    (hmem : ∀ s, s ∈ seqs ↔ s ∈ media.map sequenceOf) {rest : List (List UInt8)}
    (hperm : (kept ++ rest).Perm media) :
    (seqs.filter fun s => !(tagged kept).any fun p => p.1 == s).Perm (rest.map sequenceOf) := by
  have hall : seqs.Perm ((kept ++ rest).map sequenceOf) :=
    ((perm_ext_iff_of_nodup hseqs hdistinct).2 hmem).trans (hperm.map _).symm
  have hnodup : ((kept ++ rest).map sequenceOf).Nodup := (hperm.map sequenceOf).nodup_iff.2 hdistinct
  have hany : ∀ s, (tagged kept).any (fun p => p.1 == s) = true ↔ s ∈ kept.map sequenceOf := by
    intro s
    simp [tagged]
  rw [map_append] at hall hnodup
  refine (hall.filter _).trans ?_
  rw [filter_append, List.filter_eq_nil_iff.2, List.filter_eq_self.2, nil_append]
  · intro s hs
    rw [Bool.not_eq_true', ← Bool.not_eq_true, hany]
    exact fun hkept => (List.nodup_append.1 hnodup).2.2 s hkept s hs rfl
  · intro s hs
    rw [Bool.not_eq_true', ← Bool.not_eq_true, hany, not_not]
    exact hs

theorem splitGroup_eq (hgroup : (media.map sequenceOf).Nodup) (hseqs : seqs.Nodup)
    (hmem : ∀ s, s ∈ seqs ↔ s ∈ media.map sequenceOf) (hperm : (lost :: kept).Perm media) :
    splitGroup seqs (tagged kept) = some (sequenceOf lost, kept) := by
  have habsent := filter_absent hgroup hseqs hmem ((perm_append_singleton lost kept).trans hperm)
  unfold splitGroup
  rw [List.perm_singleton.1 habsent]
  have hkept : (tagged kept).filter (fun p => seqs.contains p.1) = tagged kept := by
    refine List.filter_eq_self.2 fun p hp => ?_
    obtain ⟨q, hq, rfl⟩ := List.mem_map.1 hp
    rw [contains_iff_mem]
    exact (hmem _).2 (mem_map_of_mem (hperm.subset (mem_cons_of_mem _ hq)))
  rw [hkept]
  rw [tagged, map_map]
  exact congrArg (fun l => some (sequenceOf lost, l)) (map_id kept)

theorem splitGroup_eq_none (hgroup : (media.map sequenceOf).Nodup) (hseqs : seqs.Nodup)
    (hmem : ∀ s, s ∈ seqs ↔ s ∈ media.map sequenceOf) {rest : List (List UInt8)}
    (hperm : (kept ++ rest).Perm media) (hrest : 2 ≤ rest.length) : splitGroup seqs (tagged kept) = none := by
  have hlength := (filter_absent hgroup hseqs hmem hperm).length_eq
  rw [length_map] at hlength
  unfold splitGroup
  split
  · next missing heq =>
    rw [heq, length_singleton] at hlength
    omega
  · rfl

theorem recover_eq (hgroup : IsGroup media) (hperm : (lost :: kept).Perm media)
    (hf : f.toRecoveryFields = media.foldl RecoveryFields.add (XorFields.zero length))
    (hlength : lost.length - rtpHeaderLen ≤ length) :
    ((kept.foldlM XorFields.xorIn f).bind fun f => f.toRtp (sequenceOf lost)) =
      some ([byteAt lost 0, byteAt lost 1] ++ beBytes 2 (sequenceOf lost) ++ beBytes 4 (timestampOf lost) ++
        (kept.getLast?.map ssrcOf).getD f.ssrc ++ payloadOf lost) := by
  have hlost := hgroup.member lost (hperm.subset mem_cons_self)
  have hkept : ∀ p ∈ kept, rtpHeaderLen ≤ p.length :=
    fun p hp => (hgroup.member p (hperm.subset (mem_cons_of_mem _ hp))).header
  rw [foldlM_xorIn hkept, Option.bind_some, hf, lawful_add.foldl_recover _ hperm]
  exact toRtp_add_zero hlost.version hlost.payload hlength

theorem recover_eq_iff (hgroup : IsGroup media) (hperm : (lost :: kept).Perm media)
    (hf : f.toRecoveryFields = media.foldl RecoveryFields.add (XorFields.zero length))
    (hlength : lost.length - rtpHeaderLen ≤ length) (hssrc : f.ssrc = List.replicate 4 0) :
    ((kept.foldlM XorFields.xorIn f).bind fun f => f.toRtp (sequenceOf lost)) = some lost ↔
      2 ≤ media.length ∨ ssrcOf lost = List.replicate 4 0 := by
  have hlost := hperm.subset (mem_cons_self (a := lost) (l := kept))
  have hsize := hperm.length_eq
  rw [length_cons] at hsize
  rw [recover_eq hgroup hperm hf hlength, hssrc, Option.some_inj]
  have hpacket := packet_eq (hgroup.member lost hlost).header
  have hexact : ∀ ssrc : List UInt8, [byteAt lost 0, byteAt lost 1] ++ beBytes 2 (sequenceOf lost) ++
      beBytes 4 (timestampOf lost) ++ ssrc ++ payloadOf lost = lost ↔ ssrcOf lost = ssrc := by
    intro ssrc
    constructor
    · intro h
      have hsame := h.trans hpacket
      rw [append_left_inj, append_right_inj] at hsame
      exact hsame.symm
    · rintro rfl
      exact hpacket.symm
  rw [hexact]
  rcases hlast : kept.getLast? with _ | last
  · rw [List.getLast?_eq_none_iff] at hlast
    rw [hlast, length_nil] at hsize
    constructor
    · exact Or.inr
    · rintro (htwo | hzero)
      · omega
      · exact hzero
  · have hmem := mem_of_getLast? hlast
    have hpos := length_pos_of_mem hmem
    constructor
    · exact fun _ => Or.inl (by omega)
    · exact fun _ => hgroup.ssrc lost hlost last (hperm.subset (mem_cons_of_mem _ hmem))

end Glass2Glass.Fec
