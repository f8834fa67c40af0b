import Glass2Glass.Gst.Description
import Glass2Glass.Lib.Words

/-!
# Codec tags in descriptions

A codec known by its container tag only is printed under a media type of its own. A RIFF tag is a
number in a field and always read back. A MOV tag is printed as four characters, one for each byte,
with nothing escaped, and read back as the UTF-8 bytes of what is left of them after the splitter and
the trimming. `movReads` says which tags survive that, and the theorems of the last section show that
these are all.
-/

namespace Glass2Glass.Gst

open Text List

/-! ## Media types of tags -/

/-- The media type of a MOV tag with the characters `f`. -/
def movMedia (kind : StreamKind) (f : List Char) : List Char :=
  kind.name.toList ++ '/' :: (MOV_UNKNOWN_SUBTYPE_PREFIX.toList ++ f)

def taggedSet (kind : StreamKind) (fields : Fields) (tag : CodecTag) : Option CapsSet :=
  match kind with
  | .video => compressedSet fields (.tagged tag)
  | .audio => audioSet fields [.tagged tag]

/-- A media type that names no tag. -/
def isUntagged (media : List Char) : Bool :=
  match splitOnce '/' media with
  | none => true
  | some (_, subtype) => (subtype.dropPrefix? MOV_UNKNOWN_SUBTYPE_PREFIX.toList).isNone &&
      subtype != RIFF_UNKNOWN_SUBTYPE.toList

theorem taggedCodec_of_isUntagged {media : List Char} (h : isUntagged media) (fields : Fields) :
    taggedCodec media fields = none := by
  unfold isUntagged at h
  unfold taggedCodec
  cases hsplit : splitOnce '/' media with
  | none => rfl
  | some p =>
    obtain ⟨kind, subtype⟩ := p
    simp only [hsplit, Bool.and_eq_true, Option.isNone_iff_eq_none, bne_iff_ne, ne_eq] at h
    simp [h.1, h.2]

variable {nested : List Char → Option CapsSet}

theorem describedSet_of_isUntagged {media : List Char} (h : isUntagged media) (fields : Fields) :
    describedSet nested media fields = (named mediaTypes media).bind (MediaType.capsSet nested fields) := by
  rw [describedSet, taggedCodec_of_isUntagged h]

theorem streamKind_name (kind : StreamKind) : streamKind kind.name.toList = some kind := by
  cases kind <;> decide

theorem splitOnce_movMedia (kind : StreamKind) (f : List Char) : splitOnce '/' (movMedia kind f) =
      some (kind.name.toList, MOV_UNKNOWN_SUBTYPE_PREFIX.toList ++ f) :=
  splitOnce_append (by cases kind <;> decide) _

theorem describedSet_movMedia (nested : List Char → Option CapsSet) (kind : StreamKind)
    (f : List Char) (fields : Fields) :
    describedSet nested (movMedia kind f) fields =
      if (asBytes f).length = 4 then
        taggedSet kind fields ⟨.mov, UInt32.ofNat (Codec.leNat (asBytes f))⟩
      else none := by
  have hstarts : (MOV_UNKNOWN_SUBTYPE_PREFIX.toList ++ f).dropPrefix?
      MOV_UNKNOWN_SUBTYPE_PREFIX.toList = some f :=
    List.dropPrefix?_append_of_beq f (beq_self_eq_true _)
  have htagged : taggedCodec (movMedia kind f) fields = if (asBytes f).length = 4 then
      some (kind, ⟨.mov, UInt32.ofNat (Codec.leNat (asBytes f))⟩) else none := by
    simp only [taggedCodec, splitOnce_movMedia, Option.bind_eq_bind, Option.bind_some, hstarts, streamKind_name]
    rfl
  -- every media type of the table is without a tag, this one has one
  have hnamed : named mediaTypes (movMedia kind f) = none := by
    have htable : ∀ entry ∈ mediaTypes, isUntagged entry.1.toList := by decide +kernel
    have htag : isUntagged (movMedia kind f) = false := by
      simp [isUntagged, splitOnce_movMedia, hstarts]
    rw [named, Option.map_eq_none_iff, List.find?_eq_none]
    intro entry hentry heq
    have htext : entry.1.toList = movMedia kind f := by
      rw [beq_iff_eq.1 heq, String.toList_ofList]
    rw [← htext, htable entry hentry] at htag
    exact absurd htag (by decide)
  rw [describedSet, htagged]
  split_ifs
  · cases kind <;> rfl
  · simp only [hnamed, Option.bind_none]

/-- The media type of a RIFF tag. -/
def riffMedia (kind : StreamKind) : List Char :=
  kind.name.toList ++ '/' :: RIFF_UNKNOWN_SUBTYPE.toList

variable {tag : UInt32}

theorem describedSet_riffMedia (nested : List Char → Option CapsSet) (kind : StreamKind) {fields : Fields}
    (h : fieldOf fields (riffTagField kind) = some (.one (decimal tag.toNat))) :
    describedSet nested (riffMedia kind) fields = taggedSet kind fields ⟨.riff, tag⟩ := by
  have hsplit : splitOnce '/' (riffMedia kind) =
      some (kind.name.toList, RIFF_UNKNOWN_SUBTYPE.toList) :=
    splitOnce_append (by cases kind <;> decide) _
  have hstarts : RIFF_UNKNOWN_SUBTYPE.toList.dropPrefix? MOV_UNKNOWN_SUBTYPE_PREFIX.toList = none := by
    decide
  -- a number does not start with gst's type in parentheses
  have htype : (decimal tag.toNat).dropPrefix? "(int)".toList = none := by
    rw [Option.eq_none_iff_forall_ne_some]
    intro rest hrest
    obtain ⟨p, hp, hparen⟩ := List.dropPrefix?_eq_some_iff.1 hrest
    have hmem : '(' ∈ decimal tag.toNat := by
      rw [hp, beq_iff_eq.1 hparen]
      exact mem_cons_self
    exact @forall_decimal (· ≠ '(') (by decide) _ '(' hmem rfl
  have htagged : taggedCodec (riffMedia kind) fields = some (kind, ⟨.riff, tag⟩) := by
    simp only [taggedCodec, hsplit, Option.bind_eq_bind, Option.bind_some, hstarts, if_true,
      streamKind_name, h, htype, Option.getD_none, trim_of_tight (word_decimal _).tight,
      parseU32_decimal]
    rfl
  rw [describedSet, htagged]
  cases kind <;> rfl

/-! ## Bytes as characters -/

def byteChar (b : UInt8) : Char := Char.ofNat b.toNat

def byteUtf8 (b : UInt8) : List UInt8 := String.utf8EncodeChar (byteChar b)

/-- An ASCII byte is its own encoding; any other is encoded in two bytes, and only `0xC3` starts its
own encoding. -/
theorem byteUtf8_cases (b : UInt8) : (b < 0x80 ∧ byteUtf8 b = [b]) ∨ (0x80 ≤ b ∧ (byteUtf8 b).length = 2 ∧
        ((byteUtf8 b).head? = some b → byteUtf8 b = [0xC3, 0x83])) := by
  revert b
  refine Words.forall_byte ?_
  decide +kernel

/-- The bytes that stand in encodings of one another, none of them a separator. -/
def overrunBytes : List UInt8 := [0x82, 0x83, 0xC2, 0xC3]

theorem byteUtf8_overrun (b : UInt8) (h : b ∈ overrunBytes) : ∀ c ∈ byteUtf8 b, c ∈ overrunBytes := by
  have hall : overrunBytes.all fun b => (byteUtf8 b).all (overrunBytes.contains ·) := by decide
  simpa using List.all_eq_true.1 hall b h

/-- Encoded bytes that run ahead of the bytes themselves: what stands after the encoded ones is again
a byte of an encoding. -/
theorem mem_overrunBytes_of_ahead {ahead g rest : List UInt8} {x : UInt8} (hne : ahead ≠ [])
    (hahead : ∀ b ∈ ahead, b ∈ overrunBytes) (h : ahead ++ g.flatMap byteUtf8 = g ++ x :: rest) : x ∈ overrunBytes := by
  induction g generalizing ahead with
  | nil =>
    have hx : x ∈ ahead := by
      rw [flatMap_nil, append_nil, nil_append] at h
      rw [h]
      exact mem_cons_self
    exact hahead x hx
  | cons b g ih =>
    obtain ⟨a, ahead, rfl⟩ := exists_cons_of_ne_nil hne
    rw [cons_append, cons_append, List.cons.injEq, flatMap_cons, ← append_assoc] at h
    obtain ⟨rfl, h⟩ := h
    have hb := hahead a mem_cons_self
    refine ih ?_ ?_ h
    · rcases byteUtf8_cases a with ⟨-, heq⟩ | ⟨-, hlen, -⟩
      · simp [heq]
      · intro hnil
        rw [(List.append_eq_nil_iff.1 hnil).2] at hlen
        simp at hlen
    · intro c hc
      rcases List.mem_append.1 hc with hc | hc
      · exact hahead c (mem_cons_of_mem a hc)
      · exact byteUtf8_overrun a hb c hc

/-- When the encoding of some bytes is these bytes and more, more starts with a byte of an
encoding. -/
theorem mem_overrunBytes {g rest : List UInt8} {x : UInt8}
    (h : g.flatMap byteUtf8 = g ++ x :: rest) : x ∈ overrunBytes := by
  induction g with
  | nil => simp at h
  | cons b g ih =>
    rw [flatMap_cons, cons_append] at h
    rcases byteUtf8_cases b with ⟨-, heq⟩ | ⟨-, hlen, hhead⟩
    · rw [heq, singleton_append, List.cons.injEq] at h
      exact ih h.2
    · have hstart : (byteUtf8 b).head? = some b := by
        cases hb : byteUtf8 b with
        | nil => simp [hb] at hlen
        | cons c t =>
          rw [hb, cons_append, List.cons.injEq] at h
          rw [h.1, List.head?_cons]
      rw [hhead hstart, cons_append, List.cons.injEq] at h
      exact mem_overrunBytes_of_ahead (by simp) (by simp [overrunBytes]) h.2

theorem lt_of_flatMap_byteUtf8 {bs : List UInt8} (h : (bs.flatMap byteUtf8).length = bs.length) :
    ∀ b ∈ bs, b < 0x80 := by
  have hlen : ∀ bs : List UInt8, bs.length ≤ (bs.flatMap byteUtf8).length := by
    intro bs
    induction bs with
    | nil => simp
    | cons b bs ih =>
      rw [flatMap_cons, length_append, length_cons]
      rcases byteUtf8_cases b with ⟨-, heq⟩ | ⟨-, hlen, -⟩
      · rw [heq, length_singleton]
        omega
      · omega
  induction bs with
  | nil => simp
  | cons b bs ih =>
    have hrest := hlen bs
    rw [flatMap_cons, length_append, length_cons] at h
    rcases byteUtf8_cases b with ⟨hlt, heq⟩ | ⟨-, hlen, -⟩
    · rw [heq, length_singleton] at h
      exact List.forall_mem_cons.2 ⟨hlt, ih (by omega)⟩
    · omega

/-! ## The tags that are read back -/

/-- A MOV tag that is read back from its characters: they are ASCII, the last is no white space, no
comma cuts them, and when fields follow the tag closes its own brackets and strings. -/
def movReads (tag : UInt32) (followed : Bool) : Bool :=
  (fourcc tag).all (fun c => decide (c.toNat < 0x80)) && !(fourcc tag).getLast?.any isWhitespace &&
    (scan .top (fourcc tag)).any fun st => !followed || st == .top

theorem fourcc_eq (tag : UInt32) : fourcc tag = (Codec.leBytes 4 tag.toNat).map byteChar := rfl

theorem asBytes_map_byteChar (bs : List UInt8) : asBytes (bs.map byteChar) = bs.flatMap byteUtf8 :=
  flatMap_map ..

theorem ofNat_leNat_leBytes (tag : UInt32) : UInt32.ofNat (Codec.leNat (Codec.leBytes 4 tag.toNat)) = tag := by
  rw [Codec.leNat_leBytes 4 _ tag.toNat_lt, UInt32.ofNat_toNat]

theorem byteChar_toNat_lt_iff (b : UInt8) : (byteChar b).toNat < 0x80 ↔ b < 0x80 := by
  revert b
  refine Words.forall_byte ?_
  decide +kernel

theorem asBytes_fourcc (h : ∀ c ∈ fourcc tag, c.toNat < 0x80) : asBytes (fourcc tag) = Codec.leBytes 4 tag.toNat := by
  rw [fourcc_eq, asBytes_map_byteChar]
  rw [fourcc_eq, forall_mem_map] at h
  generalize Codec.leBytes 4 tag.toNat = bs at h
  induction bs with
  | nil => rfl
  | cons b bs ih =>
    obtain ⟨hb, hbs⟩ := List.forall_mem_cons.1 h
    have heq : byteUtf8 b = [b] := by
      rcases byteUtf8_cases b with ⟨-, heq⟩ | ⟨hle, -⟩
      · exact heq
      · exact absurd ((byteChar_toNat_lt_iff b).1 hb) (UInt8.not_lt.2 hle)
    rw [flatMap_cons, heq, ih hbs]
    rfl

theorem movReads_iff {followed : Bool} : movReads tag followed = true ↔ (∀ c ∈ fourcc tag, c.toNat < 0x80) ∧
      trimEnd (fourcc tag) = fourcc tag ∧ ∃ st, scan .top (fourcc tag) = some st ∧ (followed = true → st = .top) := by
  have hlast : (!(fourcc tag).getLast?.any isWhitespace) = true ↔
      trimEnd (fourcc tag) = fourcc tag := by
    rw [trimEnd, rdropWhile_eq_self_iff]
    cases hf : fourcc tag with
    | nil => simp
    | cons c f => simp [List.getLast?_eq_some_getLast]
  have hscan : (scan .top (fourcc tag)).any (fun st => !followed || st == .top) = true ↔
      ∃ st, scan .top (fourcc tag) = some st ∧ (followed = true → st = .top) := by
    cases scan .top (fourcc tag) with
    | none => simp
    | some st => cases followed <;> simp
  rw [movReads, Bool.and_eq_true, Bool.and_eq_true, hlast, hscan, all_eq_true, and_assoc]
  simp only [decide_eq_true_eq]

theorem scan_movMedia (kind : StreamKind) (f : List Char) : scan .top (movMedia kind f) = scan .top f := by
  have hword : Word (movMedia kind []) := by cases kind <;> decide
  have happend : movMedia kind f = movMedia kind [] ++ f := by
    simp [movMedia]
  rw [happend, scan_append, hword.scan, Option.bind_some]

theorem trim_movMedia (kind : StreamKind) (f : List Char) : trim (movMedia kind f) = movMedia kind (trimEnd f) := by
  have happend : ∀ f, movMedia kind f = movMedia kind [] ++ f := by simp [movMedia]
  have htrim : trimEnd (movMedia kind []) = movMedia kind [] := by cases kind <;> decide
  have hhead : ∀ c, (movMedia kind f).head? = some c → isWhitespace c = false := by
    cases kind <;> rintro c ⟨⟩ <;> decide
  rw [trim_of_head hhead, happend, trimEnd_append htrim, ← happend]

theorem fromDescription_movMedia {kind : StreamKind} {fields : FieldTexts}
    (h : movReads tag (!(declared fields).isEmpty)) (hfields : ∀ f ∈ declared fields, FieldCloses f) :
    fromDescription nested (printFields (movMedia kind (fourcc tag)) fields) =
      taggedSet kind (readFields fields) ⟨.mov, tag⟩ := by
  obtain ⟨hascii, htrim, st, hscan, hst⟩ := movReads_iff.1 h
  rw [fromDescription_printFields nested ((scan_movMedia kind _).trans hscan)
    (fun hne => hst (by simpa using hne)) hfields, trim_movMedia, htrim, describedSet_movMedia,
    asBytes_fourcc hascii, if_pos (Codec.length_leBytes 4 _), ofNat_leNat_leBytes]

theorem exists_cut {st : Scan} {s : List Char} (h : scan st s = none) :
    ∃ a b, s = a ++ ',' :: b ∧ scan st a = some .top := by
  induction s generalizing st with
  | nil => simp at h
  | cons c s ih =>
    cases hstep : st.step c with
    | none =>
      obtain ⟨rfl, rfl⟩ := Scan.step_eq_none hstep
      exact ⟨[], s, rfl, rfl⟩
    | some st' =>
      rw [scan_cons, hstep, Option.bind_some] at h
      obtain ⟨a, b, rfl, ha⟩ := ih h
      exact ⟨c :: a, b, rfl, by rw [scan_cons, hstep, Option.bind_some, ha]⟩

/-- What the parser takes for the characters of a tag: the tag when nothing cuts it and it leaves the
splitter where the fields are cut, else less or more than the tag. -/
inductive TagPart (f rest : List Char) : List Char → Prop where
  | whole {st : Scan} (hscan : scan .top f = some st) (hst : rest ≠ [] → st = .top) : TagPart f rest f
  | less {g b : List Char} (h : f = g ++ ',' :: b) : TagPart f rest g
  | more (p : List Char) : TagPart f rest (f ++ ',' :: p)

variable {rest : List Char}

theorem exists_tagPart (kind : StreamKind) (f : List Char) (hrest : rest = [] ∨ ∃ r, rest = ',' :: r) :
    ∃ g parts, splitTopCommas (movMedia kind f ++ rest) = movMedia kind g :: parts ∧ TagPart f rest g := by
  have happend : ∀ a b, movMedia kind (a ++ b) = movMedia kind a ++ b := by simp [movMedia]
  cases hscan : scan .top f with
  | none =>
    obtain ⟨a, b, rfl, ha⟩ := exists_cut hscan
    have hsplit := splitTopCommas_append_comma ((scan_movMedia kind a).trans ha) (b ++ rest)
    rw [← cons_append, ← append_assoc, ← happend] at hsplit
    exact ⟨a, _, hsplit, .less rfl⟩
  | some st =>
    have hmedia := (scan_movMedia kind f).trans hscan
    rcases hrest with rfl | ⟨r, rfl⟩
    · refine ⟨f, [], ?_, .whole hscan (by simp)⟩
      rw [append_nil, splitTopCommas, splitFrom_of_scan hmedia]
    · by_cases hst : st = .top
      · subst hst
        exact ⟨f, _, splitTopCommas_append_comma hmedia r, .whole hscan fun _ => rfl⟩
      · -- the comma before the first field is no cut
        obtain ⟨st', hstep⟩ : ∃ st', st.step ',' = some st' := by
          cases hstep : st.step ',' with
          | none => exact absurd (Scan.step_eq_none hstep).2 hst
          | some st' => exact ⟨st', rfl⟩
        have hcomma : scan .top (movMedia kind f ++ [',']) = some st' :=
          scan_append_of hmedia (by simp [scan_cons, hstep])
        obtain ⟨p, ps, hp⟩ := exists_cons_of_ne_nil (splitFrom_ne_nil st' r)
        refine ⟨f ++ ',' :: p, ps, ?_, .more p⟩
        have hsplit := splitFrom_append hcomma r
        rw [hp, modifyHead_cons, append_assoc] at hsplit
        rw [splitTopCommas, happend]
        simpa using hsplit

theorem asBytes_ne_leBytes {g t : List Char} {x : Char}
    (hf : fourcc tag = g ++ x :: t) (hx : x = ',' ∨ isWhitespace x = true) : asBytes g ≠ Codec.leBytes 4 tag.toNat := by
  intro hbytes
  rw [fourcc_eq] at hf
  obtain ⟨gb, rest, hsplit, rfl, hrest⟩ := List.map_eq_append_iff.1 hf
  obtain ⟨xb, tb, rfl, rfl, rfl⟩ := List.map_eq_cons_iff.1 hrest
  rw [asBytes_map_byteChar, hsplit] at hbytes
  have hover : overrunBytes.all fun b => !(byteChar b == ',' || isWhitespace (byteChar b)) := by
    decide
  have hxb := List.all_eq_true.1 hover xb (mem_overrunBytes hbytes)
  simp only [Bool.not_eq_true', Bool.or_eq_false_iff, beq_eq_false_iff_ne] at hxb
  rcases hx with hx | hx
  · exact hxb.1 hx
  · exact absurd hx (by simp [hxb.2])

theorem length_le_asBytes (s : List Char) : s.length ≤ (asBytes s).length := by
  induction s with
  | nil => simp
  | cons c s ih =>
    have hc := c.utf8Size_pos
    have happend : asBytes (c :: s) = String.utf8EncodeChar c ++ asBytes s := rfl
    rw [happend, length_append, String.length_utf8EncodeChar, length_cons]
    omega

theorem TagPart.movReads {g : List Char} (hpart : TagPart (fourcc tag) rest g)
    (hbytes : asBytes (trimEnd g) = Codec.leBytes 4 tag.toNat) : Gst.movReads tag (!rest.isEmpty) = true := by
  cases hpart with
  | whole hscan hst =>
    rcases trimEnd_cases (fourcc tag) with htrim | ⟨x, t, hf, hx⟩
    · have hascii : ∀ c ∈ fourcc tag, c.toNat < 0x80 := by
        rw [htrim, fourcc_eq, asBytes_map_byteChar] at hbytes
        rw [fourcc_eq, forall_mem_map]
        intro b hb
        exact (byteChar_toNat_lt_iff b).2 (lt_of_flatMap_byteUtf8 (congrArg List.length hbytes) b hb)
      exact movReads_iff.2 ⟨hascii, htrim, _, hscan, fun hne => hst (by simpa using hne)⟩
    · exact absurd hbytes (asBytes_ne_leBytes hf (Or.inr hx))
  | less hf =>
    rcases trimEnd_cases g with htrim | ⟨x, t, hg, hx⟩
    · rw [htrim] at hbytes
      exact absurd hbytes (asBytes_ne_leBytes hf (Or.inl rfl))
    · rw [hg, append_assoc, cons_append] at hf
      exact absurd hbytes (asBytes_ne_leBytes hf (Or.inr hx))
  | more p =>
    -- the comma of the first field makes at least five characters of it
    have hcomma : trimEnd (fourcc tag ++ [',']) = fourcc tag ++ [','] :=
      rdropWhile_concat_neg _ _ _ (by decide)
    have hlong := length_le_asBytes (trimEnd (fourcc tag ++ ',' :: p))
    rw [hbytes, Codec.length_leBytes, ← singleton_append, ← append_assoc, trimEnd_append hcomma] at hlong
    simp only [length_append, fourcc_eq, length_map, Codec.length_leBytes, length_singleton] at hlong
    omega

theorem movReads_of_fromDescription {kind : StreamKind} {s : CapsSet} (hrest : rest = [] ∨ ∃ r, rest = ',' :: r)
    (hread : fromDescription nested (movMedia kind (fourcc tag) ++ rest) = some s)
    (htag : ∀ fields tag', taggedSet kind fields ⟨.mov, tag'⟩ = some s → tag' = tag) :
    movReads tag (!rest.isEmpty) = true := by
  obtain ⟨g, parts, hsplit, hpart⟩ := exists_tagPart kind (fourcc tag) hrest
  rw [fromDescription, hsplit] at hread
  obtain ⟨fields, -, hset⟩ := Option.bind_eq_some_iff.1 hread
  rw [trim_movMedia, describedSet_movMedia] at hset
  split_ifs at hset with hlen
  refine hpart.movReads ?_
  have hnat := htag fields _ hset
  have hbytes := Codec.leBytes_leNat (asBytes (trimEnd g))
  have hlt : Codec.leNat (asBytes (trimEnd g)) < 2 ^ 32 := by
    have := Codec.leNat_lt (asBytes (trimEnd g))
    rwa [hlen] at this
  rw [hlen] at hbytes
  rw [← hnat, UInt32.toNat_ofNat_of_lt' hlt, hbytes]

end Glass2Glass.Gst
