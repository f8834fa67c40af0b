import Glass2Glass.Lib.Words

/-!
# Lengths and tags

The lengths and tags of KLV metadata (`ber_length`, `push_ber_length`, `ber_oid_tag` and `push_ber_oid` in
`g2g-plugins/src/klv.rs`). What a writer writes is one of the forms that its reader reads (`berLength_form`,
`berOidTag_form`), and the readers accept nothing else.
-/

namespace Glass2Glass.Klv

open Words List
open UInt8 (ofNat)

/-! ## Lengths -/

/-- The length at a place, and the number of its bytes. -/
def berLength (buf : List UInt8) (pos : Nat) : Option (Nat × Nat) :=
  match buf[pos]? with
  | none => none
  | some first =>
    if first < 0x80 then some (first.toNat, 1)
    else
      let n := (first &&& 0x7F).toNat
      if n = 0 ∨ 4 < n then none
      else if buf.length < pos + 1 + n then none
      else some ((slice buf (pos + 1) n).foldl (fun len b => len * 256 + b.toNat) 0, 1 + n)

/-- The bytes that a length is written in. Only its lowest 32 bits count. -/
def pushBerLength (len : Nat) : List UInt8 :=
  if len < 0x80 then [UInt8.ofNat len]
  else
    let bytes := beBytes 4 len
    let skip := (bytes.takeWhile (· = 0)).length
    (0x80 ||| UInt8.ofNat (bytes.length - skip)) :: bytes.drop skip

/-- The forms of a length: one byte, or the number of bytes that follow and these. -/
inductive BerForm : List UInt8 → Nat → Prop
  | short (first : UInt8) (h : first < 0x80) : BerForm [first] first.toNat
  | long (first : UInt8) (bytes : List UInt8) (h : ¬ first < 0x80) (hn : (first &&& 0x7F).toNat = bytes.length)
      (hpos : bytes.length ≠ 0) (hlen : bytes.length ≤ 4) : BerForm (first :: bytes) (beNat bytes)

theorem foldl_length (bytes : List UInt8) (init : Nat) :
    bytes.foldl (fun len b => len * 256 + b.toNat) init = init * 256 ^ bytes.length + beNat bytes := by
  induction bytes generalizing init with
  | nil => simp [beNat, Codec.leNat]
  | cons b bytes ih =>
    rw [foldl_cons, ih, beNat_cons, length_cons, pow_succ]
    ring

variable {bytes : List UInt8}

theorem BerForm.pos {len : Nat} (h : BerForm bytes len) : 0 < bytes.length := by
  cases h <;> exact Nat.succ_pos _

theorem berLength_form {len : Nat} (h : BerForm bytes len) (before after : List UInt8) :
    berLength (before ++ (bytes ++ after)) before.length = some (len, bytes.length) := by
  cases h with
  | short first hfirst =>
    have hget : (before ++ ([first] ++ after))[before.length]? = some first := by
      rw [List.getElem?_append_right le_rfl, Nat.sub_self]
      rfl
    unfold berLength
    rw [hget]
    dsimp only
    rw [if_pos hfirst]
    rfl
  | long first bytes hfirst hn hpos hlen =>
    have hget : (before ++ (first :: bytes ++ after))[before.length]? = some first := by
      rw [List.getElem?_append_right le_rfl, Nat.sub_self]
      rfl
    have hslice : slice (before ++ (first :: bytes ++ after)) (before.length + 1) bytes.length = bytes := by
      rw [slice_append_right (Nat.le_add_right _ 1), Nat.add_sub_cancel_left, cons_append, slice_succ_cons,
        slice_append_left rfl]
    have hroom : ¬ (before ++ (first :: bytes ++ after)).length < before.length + 1 + bytes.length := by
      rw [length_append, length_append, length_cons]
      omega
    unfold berLength
    rw [hget]
    dsimp only
    rw [if_neg hfirst, hn, if_neg (by omega), if_neg hroom, hslice, foldl_length, Nat.zero_mul, Nat.zero_add,
      length_cons, Nat.add_comm]

theorem form_of_berLength {buf : List UInt8} {pos len n : Nat} (h : berLength buf pos = some (len, n)) :
    ∃ bytes rest, buf.drop pos = bytes ++ rest ∧ BerForm bytes len ∧ bytes.length = n := by
  unfold berLength at h
  cases hfirst : buf[pos]? with
  | none =>
    rw [hfirst] at h
    exact absurd h (Option.some_ne_none _).symm
  | some first =>
    rw [hfirst] at h
    dsimp only at h
    obtain ⟨hpos, rfl⟩ := List.getElem?_eq_some_iff.1 hfirst
    have hdrop : buf.drop pos = buf[pos] :: buf.drop (pos + 1) := drop_eq_getElem_cons hpos
    split_ifs at h with hshort hn hroom
    · obtain ⟨rfl, rfl⟩ := Prod.mk.inj (Option.some.inj h)
      exact ⟨[buf[pos]], buf.drop (pos + 1), hdrop, .short _ hshort, rfl⟩
    · obtain ⟨rfl, rfl⟩ := Prod.mk.inj (Option.some.inj h)
      have hlength : (slice buf (pos + 1) (buf[pos] &&& 0x7F).toNat).length = (buf[pos] &&& 0x7F).toNat := by
        unfold slice
        rw [length_take, length_drop]
        omega
      refine ⟨buf[pos] :: slice buf (pos + 1) (buf[pos] &&& 0x7F).toNat,
        (buf.drop (pos + 1)).drop (buf[pos] &&& 0x7F).toNat, ?_, ?_, ?_⟩
      · rw [hdrop, cons_append]
        congr 1
        exact (take_append_drop _ _).symm
      · rw [foldl_length, Nat.zero_mul, Nat.zero_add]
        exact .long _ _ hshort hlength.symm (by omega) (by omega)
      · rw [length_cons, hlength, Nat.add_comm]

theorem beNat_drop_zeros (bytes : List UInt8) : beNat (bytes.drop (bytes.takeWhile (· = 0)).length) = beNat bytes := by
  induction bytes with
  | nil => rfl
  | cons b bytes ih =>
    by_cases hb : b = 0
    · rw [takeWhile_cons, if_pos (decide_eq_true hb), length_cons, drop_succ_cons, ih, beNat_cons, hb]
      show _ = 0 * _ + _
      rw [Nat.zero_mul, Nat.zero_add]
    · rw [takeWhile_cons, if_neg fun heq => hb (of_decide_eq_true heq)]
      rfl

theorem form_pushBerLength {len : Nat} (h : len < 2 ^ 32) : BerForm (pushBerLength len) len := by
  unfold pushBerLength
  split_ifs with hshort
  · have hnat : (ofNat len).toNat = len := by
      rw [UInt8.toNat_ofNat']
      omega
    have hform := BerForm.short (ofNat len) (UInt8.lt_iff_toNat_lt.2 (by rw [hnat]; exact hshort))
    rwa [hnat] at hform
  · dsimp only
    have hvalue : beNat ((beBytes 4 len).drop ((beBytes 4 len).takeWhile (· = 0)).length) = len := by
      rw [beNat_drop_zeros, beNat_beBytes h]
    have hlength : ((beBytes 4 len).drop ((beBytes 4 len).takeWhile (· = 0)).length).length =
        (beBytes 4 len).length - ((beBytes 4 len).takeWhile (· = 0)).length := length_drop
    generalize (beBytes 4 len).drop ((beBytes 4 len).takeWhile (· = 0)).length = bytes at hvalue hlength
    rw [← hlength]
    have hle : bytes.length ≤ 4 := by
      rw [hlength, length_beBytes]
      omega
    have hpos : bytes.length ≠ 0 := by
      intro hzero
      rw [List.length_eq_zero_iff.1 hzero] at hvalue
      exact hshort (hvalue ▸ by decide)
    have hfirst : ∀ n ≤ 4, ¬ (0x80 ||| ofNat n) < 0x80 ∧ ((0x80 ||| ofNat n) &&& 0x7F).toNat = n := by decide
    obtain ⟨hlong, hn⟩ := hfirst bytes.length hle
    have hform := BerForm.long (0x80 ||| ofNat bytes.length) bytes hlong hn hpos hle
    rwa [hvalue] at hform

/-! ## Tags -/

/-- The rest of a tag, seven bits from each byte, of which there are no more than the given number. -/
def berOidRest (buf : List UInt8) (pos : Nat) : Nat → Nat → Nat → Option (Nat × Nat)
  | 0, _, _ => none
  | left + 1, i, tag =>
    match buf[pos + i]? with
    | none => none
    | some b =>
      let tag := (tag <<< 7) ||| (b &&& 0x7F).toNat
      if b &&& 0x80 = 0 then some (tag, i + 1) else berOidRest buf pos left (i + 1) tag

/-- The tag at a place, and the number of its bytes. -/
def berOidTag (buf : List UInt8) (pos : Nat) : Option (Nat × Nat) := berOidRest buf pos 4 0 0

def berOidMax : Nat := 0x0FFFFFFF

/-- The groups of seven bits of a number, the lowest first. There are no more than the given number. -/
def septets : Nat → Nat → List UInt8
  | 0, _ => []
  | room + 1, left => UInt8.ofNat (left &&& 0x7F) :: if left >>> 7 = 0 then [] else septets room (left >>> 7)

/-- The bytes that a tag is written in, the highest group first. All but the last say that another one follows. -/
def pushBerOid (value : Nat) : List UInt8 :=
  match septets 4 (value &&& berOidMax) with
  | [] => []
  | low :: high => high.reverse.map (· ||| 0x80) ++ [low]

/-- A tag as groups of seven bits, one to four of them. -/
inductive OidForm : List UInt8 → Nat → Prop
  | mk (high : List UInt8) (low : UInt8) (hhigh : ∀ b ∈ high, b &&& 0x80 ≠ 0) (hlow : low &&& 0x80 = 0)
      (hlen : high.length < 4) :
      OidForm (high ++ [low]) ((high ++ [low]).foldl (fun tag b => (tag <<< 7) ||| (b &&& 0x7F).toNat) 0)

theorem OidForm.pos {tag : Nat} (h : OidForm bytes tag) : 0 < bytes.length := by
  cases h
  rw [length_append, length_singleton]
  exact Nat.succ_pos _

theorem berOidRest_form (high : List UInt8) (low : UInt8) (hhigh : ∀ b ∈ high, b &&& 0x80 ≠ 0) (hlow : low &&& 0x80 = 0)
    {left : Nat} (hleft : high.length < left) (before after : List UInt8) (pos i tag : Nat)
    (hpos : pos + i = before.length) :
    berOidRest (before ++ (high ++ [low] ++ after)) pos left i tag =
      some ((high ++ [low]).foldl (fun tag b => (tag <<< 7) ||| (b &&& 0x7F).toNat) tag, i + (high.length + 1)) := by
  induction high generalizing left before i tag with
  | nil =>
    obtain ⟨left, rfl⟩ : ∃ m, left = m + 1 := Nat.exists_eq_add_of_le' hleft
    have hget : (before ++ ([] ++ [low] ++ after))[pos + i]? = some low := by
      rw [hpos, List.getElem?_append_right le_rfl, Nat.sub_self]
      rfl
    rw [berOidRest, hget]
    dsimp only
    rw [if_pos hlow]
    rfl
  | cons b high ih =>
    obtain ⟨hb, hrest⟩ := List.forall_mem_cons.1 hhigh
    obtain ⟨left, rfl⟩ : ∃ m, left = m + 1 := Nat.exists_eq_add_of_le' (Nat.lt_of_le_of_lt (Nat.zero_le _) hleft)
    have hget : (before ++ (b :: high ++ [low] ++ after))[pos + i]? = some b := by
      rw [hpos, List.getElem?_append_right le_rfl, Nat.sub_self]
      rfl
    have hsplit : before ++ (b :: high ++ [low] ++ after) = (before ++ [b]) ++ (high ++ [low] ++ after) := by
      rw [append_assoc before, cons_append, cons_append, singleton_append]
    rw [berOidRest, hget]
    dsimp only
    rw [if_neg hb, hsplit, ih hrest (by rw [length_cons] at hleft; omega) (before ++ [b]) (i + 1) _
      (by rw [length_append, length_singleton]; omega), length_cons]
    congr 2
    omega

theorem berOidTag_form {tag : Nat} (h : OidForm bytes tag) (before after : List UInt8) :
    berOidTag (before ++ (bytes ++ after)) before.length = some (tag, bytes.length) := by
  cases h with
  | mk high low hhigh hlow hlen =>
    unfold berOidTag
    rw [berOidRest_form high low hhigh hlow hlen before after _ 0 0 (Nat.add_zero _), Nat.zero_add, length_append,
      length_singleton]

theorem form_of_berOidRest {buf : List UInt8} {pos left i acc tag n : Nat}
    (h : berOidRest buf pos left i acc = some (tag, n)) :
    ∃ high low rest, buf.drop (pos + i) = high ++ [low] ++ rest ∧ (∀ b ∈ high, b &&& 0x80 ≠ 0) ∧ low &&& 0x80 = 0 ∧
      high.length < left ∧ n = i + (high.length + 1) ∧
      tag = (high ++ [low]).foldl (fun tag b => (tag <<< 7) ||| (b &&& 0x7F).toNat) acc := by
  induction left generalizing i acc with
  | zero => exact absurd h (Option.some_ne_none _).symm
  | succ left ih =>
    rw [berOidRest] at h
    cases hb : buf[pos + i]? with
    | none =>
      rw [hb] at h
      exact absurd h (Option.some_ne_none _).symm
    | some b =>
      rw [hb] at h
      dsimp only at h
      obtain ⟨hpos, rfl⟩ := List.getElem?_eq_some_iff.1 hb
      have hdrop : buf.drop (pos + i) = buf[pos + i] :: buf.drop (pos + i + 1) := drop_eq_getElem_cons hpos
      split_ifs at h with hlast
      · obtain ⟨rfl, rfl⟩ := Prod.mk.inj (Option.some.inj h)
        exact ⟨[], buf[pos + i], buf.drop (pos + i + 1), hdrop, fun _ hmem => absurd hmem not_mem_nil, hlast,
          Nat.succ_pos _, rfl, rfl⟩
      · obtain ⟨high, low, rest, hrest, hhigh, hlow, hlen, hn, htag⟩ := ih h
        refine ⟨buf[pos + i] :: high, low, rest, ?_, List.forall_mem_cons.2 ⟨hlast, hhigh⟩, hlow, ?_, ?_, htag⟩
        · rw [hdrop, Nat.add_assoc, hrest]
          rfl
        · rw [length_cons]
          omega
        · rw [length_cons]
          omega

theorem form_of_berOidTag {buf : List UInt8} {pos tag n : Nat} (h : berOidTag buf pos = some (tag, n)) :
    ∃ bytes rest, buf.drop pos = bytes ++ rest ∧ OidForm bytes tag ∧ bytes.length = n := by
  obtain ⟨high, low, rest, hrest, hhigh, hlow, hlen, hn, rfl⟩ := form_of_berOidRest h
  refine ⟨high ++ [low], rest, hrest, .mk high low hhigh hlow hlen, ?_⟩
  rw [length_append, length_singleton, hn, Nat.zero_add]

theorem lowest_eq (left : Nat) : (ofNat (left &&& 0x7F)).toNat = left % 2 ^ 7 := by
  have hmask : left &&& 0x7F = left % 2 ^ 7 := Nat.and_two_pow_sub_one_eq_mod left 7
  rw [hmask, UInt8.toNat_ofNat', Nat.mod_eq_of_lt (Nat.lt_trans (Nat.mod_lt _ (by decide)) (by decide))]

theorem lowest_lt (left : Nat) : (ofNat (left &&& 0x7F)).toNat < 2 ^ 7 := by
  rw [lowest_eq]
  exact Nat.mod_lt _ (by decide)

theorem shiftRight_or (left : Nat) : (((left >>> 7) <<< 7) ||| left % 2 ^ 7) = left := by
  rw [← Nat.shiftLeft_add_eq_or_of_lt (Nat.mod_lt _ (by decide)), Nat.shiftLeft_eq, Nat.shiftRight_eq_div_pow,
    Nat.div_add_mod']

theorem septets_spec (room left : Nat) (h : left < 2 ^ (7 * (room + 1))) :
    ∃ low high, septets (room + 1) left = low :: high ∧ high.length ≤ room ∧ (∀ b ∈ low :: high, b.toNat < 2 ^ 7) ∧
      (low :: high).foldr (fun b tag => (tag <<< 7) ||| b.toNat) 0 = left := by
  induction room generalizing left with
  | zero =>
    have hlast : left >>> 7 = 0 := by
      omega
    refine ⟨ofNat (left &&& 0x7F), [], by rw [septets, if_pos hlast], le_rfl,
      List.forall_mem_singleton.2 (lowest_lt left), ?_⟩
    rw [foldr_cons, foldr_nil, lowest_eq, ← hlast, shiftRight_or]
  | succ room ih =>
    by_cases hlast : left >>> 7 = 0
    · refine ⟨ofNat (left &&& 0x7F), [], by rw [septets, if_pos hlast], Nat.zero_le _,
        List.forall_mem_singleton.2 (lowest_lt left), ?_⟩
      rw [foldr_cons, foldr_nil, lowest_eq, ← hlast, shiftRight_or]
    · have hnext : left >>> 7 < 2 ^ (7 * (room + 1)) := by
        rw [Nat.shiftRight_eq_div_pow, Nat.div_lt_iff_lt_mul (by decide), ← pow_add]
        exact h
      obtain ⟨low, high, hseptets, hlen, hbytes, hvalue⟩ := ih (left >>> 7) hnext
      refine ⟨ofNat (left &&& 0x7F), low :: high, by rw [septets, if_neg hlast, hseptets],
        Nat.succ_le_succ hlen, List.forall_mem_cons.2 ⟨lowest_lt left, hbytes⟩, ?_⟩
      rw [foldr_cons, hvalue, lowest_eq, shiftRight_or]

theorem form_pushBerOid {tag : Nat} (h : tag ≤ berOidMax) : OidForm (pushBerOid tag) tag := by
  have hmask : tag &&& berOidMax = tag := by
    unfold berOidMax at h ⊢
    rw [show 0x0FFFFFFF = 2 ^ 28 - 1 from rfl, Nat.and_two_pow_sub_one_eq_mod, Nat.mod_eq_of_lt (by omega)]
  obtain ⟨low, high, hseptets, hlen, hbytes, hvalue⟩ := septets_spec 3 tag (by unfold berOidMax at h; omega)
  obtain ⟨hlow, hhigh⟩ := List.forall_mem_cons.1 hbytes
  have hbits : ∀ b : UInt8, b.toNat < 2 ^ 7 → b &&& 0x80 = 0 ∧ (b &&& 0x7F) = b ∧ (b ||| 0x80) &&& 0x80 ≠ 0 ∧
      (b ||| 0x80) &&& 0x7F = b := forall_byte (by decide +kernel)
  have hread : high.foldr (fun b tag => (tag <<< 7) ||| ((b ||| 0x80) &&& 0x7F).toNat) 0 =
      high.foldr (fun b tag => (tag <<< 7) ||| b.toNat) 0 :=
    foldr_ext _ _ _ fun b hb tag => by rw [(hbits b (hhigh b hb)).2.2.2]
  have hmarked : ∀ b ∈ high.reverse.map (· ||| 0x80), b &&& 0x80 ≠ 0 := by
    intro b hb
    obtain ⟨c, hc, rfl⟩ := List.mem_map.1 hb
    exact (hbits c (hhigh c (List.mem_reverse.1 hc))).2.2.1
  have hform := OidForm.mk (high.reverse.map (· ||| 0x80)) low hmarked (hbits low hlow).1
    (by rw [length_map, length_reverse]; omega)
  rw [foldl_append, foldl_map, foldl_reverse, hread, foldl_cons, foldl_nil,
    (hbits low hlow).2.1] at hform
  rw [foldr_cons] at hvalue
  rw [hvalue] at hform
  unfold pushBerOid
  rw [hmask, hseptets]
  exact hform

end Glass2Glass.Klv
