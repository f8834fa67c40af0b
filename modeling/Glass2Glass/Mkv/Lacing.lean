import Glass2Glass.Lib.Words

/-!
# Laced blocks

How the frames of a Matroska block are told apart (`split_laced` and what it calls in `g2g-plugins/src/matroska.rs`).
The sizes of all frames but the last are coded in front of the frames, in one of three ways.

A read of a block goes on from the bytes that are left. It ends with `malformed` where the code returns `None`, and with
another fault where the code would stop on an overflow or on a slice that is out of range.
-/

namespace Glass2Glass.Mkv

open Words List

inductive Fault where
  | malformed
  | overflow
  | outOfRange

/-- A sum of two `usize`. -/
def addUsize (a b : Nat) : Except Fault Nat := if a + b < 2 ^ 64 then .ok (a + b) else .error .overflow

/-- A number that is an `i64`, or a fault. -/
def inI64 (fault : Fault) (x : Int) : Except Fault Int := if -2 ^ 63 ≤ x ∧ x < 2 ^ 63 then .ok x else .error fault

def leadingZeros (b : UInt8) : Nat := if b = 0 then 8 else 7 - Nat.log2 b.toNat

variable (data : List UInt8)

/-- A number of variable width, how many bytes it took, and whether it stands for an unknown size. -/
def readSize : Except Fault ((Nat × Nat × Bool) × List UInt8) :=
  match data with
  | [] => .error .malformed
  | first :: rest =>
    if first = 0 then .error .malformed
    else
      let len := leadingZeros first + 1
      if 8 < len ∨ data.length < len then .error .malformed
      else
        let valueMask := (1 <<< (8 - len)) - 1
        let value := (rest.take (len - 1)).foldl (fun v b => (v <<< 8) ||| b.toNat) (first.toNat &&& valueMask)
        .ok ((value, len, value == (1 <<< (7 * len)) - 1), rest.drop (len - 1))

/-! ## Sizes -/

/-- A size is the sum of its bytes, up to the first that is not 255. -/
def xiphSize : Nat → List UInt8 → Except Fault (Nat × List UInt8)
  | _, [] => .error .malformed
  | size, b :: data => do
    let size ← addUsize size b.toNat
    if b ≠ 0xFF then .ok (size, data) else xiphSize size data

def xiphSizes : Nat → List UInt8 → Except Fault (List Nat × List UInt8)
  | 0, data => .ok ([], data)
  | coded + 1, data => do
    let (size, data) ← xiphSize 0 data
    let (sizes, data) ← xiphSizes coded data
    .ok (size :: sizes, data)

/-- What a difference of sizes is raised by to make it positive. -/
def deltaBias (len : Nat) : Int := (2 ^ (7 * len - 1) : Nat) - 1

/-- The sizes after the first, each by its difference from the one before it. A number that was read has 56 bits, so it is
the same as an `i64`. -/
def ebmlDeltas : Nat → Int → List UInt8 → Except Fault (List Nat × List UInt8)
  | 0, _, data => .ok ([], data)
  | coded + 1, cur, data => do
    let ((raw, len, _), data) ← readSize data
    let delta ← inI64 .overflow (raw - deltaBias len)
    -- The sum is checked: an overflow fails the parse.
    let cur ← inI64 .malformed (cur + delta)
    if cur < 0 then .error .malformed
    else
      let (sizes, data) ← ebmlDeltas coded cur data
      .ok (cur.toNat :: sizes, data)

def ebmlSizes : Nat → List UInt8 → Except Fault (List Nat × List UInt8)
  | 0, data => .ok ([], data)
  | coded + 1, data => do
    let ((raw, _, _), data) ← readSize data
    let (sizes, data) ← ebmlDeltas coded raw data
    .ok (raw :: sizes, data)

/-! ## Frames -/

/-- A frame for each size, and one with what remains. -/
def sliceFrames : List Nat → List UInt8 → Except Fault (List (List UInt8))
  | [], data => .ok [data]
  | size :: sizes, data =>
    if data.length < size then .error .malformed
    else do
      let frames ← sliceFrames sizes (data.drop size)
      .ok (data.take size :: frames)

def chunks (size : Nat) (data : List UInt8) : List (List UInt8) :=
  if data = [] ∨ size = 0 then [] else data.take size :: chunks size (data.drop size)
termination_by data.length
decreasing_by
  rename_i h
  have hpos := List.length_pos_iff.2 fun hnil => h (Or.inl hnil)
  rw [length_drop]
  omega

def splitFixed (count : Nat) : Except Fault (List (List UInt8)) :=
  if count = 0 ∨ data = [] ∨ data.length % count ≠ 0 then .error .malformed
  else if data.length / count = 0 then .error .outOfRange
  else .ok (chunks (data.length / count) data)

def splitXiph (count : Nat) : Except Fault (List (List UInt8)) := do
  let (sizes, data) ← xiphSizes (count - 1) data
  sliceFrames sizes data

def splitEbml (count : Nat) : Except Fault (List (List UInt8)) := do
  let (sizes, data) ← ebmlSizes (count - 1) data
  sliceFrames sizes data

variable (body : List UInt8) (lacing : Nat)

def splitLaced : Except Fault (List (List UInt8)) :=
  match body with
  | [] => .error .malformed
  | countMinus1 :: rest =>
    let count := countMinus1.toNat + 1
    match lacing with
    | 1 => splitXiph rest count
    | 2 => splitFixed rest count
    | 3 => splitEbml rest count
    | _ => .error .malformed

/-! ## Numbers of variable width -/

/-- A number in a width, behind its marker bit. -/
def vint (width value : Nat) : List UInt8 := beBytes width (2 ^ (7 * width) + value)

variable {b : UInt8}

theorem leadingZeros_eq {k : Nat} (hk : k ≤ 7) (hlow : 2 ^ (7 - k) ≤ b.toNat)
    (hhigh : b.toNat < 2 ^ (8 - k)) : leadingZeros b = k := by
  have hpos : 0 < b.toNat := Nat.lt_of_lt_of_le (Nat.two_pow_pos _) hlow
  have hne : b ≠ 0 := by
    rintro rfl
    exact absurd hpos (by decide)
  have hlog : Nat.log2 b.toNat = 7 - k := by
    refine (Nat.log2_eq_iff (Nat.pos_iff_ne_zero.1 hpos)).2 ⟨hlow, ?_⟩
    rwa [show 7 - k + 1 = 8 - k by omega]
  unfold leadingZeros
  rw [if_neg hne, hlog]
  omega

theorem pow_256 (k : Nat) : 256 ^ k = 2 ^ (8 * k) := by
  rw [pow_mul]
  rfl

variable {bytes : List UInt8}

theorem readSize_cons {first : UInt8} {k : Nat} (hk : k ≤ 7) (hlow : 2 ^ (7 - k) ≤ first.toNat)
    (hhigh : first.toNat < 2 ^ (8 - k)) (hbytes : bytes.length = k) (rest : List UInt8) :
    readSize (first :: (bytes ++ rest)) = .ok (((first.toNat - 2 ^ (7 - k)) * 256 ^ k + beNat bytes, k + 1,
        (first.toNat - 2 ^ (7 - k)) * 256 ^ k + beNat bytes == (1 <<< (7 * (k + 1))) - 1), rest) := by
  have hne : first ≠ 0 := by
    rintro rfl
    exact absurd (Nat.lt_of_lt_of_le (Nat.two_pow_pos _) hlow) (by decide)
  have hlen : ¬ (8 < k + 1 ∨ (first :: (bytes ++ rest)).length < k + 1) := by
    rw [length_cons, length_append, hbytes]
    omega
  have hmask : first.toNat &&& ((1 <<< (8 - (k + 1))) - 1) = first.toNat - 2 ^ (7 - k) := by
    have hsucc : 2 ^ (8 - k) = 2 ^ (7 - k) + 2 ^ (7 - k) := by
      rw [show 8 - k = 7 - k + 1 by omega, pow_succ, Nat.mul_two]
    rw [Nat.one_shiftLeft, Nat.and_two_pow_sub_one_eq_mod, show 8 - (k + 1) = 7 - k by omega,
      Nat.mod_eq_sub_mod hlow, Nat.mod_eq_of_lt (by omega)]
  unfold readSize
  dsimp only
  rw [if_neg hne, leadingZeros_eq hk hlow hhigh, if_neg hlen, hmask, Nat.add_sub_cancel, take_left' hbytes,
    drop_left' hbytes, foldl_shift, hbytes]

theorem readSize_vint {width value : Nat} (hpos : 0 < width) (hwidth : width ≤ 8) (hvalue : value < 2 ^ (7 * width))
    (rest : List UInt8) :
    readSize (vint width value ++ rest) = .ok ((value, width, value == (1 <<< (7 * width)) - 1), rest) := by
  obtain ⟨k, rfl⟩ : ∃ k, width = k + 1 := Nat.exists_eq_succ_of_ne_zero (Nat.pos_iff_ne_zero.1 hpos)
  have hmarker : 2 ^ (7 * (k + 1)) = 2 ^ (7 - k) * 256 ^ k := by
    rw [pow_256, ← pow_add]
    congr 1
    omega
  have hpow : 0 < 256 ^ k := Nat.pow_pos (by decide)
  have htop : value / 256 ^ k < 2 ^ (7 - k) := by
    rw [Nat.div_lt_iff_lt_mul hpow, ← hmarker]
    exact hvalue
  have hle : 2 ^ (7 - k) ≤ 2 ^ 7 := Nat.pow_le_pow_right (by decide) (by omega)
  have hfirst : (2 ^ (7 * (k + 1)) + value) / 256 ^ k = 2 ^ (7 - k) + value / 256 ^ k := by
    rw [hmarker, Nat.add_comm, Nat.add_mul_div_right _ _ hpow, Nat.add_comm]
  have hbyte : (UInt8.ofNat ((2 ^ (7 * (k + 1)) + value) / 256 ^ k)).toNat = 2 ^ (7 - k) + value / 256 ^ k := by
    rw [hfirst, UInt8.toNat_ofNat', Nat.mod_eq_of_lt (by omega)]
  have hhigh : (UInt8.ofNat ((2 ^ (7 * (k + 1)) + value) / 256 ^ k)).toNat < 2 ^ (8 - k) := by
    rw [hbyte, show 8 - k = 7 - k + 1 by omega, pow_succ]
    omega
  have hlow : (2 ^ (7 * (k + 1)) + value) % 256 ^ k = value % 256 ^ k := by
    rw [hmarker, Nat.mul_add_mod_self_right]
  unfold vint
  rw [beBytes_succ, cons_append, readSize_cons (by omega) (hbyte ▸ Nat.le_add_right _ _) hhigh (length_beBytes _ _), hbyte,
    beNat_beBytes_mod, hlow, Nat.add_sub_cancel_left, Nat.div_add_mod']

theorem leadingZeros_spec (h : b ≠ 0) :
    leadingZeros b ≤ 7 ∧ 2 ^ (7 - leadingZeros b) ≤ b.toNat ∧ b.toNat < 2 ^ (8 - leadingZeros b) := by
  have hne : b.toNat ≠ 0 := fun hzero => h (UInt8.toNat_inj.1 hzero)
  have hlt : Nat.log2 b.toNat < 8 := (Nat.log2_lt hne).2 b.toNat_lt
  obtain ⟨hlow, hhigh⟩ := (Nat.log2_eq_iff hne).1 rfl
  unfold leadingZeros
  rw [if_neg h, show 7 - (7 - Nat.log2 b.toNat) = Nat.log2 b.toNat by omega,
    show 8 - (7 - Nat.log2 b.toNat) = Nat.log2 b.toNat + 1 by omega]
  exact ⟨by omega, hlow, hhigh⟩

/-- A read of a number either fails, or takes as many bytes as the number is long. -/
theorem readSize_cases : readSize data = .error .malformed ∨
      ∃ value len unknown header rest, readSize data = .ok ((value, len, unknown), rest) ∧ 0 < len ∧ len ≤ 8 ∧
        value < 2 ^ (7 * len) ∧ header.length = len ∧ data = header ++ rest := by
  cases data with
  | nil => exact .inl rfl
  | cons first data =>
    by_cases hzero : first = 0
    · left
      unfold readSize
      dsimp only
      rw [if_pos hzero]
    · obtain ⟨hk, hlow, hhigh⟩ := leadingZeros_spec hzero
      by_cases hshort : data.length < leadingZeros first
      · left
        unfold readSize
        dsimp only
        rw [if_neg hzero, if_pos (by rw [length_cons]; omega)]
      · right
        have hbytes : (data.take (leadingZeros first)).length = leadingZeros first := by
          rw [length_take]
          omega
        have hread := readSize_cons hk hlow hhigh hbytes (data.drop (leadingZeros first))
        rw [take_append_drop] at hread
        refine ⟨_, _, _, first :: data.take (leadingZeros first), _, hread, Nat.succ_pos _, by omega, ?_,
          by rw [length_cons, hbytes], by rw [cons_append, take_append_drop]⟩
        have htail := beNat_lt hbytes
        have hmarker : 2 ^ (7 * (leadingZeros first + 1)) = 2 ^ (7 - leadingZeros first) * 256 ^ leadingZeros first := by
          rw [pow_256, ← pow_add]
          congr 1
          omega
        have hsucc : 2 ^ (8 - leadingZeros first) = 2 ^ (7 - leadingZeros first) + 2 ^ (7 - leadingZeros first) := by
          rw [show 8 - leadingZeros first = 7 - leadingZeros first + 1 by omega, pow_succ, Nat.mul_two]
        have htop : first.toNat - 2 ^ (7 - leadingZeros first) + 1 ≤ 2 ^ (7 - leadingZeros first) := by omega
        calc (first.toNat - 2 ^ (7 - leadingZeros first)) * 256 ^ leadingZeros first +
              beNat (data.take (leadingZeros first))
            < (first.toNat - 2 ^ (7 - leadingZeros first)) * 256 ^ leadingZeros first + 256 ^ leadingZeros first :=
              Nat.add_lt_add_left htail _
          _ = (first.toNat - 2 ^ (7 - leadingZeros first) + 1) * 256 ^ leadingZeros first := by
              rw [Nat.add_mul, Nat.one_mul]
          _ ≤ 2 ^ (7 - leadingZeros first) * 256 ^ leadingZeros first := Nat.mul_le_mul_right _ htop
          _ = 2 ^ (7 * (leadingZeros first + 1)) := hmarker.symm

/-! ## Slices -/

variable {frames : List (List UInt8)}

theorem sliceFrames_flatten (h : frames ≠ []) :
    sliceFrames (frames.dropLast.map List.length) frames.flatten = .ok frames := by
  induction frames with
  | nil => exact absurd rfl h
  | cons frame frames ih =>
    cases frames with
    | nil => rw [flatten_singleton]; rfl
    | cons next frames =>
      rw [dropLast_cons_cons, map_cons, flatten_cons, sliceFrames,
        if_neg (by rw [length_append]; omega), drop_left, take_left, ih (cons_ne_nil _ _)]
      rfl

theorem sliceFrames_cases (sizes : List Nat) (data : List UInt8) : sliceFrames sizes data = .error .malformed ∨
      ∃ frames, sliceFrames sizes data = .ok frames ∧ frames.flatten = data ∧
        frames.dropLast.map List.length = sizes ∧ frames.length = sizes.length + 1 := by
  induction sizes generalizing data with
  | nil => exact .inr ⟨[data], rfl, flatten_singleton, rfl, rfl⟩
  | cons size sizes ih =>
    by_cases hshort : data.length < size
    · left
      rw [sliceFrames, if_pos hshort]
    · rcases ih (data.drop size) with herror | ⟨frames, hframes, hflatten, hsizes, hcount⟩
      · left
        rw [sliceFrames, if_neg hshort, herror]
        rfl
      · right
        refine ⟨data.take size :: frames, ?_, ?_, ?_, ?_⟩
        · rw [sliceFrames, if_neg hshort, hframes]
          rfl
        · rw [flatten_cons, hflatten, take_append_drop]
        · have hne : frames ≠ [] := ne_nil_of_length_eq_add_one hcount
          rw [dropLast_cons_of_ne_nil hne, map_cons, hsizes, length_take, Nat.min_eq_left (by omega)]
        · rw [length_cons, hcount, length_cons]

theorem chunks_nil (size : Nat) : chunks size [] = [] := by
  rw [chunks, if_pos (.inl rfl)]

theorem chunks_flatten {size : Nat} (hpos : size ≠ 0)
    (h : ∀ frame ∈ frames, frame.length = size) : chunks size frames.flatten = frames := by
  induction frames with
  | nil => exact chunks_nil size
  | cons frame frames ih =>
    obtain ⟨hframe, hframes⟩ := List.forall_mem_cons.1 h
    have hne : ¬ (frame ++ frames.flatten = [] ∨ size = 0) := by
      rintro (hnil | hzero)
      · rw [(List.append_eq_nil_iff.1 hnil).1] at hframe
        exact hpos hframe.symm
      · exact hpos hzero
    rw [flatten_cons, chunks, if_neg hne, take_left' hframe, drop_left' hframe, ih hframes]

theorem chunks_spec {size : Nat} (hpos : size ≠ 0) (count : Nat) (data : List UInt8) (h : data.length = size * count) :
    (chunks size data).flatten = data ∧ (chunks size data).length = count ∧
      ∀ chunk ∈ chunks size data, chunk.length = size := by
  induction count generalizing data with
  | zero =>
    obtain rfl := List.length_eq_zero_iff.1 h
    rw [chunks_nil]
    exact ⟨rfl, rfl, fun _ hmem => absurd hmem not_mem_nil⟩
  | succ count ih =>
    rw [Nat.mul_succ] at h
    have hne : ¬ (data = [] ∨ size = 0) := by
      rintro (rfl | hzero)
      · rw [length_nil] at h
        omega
      · exact hpos hzero
    obtain ⟨hflatten, hcount, hsizes⟩ := ih (data.drop size) (by rw [length_drop]; omega)
    rw [chunks, if_neg hne]
    refine ⟨by rw [flatten_cons, hflatten, take_append_drop], by rw [length_cons, hcount], ?_⟩
    exact List.forall_mem_cons.2 ⟨by rw [length_take]; omega, hsizes⟩

/-! ## Xiph sizes -/

/-- A size as a run of 255 and a smaller byte. -/
def xiphCoded (size : Nat) : List UInt8 := List.replicate (size / 255) 0xFF ++ [UInt8.ofNat (size % 255)]

theorem xiphSize_cons {acc : Nat} (h : acc + b.toNat < 2 ^ 64) (data : List UInt8) :
    xiphSize acc (b :: data) = if b ≠ 0xFF then .ok (acc + b.toNat, data) else xiphSize (acc + b.toNat) data := by
  rw [xiphSize, addUsize, if_pos h]
  rfl

theorem xiphSize_coded (acc size : Nat) (hfits : acc + size < 2 ^ 64) (rest : List UInt8) :
    xiphSize acc (xiphCoded size ++ rest) = .ok (acc + size, rest) := by
  have hrun (n last : Nat) (hlast : last < 255) (acc : Nat) (hacc : acc + (255 * n + last) < 2 ^ 64) :
      xiphSize acc (List.replicate n 0xFF ++ [UInt8.ofNat last] ++ rest) = .ok (acc + (255 * n + last), rest) := by
    induction n generalizing acc with
    | zero =>
      have hbyte : (UInt8.ofNat last).toNat = last := by
        rw [UInt8.toNat_ofNat', Nat.mod_eq_of_lt (by omega)]
      have hne : UInt8.ofNat last ≠ 0xFF := by
        intro heq
        rw [heq] at hbyte
        exact absurd hbyte (Nat.ne_of_gt hlast)
      show xiphSize acc (UInt8.ofNat last :: rest) = _
      rw [xiphSize_cons (by omega), if_pos hne, hbyte, Nat.mul_zero, Nat.zero_add]
    | succ n ih =>
      have hbyte : (0xFF : UInt8).toNat = 255 := rfl
      rw [replicate_succ, cons_append, cons_append, xiphSize_cons (by omega), if_neg (not_not.2 rfl),
        hbyte, ih (acc + 255) (by omega)]
      congr 2
      omega
  have hsplit : 255 * (size / 255) + size % 255 = size := Nat.div_add_mod size 255
  have hcoded := hrun (size / 255) (size % 255) (Nat.mod_lt _ (by decide)) acc (by omega)
  rwa [hsplit] at hcoded

variable {sizes : List Nat}

theorem xiphSizes_coded (h : ∀ size ∈ sizes, size < 2 ^ 64) (rest : List UInt8) :
    xiphSizes sizes.length (sizes.flatMap xiphCoded ++ rest) = .ok (sizes, rest) := by
  induction sizes with
  | nil => rfl
  | cons size sizes ih =>
    obtain ⟨hsize, hsizes⟩ := List.forall_mem_cons.1 h
    rw [length_cons, flatMap_cons, append_assoc, xiphSizes,
      xiphSize_coded 0 size (by omega) (sizes.flatMap xiphCoded ++ rest), Nat.zero_add]
    show (xiphSizes sizes.length (sizes.flatMap xiphCoded ++ rest) >>= fun read => .ok (size :: read.1, read.2)) = _
    rw [ih hsizes]
    rfl

theorem xiphSize_cases (acc : Nat) (data : List UInt8) (h : acc + 255 * data.length < 2 ^ 64) :
    xiphSize acc data = .error .malformed ∨
      ∃ size header rest, xiphSize acc data = .ok (size, rest) ∧ data = header ++ rest := by
  induction data generalizing acc with
  | nil => exact .inl rfl
  | cons b data ih =>
    have hb := b.toNat_lt
    rw [length_cons] at h
    rw [xiphSize_cons (by omega)]
    split_ifs
    · exact .inr ⟨acc + b.toNat, [b], data, rfl, rfl⟩
    · rcases ih (acc + b.toNat) (by omega) with herror | ⟨size, header, rest, hread, hdata⟩
      · exact .inl herror
      · exact .inr ⟨size, b :: header, rest, hread, by rw [hdata, cons_append]⟩

theorem xiphSizes_cases (coded : Nat) (data : List UInt8) (h : 255 * data.length < 2 ^ 64) :
    xiphSizes coded data = .error .malformed ∨
      ∃ sizes header rest, xiphSizes coded data = .ok (sizes, rest) ∧ data = header ++ rest ∧ sizes.length = coded := by
  induction coded generalizing data with
  | zero => exact .inr ⟨[], [], data, rfl, rfl, rfl⟩
  | succ coded ih =>
    rw [xiphSizes]
    rcases xiphSize_cases 0 data (by omega) with herror | ⟨size, header, rest, hread, rfl⟩
    · left
      rw [herror]
      rfl
    · rw [length_append] at h
      rcases ih rest (by omega) with herror | ⟨sizes, header', rest', hread', rfl, hcoded⟩
      · left
        rw [hread]
        show (xiphSizes coded rest >>= _) = _
        rw [herror]
        rfl
      · right
        refine ⟨size :: sizes, header ++ header', rest', ?_, (append_assoc _ _ _).symm,
          by rw [length_cons, hcoded]⟩
        rw [hread]
        show (xiphSizes coded (header' ++ rest') >>= _) = _
        rw [hread']
        rfl

/-! ## EBML sizes -/

/-- Sizes by their differences from the ones before, in any widths that these fit. -/
inductive DeltasCoded : Nat → List Nat → List UInt8 → Prop
  | nil (prev : Nat) : DeltasCoded prev [] []
  | cons {prev : Nat} {sizes : List Nat} {bytes : List UInt8} (size width value : Nat) (hpos : 0 < width)
      (hwidth : width ≤ 8) (hvalue : (value : Int) = size - prev + deltaBias width) (hfits : value < 2 ^ (7 * width))
      (h : DeltasCoded size sizes bytes) : DeltasCoded prev (size :: sizes) (vint width value ++ bytes)

/-- Sizes, the first as it is and the others by their differences, in any widths that these fit. -/
inductive EbmlCoded : List Nat → List UInt8 → Prop
  | nil : EbmlCoded [] []
  | cons {sizes : List Nat} {bytes : List UInt8} (size width : Nat) (hpos : 0 < width) (hwidth : width ≤ 8)
      (hfits : size < 2 ^ (7 * width)) (h : DeltasCoded size sizes bytes) :
      EbmlCoded (size :: sizes) (vint width size ++ bytes)

theorem inI64_delta {raw len : Nat} (hlen : len ≤ 8) (hraw : raw < 2 ^ (7 * len)) :
    inI64 .overflow (raw - deltaBias len) = .ok (raw - deltaBias len) := by
  have hraw' : raw < 2 ^ 56 := Nat.lt_of_lt_of_le hraw (Nat.pow_le_pow_right (by decide) (by omega))
  have hbias : 2 ^ (7 * len - 1) ≤ 2 ^ 55 := Nat.pow_le_pow_right (by decide) (by omega)
  have hpos : 0 < 2 ^ (7 * len - 1) := Nat.two_pow_pos _
  have hrange : -2 ^ 63 ≤ (raw : Int) - deltaBias len ∧ (raw : Int) - deltaBias len < 2 ^ 63 := by
    unfold deltaBias
    generalize 2 ^ (7 * len - 1) = bias at hbias hpos
    omega
  unfold inI64
  rw [if_pos hrange]

theorem ebmlDeltas_succ {data rest : List UInt8} {raw len : Nat} {unknown : Bool}
    (hread : readSize data = .ok ((raw, len, unknown), rest)) (hlen : len ≤ 8) (hraw : raw < 2 ^ (7 * len))
    (coded : Nat) (cur : Int) :
    ebmlDeltas (coded + 1) cur data = (do
      let cur ← inI64 .malformed (cur + (raw - deltaBias len))
      if cur < 0 then .error .malformed
      else
        let (sizes, data) ← ebmlDeltas coded cur rest
        .ok (cur.toNat :: sizes, data)) := by
  rw [ebmlDeltas, hread]
  show (inI64 .overflow (raw - deltaBias len) >>= _) = _
  rw [inI64_delta hlen hraw]
  rfl

theorem ebmlDeltas_coded {prev : Nat} (h : DeltasCoded prev sizes bytes)
    (hsizes : ∀ size ∈ sizes, size < 2 ^ 63) (rest : List UInt8) :
    ebmlDeltas sizes.length prev (bytes ++ rest) = .ok (sizes, rest) := by
  induction h with
  | nil => rfl
  | @cons prev sizes bytes size width value hpos hwidth hvalue hfits _ ih =>
    obtain ⟨hsize, hrest⟩ := List.forall_mem_cons.1 hsizes
    have hdelta : (prev : Int) + (value - deltaBias width) = size := by omega
    have hin : inI64 .malformed (size : Int) = .ok (size : Int) := by
      unfold inI64
      rw [if_pos (by omega)]
    rw [length_cons, append_assoc,
      ebmlDeltas_succ (readSize_vint hpos hwidth hfits (bytes ++ rest)) hwidth hfits, hdelta, hin]
    show (if (size : Int) < 0 then .error .malformed
      else ebmlDeltas sizes.length size (bytes ++ rest) >>= fun read => .ok ((size : Int).toNat :: read.1, read.2)) = _
    rw [if_neg (Int.not_lt.2 (Int.natCast_nonneg size)), ih hrest]
    rfl

theorem ebmlSizes_coded (h : EbmlCoded sizes bytes) (hsizes : ∀ size ∈ sizes, size < 2 ^ 63) (rest : List UInt8) :
    ebmlSizes sizes.length (bytes ++ rest) = .ok (sizes, rest) := by
  cases h with
  | nil => rfl
  | @cons sizes bytes size width hpos hwidth hfits hdeltas =>
    obtain ⟨-, hrest⟩ := List.forall_mem_cons.1 hsizes
    rw [length_cons, append_assoc, ebmlSizes, readSize_vint hpos hwidth hfits (bytes ++ rest)]
    show (ebmlDeltas sizes.length size (bytes ++ rest) >>= fun read => .ok (size :: read.1, read.2)) = _
    rw [ebmlDeltas_coded hdeltas hrest]
    rfl

theorem ebmlDeltas_cases (coded : Nat) (cur : Int) (data : List UInt8) : ebmlDeltas coded cur data = .error .malformed ∨
      ∃ sizes header rest, ebmlDeltas coded cur data = .ok (sizes, rest) ∧ data = header ++ rest ∧
        sizes.length = coded := by
  induction coded generalizing cur data with
  | zero => exact .inr ⟨[], [], data, rfl, rfl, rfl⟩
  | succ coded ih =>
    rcases readSize_cases data with herror | ⟨raw, len, unknown, header, rest, hread, -, hlen, hraw, -, rfl⟩
    · left
      rw [ebmlDeltas, herror]
      rfl
    · rw [ebmlDeltas_succ hread hlen hraw]
      unfold inI64
      split_ifs with hrange
      · by_cases hnegative : cur + (raw - deltaBias len) < 0
        · left
          exact if_pos hnegative
        · rcases ih (cur + (raw - deltaBias len)) rest with herror | ⟨sizes, header', rest', hread', rfl, hcoded⟩
          · left
            refine (if_neg hnegative).trans ?_
            rw [herror]
            rfl
          · right
            refine ⟨(cur + (raw - deltaBias len)).toNat :: sizes, header ++ header', rest', ?_,
              (append_assoc _ _ _).symm, by rw [length_cons, hcoded]⟩
            refine (if_neg hnegative).trans ?_
            rw [hread']
            rfl
      · exact .inl rfl

theorem ebmlSizes_cases (coded : Nat) (data : List UInt8) : ebmlSizes coded data = .error .malformed ∨
      ∃ sizes header rest, ebmlSizes coded data = .ok (sizes, rest) ∧ data = header ++ rest ∧ sizes.length = coded := by
  cases coded with
  | zero => exact .inr ⟨[], [], data, rfl, rfl, rfl⟩
  | succ coded =>
    rcases readSize_cases data with herror | ⟨raw, len, unknown, header, rest, hread, -, -, -, -, rfl⟩
    · left
      rw [ebmlSizes, herror]
      rfl
    · rw [ebmlSizes, hread]
      rcases ebmlDeltas_cases coded raw rest with herror | ⟨sizes, header', rest', hread', rfl, hcoded⟩
      · left
        show (ebmlDeltas coded raw rest >>= _) = _
        rw [herror]
        rfl
      · right
        refine ⟨raw :: sizes, header ++ header', rest', ?_, (append_assoc _ _ _).symm,
          by rw [length_cons, hcoded]⟩
        show (ebmlDeltas coded raw (header' ++ rest') >>= _) = _
        rw [hread']
        rfl

/-! ## Blocks -/

def countByte (frames : List (List UInt8)) : UInt8 := UInt8.ofNat (frames.length - 1)

/-- The block body of some frames: which lacing it has, the coded sizes, and the frames. -/
inductive Laced (frames : List (List UInt8)) : Nat → List UInt8 → Prop
  | xiph : Laced frames 1
      (countByte frames :: ((frames.dropLast.map List.length).flatMap xiphCoded ++ frames.flatten))
  | fixed (size : Nat) (hpos : size ≠ 0) (hsize : ∀ frame ∈ frames, frame.length = size) :
      Laced frames 2 (countByte frames :: frames.flatten)
  | ebml {sizes : List UInt8} (hsizes : EbmlCoded (frames.dropLast.map List.length) sizes) :
      Laced frames 3 (countByte frames :: (sizes ++ frames.flatten))

/-- How the sizes are read that stand in front of the frames. -/
def codedSizes (lacing coded : Nat) (data : List UInt8) : Except Fault (List Nat × List UInt8) :=
  if lacing = 1 then xiphSizes coded data else ebmlSizes coded data

/-- An element has a size of 56 bits, and so has a block. -/
def maxElementLen : Nat := 2 ^ 56

/-- A slice has at most this many bytes. -/
def isizeMax : Nat := 2 ^ 63 - 1

theorem toNat_countByte (hne : frames ≠ []) (hcount : frames.length ≤ 256) :
    (countByte frames).toNat + 1 = frames.length := by
  have hpos := List.length_pos_iff.2 hne
  unfold countByte
  rw [UInt8.toNat_ofNat', Nat.mod_eq_of_lt (by omega)]
  omega

theorem length_le_flatten {frame : List UInt8} (h : frame ∈ frames) :
    frame.length ≤ frames.flatten.length := (sublist_flatten_of_mem h).length_le

/-- The frames of a laced block come back. -/
theorem splitLaced_laced {lacing : Nat} {body : List UInt8} (h : Laced frames lacing body)
    (hne : frames ≠ []) (hcount : frames.length ≤ 256) (hbody : body.length ≤ isizeMax) :
    splitLaced body lacing = .ok frames := by
  have hframes := toNat_countByte hne hcount
  have hdropLast : (frames.dropLast.map List.length).length = (countByte frames).toNat := by
    rw [length_map, length_dropLast]
    omega
  have hsizes (hflatten : frames.flatten.length ≤ isizeMax) :
      ∀ size ∈ frames.dropLast.map List.length, size < 2 ^ 63 := by
    intro size hsize
    obtain ⟨frame, hmem, rfl⟩ := List.mem_map.1 hsize
    have hle := length_le_flatten (dropLast_subset frames hmem)
    unfold isizeMax at hflatten
    omega
  cases h with
  | xiph =>
    rw [length_cons, length_append] at hbody
    have hfits := hsizes (by omega)
    show (xiphSizes (countByte frames).toNat _ >>= fun read => sliceFrames read.1 read.2) = _
    rw [← hdropLast, xiphSizes_coded fun size hsize => Nat.lt_trans (hfits size hsize) (by decide)]
    exact sliceFrames_flatten hne
  | fixed size hpos hsize =>
    have hlength : frames.flatten.length = size * ((countByte frames).toNat + 1) := by
      rw [hframes, List.length_flatten, map_congr_left hsize, map_const', sum_replicate_nat,
        Nat.mul_comm]
    have hcountPos : 0 < (countByte frames).toNat + 1 := Nat.succ_pos _
    have hdata : frames.flatten ≠ [] := by
      intro hnil
      rw [hnil, length_nil] at hlength
      exact absurd hlength.symm (Nat.mul_ne_zero hpos hcountPos.ne')
    have hwhole : ¬ ((countByte frames).toNat + 1 = 0 ∨ frames.flatten = [] ∨
        frames.flatten.length % ((countByte frames).toNat + 1) ≠ 0) := by
      rw [hlength, Nat.mul_mod_left]
      rintro (hzero | hnil | hmod)
      · exact hcountPos.ne' hzero
      · exact hdata hnil
      · exact hmod rfl
    show splitFixed frames.flatten ((countByte frames).toNat + 1) = _
    unfold splitFixed
    rw [if_neg hwhole, hlength, Nat.mul_div_cancel size hcountPos, if_neg hpos, chunks_flatten hpos hsize]
  | @ebml sizes hcoded =>
    rw [length_cons, length_append] at hbody
    have hfits := hsizes (by omega)
    show (ebmlSizes (countByte frames).toNat _ >>= fun read => sliceFrames read.1 read.2) = _
    rw [← hdropLast, ebmlSizes_coded hcoded hfits]
    exact sliceFrames_flatten hne

/-- What the lacing split makes of a body: the frames are the data behind the coded sizes, one after another. -/
structure Split (frames : List (List UInt8)) : Prop where
  /-- There are as many frames as the first byte says. -/
  count : body.head?.map (fun b => b.toNat + 1) = some frames.length
  fixed : lacing = 2 → frames.flatten = body.tail ∧ ∃ size, ∀ frame ∈ frames, frame.length = size
  /-- The other lacings code the sizes of all frames but the last in front of the frames. -/
  coded : lacing ≠ 2 → ∃ header, body.tail = header ++ frames.flatten ∧
    codedSizes lacing (frames.length - 1) body.tail = .ok (frames.dropLast.map List.length, frames.flatten)

/-- A block that is split without a fault, or malformed. -/
theorem splitLaced_cases (h : body.length < maxElementLen) : splitLaced body lacing = .error .malformed ∨
      ∃ frames, splitLaced body lacing = .ok frames ∧ Split body lacing frames := by
  unfold maxElementLen at h
  cases body with
  | nil => exact .inl rfl
  | cons count data =>
    rw [length_cons] at h
    -- Frames behind coded sizes.
    have hcoded (read : Except Fault (List Nat × List UInt8)) (hlacing : lacing ≠ 2)
        (hread : codedSizes lacing count.toNat data = read)
        (hcases : read = .error .malformed ∨ ∃ sizes header rest, read = .ok (sizes, rest) ∧ data = header ++ rest ∧
          sizes.length = count.toNat) :
        (read >>= fun read => sliceFrames read.1 read.2) = .error .malformed ∨
          ∃ frames, (read >>= fun read => sliceFrames read.1 read.2) = .ok frames ∧
            Split (count :: data) lacing frames := by
      rcases hcases with rfl | ⟨sizes, header, rest, rfl, rfl, hsizes⟩
      · exact .inl rfl
      · rcases sliceFrames_cases sizes rest with herror | ⟨frames, hframes, rfl, hmap, hlength⟩
        · exact .inl herror
        · refine .inr ⟨frames, hframes, ?_, fun h2 => absurd h2 hlacing, fun _ => ⟨header, rfl, ?_⟩⟩
          · rw [hlength, hsizes]
            rfl
          · rw [hlength, Nat.add_sub_cancel, hsizes, hmap]
            exact hread
    match lacing with
    | 1 => exact hcoded _ (by decide) rfl (xiphSizes_cases count.toNat data (by omega))
    | 3 => exact hcoded _ (by decide) rfl (ebmlSizes_cases count.toNat data)
    | 2 =>
      show splitFixed data (count.toNat + 1) = _ ∨ ∃ frames, splitFixed data (count.toNat + 1) = _ ∧ _
      unfold splitFixed
      by_cases hbad : count.toNat + 1 = 0 ∨ data = [] ∨ data.length % (count.toNat + 1) ≠ 0
      · exact .inl (if_pos hbad)
      · have hdata : data ≠ [] := fun hnil => hbad (.inr (.inl hnil))
        have hmod : data.length % (count.toNat + 1) = 0 := by
          by_contra hne
          exact hbad (.inr (.inr hne))
        have hwhole : data.length = data.length / (count.toNat + 1) * (count.toNat + 1) :=
          (Nat.div_mul_cancel (Nat.dvd_of_mod_eq_zero hmod)).symm
        have hsize : data.length / (count.toNat + 1) ≠ 0 := by
          intro hzero
          rw [hzero, Nat.zero_mul] at hwhole
          exact hdata (List.length_eq_zero_iff.1 hwhole)
        obtain ⟨hflatten, hcount, hsizes⟩ := chunks_spec hsize _ data hwhole
        rw [if_neg hbad, if_neg hsize]
        refine .inr ⟨_, rfl, ?_, fun _ => ⟨hflatten, _, hsizes⟩, fun h2 => absurd rfl h2⟩
        rw [hcount]
        rfl
    | 0 => exact .inl rfl
    | n + 4 => exact .inl rfl

/-- Laced frames come back, and any block is split into slices one after another or malformed. -/
theorem splitLaced_spec :
    (∀ (frames : List (List UInt8)) (lacing : Nat) (body : List UInt8), frames ≠ [] → frames.length ≤ 256 →
      Laced frames lacing body → body.length ≤ isizeMax → splitLaced body lacing = .ok frames) ∧
      ∀ (body : List UInt8) (lacing : Nat), body.length < maxElementLen → splitLaced body lacing = .error .malformed ∨
          ∃ frames, splitLaced body lacing = .ok frames ∧ Split body lacing frames :=
  ⟨fun _ _ _ hne hcount h hbody => splitLaced_laced h hne hcount hbody, splitLaced_cases⟩

/-- Two frames in Xiph lacing, and a block that ends inside of a size. -/
theorem splitLaced_two : splitLaced [1, 2, 7, 8, 9] 1 = .ok [[7, 8], [9]] ∧
      (splitLaced [1, 0xFF] 1 = .error .malformed ∨
        ∃ frames, splitLaced [1, 0xFF] 1 = .ok frames ∧ Split [1, 0xFF] 1 frames) :=
  ⟨splitLaced_spec.1 [[7, 8], [9]] 1 _ (cons_ne_nil _ _) (by decide) .xiph (by decide),
    splitLaced_spec.2 [1, 0xFF] 1 (by decide)⟩

end Glass2Glass.Mkv
