import Mathlib.Data.List.Forall2
import Mathlib.Tactic.Ring

/-!
# Readers of byte strings

A reader takes bytes from the front of its input and may fail. `Decodes read bytes a` says that `read`
recovers `a` from `bytes` and leaves whatever follows them; it composes along binds and loops, so the
round trip of a format is the composition of the round trips of its fields. `Refuses read bytes e` says
that `read` fails on `bytes`, and `Yields read P` that whatever `read` accepts satisfies `P`.
-/

namespace Codec

open List

variable {ε α β : Type}

theorem fromUTF8?_toUTF8 (s : String) : String.fromUTF8? ⟨s.toUTF8.data.toList.toArray⟩ = some s := by
  have hvalid : s.toByteArray.IsValidUTF8 := s.isValidUTF8
  have hbytes : (⟨s.toUTF8.data.toList.toArray⟩ : ByteArray) = s.toByteArray := by simp
  simp only [hbytes, String.fromUTF8?, dif_pos hvalid]
  rfl

/-- A computation that consumes bytes and may fail. -/
abbrev Reader (ε α : Type) := StateT (List UInt8) (Except ε) α

/-- The next `n` bytes, `short` when there are fewer. -/
def take (short : ε) (n : Nat) : Reader ε (List UInt8) := fun input =>
  if n ≤ input.length then .ok (input.take n, input.drop n) else .error short

/-- Run a reader `n` times and collect what it returns. -/
def times (read : Reader ε α) : Nat → Reader ε (List α)
  | 0 => pure []
  | n + 1 => do
    let a ← read
    let as ← times read n
    return a :: as

/-! ## Little-endian words -/

/-- The `width` lowest base-256 digits of a number, lowest first. -/
def leBytes : Nat → Nat → List UInt8
  | 0, _ => []
  | width + 1, v => UInt8.ofNat v :: leBytes width (v / 256)

/-- The number with the given base-256 digits, lowest first. -/
def leNat : List UInt8 → Nat
  | [] => 0
  | b :: bs => b.toNat + 256 * leNat bs

theorem length_leBytes (width v : Nat) : (leBytes width v).length = width := by
  induction width generalizing v with
  | zero => rfl
  | succ width ih => rw [leBytes, length_cons, ih]

theorem leNat_leBytes (width v : Nat) (h : v < 256 ^ width) : leNat (leBytes width v) = v := by
  induction width generalizing v with
  | zero =>
    rw [leBytes, leNat]
    omega
  | succ width ih =>
    have hdiv : v / 256 < 256 ^ width := by
      rw [Nat.div_lt_iff_lt_mul (by decide)]
      rwa [pow_succ] at h
    rw [leBytes, leNat, ih _ hdiv, UInt8.toNat_ofNat']
    omega

/-! ## Recovering what was written -/

theorem leNat_lt (bs : List UInt8) : leNat bs < 256 ^ bs.length := by
  induction bs with
  | nil => simp [leNat]
  | cons b bs ih =>
    have hb := b.toNat_lt
    rw [leNat, length_cons, pow_succ]
    omega

theorem leBytes_leNat (bs : List UInt8) : leBytes bs.length (leNat bs) = bs := by
  induction bs with
  | nil => rfl
  | cons b bs ih =>
    have hb := b.toNat_lt
    have hdiv : (b.toNat + 256 * leNat bs) / 256 = leNat bs := by omega
    have hlow : UInt8.ofNat (b.toNat + 256 * leNat bs) = b := by
      refine UInt8.toNat_inj.1 ?_
      rw [UInt8.toNat_ofNat']
      omega
    rw [length_cons, leNat, leBytes, hdiv, hlow, ih]

/-- `read` recovers `a` from `bytes` and leaves what follows them. -/
def Decodes (read : Reader ε α) (bytes : List UInt8) (a : α) : Prop :=
  ∀ rest, read (bytes ++ rest) = .ok (a, rest)

namespace Decodes

variable {read : Reader ε α} {bytes bytes' : List UInt8} {a : α} {b : β}

theorem pure (a : α) : Decodes (Pure.pure a : Reader ε α) [] a := fun _ => rfl

variable {k : α → Reader ε β}

theorem bind (h : Decodes read bytes a) (h' : Decodes (k a) bytes' b) :
    Decodes (read >>= k) (bytes ++ bytes') b := by
  intro rest
  have hread : read (bytes ++ (bytes' ++ rest)) = .ok (a, bytes' ++ rest) := h _
  show (read (bytes ++ bytes' ++ rest) >>= fun p => k p.1 p.2) = .ok (b, rest)
  rw [append_assoc, hread]
  exact h' rest

theorem bind_eq {rest : List UInt8} {result : Except ε (β × List UInt8)}
    (h : Decodes read bytes a) (h' : k a rest = result) : (read >>= k) (bytes ++ rest) = result := by
  show (read (bytes ++ rest) >>= fun p => k p.1 p.2) = _
  rw [h]
  exact h'

theorem last (h : Decodes read bytes a) (h' : Decodes (k a) [] b) :
    Decodes (read >>= k) bytes b := by
  have hbind := h.bind h'
  rwa [append_nil] at hbind

theorem map (f : α → β) (h : Decodes read bytes a) :
    Decodes (do let x ← read; Pure.pure (f x)) bytes (f a) :=
  h.last (.pure (f a))

theorem lift {x : Except ε α} (h : x = .ok a) : Decodes (StateT.lift x : Reader ε α) [] a := by
  intro rest
  rw [h]
  rfl

theorem take (short : ε) (bytes : List UInt8) : Decodes (take short bytes.length) bytes bytes := by
  intro rest
  rw [Codec.take, if_pos (by simp), take_left, drop_left]

theorem timesMap {put : β → List UInt8} {f : β → α} {bs : List β} (h : ∀ b ∈ bs, Decodes read (put b) (f b)) :
    Decodes (times read bs.length) (bs.flatMap put) (bs.map f) := by
  induction bs with
  | nil => exact .pure []
  | cons b bs ih =>
    refine (h b mem_cons_self).bind ?_
    exact (ih fun b' hb => h b' (mem_cons_of_mem b hb)).map (f b :: ·)

theorem times {put : α → List UInt8} {as : List α} (h : ∀ a ∈ as, Decodes read (put a) a) :
    Decodes (times read as.length) (as.flatMap put) as := by
  have hmap := timesMap (f := id) h
  rwa [map_id] at hmap

end Decodes

/-- `read` fails on `bytes`, whatever follows them. -/
def Refuses (read : Reader ε α) (bytes : List UInt8) (e : ε) : Prop :=
  ∀ rest, read (bytes ++ rest) = .error e

namespace Refuses

variable {read : Reader ε α} {bytes bytes' : List UInt8} {a : α} {e : ε}

theorem bind (h : Refuses read bytes e) (k : α → Reader ε β) : Refuses (read >>= k) bytes e := by
  intro rest
  show (read (bytes ++ rest) >>= fun p => k p.1 p.2) = .error e
  rw [h]
  rfl

theorem append (h : Refuses read bytes e) (bytes' : List UInt8) : Refuses read (bytes ++ bytes') e := by
  intro rest
  rw [append_assoc]
  exact h _

theorem after {k : α → Reader ε β} (h : Decodes read bytes a) (h' : Refuses (k a) bytes' e) :
    Refuses (read >>= k) (bytes ++ bytes') e := by
  intro rest
  have hread : read (bytes ++ (bytes' ++ rest)) = .ok (a, bytes' ++ rest) := h _
  show (read (bytes ++ bytes' ++ rest) >>= fun p => k p.1 p.2) = .error e
  rw [append_assoc, hread]
  exact h' rest

theorem times {put : β → List UInt8} {f : β → α} {pre post : List β} {b : β}
    (hpre : ∀ b ∈ pre, Decodes read (put b) (f b)) (hb : Refuses read (put b) e) :
    Refuses (times read (pre ++ b :: post).length) ((pre ++ b :: post).flatMap put) e := by
  induction pre with
  | nil =>
    exact (hb.append _).bind _
  | cons a pre ih =>
    refine .after (hpre a mem_cons_self) ?_
    exact (ih fun b' hb' => hpre b' (mem_cons_of_mem a hb')).bind _

end Refuses

/-! ## What a reader accepts -/

/-- Whatever `read` accepts satisfies `P`. -/
def Yields (read : Reader ε α) (P : α → Prop) : Prop :=
  ∀ input a rest, read input = .ok (a, rest) → P a

namespace Yields

variable {read : Reader ε α} {P Q : α → Prop}

theorem pure {a : α} (h : P a) : Yields (Pure.pure a : Reader ε α) P := by
  intro input b rest hb
  obtain ⟨rfl, -⟩ := Prod.mk.inj (Except.ok.inj hb)
  exact h

theorem mono (h : Yields read P) (himp : ∀ a, P a → Q a) : Yields read Q :=
  fun input a rest ha => himp a (h input a rest ha)

theorem trivial (read : Reader ε α) : Yields read fun _ => True := fun _ _ _ _ => True.intro

theorem bind {k : α → Reader ε β} {R : β → Prop} (h : Yields read P)
    (h' : ∀ a, P a → Yields (k a) R) : Yields (read >>= k) R := by
  intro input b rest hb
  have hrun : (read input >>= fun p => k p.1 p.2) = .ok (b, rest) := hb
  rcases hread : read input with e | ⟨a, mid⟩
  · rw [hread] at hrun
    cases hrun
  · rw [hread] at hrun
    exact h' a (h input a mid hread) mid b rest hrun

theorem skip (read : Reader ε α) {k : α → Reader ε β} {R : β → Prop} (h : ∀ a, Yields (k a) R) :
    Yields (read >>= k) R :=
  (Yields.trivial read).bind fun a _ => h a

theorem throw (e : ε) : Yields (throw e : Reader ε α) P := by
  intro input a rest h
  cases h

theorem times (n : Nat) (h : Yields read P) : Yields (times read n) fun as => as.length = n ∧ ∀ a ∈ as, P a := by
  induction n with
  | zero => exact .pure ⟨rfl, by simp⟩
  | succ n ih =>
    refine h.bind fun a ha => ih.bind fun as has => .pure ⟨by rw [length_cons, has.1], ?_⟩
    intro b hb
    rcases List.mem_cons.1 hb with rfl | hb
    · exact ha
    · exact has.2 b hb

end Yields

end Codec
