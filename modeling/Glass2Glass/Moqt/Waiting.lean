import Glass2Glass.Moqt.Fetch
import Glass2Glass.Moqt.Message

/-!
# When a decoder waits for more bytes

A control message is answered once its frame is whole, and an item of a stream once all of it is buffered, if each
field is complete within the bytes that were declared for it (`Whole`). Nothing is promised for a field that runs
past the end of its payload or of its block of extension headers: there the decoders ask for bytes that do not help.
-/

namespace Glass2Glass.Moqt

open Codec Words List

variable {kind : VarintKind}

/-! ## Fields -/

/-- A complete integer: as many bytes as its first one announces. -/
def IsInt (kind : VarintKind) (bs : List UInt8) (v : Nat) : Prop :=
  ∃ first tail, bs = first :: tail ∧ intLen kind first = tail.length + 1 ∧
    v = firstBits kind first (tail.length + 1) * 256 ^ tail.length + beNat tail

/-- A number of complete byte strings, each behind its length. -/
inductive Strings (kind : VarintKind) : Nat → List UInt8 → Prop where
  | nil : Strings kind 0 []
  | cons {count : Nat} {len b rest : List UInt8} (len_eq : IsInt kind len b.length) (tail : Strings kind count rest) :
    Strings kind (count + 1) (len ++ (b ++ rest))

/-- A number of complete key-value pairs after some key. -/
inductive Pairs (kind : VarintKind) : Nat → Nat → List UInt8 → Prop where
  | nil (prev : Nat) : Pairs kind prev 0 []
  | int {prev d v count : Nat} {delta value rest : List UInt8} (delta_eq : IsInt kind delta d)
    (even : (prev + d) % 2 = 0) (value_eq : IsInt kind value v) (tail : Pairs kind (prev + d) count rest) :
    Pairs kind prev (count + 1) (delta ++ (value ++ rest))
  | bytes {prev d count : Nat} {delta len b rest : List UInt8} (delta_eq : IsInt kind delta d)
    (odd : (prev + d) % 2 ≠ 0) (len_eq : IsInt kind len b.length) (tail : Pairs kind (prev + d) count rest) :
    Pairs kind prev (count + 1) (delta ++ (len ++ (b ++ rest)))

inductive Field where
  | int
  | byte
  /-- A byte string behind its length. -/
  | string
  /-- Byte strings behind their count. -/
  | names
  /-- Pairs behind their count. -/
  | pairs
  /-- Pairs behind the number of their bytes. -/
  | block
  /-- Pairs up to the end. -/
  | tail
  | raw (count : Nat)
  /-- An integer that says what follows it. -/
  | switch (following : Nat → List Field)

/-- All fields are complete. Bytes may be left over after the last one. -/
inductive Whole (kind : VarintKind) : List Field → List UInt8 → Prop where
  | done (left : List UInt8) : Whole kind [] left
  | int {fs : List Field} {bs rest : List UInt8} {v : Nat} (int : IsInt kind bs v) (following : Whole kind fs rest) :
    Whole kind (.int :: fs) (bs ++ rest)
  | byte {fs : List Field} {rest : List UInt8} (b : UInt8) (following : Whole kind fs rest) :
    Whole kind (.byte :: fs) ([b] ++ rest)
  | string {fs : List Field} {len b rest : List UInt8} (len_eq : IsInt kind len b.length)
    (following : Whole kind fs rest) : Whole kind (.string :: fs) (len ++ b ++ rest)
  | names {fs : List Field} {count strings rest : List UInt8} {n : Nat} (count_eq : IsInt kind count n)
    (strings_eq : Strings kind n strings) (following : Whole kind fs rest) :
    Whole kind (.names :: fs) (count ++ strings ++ rest)
  | pairs {fs : List Field} {count pairs rest : List UInt8} {n : Nat} (count_eq : IsInt kind count n)
    (pairs_eq : Pairs kind 0 n pairs) (following : Whole kind fs rest) :
    Whole kind (.pairs :: fs) (count ++ pairs ++ rest)
  | block {fs : List Field} {len body rest : List UInt8} {n : Nat} (len_eq : IsInt kind len body.length)
    (pairs_eq : Pairs kind 0 n body) (following : Whole kind fs rest) : Whole kind (.block :: fs) (len ++ body ++ rest)
  | tail {pairs : List UInt8} {n : Nat} (pairs_eq : Pairs kind 0 n pairs) : Whole kind [.tail] pairs
  | raw {fs : List Field} {rest : List UInt8} (b : List UInt8) (following : Whole kind fs rest) :
    Whole kind (.raw b.length :: fs) (b ++ rest)
  | switch {fs : List Field} {f : Nat → List Field} {bs rest : List UInt8} {v : Nat} (int : IsInt kind bs v)
    (following : Whole kind (f v ++ fs) rest) : Whole kind (.switch f :: fs) (bs ++ rest)

/-- The fields of the body that the type of a FETCH names. -/
def fetchFields (code : Nat) : List Field :=
  if code = FetchType.standalone.code then [.names, .string, .int, .int, .int, .int] else [.int, .int]

def MsgType.layout : MsgType → List Field
  | clientSetup | serverSetup => [.pairs]
  | requestUpdate => [.int, .int, .pairs]
  | subscribe | trackStatus => [.int, .names, .string, .pairs]
  | subscribeOk => [.int, .int, .pairs, .tail]
  | requestError | publishDone => [.int, .int, .int, .string]
  | publishNamespace => [.int, .names, .pairs]
  | requestOk | publishOk => [.int, .pairs]
  | namespaceMsg | namespaceDone => [.names]
  | publishNamespaceDone | unsubscribe | fetchCancel | maxRequestId | requestsBlocked => [.int]
  | publishNamespaceCancel => [.int, .int, .string]
  | goAway => [.string]
  | subscribeNamespace => [.int, .names, .int, .pairs]
  | fetch => [.int, .switch fetchFields, .pairs]
  | fetchOk => [.int, .byte, .int, .int, .pairs, .tail]
  | publish => [.int, .names, .string, .int, .pairs, .tail]

/-! ## Complete fields are not waited for -/

variable {bs : List UInt8} {v : Nat}

theorem IsInt.decodes (h : IsInt kind bs v) : Decodes (varint kind) bs v := by
  obtain ⟨first, tail, rfl, hlen, rfl⟩ := h
  exact fun rest => varint_cons hlen

theorem IsInt.settles (h : IsInt kind bs v) : Settles .incomplete (varint kind) bs (· = v) := h.decodes.settles _

theorem require_ne {ok : Prop} [Decidable ok] : require ok ≠ .error .incomplete := by
  unfold require
  split_ifs <;> exact fun h => by cases h

theorem settles_require (ok : Prop) [Decidable ok] :
    Settles .incomplete (StateT.lift (require ok) : Reader Unit) [] (require ok = .ok ·) := .lift require_ne

variable {len : List UInt8}

theorem settles_lengthBytes {b : List UInt8} (h : IsInt kind len b.length) (max : Nat) :
    Settles .incomplete (lengthBytes kind max) (len ++ b) (· = b) := by
  refine h.settles.bind fun n hn => ?_
  subst hn
  exact (settles_require _).bind fun _ _ => (Decodes.take MoqtError.incomplete b).settles _

variable {count : Nat}

theorem settles_namespaceFields {strings : List UInt8} (h : Strings .quic count strings) (total : Nat) :
    Settles .incomplete (namespaceFields count total) strings fun _ => True := by
  induction h generalizing total with
  | nil => exact .pure trivial
  | @cons count len b rest len_eq _ ih =>
    rw [← append_assoc]
    refine (settles_lengthBytes len_eq _).bind fun field _ => ?_
    refine (settles_require _).bind fun _ _ => (settles_require _).bind fun _ _ => ?_
    exact (ih _).last fun _ _ => .pure trivial

theorem settles_decodeNamespace {count strings : List UInt8} {n : Nat} (hcount : IsInt .quic count n)
    (h : Strings .quic n strings) (min : Nat) :
    Settles .incomplete (decodeNamespace min) (count ++ strings) fun _ => True := by
  refine hcount.settles.bind fun m hm => ?_
  subst hm
  exact (settles_require _).bind fun _ _ => settles_namespaceFields h 0

variable {prev : Nat}

theorem settles_decodePair_int {d : Nat} {delta value : List UInt8}
    (hdelta : IsInt kind delta d) (heven : (prev + d) % 2 = 0) (hvalue : IsInt kind value v) :
    Settles .incomplete (decodePair kind prev) (delta ++ value) (·.1 = prev + d) := by
  refine hdelta.settles.bind fun m hm => ?_
  subst hm
  refine (settles_require _).bind fun _ _ => ?_
  rw [if_pos heven]
  exact hvalue.settles.last fun _ _ => .pure rfl

theorem settles_decodePair_bytes {d : Nat} {delta b : List UInt8}
    (hdelta : IsInt kind delta d) (hodd : (prev + d) % 2 ≠ 0) (hlen : IsInt kind len b.length) :
    Settles .incomplete (decodePair kind prev) (delta ++ (len ++ b)) (·.1 = prev + d) := by
  refine hdelta.settles.bind fun m hm => ?_
  subst hm
  refine (settles_require _).bind fun _ _ => ?_
  rw [if_neg hodd]
  exact (settles_lengthBytes hlen _).last fun _ _ => .pure rfl

variable {pairs : List UInt8}

theorem Pairs.head (h : Pairs kind prev (count + 1) pairs) :
    ∃ d first rest, pairs = first ++ rest ∧ first ≠ [] ∧ Pairs kind (prev + d) count rest ∧
      Settles .incomplete (decodePair kind prev) first (·.1 = prev + d) := by
  have hsome : ∀ {bs : List UInt8} {v : Nat}, IsInt kind bs v → ∀ more, bs ++ more ≠ [] := by
    intro bs v hint more
    obtain ⟨first, tail, rfl, -⟩ := hint
    exact cons_ne_nil _ _
  cases h with
  | @int _ d v _ delta value rest delta_eq even value_eq tail =>
    refine ⟨d, delta ++ value, rest, (append_assoc _ _ _).symm, hsome delta_eq _, tail, ?_⟩
    exact settles_decodePair_int delta_eq even value_eq
  | @bytes _ d _ delta len b rest delta_eq odd len_eq tail =>
    refine ⟨d, delta ++ (len ++ b), rest, by simp only [append_assoc], hsome delta_eq _, tail, ?_⟩
    exact settles_decodePair_bytes delta_eq odd len_eq

theorem settles_decodePairs (h : Pairs kind prev count pairs) :
    Settles .incomplete (decodePairs kind count prev) pairs fun _ => True := by
  induction count generalizing prev pairs with
  | zero =>
    cases h
    exact .pure trivial
  | succ count ih =>
    obtain ⟨d, first, rest, rfl, -, htail, hpair⟩ := h.head
    refine hpair.bind fun pair hkey => ?_
    rw [hkey]
    exact (ih htail).last fun _ _ => .pure trivial

theorem pairsToEnd_ne {fuel : Nat}
    (h : Pairs kind prev count pairs) : pairsToEnd kind fuel prev pairs ≠ .error .incomplete := by
  induction count generalizing prev pairs fuel with
  | zero =>
    cases h
    cases fuel <;> exact fun h => by cases h
  | succ count ih =>
    obtain ⟨d, first, rest, rfl, hsome, htail, hpair⟩ := h.head
    cases fuel with
    | zero => exact fun h => by cases h
    | succ fuel =>
      have hmore : (first ++ rest).isEmpty = false := by
        rw [isEmpty_eq_false_iff]
        exact fun hnil => hsome (List.append_eq_nil_iff.1 hnil).1
      show (if (first ++ rest).isEmpty then _ else _ : Reader _) (first ++ rest) ≠ _
      rw [hmore]
      refine hpair.bind_ne fun pair hkey => ?_
      rw [hkey]
      exact Loop.bind_ne_error (x := pairsToEnd kind fuel (prev + d) rest) (ih htail) fun _ heq => by cases heq

theorem Params.decodeToEnd_ne (h : Pairs kind 0 count pairs) : Params.decodeToEnd kind pairs ≠ .error .incomplete :=
  Loop.bind_ne_error (x := pairsToEnd kind pairs.length 0 pairs) (pairsToEnd_ne h) fun _ heq => by cases heq

theorem settles_decodeExtensionHeaders {body : List UInt8}
    (hlen : IsInt kind len body.length) (h : Pairs kind 0 count body) :
    Settles .incomplete (Params.decodeExtensionHeaders kind) (len ++ body) fun _ => True := by
  refine (settles_lengthBytes hlen _).last fun b hb => ?_
  subst hb
  exact (Settles.lift (Loop.map_ne_error (Params.decodeToEnd_ne h))).mono fun _ _ => trivial

/-! ## Readers of fields -/

/-- Bytes in which all fields are complete are read, or refused. -/
def Reads {α : Type} (kind : VarintKind) (fs : List Field) (read : Reader α) : Prop :=
  ∀ bytes, Whole kind fs bytes → read bytes ≠ .error .incomplete

namespace Reads

variable {kind : VarintKind} {α β : Type} {fs : List Field}

theorem pure (fs : List Field) (a : α) : Reads kind fs (Pure.pure a : Reader α) := fun _ _ h => by cases h

theorem lift {x : Except MoqtError α} {k : α → Reader β} (hx : x ≠ .error .incomplete)
    (h : ∀ a, x = .ok a → Reads kind fs (k a)) : Reads kind fs (StateT.lift x >>= k) := by
  intro bytes hwhole
  show (StateT.lift x >>= k) ([] ++ bytes) ≠ _
  exact (Settles.lift hx).bind_ne fun a ha => h a ha bytes hwhole

theorem require {ok : Prop} [Decidable ok] {k : Unit → Reader β} (h : Reads kind fs (k ())) :
    Reads kind fs (StateT.lift (require ok) >>= k) := .lift require_ne fun _ _ => h

theorem int {k : Nat → Reader β} (h : ∀ v, Reads kind fs (k v)) : Reads kind (.int :: fs) (varint kind >>= k) := by
  intro bytes hwhole
  cases hwhole with
  | int hint hrest => exact hint.settles.bind_ne fun v _ => h v _ hrest

theorem switch {f : Nat → List Field} {k : Nat → Reader β} (h : ∀ v, Reads kind (f v ++ fs) (k v)) :
    Reads kind (.switch f :: fs) (varint kind >>= k) := by
  intro bytes hwhole
  cases hwhole with
  | switch hint hrest =>
    refine hint.settles.bind_ne fun v hv => ?_
    subst hv
    exact h v _ hrest

theorem byte {k : UInt8 → Reader β} (h : ∀ b, Reads kind fs (k b)) : Reads kind (.byte :: fs) (u8 >>= k) := by
  intro bytes hwhole
  cases hwhole with
  | byte b hrest => exact ((decodes_u8 b).settles _).bind_ne fun b _ => h b _ hrest

theorem raw {n : Nat} {k : List UInt8 → Reader β} (h : ∀ b, Reads kind fs (k b)) :
    Reads kind (.raw n :: fs) (bytes n >>= k) := by
  intro input hwhole
  cases hwhole with
  | raw b hrest => exact ((Decodes.take MoqtError.incomplete b).settles _).bind_ne fun b _ => h b _ hrest

theorem lengthBytes {max : Nat} {k : List UInt8 → Reader β} (h : ∀ b, Reads kind fs (k b)) :
    Reads kind (.string :: fs) (lengthBytes kind max >>= k) := by
  intro bytes hwhole
  cases hwhole with
  | string hlen hrest => exact (settles_lengthBytes hlen max).bind_ne fun b _ => h b _ hrest

theorem decodeNamespace {min : Nat} {k : List (List UInt8) → Reader β} (h : ∀ fields, Reads .quic fs (k fields)) :
    Reads .quic (.names :: fs) (decodeNamespace min >>= k) := by
  intro bytes hwhole
  cases hwhole with
  | names hcount hnames hrest => exact (settles_decodeNamespace hcount hnames min).bind_ne fun a _ => h a _ hrest

theorem decodePairs {k : List (Nat × ParamValue) → Reader β} (h : ∀ pairs, Reads .quic fs (k pairs)) :
    Reads .quic (.pairs :: fs) (varint .quic >>= fun count => decodePairs .quic count 0 >>= k) := by
  intro bytes hwhole
  cases hwhole with
  | pairs hcount hpairs hrest =>
    rw [append_assoc]
    refine hcount.settles.bind_ne fun n hn => ?_
    subst hn
    exact (settles_decodePairs hpairs).bind_ne fun a _ => h a _ hrest

theorem decodeExtensionHeaders {k : Params → Reader β} (h : ∀ params, Reads kind fs (k params)) :
    Reads kind (.block :: fs) (Params.decodeExtensionHeaders kind >>= k) := by
  intro bytes hwhole
  cases hwhole with
  | block hlen hpairs hrest => exact (settles_decodeExtensionHeaders hlen hpairs).bind_ne fun a _ => h a _ hrest

theorem decodeToEnd {k : Params → Reader β} (h : ∀ params rest, k params rest ≠ .error .incomplete) :
    Reads kind [.tail] (Params.decodeToEnd kind >>= k) := by
  intro bytes hwhole
  cases hwhole with
  | tail hpairs =>
    exact Loop.bind_ne_error (x := Params.decodeToEnd kind bytes) (Params.decodeToEnd_ne hpairs) fun p => h p.1 p.2

theorem measured {read : Reader α} {k : α × Nat → Reader β}
    (h : ∀ n, Reads kind fs (read >>= fun a rest => k (a, n - rest.length) rest)) :
    Reads kind fs (Codec.measured read >>= k) := by
  intro bytes hwhole
  have hrun : (Codec.measured read >>= k) bytes = (read >>= fun a rest => k (a, bytes.length - rest.length) rest) bytes := by
    show (Codec.measured read bytes >>= fun p => k p.1 p.2) = read bytes >>= _
    unfold Codec.measured
    rcases read bytes with e | p <;> rfl
  rw [hrun]
  exact h bytes.length bytes hwhole

end Reads

/-! ## Messages -/

namespace ControlMessage

/-- The bytes begin with a whole frame. -/
def HoldsFrame (buf : List UInt8) (typ : Nat) (payload rest : List UInt8) : Prop :=
  ∃ t, IsInt .quic t typ ∧ payload.length < 2 ^ 16 ∧ buf = t ++ (beBytes 2 payload.length ++ (payload ++ rest))

variable {buf payload rest : List UInt8} {typ : Nat}

theorem HoldsFrame.decodes (h : HoldsFrame buf typ payload rest) : frame buf = .ok ((typ, payload), rest) := by
  obtain ⟨t, ht, hlength, rfl⟩ := h
  refine ht.decodes.bind_eq ((decodes_u16 hlength).bind_eq ?_)
  exact (Decodes.take MoqtError.incomplete payload).bind_eq rfl

theorem HoldsFrame.append (h : HoldsFrame buf typ payload rest)
    (more : List UInt8) : HoldsFrame (buf ++ more) typ payload (rest ++ more) := by
  obtain ⟨t, ht, hlength, rfl⟩ := h
  exact ⟨t, ht, hlength, by simp only [append_assoc]⟩

end ControlMessage

theorem beNat_concat_zero (bs : List UInt8) : beNat (bs ++ [0]) = 256 * beNat bs := by
  rw [beNat, reverse_append]
  exact Nat.zero_add _

/-- The bytes begin with an integer, or some bytes complete the one that they are the beginning of. -/
theorem isInt_or_completes (kind : VarintKind) (buf : List UInt8) : (∃ bs v rest, IsInt kind bs v ∧ buf = bs ++ rest) ∨
      (varint kind buf = .error .incomplete ∧ ∃ more v, IsInt kind (buf ++ more) v ∧ v % 2 = 0) := by
  cases buf with
  | nil =>
    refine .inr ⟨rfl, [0], 0, ⟨0, [], rfl, ?_, ?_⟩, rfl⟩
    · cases kind <;> rfl
    · cases kind <;> rfl
  | cons first tail =>
    have hpos : 0 < intLen kind first := by
      cases kind with
      | quic =>
        rw [intLen, Nat.one_shiftLeft]
        exact Nat.two_pow_pos _
      | vi64 => exact Nat.succ_pos _
    by_cases hlen : intLen kind first ≤ tail.length + 1
    · refine .inl ⟨first :: tail.take (intLen kind first - 1), _, tail.drop (intLen kind first - 1),
        ⟨first, _, rfl, ?_, rfl⟩, ?_⟩
      · rw [length_take]
        omega
      · rw [cons_append, take_append_drop]
    · have hshort : varint kind (first :: tail) = .error .incomplete := by
        have hbytes : bytes (intLen kind first) (first :: tail) = .error .incomplete :=
          if_neg (by rwa [length_cons])
        show (bytes (intLen kind first) (first :: tail) >>= fun p => _) = _
        rw [hbytes]
        rfl
      -- The bytes that are missing are zeros, the last one too.
      obtain ⟨missing, hmissing⟩ : ∃ missing, intLen kind first = tail.length + 1 + (missing + 1) :=
        ⟨intLen kind first - (tail.length + 1) - 1, by omega⟩
      have hlength : (tail ++ List.replicate (missing + 1) 0).length = tail.length + missing + 1 := by
        rw [length_append, length_replicate, Nat.add_assoc]
      refine .inr ⟨hshort, List.replicate (missing + 1) 0, _, ⟨first, _, cons_append, ?_, rfl⟩, ?_⟩
      · rw [hlength, hmissing]
        omega
      · rw [hlength, replicate_succ', ← append_assoc, beNat_concat_zero, pow_succ, ← Nat.mul_assoc]
        omega

namespace ControlMessage

end ControlMessage

/-! ## Streams -/

/-- The fields of a subgroup stream that the type of its header announces. -/
def StreamHeaderType.fields (code : Nat) : List Field :=
  match fromCode code with
  | .ok t => [.int, .int] ++ ((if t.hasSubgroupId then [.int] else []) ++ [.byte])
  | .error _ => []

/-- The status of an empty object, or the payload. -/
def statusFields (len : Nat) : List Field := (if len = 0 then [.int] else []) ++ [.raw len]

/-- The fields of the next item of a subgroup stream. -/
def SubgroupState.layout (s : SubgroupState) : List Field :=
  match s.header with
  | none => [.switch StreamHeaderType.fields]
  | some header => .int :: ((if header.headerType.hasExtensionHeaders then [.block] else []) ++ [.switch statusFields])

/-- The fields of an object on a FETCH stream that its flags announce. -/
def Flag.fields (flags : Nat) : List Field :=
  if flags = endOfNonExistentRange ∨ flags = endOfUnknownRange then [.int, .int, .int]
  else (if flags &&& Flag.groupId ≠ 0 then [.int] else []) ++ ((if flags &&& Flag.objectId ≠ 0 then [.int] else []) ++
      ((if flags &&& Flag.datagram = 0 ∧ flags &&& Flag.subgroupMode = 3 then [.int] else []) ++
        ((if flags &&& Flag.priority ≠ 0 then [.byte] else []) ++
          ((if flags &&& Flag.properties ≠ 0 then [.block] else []) ++ [.switch fun len => [.raw len]]))))

/-- The fields of the next item of a FETCH stream. -/
def FetchState.layout (s : FetchState) : List Field :=
  match s.requestId with
  | none => [.int, .int]
  | some _ => [.switch Flag.fields]

/-! ### Complete items are not waited for -/

namespace SubgroupStreamDecoder

end SubgroupStreamDecoder

namespace FetchStreamDecoder

variable {version : MoqtVersion} {fs : List Field} {α : Type}

variable (prior : Option Prior)

end FetchStreamDecoder

/-! ### Items that can be completed -/

/-- The bytes reach into a block: they hold the fields before it and its length. -/
inductive Begun (kind : VarintKind) : List Field → List UInt8 → Prop where
  | here {fs : List Field} {len rest : List UInt8} {n : Nat} (len_eq : IsInt kind len n) :
    Begun kind (.block :: fs) (len ++ rest)
  | int {fs : List Field} {bs rest : List UInt8} {v : Nat} (int : IsInt kind bs v) (following : Begun kind fs rest) :
    Begun kind (.int :: fs) (bs ++ rest)
  | byte {fs : List Field} {rest : List UInt8} (b : UInt8) (following : Begun kind fs rest) :
    Begun kind (.byte :: fs) ([b] ++ rest)
  | raw {fs : List Field} {rest : List UInt8} (b : List UInt8) (following : Begun kind fs rest) :
    Begun kind (.raw b.length :: fs) (b ++ rest)
  | switch {fs : List Field} {f : Nat → List Field} {bs rest : List UInt8} {v : Nat} (int : IsInt kind bs v)
    (following : Begun kind (f v ++ fs) rest) : Begun kind (.switch f :: fs) (bs ++ rest)

/-- Any bytes reach into a block, or some more bytes make all fields complete. -/
def Fillable (kind : VarintKind) (fs : List Field) : Prop :=
  ∀ buf, Begun kind fs buf ∨ ∃ more, Whole kind fs (buf ++ more)

theorem IsInt.ne_nil (h : IsInt kind bs v) : bs ≠ [] := by
  obtain ⟨first, tail, rfl, -⟩ := h
  exact cons_ne_nil _ _

theorem Begun.ne_nil {fs : List Field} {buf : List UInt8} (h : Begun kind fs buf) : buf ≠ [] := by
  intro hnil
  induction h with
  | here len_eq => exact len_eq.ne_nil (List.append_eq_nil_iff.1 hnil).1
  | int int _ _ | switch int _ _ => exact int.ne_nil (List.append_eq_nil_iff.1 hnil).1
  | byte b _ _ => cases hnil
  | raw b _ ih => exact ih (List.append_eq_nil_iff.1 hnil).2

theorem pairs_zero (kind : VarintKind) (count : Nat) : Pairs kind 0 count (List.replicate (2 * count) 0) := by
  have hzero : IsInt kind [0] 0 := by
    refine ⟨0, [], rfl, ?_, ?_⟩
    · cases kind <;> rfl
    · cases kind <;> rfl
  induction count with
  | zero => exact .nil 0
  | succ count ih => exact .int hzero rfl hzero ih

namespace Fillable

variable {fs : List Field}

theorem nil : Fillable kind [] := fun _ => .inr ⟨[], .done _⟩

theorem of_nil (h : Fillable kind fs) : ∃ more, Whole kind fs more :=
  (h []).resolve_left fun hbegun => hbegun.ne_nil rfl

theorem switch {f : Nat → List Field} (h : ∀ v, Fillable kind (f v ++ fs)) : Fillable kind (.switch f :: fs) := by
  intro buf
  rcases isInt_or_completes kind buf with ⟨bs, v, rest, hint, rfl⟩ | ⟨-, more, v, hint, -⟩
  · rcases h v rest with hbegun | ⟨more, hwhole⟩
    · exact .inl (.switch hint hbegun)
    · exact .inr ⟨more, by rw [append_assoc]; exact .switch hint hwhole⟩
  · obtain ⟨later, hwhole⟩ := (h v).of_nil
    exact .inr ⟨more ++ later, by rw [← append_assoc]; exact .switch hint hwhole⟩

theorem int (h : Fillable kind fs) : Fillable kind (.int :: fs) := by
  intro buf
  rcases isInt_or_completes kind buf with ⟨bs, v, rest, hint, rfl⟩ | ⟨-, more, v, hint, -⟩
  · rcases h rest with hbegun | ⟨more, hwhole⟩
    · exact .inl (.int hint hbegun)
    · exact .inr ⟨more, by rw [append_assoc]; exact .int hint hwhole⟩
  · obtain ⟨later, hwhole⟩ := h.of_nil
    exact .inr ⟨more ++ later, by rw [← append_assoc]; exact .int hint hwhole⟩

theorem byte (h : Fillable kind fs) : Fillable kind (.byte :: fs) := by
  intro buf
  cases buf with
  | nil =>
    obtain ⟨later, hwhole⟩ := h.of_nil
    exact .inr ⟨[0] ++ later, .byte 0 hwhole⟩
  | cons b rest =>
    rcases h rest with hbegun | ⟨more, hwhole⟩
    · exact .inl (.byte b hbegun)
    · exact .inr ⟨more, .byte b hwhole⟩

theorem raw (n : Nat) (h : Fillable kind fs) : Fillable kind (.raw n :: fs) := by
  intro buf
  by_cases hlength : n ≤ buf.length
  · have hcut : (buf.take n).length = n := length_take_of_le hlength
    rcases h (buf.drop n) with hbegun | ⟨more, hwhole⟩
    · have hraw := Begun.raw (buf.take n) hbegun
      rw [hcut, take_append_drop] at hraw
      exact .inl hraw
    · have hraw := Whole.raw (buf.take n) hwhole
      rw [hcut, ← append_assoc, take_append_drop] at hraw
      exact .inr ⟨more, hraw⟩
  · obtain ⟨later, hwhole⟩ := h.of_nil
    have hraw := Whole.raw (buf ++ List.replicate (n - buf.length) 0) hwhole
    rw [length_append, length_replicate, Nat.add_sub_cancel' (by omega), append_assoc] at hraw
    exact .inr ⟨_, hraw⟩

theorem block (h : Fillable kind fs) : Fillable kind (.block :: fs) := by
  intro buf
  rcases isInt_or_completes kind buf with ⟨bs, v, rest, hint, rfl⟩ | ⟨-, more, v, hint, heven⟩
  · exact .inl (.here hint)
  · -- A length that ends in zeros is even, and zeros are pairs.
    obtain ⟨count, rfl⟩ : ∃ count, v = 2 * count := ⟨v / 2, by omega⟩
    obtain ⟨later, hwhole⟩ := h.of_nil
    have hlength : IsInt kind (buf ++ more) (List.replicate (2 * count) (0 : UInt8)).length := by
      rwa [length_replicate]
    have hblock := Whole.block hlength (pairs_zero kind count) hwhole
    rw [append_assoc, append_assoc] at hblock
    exact .inr ⟨_, hblock⟩

end Fillable

end Glass2Glass.Moqt
