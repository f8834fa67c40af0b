import Glass2Glass.Lib.Incremental
import Glass2Glass.Lib.Loop
import Glass2Glass.Moqt.Varint
import Mathlib.Data.List.Sort

/-!
# Primitive coding of MoQ Transport

Byte strings, track namespaces and names, and the delta-coded key-value pairs that carry every parameter
(`g2g-plugins/src/moqt/coding.rs`). Writers return what they append, or why they refuse.
-/

namespace Glass2Glass.Moqt

open Codec Words List

variable {written : List UInt8}

def maxFullTrackNameLen : Nat := 4096

def maxNamespaceFields : Nat := 32

def maxKvpBytesLen : Nat := 65535

def maxReasonPhraseLen : Nat := 1024

def maxSessionUriLen : Nat := 8192

abbrev Written := Except MoqtError (List UInt8)

/-- Go on only if a condition holds. -/
def require (ok : Prop) [Decidable ok] : Except MoqtError Unit := if ok then .ok () else .error .malformed

/-! ## Byte strings -/

/-- A byte string behind its length. -/
def putBytes (kind : VarintKind) (b : List UInt8) : List UInt8 := putInt kind b.length ++ b

def u8 : Reader UInt8 := do
  let b ← bytes 1
  return b.headD 0

def u16 : Reader Nat := do
  let b ← bytes 2
  return beNat b

/-- A flag in one byte. -/
def bool : Reader Bool := do
  let b ← u8
  StateT.lift (require (b = 0 ∨ b = 1))
  return b = 1

/-- A byte string behind its length, which has a bound. -/
def lengthBytes (kind : VarintKind) (max : Nat) : Reader (List UInt8) := do
  let len ← varint kind
  StateT.lift (require (len ≤ max))
  bytes len

def utf8 (s : String) : List UInt8 := s.toUTF8.data.toList

/-- The string with the given bytes. -/
def fromUtf8 (b : List UInt8) : Except MoqtError String :=
  match String.fromUTF8? ⟨b.toArray⟩ with
  | some s => .ok s
  | none => .error .malformed

def string (kind : VarintKind) (max : Nat) : Reader String := do
  let raw ← lengthBytes kind max
  StateT.lift (fromUtf8 raw)

def encodeString (s : String) (max : Nat) : Written := do
  require ((utf8 s).length ≤ max)
  return putVarint (utf8 s).length ++ utf8 s

/-! ## Namespaces and names -/

def byteLen (fields : List (List UInt8)) : Nat := (fields.map List.length).sum

def encodeNamespace (fields : List (List UInt8)) (min : Nat) : Written := do
  require (min ≤ fields.length ∧ fields.length ≤ maxNamespaceFields)
  require (byteLen fields ≤ maxFullTrackNameLen)
  require (∀ field ∈ fields, field ≠ [])
  return putVarint fields.length ++ fields.flatMap (putBytes .quic)

/-- The fields of a namespace, after `total` bytes of others. -/
def namespaceFields : Nat → Nat → Reader (List (List UInt8))
  | 0, _ => pure []
  | count + 1, total => do
    let field ← lengthBytes .quic maxFullTrackNameLen
    StateT.lift (require (field ≠ []))
    StateT.lift (require (total + field.length ≤ maxFullTrackNameLen))
    let fields ← namespaceFields count (total + field.length)
    return field :: fields

def decodeNamespace (min : Nat) : Reader (List (List UInt8)) := do
  let count ← varint .quic
  StateT.lift (require (min ≤ count ∧ count ≤ maxNamespaceFields))
  namespaceFields count 0

/-- A track namespace has a field at least. -/
structure TrackNamespace where
  fields : List (List UInt8)

def TrackNamespace.encode (ns : TrackNamespace) : Written := encodeNamespace ns.fields 1

def TrackNamespace.decode : Reader TrackNamespace := do
  let fields ← decodeNamespace 1
  return ⟨fields⟩

/-- A namespace prefix may be empty. -/
structure TrackNamespacePrefix where
  fields : List (List UInt8)

def TrackNamespacePrefix.encode (ns : TrackNamespacePrefix) : Written := encodeNamespace ns.fields 0

def TrackNamespacePrefix.decode : Reader TrackNamespacePrefix := do
  let fields ← decodeNamespace 0
  return ⟨fields⟩

structure TrackName where
  name : List UInt8

def TrackName.encode (name : TrackName) : Written := do
  require (name.name.length ≤ maxFullTrackNameLen)
  return putBytes .quic name.name

def TrackName.decode : Reader TrackName := do
  let name ← lengthBytes .quic maxFullTrackNameLen
  return ⟨name⟩

/-- A namespace and a name have to fit together. -/
def validateFullTrackName (ns : TrackNamespace) (name : TrackName) : Except MoqtError Unit :=
  require (byteLen ns.fields + name.name.length ≤ maxFullTrackNameLen)

/-! ## Key-value pairs -/

inductive ParamValue where
  | int (v : Nat)
  | bytes (b : List UInt8)

structure Params where
  pairs : List (Nat × ParamValue)

/-- Even keys carry an integer, odd ones bytes. -/
def ParamValue.Matches (key : Nat) : ParamValue → Prop
  | int _ => key % 2 = 0
  | bytes _ => key % 2 ≠ 0

instance (key : Nat) : (value : ParamValue) → Decidable (value.Matches key)
  | .int _ => inferInstanceAs (Decidable (key % 2 = 0))
  | .bytes _ => inferInstanceAs (Decidable (key % 2 ≠ 0))

def ParamValue.encode (kind : VarintKind) : ParamValue → Written
  | int v => .ok (putInt kind v)
  | bytes b => do
    require (b.length ≤ maxKvpBytesLen)
    return putBytes kind b

/-- Pairs in order of their keys, each key as the distance from the one before it. -/
def encodeSorted (kind : VarintKind) : Nat → List (Nat × ParamValue) → Written
  | _, [] => .ok []
  | prev, (key, value) :: pairs => do
    require (prev ≤ key)
    require (value.Matches key)
    let written ← value.encode kind
    let rest ← encodeSorted kind key pairs
    return putInt kind (key - prev) ++ (written ++ rest)

def Params.encodePairs (kind : VarintKind) (params : Params) : Written :=
  encodeSorted kind 0 (params.pairs.mergeSort fun a b => a.1 ≤ b.1)

/-- The pairs behind their count. -/
def Params.encode (params : Params) : Written := do
  let pairs ← params.encodePairs .quic
  return putVarint params.pairs.length ++ pairs

/-- The pairs behind the number of their bytes. -/
def Params.encodeExtensionHeaders (params : Params) : Written := do
  let body ← params.encodePairs .quic
  return putBytes .quic body

def decodePair (kind : VarintKind) (prev : Nat) : Reader (Nat × ParamValue) := do
  let delta ← varint kind
  StateT.lift (require (prev + delta < 2 ^ 64))
  if (prev + delta) % 2 = 0 then do
    let v ← varint kind
    return (prev + delta, .int v)
  else do
    let b ← lengthBytes kind maxKvpBytesLen
    return (prev + delta, .bytes b)

def decodePairs (kind : VarintKind) : Nat → Nat → Reader (List (Nat × ParamValue))
  | 0, _ => pure []
  | count + 1, prev => do
    let pair ← decodePair kind prev
    let pairs ← decodePairs kind count pair.1
    return pair :: pairs

def Params.decode : Reader Params := do
  let count ← varint .quic
  let pairs ← decodePairs .quic count 0
  return ⟨pairs⟩

/-- Pairs up to the end of the bytes. Each takes a byte at least, so as many rounds as there are bytes are enough. -/
def pairsToEnd (kind : VarintKind) : Nat → Nat → Reader (List (Nat × ParamValue))
  | 0, _ => pure []
  | fuel + 1, prev => do
    let input ← get
    if input.isEmpty then pure []
    else do
      let pair ← decodePair kind prev
      let pairs ← pairsToEnd kind fuel pair.1
      return pair :: pairs

def Params.decodeToEnd (kind : VarintKind) : Reader Params := do
  let input ← get
  let pairs ← pairsToEnd kind input.length 0
  return ⟨pairs⟩

/-- The pairs of a block that is read apart from what follows it. -/
def Params.fromBlock (kind : VarintKind) (body : List UInt8) : Except MoqtError Params :=
  (Params.decodeToEnd kind body).map Prod.fst

/-- The pairs behind the number of their bytes. -/
def Params.decodeExtensionHeaders (kind : VarintKind) : Reader Params := do
  let body ← lengthBytes kind maxKvpBytesLen
  StateT.lift (Params.fromBlock kind body)

/-! ## What is written is read back -/

variable {ok : Prop}

theorem require_eq_ok [Decidable ok] : require ok = .ok () ↔ ok := by
  unfold require
  split_ifs with h
  · exact iff_of_true rfl h
  · exact iff_of_false (fun heq => by cases heq) h

theorem require_bind_eq_ok {α : Type} [Decidable ok] {x : Except MoqtError α} {a : α} :
    (require ok >>= fun _ => x) = .ok a ↔ ok ∧ x = .ok a := by
  rw [Loop.bind_eq_ok]
  exact ⟨fun h => ⟨require_eq_ok.1 h.choose_spec.1, h.choose_spec.2⟩, fun h => ⟨(), require_eq_ok.2 h.1, h.2⟩⟩

theorem decodes_require [Decidable ok] (h : ok) : Decodes (StateT.lift (require ok) : Reader Unit) [] () :=
  .lift (require_eq_ok.2 h)

theorem decodes_u8 (b : UInt8) : Decodes u8 [b] b := (Decodes.take MoqtError.incomplete [b]).map (List.headD · 0)

theorem decodes_u16 {v : Nat} (hv : v < 2 ^ 16) : Decodes u16 (beBytes 2 v) v := by
  have htake := Decodes.take MoqtError.incomplete (beBytes 2 v)
  have hmap := htake.map beNat
  rwa [beNat_beBytes (show v < 256 ^ 2 from hv)] at hmap

theorem decodes_bool (v : Bool) : Decodes bool [if v then 1 else 0] v := by
  refine (decodes_u8 _).last ((decodes_require ?_).last ?_)
  · cases v <;> decide
  · cases v <;> exact .pure _

variable {kind : VarintKind}

theorem decodes_lengthBytes {b : List UInt8} {max : Nat} (hmax : b.length ≤ max)
    (hint : b.length ≤ intMax kind) : Decodes (lengthBytes kind max) (putBytes kind b) b := by
  refine (decodes_varint hint).bind ?_
  exact (decodes_require hmax).bind (.take MoqtError.incomplete b)

theorem fromUtf8_utf8 (s : String) : fromUtf8 (utf8 s) = .ok s := by
  rw [fromUtf8, utf8, fromUTF8?_toUTF8]

theorem decodes_string {s : String} {max : Nat} (hmax : max ≤ varintMax)
    (h : encodeString s max = .ok written) : Decodes (string .quic max) written s := by
  obtain ⟨hlen, h⟩ := require_bind_eq_ok.1 h
  obtain rfl := Except.ok.inj h
  exact (@decodes_lengthBytes .quic _ _ hlen (hlen.trans hmax)).last (.lift (fromUtf8_utf8 s))

/-! ### Namespaces and names -/

theorem decodes_namespaceFields {fields : List (List UInt8)} {total : Nat} (hsome : ∀ field ∈ fields, field ≠ [])
    (hfit : total + byteLen fields ≤ maxFullTrackNameLen) :
    Decodes (namespaceFields fields.length total) (fields.flatMap (putBytes .quic)) fields := by
  induction fields generalizing total with
  | nil => exact .pure []
  | cons field fields ih =>
    have hlength : byteLen (field :: fields) = field.length + byteLen fields := by simp [byteLen]
    have hint : field.length ≤ intMax .quic := by
      unfold maxFullTrackNameLen at hfit
      show field.length ≤ 2 ^ 62 - 1
      omega
    refine (decodes_lengthBytes (by omega) hint).bind ?_
    refine (decodes_require (hsome field mem_cons_self)).bind ?_
    refine (decodes_require (by omega)).bind ?_
    exact (ih (fun f hf => hsome f (mem_cons_of_mem _ hf)) (by omega)).map (field :: ·)

theorem decodes_decodeNamespace {fields : List (List UInt8)} {min : Nat}
    (h : encodeNamespace fields min = .ok written) : Decodes (decodeNamespace min) written fields := by
  obtain ⟨hcount, h⟩ := require_bind_eq_ok.1 h
  obtain ⟨htotal, h⟩ := require_bind_eq_ok.1 h
  obtain ⟨hsome, h⟩ := require_bind_eq_ok.1 h
  obtain rfl := Except.ok.inj h
  have hint : fields.length ≤ intMax .quic := hcount.2.trans (by decide)
  refine (decodes_varint hint).bind ((decodes_require hcount).bind ?_)
  exact decodes_namespaceFields hsome (by rwa [Nat.zero_add])

theorem TrackNamespace.decodes {ns : TrackNamespace} (h : ns.encode = .ok written) :
    Decodes TrackNamespace.decode written ns := (decodes_decodeNamespace h).map TrackNamespace.mk

theorem TrackNamespacePrefix.decodes {ns : TrackNamespacePrefix} (h : ns.encode = .ok written) :
    Decodes TrackNamespacePrefix.decode written ns := (decodes_decodeNamespace h).map TrackNamespacePrefix.mk

theorem TrackName.decodes {name : TrackName} (h : name.encode = .ok written) :
    Decodes TrackName.decode written name := by
  obtain ⟨hlen, h⟩ := require_bind_eq_ok.1 h
  obtain rfl := Except.ok.inj h
  exact (decodes_lengthBytes hlen (hlen.trans (by decide))).map TrackName.mk

/-! ### Key-value pairs -/

/-- Numbers in the pairs that the flavour carries. -/
def PairsFit (kind : VarintKind) (pairs : List (Nat × ParamValue)) : Prop :=
  ∀ pair ∈ pairs, pair.1 ≤ intMax kind ∧ ∀ v, pair.2 = .int v → v ≤ intMax kind

/-- Pairs as a sender keeps them, in the order of their keys. -/
structure Params.Fits (kind : VarintKind) (params : Params) : Prop where
  sorted : params.pairs.Pairwise fun a b => a.1 ≤ b.1
  fit : PairsFit kind params.pairs

theorem intMax_lt (kind : VarintKind) : intMax kind < 2 ^ 64 := by
  cases kind <;> decide

theorem kvp_le_intMax (kind : VarintKind) : maxKvpBytesLen ≤ intMax kind := by
  cases kind <;> decide

variable {prev : Nat}

theorem decodes_decodePair {key : Nat} {value : ParamValue}
    (hprev : prev ≤ key) (hkey : key ≤ intMax kind) (hmatches : value.Matches key)
    (hint : ∀ v, value = .int v → v ≤ intMax kind) (h : value.encode kind = .ok written) :
    Decodes (decodePair kind prev) (putInt kind (key - prev) ++ written) (key, value) := by
  have hsum : prev + (key - prev) = key := Nat.add_sub_of_le hprev
  refine (decodes_varint ((Nat.sub_le _ _).trans hkey)).bind ?_
  rw [hsum]
  refine (decodes_require (hkey.trans_lt (intMax_lt kind))).bind ?_
  cases value with
  | int v =>
    rw [if_pos (show key % 2 = 0 from hmatches)]
    obtain rfl := Except.ok.inj h
    exact (decodes_varint (hint v rfl)).map fun v => (key, ParamValue.int v)
  | bytes b =>
    rw [if_neg (show ¬key % 2 = 0 from hmatches)]
    obtain ⟨hlen, h⟩ := require_bind_eq_ok.1 h
    obtain rfl := Except.ok.inj h
    exact (decodes_lengthBytes hlen (hlen.trans (kvp_le_intMax kind))).map fun b => (key, ParamValue.bytes b)

variable {pairs : List (Nat × ParamValue)}

theorem encodeSorted_cons {key : Nat} {value : ParamValue}
    (h : encodeSorted kind prev ((key, value) :: pairs) = .ok written) :
    ∃ first rest, prev ≤ key ∧ value.Matches key ∧ value.encode kind = .ok first ∧
      encodeSorted kind key pairs = .ok rest ∧ written = putInt kind (key - prev) ++ first ++ rest := by
  obtain ⟨hprev, h⟩ := require_bind_eq_ok.1 h
  obtain ⟨hmatches, h⟩ := require_bind_eq_ok.1 h
  obtain ⟨first, hfirst, h⟩ := Loop.bind_eq_ok.1 h
  obtain ⟨rest, hrest, h⟩ := Loop.bind_eq_ok.1 h
  refine ⟨first, rest, hprev, hmatches, hfirst, hrest, ?_⟩
  rw [append_assoc]
  exact (Except.ok.inj h).symm

theorem decodes_decodePairs (hfit : PairsFit kind pairs) (h : encodeSorted kind prev pairs = .ok written) :
    Decodes (decodePairs kind pairs.length prev) written pairs := by
  induction pairs generalizing prev written with
  | nil =>
    obtain rfl := Except.ok.inj h
    exact .pure []
  | cons pair pairs ih =>
    obtain ⟨key, value⟩ := pair
    obtain ⟨first, rest, hprev, hmatches, hfirst, hrest, rfl⟩ := encodeSorted_cons h
    have hpair := hfit _ mem_cons_self
    refine (decodes_decodePair hprev hpair.1 hmatches hpair.2 hfirst).bind ?_
    exact (ih (fun p hp => hfit p (mem_cons_of_mem _ hp)) hrest).map ((key, value) :: ·)

theorem pairsToEnd_encodeSorted {fuel : Nat}
    (hfit : PairsFit kind pairs) (h : encodeSorted kind prev pairs = .ok written)
    (hfuel : written.length ≤ fuel) : pairsToEnd kind fuel prev written = .ok (pairs, []) := by
  induction pairs generalizing fuel prev written with
  | nil =>
    obtain rfl := Except.ok.inj h
    cases fuel <;> rfl
  | cons pair pairs ih =>
    obtain ⟨key, value⟩ := pair
    obtain ⟨first, rest, hprev, hmatches, hfirst, hrest, rfl⟩ := encodeSorted_cons h
    have hpair := hfit _ mem_cons_self
    have hdecodes := decodes_decodePair hprev hpair.1 hmatches hpair.2 hfirst
    have hpos := (length_putInt kind (key - prev)).1
    rw [length_append, length_append] at hfuel
    obtain ⟨fuel, rfl⟩ : ∃ n, fuel = n + 1 := ⟨fuel - 1, by omega⟩
    have hlength : rest.length ≤ fuel := by omega
    have hlater := ih (fun p hp => hfit p (mem_cons_of_mem _ hp)) hrest hlength
    have hsome : (putInt kind (key - prev) ++ first ++ rest).isEmpty = false := by
      rw [isEmpty_eq_false_iff, ne_nil_iff_length_pos, length_append, length_append]
      omega
    show (if (putInt kind (key - prev) ++ first ++ rest).isEmpty then _ else _ : Reader _) _ = _
    rw [hsome]
    refine hdecodes.bind_eq ?_
    show (pairsToEnd kind fuel key rest >>= _) = _
    rw [hlater]
    rfl

variable {params : Params}

theorem encodePairs_eq (h : params.Fits kind) : params.encodePairs kind = encodeSorted kind 0 params.pairs := by
  unfold Params.encodePairs
  rw [mergeSort_of_pairwise (h.sorted.imp fun hle => decide_eq_true hle)]

theorem length_le_encodeSorted (h : encodeSorted kind prev pairs = .ok written) : pairs.length ≤ written.length := by
  induction pairs generalizing prev written with
  | nil => exact Nat.zero_le _
  | cons pair pairs ih =>
    obtain ⟨key, value⟩ := pair
    obtain ⟨first, rest, -, -, -, hrest, rfl⟩ := encodeSorted_cons h
    have hpos := (length_putInt kind (key - prev)).1
    have hle := ih hrest
    rw [length_cons, length_append, length_append]
    omega

theorem Params.decodes (hfits : params.Fits .quic)
    (hlength : written.length ≤ varintMax) (h : params.encode = .ok written) :
    Decodes Params.decode written params := by
  obtain ⟨pairs, hpairs, h⟩ := Loop.bind_eq_ok.1 h
  obtain rfl := Except.ok.inj h
  rw [encodePairs_eq hfits] at hpairs
  have hcount : params.pairs.length ≤ varintMax := by
    have hle := length_le_encodeSorted hpairs
    rw [length_append] at hlength
    omega
  exact (decodes_putVarint hcount).bind ((decodes_decodePairs hfits.fit hpairs).map Params.mk)

/-- The pairs in the order of their keys. -/
def Params.inOrder (params : Params) : Params := ⟨params.pairs.mergeSort fun a b => a.1 ≤ b.1⟩

theorem Params.mem_inOrder {pair : Nat × ParamValue} :
    pair ∈ params.inOrder.pairs ↔ pair ∈ params.pairs := (mergeSort_perm _ _).mem_iff

theorem Params.inOrder_eq_nil : params.inOrder.pairs = [] ↔ params.pairs = [] := by
  rw [eq_nil_iff_forall_not_mem, eq_nil_iff_forall_not_mem]
  exact forall_congr' fun pair => not_congr Params.mem_inOrder

theorem Params.decodeToEnd_encodePairs (hfit : PairsFit kind params.pairs) (h : params.encodePairs kind = .ok written) :
    Params.decodeToEnd kind written = .ok (params.inOrder, []) := by
  have hsorted : PairsFit kind params.inOrder.pairs := fun pair hpair => hfit pair (Params.mem_inOrder.1 hpair)
  show (pairsToEnd kind written.length 0 written >>= fun p => Except.ok (Params.mk p.1, p.2)) = _
  rw [pairsToEnd_encodeSorted hsorted h le_rfl]
  rfl

theorem Params.Fits.inOrder (h : params.Fits kind) : params.inOrder = params := by
  unfold Params.inOrder
  rw [mergeSort_of_pairwise (h.sorted.imp fun hle => decide_eq_true hle)]

theorem decodes_decodeExtensionHeaders (hfit : PairsFit .quic params.pairs)
    (hlength : ∀ body, params.encodePairs .quic = .ok body → body.length ≤ maxKvpBytesLen)
    (h : params.encodeExtensionHeaders = .ok written) :
    Decodes (Params.decodeExtensionHeaders .quic) written params.inOrder := by
  obtain ⟨body, hbody, h⟩ := Loop.bind_eq_ok.1 h
  obtain rfl := Except.ok.inj h
  refine (decodes_lengthBytes (hlength body hbody) ((hlength body hbody).trans (kvp_le_intMax _))).last (.lift ?_)
  rw [Params.fromBlock, Params.decodeToEnd_encodePairs hfit hbody]
  rfl

/-! ## Bytes that arrive later -/

end Glass2Glass.Moqt
