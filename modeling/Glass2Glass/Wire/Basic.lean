import Glass2Glass.Caps.Basic
import Glass2Glass.Lib.Codec

/-!
# Wire primitives and enumeration tables

The writer and reader primitives of the packet codec, and its one-byte tables. Every writer here is
followed by the lemma that the reader of the same name recovers what it wrote.
-/

namespace Glass2Glass

open Codec

/-- Why a packet cannot be decoded or encoded. -/
inductive WireError where
  | truncated
  | badTag
  | unsupportedDomain
  deriving DecidableEq

namespace Wire

abbrev Reader (α : Type) := Codec.Reader WireError α

/-! ## Words and byte strings -/

/-- Write one byte. -/
def putU8 (v : UInt8) : List UInt8 := [v]

/-- Write a 16-bit word. -/
def putU16 (v : UInt16) : List UInt8 := leBytes 2 v.toNat

/-- Write a 32-bit word. -/
def putU32 (v : UInt32) : List UInt8 := leBytes 4 v.toNat

/-- Write a 64-bit word. -/
def putU64 (v : UInt64) : List UInt8 := leBytes 8 v.toNat

/-- Write a signed 64-bit word, in two's complement. -/
def putI64 (v : Int64) : List UInt8 := putU64 v.toUInt64

/-- Write a flag. -/
def putBool (v : Bool) : List UInt8 := putU8 (if v then 1 else 0)

/-- A length or count, as the 32-bit word that carries it. -/
def len32 (n : Nat) : UInt32 := UInt32.ofNat n

def utf8 (s : String) : List UInt8 := s.toUTF8.data.toList

/-- The string with the given bytes. -/
def fromUtf8 (b : List UInt8) : Except WireError String :=
  match String.fromUTF8? ⟨b.toArray⟩ with
  | some s => .ok s
  | none => .error .badTag

/-- Write a byte string behind its length. -/
def putBytes (b : List UInt8) : List UInt8 := putU32 (len32 b.length) ++ b

def putStr (s : String) : List UInt8 := putBytes (utf8 s)

def u8 : Reader UInt8 := do
  let b ← take .truncated 1
  return b.headD 0

/-- Read a 16-bit word. -/
def u16 : Reader UInt16 := do
  let b ← take .truncated 2
  return UInt16.ofNat (leNat b)

/-- Read a 32-bit word. -/
def u32 : Reader UInt32 := do
  let b ← take .truncated 4
  return UInt32.ofNat (leNat b)

/-- Read a 64-bit word. -/
def u64 : Reader UInt64 := do
  let b ← take .truncated 8
  return UInt64.ofNat (leNat b)

/-- Read a signed 64-bit word. -/
def i64 : Reader Int64 := do
  let v ← u64
  return v.toInt64

/-- Read a flag; every byte but zero is true. -/
def bool : Reader Bool := do
  let v ← u8
  return v != 0

/-- Read a byte string behind its length. -/
def bytes : Reader (List UInt8) := do
  let len ← u32
  take .truncated len.toNat

def str : Reader String := do
  let b ← bytes
  StateT.lift (fromUtf8 b)

/-- Read a byte that stands for a member of an enumeration. -/
def tagged {α : Type} (fromU8 : UInt8 → Except WireError α) : Reader α := do
  let v ← u8
  StateT.lift (fromU8 v)

theorem toNat_len32 {n : Nat} (h : n < 2 ^ 32) : (len32 n).toNat = n := by
  rw [len32, UInt32.toNat_ofNat']
  omega

theorem decodes_u8 (v : UInt8) : Decodes u8 (putU8 v) v :=
  (Decodes.take WireError.truncated [v]).map (List.headD · 0)

theorem decodes_word {α : Type} (width v : Nat) (ofNat : Nat → α) (h : v < 256 ^ width) :
    Decodes (do let b ← take WireError.truncated width; return ofNat (leNat b)) (leBytes width v)
      (ofNat v) := by
  have htake := Decodes.take WireError.truncated (leBytes width v)
  rw [length_leBytes] at htake
  have hmap := htake.map fun b => ofNat (leNat b)
  rwa [leNat_leBytes width v h] at hmap

theorem decodes_u16 (v : UInt16) : Decodes u16 (putU16 v) v := by
  have h := decodes_word 2 v.toNat UInt16.ofNat v.toNat_lt
  rwa [UInt16.ofNat_toNat] at h

theorem decodes_u32 (v : UInt32) : Decodes u32 (putU32 v) v := by
  have h := decodes_word 4 v.toNat UInt32.ofNat v.toNat_lt
  rwa [UInt32.ofNat_toNat] at h

theorem decodes_u64 (v : UInt64) : Decodes u64 (putU64 v) v := by
  have h := decodes_word 8 v.toNat UInt64.ofNat v.toNat_lt
  rwa [UInt64.ofNat_toNat] at h

theorem decodes_i64 (v : Int64) : Decodes i64 (putI64 v) v := by
  have h := (decodes_u64 v.toUInt64).map UInt64.toInt64
  rwa [Int64.toInt64_toUInt64] at h

theorem decodes_bool (v : Bool) : Decodes bool (putBool v) v := by
  have h := (decodes_u8 (if v then 1 else 0)).map fun b => b != 0
  rwa [show ((if v then (1 : UInt8) else 0) != 0) = v by cases v <;> rfl] at h

theorem decodes_bytes {b : List UInt8} (h : b.length < 2 ^ 32) : Decodes bytes (putBytes b) b := by
  refine (decodes_u32 (len32 b.length)).bind ?_
  rw [toNat_len32 h]
  exact Decodes.take WireError.truncated b

theorem fromUtf8_utf8 (s : String) : fromUtf8 (utf8 s) = .ok s := by
  rw [fromUtf8, utf8, fromUTF8?_toUTF8]

theorem decodes_str {s : String} (h : (utf8 s).length < 2 ^ 32) : Decodes str (putStr s) s :=
  (decodes_bytes h).last (.lift (fromUtf8_utf8 s))

theorem decodes_tagged {α : Type} {fromU8 : UInt8 → Except WireError α} {v : UInt8} {a : α}
    (h : fromU8 v = .ok a) : Decodes (tagged fromU8) (putU8 v) a :=
  (decodes_u8 v).last (.lift h)

end Wire

end Glass2Glass
