import Glass2Glass.Moqt.Coding

/-!
# Subgroup streams

The header of a subgroup stream, the header of each object on it, and the decoder that takes whole objects from the
bytes that have arrived (`g2g-plugins/src/moqt/data.rs` and `SubgroupStreamDecoder` in `reassembly.rs`).
-/

namespace Glass2Glass.Moqt

open Codec Words

inductive StreamHeaderType where
  | subgroupZeroId
  | subgroupZeroIdExt
  | subgroupFirstObjectId
  | subgroupFirstObjectIdExt
  | subgroupId
  | subgroupIdExt
  | subgroupZeroIdEndOfGroup
  | subgroupZeroIdExtEndOfGroup
  | subgroupFirstObjectIdEndOfGroup
  | subgroupFirstObjectIdExtEndOfGroup
  | subgroupIdEndOfGroup
  | subgroupIdExtEndOfGroup

namespace StreamHeaderType

def code : StreamHeaderType → Nat
  | subgroupZeroId => 0x10
  | subgroupZeroIdExt => 0x11
  | subgroupFirstObjectId => 0x12
  | subgroupFirstObjectIdExt => 0x13
  | subgroupId => 0x14
  | subgroupIdExt => 0x15
  | subgroupZeroIdEndOfGroup => 0x18
  | subgroupZeroIdExtEndOfGroup => 0x19
  | subgroupFirstObjectIdEndOfGroup => 0x1a
  | subgroupFirstObjectIdExtEndOfGroup => 0x1b
  | subgroupIdEndOfGroup => 0x1c
  | subgroupIdExtEndOfGroup => 0x1d

def fromCode : Nat → Except MoqtError StreamHeaderType
  | 0x10 => .ok subgroupZeroId
  | 0x11 => .ok subgroupZeroIdExt
  | 0x12 => .ok subgroupFirstObjectId
  | 0x13 => .ok subgroupFirstObjectIdExt
  | 0x14 => .ok subgroupId
  | 0x15 => .ok subgroupIdExt
  | 0x18 => .ok subgroupZeroIdEndOfGroup
  | 0x19 => .ok subgroupZeroIdExtEndOfGroup
  | 0x1a => .ok subgroupFirstObjectIdEndOfGroup
  | 0x1b => .ok subgroupFirstObjectIdExtEndOfGroup
  | 0x1c => .ok subgroupIdEndOfGroup
  | 0x1d => .ok subgroupIdExtEndOfGroup
  | _ => .error .malformed

/-- An explicit subgroup id follows the group id. -/
def hasSubgroupId : StreamHeaderType → Bool
  | subgroupId | subgroupIdExt | subgroupIdEndOfGroup | subgroupIdExtEndOfGroup => true
  | _ => false

def hasExtensionHeaders : StreamHeaderType → Bool
  | subgroupZeroIdExt | subgroupFirstObjectIdExt | subgroupIdExt => true
  | subgroupZeroIdExtEndOfGroup | subgroupFirstObjectIdExtEndOfGroup | subgroupIdExtEndOfGroup => true
  | _ => false

theorem fromCode_code (t : StreamHeaderType) : fromCode t.code = .ok t := by
  cases t <;> rfl

end StreamHeaderType

inductive ObjectStatus where
  | normal
  | endOfGroup
  | endOfTrack
  deriving DecidableEq

def ObjectStatus.code : ObjectStatus → Nat
  | normal => 0x0
  | endOfGroup => 0x3
  | endOfTrack => 0x4

def ObjectStatus.fromCode : Nat → Except MoqtError ObjectStatus
  | 0x0 => .ok normal
  | 0x3 => .ok endOfGroup
  | 0x4 => .ok endOfTrack
  | _ => .error .malformed

/-! ## Headers -/

structure SubgroupHeader where
  headerType : StreamHeaderType
  trackAlias : Nat
  groupId : Nat
  subgroupId : Option Nat
  publisherPriority : UInt8

def required {α : Type} : Option α → Except MoqtError α
  | some a => .ok a
  | none => .error .malformed

def encodeSubgroupId (h : SubgroupHeader) : Written :=
  if h.headerType.hasSubgroupId then (required h.subgroupId).map putVarint else .ok []

def SubgroupHeader.encode (h : SubgroupHeader) : Written := do
  let subgroup ← encodeSubgroupId h
  return putVarint h.headerType.code ++ (putVarint h.trackAlias ++ (putVarint h.groupId ++ (subgroup ++
    [h.publisherPriority])))

def readSubgroupId (headerType : StreamHeaderType) : Reader (Option Nat) :=
  if headerType.hasSubgroupId then do
    let id ← varint .quic
    return some id
  else pure none

def SubgroupHeader.decode : Reader SubgroupHeader := do
  let code ← varint .quic
  let headerType ← StateT.lift (StreamHeaderType.fromCode code)
  let trackAlias ← varint .quic
  let groupId ← varint .quic
  let subgroupId ← readSubgroupId headerType
  let publisherPriority ← u8
  return { headerType, trackAlias, groupId, subgroupId, publisherPriority }

structure SubgroupObjectHeader where
  objectIdDelta : Nat
  extensionHeaders : Params
  payloadLength : Nat
  status : Option ObjectStatus

def encodeExtensions (headerType : StreamHeaderType) (extensions : Params) : Written :=
  if headerType.hasExtensionHeaders then extensions.encodeExtensionHeaders
  else if extensions.pairs.isEmpty then .ok [] else .error .malformed

/-- The status, which only an empty object has. -/
def encodeStatus (payloadLength : Nat) (status : Option ObjectStatus) : Written :=
  if payloadLength = 0 then (required status).map fun status => putVarint status.code else .ok []

def SubgroupObjectHeader.encode (headerType : StreamHeaderType) (o : SubgroupObjectHeader) : Written := do
  let extensions ← encodeExtensions headerType o.extensionHeaders
  let status ← encodeStatus o.payloadLength o.status
  return putVarint o.objectIdDelta ++ (extensions ++ (putVarint o.payloadLength ++ status))

def readExtensions (headerType : StreamHeaderType) : Reader Params :=
  if headerType.hasExtensionHeaders then Params.decodeExtensionHeaders .quic else pure ⟨[]⟩

/-- The status of an empty object. Only a normal one may have extension headers. -/
def readStatus (payloadLength : Nat) (extensions : Params) : Reader (Option ObjectStatus) :=
  if payloadLength = 0 then do
    let code ← varint .quic
    let status ← StateT.lift (ObjectStatus.fromCode code)
    StateT.lift (require (status = .normal ∨ extensions.pairs = []))
    return some status
  else pure none

def SubgroupObjectHeader.decode (headerType : StreamHeaderType) : Reader SubgroupObjectHeader := do
  let objectIdDelta ← varint .quic
  let extensionHeaders ← readExtensions headerType
  let payloadLength ← varint .quic
  let status ← readStatus payloadLength extensionHeaders
  return { objectIdDelta, extensionHeaders, payloadLength, status }

/-! ## The decoder -/

/-- Room beside the payload of an object in the buffer of a decoder. -/
def decoderSlack : Nat := 128 * 1024

/-- The first object's delta is its id, the later ones count from the object before. -/
def nextObjectId (prev : Option Nat) (delta : Nat) : Except MoqtError Nat :=
  match prev with
  | some prev => (require (prev + delta + 1 < 2 ^ 64)).map fun _ => prev + delta + 1
  | none => .ok delta

/-- A whole object with its ids. -/
structure ReceivedObject where
  groupId : Nat
  objectId : Nat
  status : ObjectStatus
  payload : List UInt8

inductive StreamItem where
  | header (header : SubgroupHeader)
  | object (object : ReceivedObject)

/-- What a decoder knows of its stream. -/
structure SubgroupState where
  header : Option SubgroupHeader
  prevObjectId : Option Nat

namespace SubgroupStreamDecoder

variable (maxObjectBytes : Nat) (s : SubgroupState)

/-- The next item of the stream, and what is known after it. -/
def item : Reader (StreamItem × SubgroupState) :=
  match s.header with
  | none => do
    let header ← SubgroupHeader.decode
    return (.header header, { s with header := some header })
  | some header => do
    let object ← SubgroupObjectHeader.decode header.headerType
    StateT.lift (require (object.payloadLength ≤ maxObjectBytes))
    let payload ← bytes object.payloadLength
    let objectId ← StateT.lift (nextObjectId s.prevObjectId object.objectIdDelta)
    return (.object { groupId := header.groupId, objectId, status := object.status.getD .normal, payload },
      { s with prevObjectId := some objectId })

def new : Incremental.Decoder SubgroupState := { state := { header := none, prevObjectId := none }, buf := [] }

/-- Append bytes. The sums are of lengths of buffers, which no word is too short for. -/
def push (maxObjectBytes : Nat) : Incremental.Decoder SubgroupState → List UInt8 →
    Except MoqtError (Incremental.Decoder SubgroupState) :=
  Incremental.push .malformed (maxObjectBytes + decoderSlack)

def nextItem (maxObjectBytes : Nat) : Incremental.Decoder SubgroupState →
    Except MoqtError (Option StreamItem × Incremental.Decoder SubgroupState) :=
  Incremental.nextItem .incomplete (item maxObjectBytes)

/-- Push the pieces of a stream, and take the items after each. -/
def feed (maxObjectBytes : Nat) : Incremental.Decoder SubgroupState → List (List UInt8) →
    Except MoqtError (List StreamItem × Incremental.Decoder SubgroupState) :=
  Incremental.feed .incomplete .malformed (item maxObjectBytes) (maxObjectBytes + decoderSlack)

/-! ### Bytes that arrive later -/

end SubgroupStreamDecoder

end Glass2Glass.Moqt
