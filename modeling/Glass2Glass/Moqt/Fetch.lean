import Glass2Glass.Moqt.Data

/-!
# FETCH streams

The objects of a FETCH response, each coded against the one before it, and the decoder that takes whole objects from
the bytes that have arrived (`g2g-plugins/src/moqt/fetch.rs`). Draft 16 writes ids as they are, draft 18 as distances.
-/

namespace Glass2Glass.Moqt

open Codec Words

inductive MoqtVersion where
  | v16
  | v18

/-- The integers of a draft. -/
def MoqtVersion.kind : MoqtVersion → VarintKind
  | v16 => .quic
  | v18 => .vi64

def fetchHeaderType : Nat := 0x05

namespace Flag

def subgroupMode : Nat := 0x03

def objectId : Nat := 0x04

def groupId : Nat := 0x08

def priority : Nat := 0x10

def properties : Nat := 0x20

def datagram : Nat := 0x40

def max : Nat := 0x7F

end Flag

def endOfNonExistentRange : Nat := 0x8C

def endOfUnknownRange : Nat := 0x10C

/-- The object before. -/
structure Prior where
  groupId : Nat
  objectId : Nat
  subgroupId : Nat
  priority : UInt8

/-! ## The writer -/

namespace FetchWriter

variable (version : MoqtVersion)

def header (requestId : Nat) : List UInt8 :=
  putInt version.kind fetchHeaderType ++ putInt version.kind requestId

/-- The priority, unless it is that of the object before. -/
def priorityField (prior : Prior) (priority : UInt8) : Nat × List UInt8 :=
  if priority ≠ prior.priority then (Flag.priority, [priority]) else (0, [])

/-- The group id after another one. -/
def groupField (prior : Prior) (groupId : Nat) : Except MoqtError Nat :=
  match version with
  | .v16 => .ok groupId
  | .v18 => (require (prior.groupId < groupId)).map fun _ => groupId - prior.groupId - 1

/-- The object id, unless it is the next one in the group. -/
def objectField (prior : Prior) (objectId : Nat) : Nat × List UInt8 :=
  if objectId ≠ min (prior.objectId + 1) (2 ^ 64 - 1) then
    (Flag.objectId, putInt version.kind (match version with
      | .v16 => objectId
      | .v18 => objectId - prior.objectId))
  else (0, [])

/-- The flags of an object and the fields that they announce. -/
def fields (prior : Option Prior) (groupId objectId : Nat) (priority : UInt8) : Except MoqtError (Nat × List UInt8) :=
  match prior with
  | none => .ok (Flag.groupId ||| Flag.objectId ||| Flag.priority,
      putInt version.kind groupId ++ (putInt version.kind objectId ++ [priority]))
  | some prior =>
    if prior.groupId ≠ groupId then
      (groupField version prior groupId).map fun group =>
        (Flag.groupId ||| Flag.objectId ||| (priorityField prior priority).1,
          putInt version.kind group ++ (putInt version.kind objectId ++ (priorityField prior priority).2))
    else (require (prior.objectId < objectId)).map fun _ =>
      ((objectField version prior objectId).1 ||| (priorityField prior priority).1,
        (objectField version prior objectId).2 ++ (priorityField prior priority).2)

def object (prior : Option Prior) (groupId objectId : Nat) (priority : UInt8)
    (payload : List UInt8) : Except MoqtError (List UInt8 × Prior) :=
  (fields version prior groupId objectId priority).map fun fields =>
    (putInt version.kind fields.1 ++ (fields.2 ++ (putInt version.kind payload.length ++ payload)),
      { groupId, objectId, subgroupId := 0, priority })

end FetchWriter

/-! ## The decoder -/

inductive FetchItem where
  | header (requestId : Nat)
  | object (object : ReceivedObject)
  | gap (groupId objectId : Nat)

/-- What a decoder knows of its stream. -/
structure FetchState where
  requestId : Option Nat
  prior : Option Prior

namespace FetchStreamDecoder

/-- A sum that fits a word. -/
def checkedAdd (a b : Nat) : Except MoqtError Nat := (require (a + b < 2 ^ 64)).map fun _ => a + b

variable (version : MoqtVersion)

def readHeader : Reader Nat := do
  let typ ← varint version.kind
  StateT.lift (require (typ = fetchHeaderType))
  varint version.kind

variable (prior : Option Prior)

/-- The group id, a field or that of the object before. -/
def readGroupId (present : Bool) : Reader Nat :=
  if present then do
    let field ← varint version.kind
    match version, prior with
    | .v18, some prior => StateT.lift ((checkedAdd prior.groupId field).bind fun g => checkedAdd g 1)
    | _, _ => pure field
  else StateT.lift ((required prior).map Prior.groupId)

/-- The object id, a field or the one after the object before. -/
def readObjectId (groupPresent present : Bool) : Reader Nat :=
  if present then do
    let field ← varint version.kind
    match version, prior, groupPresent with
    | .v18, some prior, false => StateT.lift (checkedAdd prior.objectId field)
    | _, _, _ => pure field
  else StateT.lift ((required prior).bind fun prior => checkedAdd prior.objectId 1)

def readSubgroup (flags : Nat) : Reader Nat :=
  if flags &&& Flag.datagram ≠ 0 then pure 0
  else if flags &&& Flag.subgroupMode = 0 then pure 0
  else if flags &&& Flag.subgroupMode = 1 then StateT.lift ((required prior).map Prior.subgroupId)
  else if flags &&& Flag.subgroupMode = 2 then
    StateT.lift ((required prior).bind fun prior => checkedAdd prior.subgroupId 1)
  else varint version.kind

def readPriority (flags : Nat) : Reader UInt8 :=
  if flags &&& Flag.priority ≠ 0 then u8 else StateT.lift ((required prior).map Prior.priority)

def readProperties (flags : Nat) : Reader Unit :=
  if flags &&& Flag.properties ≠ 0 then do
    let _ ← Params.decodeExtensionHeaders version.kind
  else pure ()

/-- What comes before the payload of an object: where the object stands, and the length of the payload. The marker
of a range has no payload. -/
def readFields : Reader (Prior × Option Nat) := do
  let flags ← varint version.kind
  if flags = endOfNonExistentRange ∨ flags = endOfUnknownRange then do
    let groupId ← readGroupId version prior true
    let objectId ← readObjectId version prior true true
    let length ← varint version.kind
    StateT.lift (require (length = 0))
    -- The subgroup and the priority stay those of the last object.
    return ({ prior.getD { groupId, objectId, subgroupId := 0, priority := 0 } with groupId, objectId }, none)
  else do
    StateT.lift (require (flags ≤ Flag.max))
    let groupId ← readGroupId version prior (flags &&& Flag.groupId ≠ 0)
    let objectId ← readObjectId version prior (flags &&& Flag.groupId ≠ 0) (flags &&& Flag.objectId ≠ 0)
    let subgroupId ← readSubgroup version prior flags
    let priority ← readPriority prior flags
    readProperties version flags
    let length ← varint version.kind
    return ({ groupId, objectId, subgroupId, priority }, some length)

variable (maxObjectBytes : Nat)

/-- An object and where the next one is coded from. The end of the payload has to fit a word. -/
def readObject : Reader (FetchItem × Prior) := do
  let out ← measured (readFields version prior)
  match out.1.2 with
  | none => return (.gap out.1.1.groupId out.1.1.objectId, out.1.1)
  | some length => do
    StateT.lift (require (length ≤ maxObjectBytes))
    StateT.lift (require (out.2 + length < 2 ^ 64))
    let payload ← bytes length
    return (.object { groupId := out.1.1.groupId, objectId := out.1.1.objectId, status := .normal, payload }, out.1.1)

/-- The next item of the stream, and what is known after it. -/
def item (s : FetchState) : Reader (FetchItem × FetchState) :=
  match s.requestId with
  | none => do
    let requestId ← readHeader version
    return (.header requestId, { s with requestId := some requestId })
  | some _ => do
    let out ← readObject version s.prior maxObjectBytes
    return (out.1, { s with prior := some out.2 })

def new : Incremental.Decoder FetchState := { state := { requestId := none, prior := none }, buf := [] }

/-- Append bytes. The sums are of lengths of buffers, which no word is too short for. -/
def push : Incremental.Decoder FetchState → List UInt8 → Except MoqtError (Incremental.Decoder FetchState) :=
  Incremental.push .malformed (maxObjectBytes + decoderSlack)

def nextItem : Incremental.Decoder FetchState → Except MoqtError (Option FetchItem × Incremental.Decoder FetchState) :=
  Incremental.nextItem .incomplete (item version maxObjectBytes)

/-- Push the pieces of a stream, and take the items after each. -/
def feed : Incremental.Decoder FetchState → List (List UInt8) →
    Except MoqtError (List FetchItem × Incremental.Decoder FetchState) :=
  Incremental.feed .incomplete .malformed (item version maxObjectBytes) (maxObjectBytes + decoderSlack)

/-! ### Bytes that arrive later -/

end FetchStreamDecoder

end Glass2Glass.Moqt
