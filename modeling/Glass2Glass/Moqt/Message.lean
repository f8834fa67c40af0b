import Glass2Glass.Moqt.Coding

/-!
# Control messages

The control messages of MoQ Transport draft 16 and their frames: a type, a 16-bit length and a payload of exactly
that length (`g2g-plugins/src/moqt/message.rs`).
-/

namespace Glass2Glass.Moqt

open Codec Words

inductive MsgType where
  | requestUpdate
  | subscribe
  | subscribeOk
  | requestError
  | publishNamespace
  | requestOk
  | namespaceMsg
  | publishNamespaceDone
  | unsubscribe
  | publishDone
  | publishNamespaceCancel
  | trackStatus
  | namespaceDone
  | goAway
  | subscribeNamespace
  | maxRequestId
  | fetch
  | fetchCancel
  | fetchOk
  | requestsBlocked
  | clientSetup
  | serverSetup
  | publish
  | publishOk

namespace MsgType

def code : MsgType → Nat
  | requestUpdate => 0x2
  | subscribe => 0x3
  | subscribeOk => 0x4
  | requestError => 0x5
  | publishNamespace => 0x6
  | requestOk => 0x7
  | namespaceMsg => 0x8
  | publishNamespaceDone => 0x9
  | unsubscribe => 0xa
  | publishDone => 0xb
  | publishNamespaceCancel => 0xc
  | trackStatus => 0xd
  | namespaceDone => 0xe
  | goAway => 0x10
  | subscribeNamespace => 0x11
  | maxRequestId => 0x15
  | fetch => 0x16
  | fetchCancel => 0x17
  | fetchOk => 0x18
  | requestsBlocked => 0x1a
  | clientSetup => 0x20
  | serverSetup => 0x21
  | publish => 0x1d
  | publishOk => 0x1e

def all : List MsgType :=
  [requestUpdate, subscribe, subscribeOk, requestError, publishNamespace, requestOk, namespaceMsg,
    publishNamespaceDone, unsubscribe, publishDone, publishNamespaceCancel, trackStatus, namespaceDone, goAway,
    subscribeNamespace, maxRequestId, fetch, fetchCancel, fetchOk, requestsBlocked, clientSetup, serverSetup,
    publish, publishOk]

def fromCode (code : Nat) : Option MsgType := all.find? fun t => t.code == code

theorem fromCode_code (t : MsgType) : fromCode t.code = some t := by
  cases t <;> rfl

end MsgType

/-- A group and an object of it. -/
structure Location where
  groupId : Nat
  objectId : Nat

def Location.encode (l : Location) : List UInt8 := putVarint l.groupId ++ putVarint l.objectId

def Location.decode : Reader Location := do
  let groupId ← varint .quic
  let objectId ← varint .quic
  return { groupId, objectId }

inductive FetchType where
  | standalone
  | relativeJoining
  | absoluteJoining
  deriving DecidableEq

def FetchType.code : FetchType → Nat
  | standalone => 0x1
  | relativeJoining => 0x2
  | absoluteJoining => 0x3

def FetchType.fromCode : Nat → Except MoqtError FetchType
  | 0x1 => .ok standalone
  | 0x2 => .ok relativeJoining
  | 0x3 => .ok absoluteJoining
  | _ => .error .malformed

inductive SubscribeNamespaceOptions where
  | publish
  | namespaces
  | both

def SubscribeNamespaceOptions.code : SubscribeNamespaceOptions → Nat
  | publish => 0x0
  | namespaces => 0x1
  | both => 0x2

def SubscribeNamespaceOptions.fromCode : Nat → Except MoqtError SubscribeNamespaceOptions
  | 0x0 => .ok publish
  | 0x1 => .ok namespaces
  | 0x2 => .ok both
  | _ => .error .malformed

structure StandaloneFetch where
  ns : TrackNamespace
  trackName : TrackName
  start : Location
  stop : Location

structure JoiningFetch where
  joiningRequestId : Nat
  joiningStart : Nat

inductive ControlMessage where
  | clientSetup (params : Params)
  | serverSetup (params : Params)
  | requestUpdate (id existingRequestId : Nat) (params : Params)
  | subscribe (id : Nat) (ns : TrackNamespace) (trackName : TrackName) (params : Params)
  | subscribeOk (id trackAlias : Nat) (params extensions : Params)
  | requestError (id errorCode retryInterval : Nat) (reason : String)
  | publishNamespace (id : Nat) (ns : TrackNamespace) (params : Params)
  | requestOk (id : Nat) (params : Params)
  | namespaceMsg (suffix : TrackNamespacePrefix)
  | publishNamespaceDone (id : Nat)
  | unsubscribe (id : Nat)
  | publishDone (id statusCode streamCount : Nat) (reason : String)
  | publishNamespaceCancel (id errorCode : Nat) (reason : String)
  | trackStatus (id : Nat) (ns : TrackNamespace) (trackName : TrackName) (params : Params)
  | namespaceDone (suffix : TrackNamespacePrefix)
  | goAway (uri : String)
  | subscribeNamespace (id : Nat) (pre : TrackNamespacePrefix) (options : SubscribeNamespaceOptions) (params : Params)
  | maxRequestId (requestId : Nat)
  | fetch (id : Nat) (fetchType : FetchType) (standalone : Option StandaloneFetch) (joining : Option JoiningFetch)
    (params : Params)
  | fetchCancel (id : Nat)
  | fetchOk (id : Nat) (endOfTrack : Bool) (stop : Location) (params extensions : Params)
  | requestsBlocked (requestId : Nat)
  | publish (id : Nat) (ns : TrackNamespace) (trackName : TrackName) (trackAlias : Nat) (params extensions : Params)
  | publishOk (id : Nat) (params : Params)

namespace ControlMessage

def typeId : ControlMessage → MsgType
  | clientSetup .. => .clientSetup
  | serverSetup .. => .serverSetup
  | requestUpdate .. => .requestUpdate
  | subscribe .. => .subscribe
  | subscribeOk .. => .subscribeOk
  | requestError .. => .requestError
  | publishNamespace .. => .publishNamespace
  | requestOk .. => .requestOk
  | namespaceMsg .. => .namespaceMsg
  | publishNamespaceDone .. => .publishNamespaceDone
  | unsubscribe .. => .unsubscribe
  | publishDone .. => .publishDone
  | publishNamespaceCancel .. => .publishNamespaceCancel
  | trackStatus .. => .trackStatus
  | namespaceDone .. => .namespaceDone
  | goAway .. => .goAway
  | subscribeNamespace .. => .subscribeNamespace
  | maxRequestId .. => .maxRequestId
  | fetch .. => .fetch
  | fetchCancel .. => .fetchCancel
  | fetchOk .. => .fetchOk
  | requestsBlocked .. => .requestsBlocked
  | publish .. => .publish
  | publishOk .. => .publishOk

/-! ## Writing -/

def encodeFullTrackRequest (id : Nat) (ns : TrackNamespace) (trackName : TrackName) (params : Params) : Written := do
  let ns ← ns.encode
  let name ← trackName.encode
  let params ← params.encode
  return putVarint id ++ (ns ++ (name ++ params))

def encodePayload : ControlMessage → Written
  | clientSetup params => params.encode
  | serverSetup params => params.encode
  | requestUpdate id existingRequestId params => do
    let params ← params.encode
    return putVarint id ++ (putVarint existingRequestId ++ params)
  | subscribe id ns trackName params => encodeFullTrackRequest id ns trackName params
  | trackStatus id ns trackName params => encodeFullTrackRequest id ns trackName params
  | subscribeOk id trackAlias params extensions => do
    let params ← params.encode
    let extensions ← extensions.encodePairs .quic
    return putVarint id ++ (putVarint trackAlias ++ (params ++ extensions))
  | requestError id errorCode retryInterval reason => do
    let reason ← encodeString reason maxReasonPhraseLen
    return putVarint id ++ (putVarint errorCode ++ (putVarint retryInterval ++ reason))
  | publishNamespace id ns params => do
    let ns ← ns.encode
    let params ← params.encode
    return putVarint id ++ (ns ++ params)
  | requestOk id params => do
    let params ← params.encode
    return putVarint id ++ params
  | publishOk id params => do
    let params ← params.encode
    return putVarint id ++ params
  | namespaceMsg suffix => suffix.encode
  | namespaceDone suffix => suffix.encode
  | publishNamespaceDone id => .ok (putVarint id)
  | unsubscribe id => .ok (putVarint id)
  | fetchCancel id => .ok (putVarint id)
  | publishDone id statusCode streamCount reason => do
    let reason ← encodeString reason maxReasonPhraseLen
    return putVarint id ++ (putVarint statusCode ++ (putVarint streamCount ++ reason))
  | publishNamespaceCancel id errorCode reason => do
    let reason ← encodeString reason maxReasonPhraseLen
    return putVarint id ++ (putVarint errorCode ++ reason)
  | goAway uri => encodeString uri maxSessionUriLen
  | subscribeNamespace id pre options params => do
    let pre ← pre.encode
    let params ← params.encode
    return putVarint id ++ (pre ++ (putVarint options.code ++ params))
  | maxRequestId requestId => .ok (putVarint requestId)
  | requestsBlocked requestId => .ok (putVarint requestId)
  | fetch id .standalone (some body) _ params => do
    let ns ← body.ns.encode
    let name ← body.trackName.encode
    let params ← params.encode
    return putVarint id ++ (putVarint FetchType.standalone.code ++ (ns ++ (name ++ (body.start.encode ++
      (body.stop.encode ++ params)))))
  | fetch _ .standalone none _ _ => .error .malformed
  | fetch id fetchType _ (some body) params => do
    let params ← params.encode
    return putVarint id ++ (putVarint fetchType.code ++ (putVarint body.joiningRequestId ++
      (putVarint body.joiningStart ++ params)))
  | fetch _ _ _ none _ => .error .malformed
  | fetchOk id endOfTrack stop params extensions => do
    let params ← params.encode
    let extensions ← extensions.encodePairs .quic
    return putVarint id ++ ([if endOfTrack then 1 else 0] ++ (stop.encode ++ (params ++ extensions)))
  | publish id ns trackName trackAlias params extensions => do
    let ns ← ns.encode
    let name ← trackName.encode
    let params ← params.encode
    let extensions ← extensions.encodePairs .quic
    return putVarint id ++ (ns ++ (name ++ (putVarint trackAlias ++ (params ++ extensions))))

def encode (m : ControlMessage) : Written := do
  let payload ← m.encodePayload
  require (payload.length ≤ 65535)
  return putVarint m.typeId.code ++ (beBytes 2 payload.length ++ payload)

/-! ## Reading -/

/-- A namespace and a name that fit together. -/
def readFullTrackName : Reader (TrackNamespace × TrackName) := do
  let ns ← TrackNamespace.decode
  let name ← TrackName.decode
  StateT.lift (validateFullTrackName ns name)
  return (ns, name)

/-- The shape that SUBSCRIBE and TRACK_STATUS share. -/
def readFullTrackRequest : Reader (Nat × TrackNamespace × TrackName × Params) := do
  let id ← varint .quic
  let name ← readFullTrackName
  let params ← Params.decode
  return (id, name.1, name.2, params)

def readFetchBody : FetchType → Reader (Option StandaloneFetch × Option JoiningFetch)
  | .standalone => do
    let name ← readFullTrackName
    let start ← Location.decode
    let stop ← Location.decode
    return (some { ns := name.1, trackName := name.2, start, stop }, none)
  | _ => do
    let joiningRequestId ← varint .quic
    let joiningStart ← varint .quic
    return (none, some { joiningRequestId, joiningStart })

def readBody : MsgType → Reader ControlMessage
  | .clientSetup => do
    let params ← Params.decode
    return clientSetup params
  | .serverSetup => do
    let params ← Params.decode
    return serverSetup params
  | .requestUpdate => do
    let id ← varint .quic
    let existingRequestId ← varint .quic
    let params ← Params.decode
    return requestUpdate id existingRequestId params
  | .subscribe => do
    let request ← readFullTrackRequest
    return subscribe request.1 request.2.1 request.2.2.1 request.2.2.2
  | .trackStatus => do
    let request ← readFullTrackRequest
    return trackStatus request.1 request.2.1 request.2.2.1 request.2.2.2
  | .subscribeOk => do
    let id ← varint .quic
    let trackAlias ← varint .quic
    let params ← Params.decode
    let extensions ← Params.decodeToEnd .quic
    return subscribeOk id trackAlias params extensions
  | .requestError => do
    let id ← varint .quic
    let errorCode ← varint .quic
    let retryInterval ← varint .quic
    let reason ← string .quic maxReasonPhraseLen
    return requestError id errorCode retryInterval reason
  | .publishNamespace => do
    let id ← varint .quic
    let ns ← TrackNamespace.decode
    let params ← Params.decode
    return publishNamespace id ns params
  | .requestOk => do
    let id ← varint .quic
    let params ← Params.decode
    return requestOk id params
  | .publishOk => do
    let id ← varint .quic
    let params ← Params.decode
    return publishOk id params
  | .namespaceMsg => do
    let suffix ← TrackNamespacePrefix.decode
    return namespaceMsg suffix
  | .namespaceDone => do
    let suffix ← TrackNamespacePrefix.decode
    return namespaceDone suffix
  | .publishNamespaceDone => do
    let id ← varint .quic
    return publishNamespaceDone id
  | .unsubscribe => do
    let id ← varint .quic
    return unsubscribe id
  | .fetchCancel => do
    let id ← varint .quic
    return fetchCancel id
  | .publishDone => do
    let id ← varint .quic
    let statusCode ← varint .quic
    let streamCount ← varint .quic
    let reason ← string .quic maxReasonPhraseLen
    return publishDone id statusCode streamCount reason
  | .publishNamespaceCancel => do
    let id ← varint .quic
    let errorCode ← varint .quic
    let reason ← string .quic maxReasonPhraseLen
    return publishNamespaceCancel id errorCode reason
  | .goAway => do
    let uri ← string .quic maxSessionUriLen
    return goAway uri
  | .subscribeNamespace => do
    let id ← varint .quic
    let pre ← TrackNamespacePrefix.decode
    let code ← varint .quic
    let options ← StateT.lift (SubscribeNamespaceOptions.fromCode code)
    let params ← Params.decode
    return subscribeNamespace id pre options params
  | .maxRequestId => do
    let requestId ← varint .quic
    return maxRequestId requestId
  | .requestsBlocked => do
    let requestId ← varint .quic
    return requestsBlocked requestId
  | .fetch => do
    let id ← varint .quic
    let code ← varint .quic
    let fetchType ← StateT.lift (FetchType.fromCode code)
    let body ← readFetchBody fetchType
    let params ← Params.decode
    return fetch id fetchType body.1 body.2 params
  | .fetchOk => do
    let id ← varint .quic
    let endOfTrack ← bool
    let stop ← Location.decode
    let params ← Params.decode
    let extensions ← Params.decodeToEnd .quic
    return fetchOk id endOfTrack stop params extensions
  | .publish => do
    let id ← varint .quic
    let name ← readFullTrackName
    let trackAlias ← varint .quic
    let params ← Params.decode
    let extensions ← Params.decodeToEnd .quic
    return publish id name.1 name.2 trackAlias params extensions

/-- Read the payload of a message of some type. -/
def read (typ : Nat) : Reader ControlMessage :=
  match MsgType.fromCode typ with
  | some t => readBody t
  | none => throw .malformed

/-- Decode a payload, which has to be used up. -/
def decodePayload (typ : Nat) (payload : List UInt8) : Except MoqtError ControlMessage := do
  let out ← read typ payload
  require (out.2 = [])
  return out.1

def frame : Reader (Nat × List UInt8) := do
  let typ ← varint .quic
  let len ← u16
  let payload ← bytes len
  return (typ, payload)

/-- Decode a framed message, with the number of bytes that it took. -/
def decode (buf : List UInt8) : Except MoqtError (ControlMessage × Nat) := do
  let out ← frame buf
  let msg ← decodePayload out.1.1 out.1.2
  return (msg, buf.length - out.2.length)

end ControlMessage

end Glass2Glass.Moqt
