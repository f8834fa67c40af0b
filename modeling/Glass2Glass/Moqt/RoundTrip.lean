import Glass2Glass.Moqt.Message

/-!
# Control messages are read back

A message that the encoder accepts is read back with whatever follows it, field by field. One bound is enforced by
the decoder only: the namespace and the name of a track have to fit in 4096 bytes together, and the encoder checks
each of them alone (`decode_encode_iff`).
-/

namespace Glass2Glass.Moqt

open Codec Words List
open Loop (bind_eq_ok)

/-! ## Messages that can be sent -/

def Location.Fits (l : Location) : Prop := l.groupId ≤ varintMax ∧ l.objectId ≤ varintMax

namespace ControlMessage

/-- FETCH carries just the body that its type names. -/
def FetchFits : FetchType → Option StandaloneFetch → Option JoiningFetch → Prop
  | .standalone, some body, none => body.start.Fits ∧ body.stop.Fits
  | .relativeJoining, none, some body => body.joiningRequestId ≤ varintMax ∧ body.joiningStart ≤ varintMax
  | .absoluteJoining, none, some body => body.joiningRequestId ≤ varintMax ∧ body.joiningStart ≤ varintMax
  | _, _, _ => False

/-- Integers that a varint carries, and parameters in the order of their keys. -/
def Fits : ControlMessage → Prop
  | clientSetup params => params.Fits .quic
  | serverSetup params => params.Fits .quic
  | requestUpdate id existingRequestId params =>
    id ≤ varintMax ∧ existingRequestId ≤ varintMax ∧ params.Fits .quic
  | subscribe id _ _ params => id ≤ varintMax ∧ params.Fits .quic
  | trackStatus id _ _ params => id ≤ varintMax ∧ params.Fits .quic
  | subscribeOk id trackAlias params extensions =>
    id ≤ varintMax ∧ trackAlias ≤ varintMax ∧ params.Fits .quic ∧ extensions.Fits .quic
  | requestError id errorCode retryInterval _ =>
    id ≤ varintMax ∧ errorCode ≤ varintMax ∧ retryInterval ≤ varintMax
  | publishNamespace id _ params => id ≤ varintMax ∧ params.Fits .quic
  | requestOk id params => id ≤ varintMax ∧ params.Fits .quic
  | publishOk id params => id ≤ varintMax ∧ params.Fits .quic
  | namespaceMsg _ => True
  | namespaceDone _ => True
  | publishNamespaceDone id => id ≤ varintMax
  | unsubscribe id => id ≤ varintMax
  | fetchCancel id => id ≤ varintMax
  | publishDone id statusCode streamCount _ =>
    id ≤ varintMax ∧ statusCode ≤ varintMax ∧ streamCount ≤ varintMax
  | publishNamespaceCancel id errorCode _ => id ≤ varintMax ∧ errorCode ≤ varintMax
  | goAway _ => True
  | subscribeNamespace id _ _ params => id ≤ varintMax ∧ params.Fits .quic
  | maxRequestId requestId => requestId ≤ varintMax
  | requestsBlocked requestId => requestId ≤ varintMax
  | fetch id fetchType standalone joining params =>
    id ≤ varintMax ∧ FetchFits fetchType standalone joining ∧ params.Fits .quic
  | fetchOk id _ stop params extensions =>
    id ≤ varintMax ∧ stop.Fits ∧ params.Fits .quic ∧ extensions.Fits .quic
  | publish id _ _ trackAlias params extensions =>
    id ≤ varintMax ∧ trackAlias ≤ varintMax ∧ params.Fits .quic ∧ extensions.Fits .quic

def fullTrackName : ControlMessage → Option (TrackNamespace × TrackName)
  | subscribe _ ns trackName _ => some (ns, trackName)
  | trackStatus _ ns trackName _ => some (ns, trackName)
  | publish _ ns trackName _ _ _ => some (ns, trackName)
  | fetch _ _ (some body) _ _ => some (body.ns, body.trackName)
  | _ => none

def FullTrackNameFits (m : ControlMessage) : Prop :=
  ∀ name, m.fullTrackName = some name → byteLen name.1.fields + name.2.name.length ≤ maxFullTrackNameLen

/-! ## The fields -/

theorem le_varintMax {n : Nat} (h : n ≤ 65535) : n ≤ varintMax := h.trans (by decide)

theorem decodes_location {l : Location} (h : l.Fits) : Decodes Location.decode l.encode l :=
  (decodes_putVarint h.1).bind ((decodes_putVarint h.2).map (Location.mk l.groupId))

theorem decodes_readFullTrackName {ns : TrackNamespace} {name : TrackName} {nsBytes nameBytes : List UInt8}
    (hns : ns.encode = .ok nsBytes) (hname : name.encode = .ok nameBytes)
    (hfits : byteLen ns.fields + name.name.length ≤ maxFullTrackNameLen) :
    Decodes readFullTrackName (nsBytes ++ nameBytes) (ns, name) := by
  refine (TrackNamespace.decodes hns).bind ?_
  refine (TrackName.decodes hname).last ?_
  exact (decodes_require hfits).last (.pure _)

variable {payload : List UInt8}

theorem decodes_readFullTrackRequest {id : Nat} {ns : TrackNamespace} {name : TrackName} {params : Params}
    (hid : id ≤ varintMax) (hparams : params.Fits .quic) (hlen : payload.length ≤ 65535)
    (hfits : byteLen ns.fields + name.name.length ≤ maxFullTrackNameLen)
    (h : encodeFullTrackRequest id ns name params = .ok payload) :
    Decodes readFullTrackRequest payload (id, ns, name, params) := by
  obtain ⟨nsBytes, hns, h⟩ := bind_eq_ok.1 h
  obtain ⟨nameBytes, hname, h⟩ := bind_eq_ok.1 h
  obtain ⟨paramBytes, hparam, h⟩ := bind_eq_ok.1 h
  obtain rfl := Except.ok.inj h
  simp only [length_append] at hlen
  rw [← append_assoc nsBytes]
  refine (decodes_putVarint hid).bind ((decodes_readFullTrackName hns hname hfits).bind ?_)
  exact (Params.decodes hparams (le_varintMax (by omega)) hparam).map fun params => (id, ns, name, params)

theorem run_extensions {extensions : Params} {written : List UInt8} {make : Params → ControlMessage}
    (hfits : extensions.Fits .quic) (h : extensions.encodePairs .quic = .ok written) :
    (do let extensions ← Params.decodeToEnd .quic; return make extensions : Reader ControlMessage) written =
      .ok (make extensions, []) := by
  show (Params.decodeToEnd .quic written >>= _) = _
  rw [Params.decodeToEnd_encodePairs hfits.fit h, hfits.inOrder]
  rfl

theorem whole {α : Type} {read : Reader α} {written : List UInt8} {a : α} (h : Decodes read written a) :
    read written = .ok (a, []) := by
  have hnil := h []
  rwa [append_nil] at hnil

theorem decodes_joining {id : Nat} {fetchType : FetchType} {body : JoiningFetch} {params : Params}
    (hid : id ≤ varintMax)
    (hbody : body.joiningRequestId ≤ varintMax ∧ body.joiningStart ≤ varintMax) (hparams : params.Fits .quic)
    (hlen : payload.length ≤ 65535) (hjoins : fetchType ≠ .standalone)
    (h : (do let params ← params.encode; return putVarint id ++ (putVarint fetchType.code ++
      (putVarint body.joiningRequestId ++ (putVarint body.joiningStart ++ params))) : Written) = .ok payload) :
    Decodes (readBody .fetch) payload (fetch id fetchType none (some body) params) := by
  obtain ⟨paramBytes, hparam, h⟩ := bind_eq_ok.1 h
  obtain rfl := Except.ok.inj h
  simp only [length_append] at hlen
  have hfetch : Decodes (readFetchBody fetchType) (putVarint body.joiningRequestId ++ putVarint body.joiningStart)
      (none, some body) := by
    cases fetchType with
    | standalone => exact absurd rfl hjoins
    | relativeJoining | absoluteJoining =>
      exact (decodes_putVarint hbody.1).bind ((decodes_putVarint hbody.2).last (.pure _))
  have hdecodes := Params.decodes hparams (le_varintMax (by omega)) hparam
  have hcode : FetchType.fromCode fetchType.code = .ok fetchType := by cases fetchType <;> rfl
  rw [← append_assoc (putVarint body.joiningRequestId)]
  refine (decodes_putVarint hid).bind ((decodes_putVarint (by cases fetchType <;> decide)).bind ?_)
  exact (Decodes.lift hcode).bind (hfetch.bind (hdecodes.last (.pure _)))

variable {m : ControlMessage}

/-- The payload of a message is read back. -/
theorem readBody_encodePayload (hfits : m.Fits)
    (hname : m.FullTrackNameFits) (hlen : payload.length ≤ 65535) (h : m.encodePayload = .ok payload) :
    readBody m.typeId payload = .ok (m, []) := by
  cases m with
  | clientSetup params | serverSetup params =>
    exact whole ((Params.decodes hfits (le_varintMax hlen) h).last (.pure _))
  | requestUpdate id existingRequestId params =>
    obtain ⟨hid, hexisting, hparams⟩ := hfits
    obtain ⟨paramBytes, hparam, h⟩ := bind_eq_ok.1 h
    obtain rfl := Except.ok.inj h
    simp only [length_append] at hlen
    refine whole ((decodes_putVarint hid).bind ((decodes_putVarint hexisting).bind ?_))
    exact (Params.decodes hparams (le_varintMax (by omega)) hparam).last (.pure _)
  | subscribe id ns trackName params | trackStatus id ns trackName params =>
    exact whole ((decodes_readFullTrackRequest hfits.1 hfits.2 hlen (hname _ rfl) h).last (.pure _))
  | subscribeOk id trackAlias params extensions =>
    obtain ⟨hid, halias, hparams, hextensions⟩ := hfits
    obtain ⟨paramBytes, hparam, h⟩ := bind_eq_ok.1 h
    obtain ⟨extensionBytes, hext, h⟩ := bind_eq_ok.1 h
    obtain rfl := Except.ok.inj h
    simp only [length_append] at hlen
    have hdecodes := Params.decodes hparams (le_varintMax (by omega)) hparam
    refine (decodes_putVarint hid).bind_eq ((decodes_putVarint halias).bind_eq (hdecodes.bind_eq ?_))
    exact run_extensions hextensions hext
  | requestError id errorCode retryInterval reason =>
    obtain ⟨hid, hcode, hretry⟩ := hfits
    obtain ⟨reasonBytes, hreason, h⟩ := bind_eq_ok.1 h
    obtain rfl := Except.ok.inj h
    refine whole ((decodes_putVarint hid).bind ((decodes_putVarint hcode).bind ((decodes_putVarint hretry).bind ?_)))
    exact (decodes_string (by decide) hreason).last (.pure _)
  | publishNamespace id ns params =>
    obtain ⟨nsBytes, hns, h⟩ := bind_eq_ok.1 h
    obtain ⟨paramBytes, hparam, h⟩ := bind_eq_ok.1 h
    obtain rfl := Except.ok.inj h
    simp only [length_append] at hlen
    refine whole ((decodes_putVarint hfits.1).bind ((TrackNamespace.decodes hns).bind ?_))
    exact (Params.decodes hfits.2 (le_varintMax (by omega)) hparam).last (.pure _)
  | requestOk id params | publishOk id params =>
    obtain ⟨paramBytes, hparam, h⟩ := bind_eq_ok.1 h
    obtain rfl := Except.ok.inj h
    simp only [length_append] at hlen
    refine whole ((decodes_putVarint hfits.1).bind ?_)
    exact (Params.decodes hfits.2 (le_varintMax (by omega)) hparam).last (.pure _)
  | namespaceMsg suffix | namespaceDone suffix =>
    exact whole ((TrackNamespacePrefix.decodes h).last (.pure _))
  | publishNamespaceDone id | unsubscribe id | fetchCancel id | maxRequestId requestId
  | requestsBlocked requestId =>
    obtain rfl := Except.ok.inj h
    exact whole ((decodes_putVarint hfits).last (.pure _))
  | publishDone id statusCode streamCount reason =>
    obtain ⟨hid, hcode, hcount⟩ := hfits
    obtain ⟨reasonBytes, hreason, h⟩ := bind_eq_ok.1 h
    obtain rfl := Except.ok.inj h
    refine whole ((decodes_putVarint hid).bind ((decodes_putVarint hcode).bind ((decodes_putVarint hcount).bind ?_)))
    exact (decodes_string (by decide) hreason).last (.pure _)
  | publishNamespaceCancel id errorCode reason =>
    obtain ⟨reasonBytes, hreason, h⟩ := bind_eq_ok.1 h
    obtain rfl := Except.ok.inj h
    refine whole ((decodes_putVarint hfits.1).bind ((decodes_putVarint hfits.2).bind ?_))
    exact (decodes_string (by decide) hreason).last (.pure _)
  | goAway uri => exact whole ((decodes_string (by decide) h).last (.pure _))
  | subscribeNamespace id pre options params =>
    obtain ⟨preBytes, hpre, h⟩ := bind_eq_ok.1 h
    obtain ⟨paramBytes, hparam, h⟩ := bind_eq_ok.1 h
    obtain rfl := Except.ok.inj h
    simp only [length_append] at hlen
    refine whole ((decodes_putVarint hfits.1).bind ((TrackNamespacePrefix.decodes hpre).bind ?_))
    refine (decodes_putVarint (by cases options <;> decide)).bind ?_
    refine (Decodes.lift (show SubscribeNamespaceOptions.fromCode options.code = .ok options by
      cases options <;> rfl)).bind ?_
    exact (Params.decodes hfits.2 (le_varintMax (by omega)) hparam).last (.pure _)
  | fetch id fetchType standalone joining params =>
    obtain ⟨hid, hbody, hparams⟩ := hfits
    cases fetchType with
    | standalone =>
      rcases standalone with _ | body <;> rcases joining with _ | joining <;> try exact hbody.elim
      obtain ⟨nsBytes, hns, h⟩ := bind_eq_ok.1 h
      obtain ⟨nameBytes, hnameBytes, h⟩ := bind_eq_ok.1 h
      obtain ⟨paramBytes, hparam, h⟩ := bind_eq_ok.1 h
      obtain rfl := Except.ok.inj h
      simp only [length_append] at hlen
      have hfetch : Decodes (readFetchBody .standalone) (nsBytes ++ nameBytes ++ (body.start.encode ++
          body.stop.encode)) (some body, none) := by
        refine (decodes_readFullTrackName hns hnameBytes (hname _ rfl)).bind ?_
        exact (decodes_location hbody.1).bind ((decodes_location hbody.2).last (.pure _))
      have hdecodes := Params.decodes hparams (le_varintMax (by omega)) hparam
      have hsplit : nsBytes ++ (nameBytes ++ (body.start.encode ++ (body.stop.encode ++ paramBytes))) =
          nsBytes ++ nameBytes ++ (body.start.encode ++ body.stop.encode) ++ paramBytes := by simp
      rw [hsplit]
      refine whole ((decodes_putVarint hid).bind ((decodes_putVarint (by decide)).bind ?_))
      exact (Decodes.lift rfl).bind (hfetch.bind (hdecodes.last (.pure _)))
    | relativeJoining | absoluteJoining =>
      rcases standalone with _ | body <;> rcases joining with _ | joining <;> try exact hbody.elim
      exact whole (decodes_joining hid hbody hparams hlen (by decide) h)
  | fetchOk id endOfTrack stop params extensions =>
    obtain ⟨hid, hstop, hparams, hextensions⟩ := hfits
    obtain ⟨paramBytes, hparam, h⟩ := bind_eq_ok.1 h
    obtain ⟨extensionBytes, hext, h⟩ := bind_eq_ok.1 h
    obtain rfl := Except.ok.inj h
    simp only [length_append] at hlen
    have hdecodes := Params.decodes hparams (le_varintMax (by omega)) hparam
    refine (decodes_putVarint hid).bind_eq ((decodes_bool endOfTrack).bind_eq ((decodes_location hstop).bind_eq ?_))
    exact hdecodes.bind_eq (run_extensions hextensions hext)
  | publish id ns trackName trackAlias params extensions =>
    obtain ⟨hid, halias, hparams, hextensions⟩ := hfits
    obtain ⟨nsBytes, hns, h⟩ := bind_eq_ok.1 h
    obtain ⟨nameBytes, hnameBytes, h⟩ := bind_eq_ok.1 h
    obtain ⟨paramBytes, hparam, h⟩ := bind_eq_ok.1 h
    obtain ⟨extensionBytes, hext, h⟩ := bind_eq_ok.1 h
    obtain rfl := Except.ok.inj h
    simp only [length_append] at hlen
    have hdecodes := Params.decodes hparams (le_varintMax (by omega)) hparam
    have hfull := decodes_readFullTrackName hns hnameBytes (hname _ rfl)
    rw [← append_assoc nsBytes]
    refine (decodes_putVarint hid).bind_eq (hfull.bind_eq ((decodes_putVarint halias).bind_eq ?_))
    exact hdecodes.bind_eq (run_extensions hextensions hext)

/-! ## What the decoder accepts -/

theorem yields_readFullTrackName : Yields readFullTrackName fun name =>
    byteLen name.1.fields + name.2.name.length ≤ maxFullTrackNameLen := by
  refine .skip _ fun ns => .skip _ fun name => ?_
  have hcheck : Yields (StateT.lift (validateFullTrackName ns name) : Reader Unit) fun _ =>
      byteLen ns.fields + name.name.length ≤ maxFullTrackNameLen := by
    intro input a rest h
    obtain ⟨u, hu, -⟩ := bind_eq_ok.1 h
    exact require_eq_ok.1 hu
  exact hcheck.bind fun _ hfits => .pure hfits

/-- Every full track name that is read fits. -/
theorem yields_readBody (t : MsgType) : Yields (readBody t) FullTrackNameFits := by
  have hrequest : Yields readFullTrackRequest fun r =>
      byteLen r.2.1.fields + r.2.2.1.name.length ≤ maxFullTrackNameLen :=
    .skip _ fun _ => yields_readFullTrackName.bind fun _ hfits => .skip _ fun _ => .pure hfits
  have hnone : ∀ m : ControlMessage, m.fullTrackName = none → m.FullTrackNameFits := by
    intro m hm name hname
    rw [hm] at hname
    cases hname
  have hsome : ∀ (m : ControlMessage) (name : TrackNamespace × TrackName), m.fullTrackName = some name →
      byteLen name.1.fields + name.2.name.length ≤ maxFullTrackNameLen → m.FullTrackNameFits := by
    intro m name hm hfits name' hname'
    rw [hm] at hname'
    exact Option.some.inj hname' ▸ hfits
  cases t with
  | subscribe | trackStatus => exact hrequest.bind fun _ hfits => .pure (hsome _ _ rfl hfits)
  | publish =>
    refine .skip _ fun _ => yields_readFullTrackName.bind fun _ hfits => ?_
    exact .skip _ fun _ => .skip _ fun _ => .skip _ fun _ => .pure (hsome _ _ rfl hfits)
  | fetch =>
    have hbody : ∀ fetchType, Yields (readFetchBody fetchType) fun body => ∀ b, body.1 = some b →
        byteLen b.ns.fields + b.trackName.name.length ≤ maxFullTrackNameLen := by
      intro fetchType
      cases fetchType with
      | standalone =>
        refine yields_readFullTrackName.bind fun _ hfits => .skip _ fun _ => .skip _ fun _ => .pure fun b hb => ?_
        exact Option.some.inj hb ▸ hfits
      | relativeJoining | absoluteJoining =>
        exact .skip _ fun _ => .skip _ fun _ => .pure fun b hb => by cases hb
    refine .skip _ fun _ => .skip _ fun _ => .skip _ fun fetchType => (hbody fetchType).bind fun body hfits => ?_
    refine .skip _ fun _ => .pure fun name hname => ?_
    obtain ⟨_ | b, joining⟩ := body
    · cases hname
    · exact Option.some.inj hname ▸ hfits b rfl
  | _ =>
    repeat first
      | exact .pure (hnone _ rfl)
      | refine .skip _ fun _ => ?_

theorem yields_read (typ : Nat) : Yields (read typ) FullTrackNameFits := by
  unfold read
  split
  · exact yields_readBody _
  · exact .throw _

/-! ## The round trip -/

theorem decodes_frame (hlen : payload.length ≤ 65535) :
    Decodes frame (putVarint m.typeId.code ++ (beBytes 2 payload.length ++ payload)) (m.typeId.code, payload) := by
  have hcode : m.typeId.code ≤ varintMax := by
    cases m.typeId <;> decide
  refine (decodes_putVarint hcode).bind ((decodes_u16 (by omega)).bind ?_)
  exact (Decodes.take MoqtError.incomplete payload).last (.pure _)

theorem fullTrackNameFits_of_decode {buf : List UInt8} {n : Nat} (h : decode buf = .ok (m, n)) :
    m.FullTrackNameFits := by
  obtain ⟨out, -, h⟩ := bind_eq_ok.1 h
  obtain ⟨msg, hmsg, h⟩ := bind_eq_ok.1 h
  obtain ⟨rfl, -⟩ := Prod.mk.inj (Except.ok.inj h)
  obtain ⟨result, hread, h⟩ := bind_eq_ok.1 hmsg
  obtain ⟨-, h⟩ := require_bind_eq_ok.1 h
  obtain rfl := Except.ok.inj h
  exact yields_read _ _ _ _ hread

/-- A message that the encoder accepts is read back, with whatever follows it, if and only if its full track name
fits. -/
theorem decode_encode_iff {m : ControlMessage} {b : List UInt8} (hfits : m.Fits) (h : m.encode = .ok b) :
    (∀ s, decode (b ++ s) = .ok (m, b.length)) ↔ m.FullTrackNameFits := by
  obtain ⟨payload, hpayload, h⟩ := Loop.bind_eq_ok.1 h
  obtain ⟨hlen, h⟩ := require_bind_eq_ok.1 h
  obtain rfl := Except.ok.inj h
  have hread : read m.typeId.code = readBody m.typeId := by rw [read, MsgType.fromCode_code]
  have hframe := decodes_frame (m := m) hlen
  generalize putVarint m.typeId.code ++ (beBytes 2 payload.length ++ payload) = b at hframe
  constructor
  · exact fun hall => fullTrackNameFits_of_decode (hall [])
  · intro hname s
    have hpay : decodePayload m.typeId.code payload = .ok m := by
      rw [decodePayload, hread, readBody_encodePayload hfits hname hlen hpayload]
      rfl
    rw [decode, hframe s]
    show (decodePayload m.typeId.code payload >>= fun msg => _) = _
    rw [hpay]
    show Except.ok (m, (b ++ s).length - s.length) = _
    rw [length_append, Nat.add_sub_cancel]

/-- A SUBSCRIBE for a track, with no parameters. -/
def sampleSubscribe (field name : List UInt8) : ControlMessage := subscribe 7 ⟨[field]⟩ ⟨name⟩ ⟨[]⟩

theorem fits_sampleSubscribe (field name : List UInt8) : (sampleSubscribe field name).Fits :=
  ⟨by decide, .nil, fun pair hpair => by cases hpair⟩

theorem decode_encode_short : ∃ b, (sampleSubscribe [97] [98]).encode = .ok b ∧
    ∀ s, decode (b ++ s) = .ok (sampleSubscribe [97] [98], b.length) := by
  have hok : (sampleSubscribe [97] [98]).encode.isOk = true := by decide +kernel
  rcases hencode : (sampleSubscribe [97] [98]).encode with e | b
  · rw [hencode] at hok
    cases hok
  · refine ⟨b, rfl, (decode_encode_iff (fits_sampleSubscribe [97] [98]) hencode).2 fun name hname => ?_⟩
    obtain rfl := Option.some.inj hname
    decide

/-- A namespace of 4096 bytes and a name of one: the encoder accepts them, the decoder does not. -/
theorem long_name_refused : ∃ m b, m.Fits ∧ encode m = .ok b ∧ decode b = .error .malformed ∧
    ¬∀ s, decode (b ++ s) = .ok (m, b.length) := by
  have hrun : (match encode (sampleSubscribe (List.replicate 4096 97) [98]) with
      | .ok b => decide ((match decode b with | .ok _ => none | .error e => some e) = some .malformed)
      | .error _ => false) = true := by decide +kernel
  rcases hencode : encode (sampleSubscribe (List.replicate 4096 97) [98]) with e | b
  · rw [hencode] at hrun
    cases hrun
  · rw [hencode] at hrun
    dsimp only at hrun
    have hrefused : decode b = .error .malformed := by
      rcases hdecode : decode b with e | out
      · rw [hdecode] at hrun
        rw [Option.some.inj (of_decide_eq_true hrun)]
      · rw [hdecode] at hrun
        cases hrun
    refine ⟨_, b, fits_sampleSubscribe _ _, hencode, hrefused, fun hall => ?_⟩
    have hnil := hall []
    rw [append_nil, hrefused] at hnil
    cases hnil

end ControlMessage

end Glass2Glass.Moqt
