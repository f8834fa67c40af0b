import Glass2Glass.Moqt.Fetch

/-!
# Object streams in any chunking

A subgroup stream or a FETCH stream that the writers accept is taken apart again into the same objects, however it
was cut on the way. On a subgroup stream the encoder accepts more than the decoder does: extension headers together
with a status that is not normal, which the decoder refuses (`streams_decode`).
-/

namespace Glass2Glass.Moqt

open Codec Words Incremental List
open FetchWriter (priorityField groupField objectField)
open Loop (bind_eq_ok)

variable {written : List UInt8}

/-! ## Subgroup streams -/

/-- An object to send on a subgroup stream. -/
structure SentObject where
  objectIdDelta : Nat
  extensionHeaders : Params
  status : Option ObjectStatus
  payload : List UInt8

namespace SentObject

/-- An object on the wire: its header and its payload. -/
def write (headerType : StreamHeaderType) (o : SentObject) : Written := do
  let header ← SubgroupObjectHeader.encode headerType
    { objectIdDelta := o.objectIdDelta, extensionHeaders := o.extensionHeaders, payloadLength := o.payload.length,
      status := o.status }
  return header ++ o.payload

/-- Objects one after the other. -/
def writeAll (headerType : StreamHeaderType) : List SentObject → Written
  | [] => .ok []
  | o :: os => do
    let first ← o.write headerType
    let rest ← writeAll headerType os
    return first ++ rest

def idAfter (prev : Option Nat) (o : SentObject) : Nat :=
  match prev with
  | some prev => prev + o.objectIdDelta + 1
  | none => o.objectIdDelta

/-- The ids of objects that follow each other. -/
def ids : Option Nat → List SentObject → List Nat
  | _, [] => []
  | prev, o :: os => o.idAfter prev :: ids (some (o.idAfter prev)) os

/-- An object as the receiver should see it. -/
def received (groupId objectId : Nat) (o : SentObject) : StreamItem :=
  .object { groupId, objectId, status := o.status.getD .normal, payload := o.payload }

/-- The limits of the wire. -/
structure Fits (maxObjectBytes : Nat) (o : SentObject) : Prop where
  delta : o.objectIdDelta ≤ varintMax
  extensions : PairsFit .quic o.extensionHeaders.pairs
  block : ∀ body, o.extensionHeaders.encodePairs .quic = .ok body → body.length ≤ maxKvpBytesLen
  payload : o.payload.length ≤ maxObjectBytes
  length : o.payload.length ≤ varintMax

/-- A status other than the normal one comes alone. -/
def StatusAlone (o : SentObject) : Prop :=
  o.status.getD .normal ≠ .normal → o.payload = [] ∧ o.extensionHeaders.pairs = []

/-- The status that the decoder reads, or why it refuses the object. -/
def carried (o : SentObject) : Except MoqtError ObjectStatus :=
  if o.payload.length = 0 then
    (required o.status).bind fun status =>
      (require (status = .normal ∨ o.extensionHeaders.pairs = [])).map fun _ => status
  else .ok .normal

variable {o : SentObject} {headerType : StreamHeaderType}

theorem write_eq_ok (h : o.write headerType = .ok written) :
    ∃ extensions status, encodeExtensions headerType o.extensionHeaders = .ok extensions ∧
      encodeStatus o.payload.length o.status = .ok status ∧ written =
        putVarint o.objectIdDelta ++ (extensions ++ (putVarint o.payload.length ++ (status ++ o.payload))) := by
  obtain ⟨header, hheader, h⟩ := bind_eq_ok.1 h
  obtain ⟨extensions, hextensions, hheader⟩ := bind_eq_ok.1 hheader
  obtain ⟨status, hstatus, hheader⟩ := bind_eq_ok.1 hheader
  obtain rfl := Except.ok.inj hheader
  refine ⟨extensions, status, hextensions, hstatus, ?_⟩
  obtain rfl := Except.ok.inj h
  simp only [append_assoc]

theorem carried_eq_ok_iff (h : o.write headerType = .ok written) :
    o.carried = .ok (o.status.getD .normal) ↔ o.StatusAlone := by
  obtain ⟨-, bytes, -, hstatus, -⟩ := write_eq_ok h
  obtain ⟨delta, extensions, status, payload⟩ := o
  unfold encodeStatus at hstatus
  unfold carried StatusAlone
  by_cases hempty : payload.length = 0
  · rw [if_pos hempty] at hstatus ⊢
    rcases status with _ | status
    · cases hstatus
    · show (require (status = .normal ∨ extensions.pairs = [])).map (fun _ => status) = .ok status ↔
        (status ≠ .normal → payload = [] ∧ extensions.pairs = [])
      rw [and_iff_right (List.length_eq_zero_iff.1 hempty), ← or_iff_not_imp_left]
      by_cases hok : status = .normal ∨ extensions.pairs = []
      · rw [require_eq_ok.2 hok]
        exact iff_of_true rfl hok
      · rw [require, if_neg hok]
        exact iff_of_false (fun heq => by cases heq) hok
  · rw [if_neg hempty]
    have hsome : payload ≠ [] := fun hnil => hempty (List.length_eq_zero_iff.2 hnil)
    constructor
    · intro heq hstatus
      exact absurd (Except.ok.inj heq).symm hstatus
    · intro halone
      by_cases hnormal : status.getD .normal = .normal
      · rw [hnormal]
      · exact absurd (halone hnormal).1 hsome

variable {maxObjectBytes : Nat}

theorem decodes_extensions (hfits : o.Fits maxObjectBytes)
    (h : encodeExtensions headerType o.extensionHeaders = .ok written) :
    ∃ params : Params, Decodes (readExtensions headerType) written params ∧
      (params.pairs = [] ↔ o.extensionHeaders.pairs = []) := by
  unfold encodeExtensions at h
  unfold readExtensions
  by_cases htype : headerType.hasExtensionHeaders = true
  · rw [if_pos htype] at h ⊢
    exact ⟨_, decodes_decodeExtensionHeaders hfits.extensions hfits.block h, Params.inOrder_eq_nil⟩
  · rw [if_neg htype] at h ⊢
    split_ifs at h with hnone
    obtain rfl := Except.ok.inj h
    exact ⟨⟨[]⟩, .pure _, iff_of_true rfl (List.isEmpty_iff.1 hnone)⟩

/-- The status of an object is read as `carried` says. -/
theorem status_cases {status : List UInt8} {params : Params} (h : encodeStatus o.payload.length o.status = .ok status)
    (hnone : params.pairs = [] ↔ o.extensionHeaders.pairs = []) :
    (∃ read, Decodes (readStatus o.payload.length params) status read ∧ o.carried = .ok (read.getD .normal)) ∨
      Refuses (readStatus o.payload.length params) status .malformed ∧ o.carried = .error .malformed := by
  unfold encodeStatus at h
  unfold readStatus carried
  by_cases hempty : o.payload.length = 0
  · simp only [if_pos hempty] at h ⊢
    rcases hstatus : o.status with _ | st
    · rw [hstatus] at h
      cases h
    · rw [hstatus] at h
      obtain rfl := Except.ok.inj h
      have hint : Decodes (varint .quic) (putVarint st.code) st.code :=
        decodes_putVarint (by cases st <;> decide)
      have hcode : ObjectStatus.fromCode st.code = .ok st := by cases st <;> rfl
      by_cases hok : st = .normal ∨ o.extensionHeaders.pairs = []
      · refine .inl ⟨some st, ?_, ?_⟩
        · rw [← hnone] at hok
          exact hint.last ((Decodes.lift hcode).last ((decodes_require hok).last (.pure _)))
        · show (require (st = .normal ∨ o.extensionHeaders.pairs = [])).map _ = _
          rw [require_eq_ok.2 hok]
          rfl
      · refine .inr ⟨?_, ?_⟩
        · rw [← hnone] at hok
          have hrefuse : Refuses (StateT.lift (require (st = .normal ∨ params.pairs = [])) : Reader Unit) [] .malformed := by
            intro rest
            rw [require, if_neg hok]
            rfl
          dsimp only
          rw [← append_nil (putVarint st.code)]
          exact .after hint (.after (.lift hcode) (hrefuse.bind _))
        · show (require (st = .normal ∨ o.extensionHeaders.pairs = [])).map _ = _
          rw [require, if_neg hok]
          rfl
  · simp only [if_neg hempty] at h ⊢
    obtain rfl := Except.ok.inj h
    exact .inl ⟨none, .pure _, rfl⟩

variable {prev : Option Nat} {header : SubgroupHeader}

/-- What the decoder makes of an object. -/
theorem item_write {written rest : List UInt8}
    (hfits : o.Fits maxObjectBytes) (hid : o.idAfter prev < 2 ^ 64) (h : o.write header.headerType = .ok written) :
    SubgroupStreamDecoder.item maxObjectBytes { header := some header, prevObjectId := prev } (written ++ rest) =
      o.carried.map fun status => ((.object ⟨header.groupId, o.idAfter prev, status, o.payload⟩,
        { header := some header, prevObjectId := some (o.idAfter prev) }), rest) := by
  obtain ⟨extensions, status, hextensions, hstatus, rfl⟩ := write_eq_ok h
  obtain ⟨params, hparams, hnone⟩ := decodes_extensions hfits hextensions
  have hdelta := decodes_putVarint hfits.delta
  have hlength := decodes_putVarint hfits.length
  have hnext : nextObjectId prev o.objectIdDelta = .ok (o.idAfter prev) := by
    rcases prev with _ | prev
    · rfl
    · show (require (prev + o.objectIdDelta + 1 < 2 ^ 64)).map _ = _
      rw [require_eq_ok.2 (show prev + o.objectIdDelta + 1 < 2 ^ 64 from hid)]
      rfl
  have hsplit : putVarint o.objectIdDelta ++ (extensions ++ (putVarint o.payload.length ++ (status ++ o.payload))) =
      putVarint o.objectIdDelta ++ (extensions ++ (putVarint o.payload.length ++ status)) ++ o.payload := by
    simp only [append_assoc]
  rw [hsplit]
  rcases status_cases hstatus hnone with ⟨read, hread, hcarried⟩ | ⟨hrefuse, hcarried⟩
  · rw [hcarried]
    have hheader : Decodes (SubgroupObjectHeader.decode header.headerType)
        (putVarint o.objectIdDelta ++ (extensions ++ (putVarint o.payload.length ++ status)))
        ⟨o.objectIdDelta, params, o.payload.length, read⟩ :=
      hdelta.bind (hparams.bind (hlength.bind (hread.last (.pure _))))
    refine hheader.bind ((decodes_require hfits.payload).bind ?_) rest
    exact (Decodes.take MoqtError.incomplete o.payload).last ((Decodes.lift hnext).last (.pure _))
  · rw [hcarried]
    have hheader : Refuses (SubgroupObjectHeader.decode header.headerType)
        (putVarint o.objectIdDelta ++ (extensions ++ (putVarint o.payload.length ++ status))) .malformed :=
      .after hdelta (.after hparams (.after hlength (hrefuse.bind _)))
    exact (hheader.append o.payload).bind _ rest

theorem length_write (hfits : o.Fits maxObjectBytes)
    (h : o.write headerType = .ok written) : written ≠ [] ∧ written.length ≤ maxObjectBytes + 70000 := by
  obtain ⟨extensions, status, hextensions, hstatus, rfl⟩ := write_eq_ok h
  have hdelta := length_putInt .quic o.objectIdDelta
  have hlength := length_putInt .quic o.payload.length
  have hpayload := hfits.payload
  have hext : extensions.length ≤ 9 + 65535 := by
    unfold encodeExtensions at hextensions
    split_ifs at hextensions
    · obtain ⟨body, hbody, hextensions⟩ := bind_eq_ok.1 hextensions
      obtain rfl := Except.ok.inj hextensions
      have hbody := hfits.block body hbody
      have hint := length_putInt .quic body.length
      unfold maxKvpBytesLen at hbody
      rw [putBytes, length_append]
      omega
    · obtain rfl := Except.ok.inj hextensions
      exact Nat.zero_le _
  have hstat : status.length ≤ 9 := by
    unfold encodeStatus at hstatus
    split_ifs at hstatus
    · rcases hsome : o.status with _ | st
      · rw [hsome] at hstatus
        cases hstatus
      · rw [hsome] at hstatus
        obtain rfl := Except.ok.inj hstatus
        exact (length_putInt .quic st.code).2
    · obtain rfl := Except.ok.inj hstatus
      exact Nat.zero_le _
  have hbytes : putVarint = putInt .quic := rfl
  rw [hbytes]
  refine ⟨ne_nil_of_length_pos ?_, ?_⟩
  · rw [length_append]
    omega
  · simp only [length_append]
    omega

/-- The objects of a stream as the receiver should see them. -/
def receivedAll (groupId : Nat) : Option Nat → List SentObject → List StreamItem
  | _, [] => []
  | prev, o :: os => o.received groupId (o.idAfter prev) :: receivedAll groupId (some (o.idAfter prev)) os

variable {os : List SentObject}

theorem writeAll_cons (h : writeAll headerType (o :: os) = .ok written) :
    ∃ first rest, o.write headerType = .ok first ∧ writeAll headerType os = .ok rest ∧ written = first ++ rest := by
  obtain ⟨first, hfirst, h⟩ := bind_eq_ok.1 h
  obtain ⟨rest, hrest, h⟩ := bind_eq_ok.1 h
  exact ⟨first, rest, hfirst, hrest, (Except.ok.inj h).symm⟩

theorem sends (hfits : ∀ o ∈ os, o.Fits maxObjectBytes) (hids : ∀ id ∈ ids prev os, id < 2 ^ 64)
    (halone : ∀ o ∈ os, o.StatusAlone) (h : writeAll header.headerType os = .ok written) :
    ∃ last, Sends (SubgroupStreamDecoder.item maxObjectBytes) (maxObjectBytes + 70000)
      { header := some header, prevObjectId := prev } (receivedAll header.groupId prev os) written last := by
  induction os generalizing prev written with
  | nil =>
    obtain rfl := Except.ok.inj h
    exact ⟨_, .nil _⟩
  | cons o os ih =>
    obtain ⟨first, rest, hfirst, hrest, rfl⟩ := writeAll_cons h
    have ho := hfits o mem_cons_self
    obtain ⟨hsome, hlength⟩ := length_write ho hfirst
    obtain ⟨last, htail⟩ := ih (fun o' ho' => hfits o' (mem_cons_of_mem _ ho'))
      (fun id hid => hids id (mem_cons_of_mem _ hid)) (fun o' ho' => halone o' (mem_cons_of_mem _ ho')) hrest
    refine ⟨last, .cons (fun rest => ?_) hsome hlength htail⟩
    rw [item_write ho (hids _ mem_cons_self) hfirst, (carried_eq_ok_iff hfirst).2 (halone o mem_cons_self)]
    rfl

end SentObject

namespace SubgroupHeader

/-- Integers that a varint carries. -/
structure Fits (h : SubgroupHeader) : Prop where
  trackAlias : h.trackAlias ≤ varintMax
  groupId : h.groupId ≤ varintMax
  subgroupId : ∀ id, h.subgroupId = some id → id ≤ varintMax

/-- The header that is read back. -/
def carried (h : SubgroupHeader) : SubgroupHeader :=
  { h with subgroupId := if h.headerType.hasSubgroupId then h.subgroupId else none }

theorem decodes {h : SubgroupHeader} (hfits : h.Fits) (hencode : h.encode = .ok written) :
    Decodes SubgroupHeader.decode written h.carried := by
  obtain ⟨subgroup, hsubgroup, hencode⟩ := bind_eq_ok.1 hencode
  obtain rfl := Except.ok.inj hencode
  have hid : Decodes (readSubgroupId h.headerType) subgroup h.carried.subgroupId := by
    unfold encodeSubgroupId at hsubgroup
    unfold readSubgroupId carried
    by_cases htype : h.headerType.hasSubgroupId = true
    · rw [if_pos htype] at hsubgroup ⊢
      rcases hsome : h.subgroupId with _ | id
      · rw [hsome] at hsubgroup
        cases hsubgroup
      · rw [hsome] at hsubgroup
        obtain rfl := Except.ok.inj hsubgroup
        rw [if_pos htype]
        exact (decodes_putVarint (hfits.subgroupId id hsome)).last (.pure _)
    · rw [if_neg htype] at hsubgroup ⊢
      obtain rfl := Except.ok.inj hsubgroup
      rw [if_neg htype]
      exact .pure _
  have hcode : Decodes (varint .quic) (putVarint h.headerType.code) h.headerType.code :=
    decodes_putVarint (by cases h.headerType <;> decide)
  refine hcode.bind ((Decodes.lift (StreamHeaderType.fromCode_code _)).bind ?_)
  refine (decodes_putVarint hfits.trackAlias).bind ?_
  refine (decodes_putVarint hfits.groupId).bind ?_
  exact hid.bind ((decodes_u8 _).last (.pure _))

end SubgroupHeader

/-- An object to send on a FETCH stream. -/
structure FetchObject where
  groupId : Nat
  objectId : Nat
  priority : UInt8
  payload : List UInt8

namespace FetchObject

/-- Objects one after the other. -/
def writeAll (version : MoqtVersion) : Option Prior → List FetchObject → Written
  | _, [] => .ok []
  | prior, o :: os => do
    let first ← FetchWriter.object version prior o.groupId o.objectId o.priority o.payload
    let rest ← writeAll version (some first.2) os
    return first.1 ++ rest

/-- An object as the receiver should see it. -/
def received (o : FetchObject) : FetchItem :=
  .object { groupId := o.groupId, objectId := o.objectId, status := .normal, payload := o.payload }

/-- The limits of the wire. A payload is a slice, which has less than `2 ^ 63` bytes. -/
structure Fits (version : MoqtVersion) (maxObjectBytes : Nat) (o : FetchObject) : Prop where
  groupId : o.groupId ≤ intMax version.kind
  objectId : o.objectId ≤ intMax version.kind
  length : o.payload.length ≤ intMax version.kind
  payload : o.payload.length ≤ maxObjectBytes
  slice : o.payload.length < 2 ^ 63

end FetchObject

namespace FetchStreamDecoder

variable {version : MoqtVersion} {prior : Option Prior} {flags groupId objectId : Nat} {priority : UInt8}

theorem decodes_readFields {length : Nat}
    {group object prio : List UInt8} (hflags : flags ≤ Flag.max) (hmode : flags &&& Flag.subgroupMode = 0)
    (hdatagram : flags &&& Flag.datagram = 0) (hproperties : flags &&& Flag.properties = 0)
    (hgroup : Decodes (readGroupId version prior (flags &&& Flag.groupId ≠ 0)) group groupId)
    (hobject : Decodes (readObjectId version prior (flags &&& Flag.groupId ≠ 0) (flags &&& Flag.objectId ≠ 0))
      object objectId)
    (hprio : Decodes (readPriority prior flags) prio priority) (hlength : length ≤ intMax version.kind) :
    Decodes (readFields version prior)
      (putInt version.kind flags ++ (group ++ (object ++ (prio ++ putInt version.kind length))))
      ({ groupId, objectId, subgroupId := 0, priority }, some length) := by
  have hmax : flags ≤ intMax version.kind := hflags.trans (by cases version <;> decide)
  have hspecial : ¬(flags = endOfNonExistentRange ∨ flags = endOfUnknownRange) := by
    unfold Flag.max at hflags
    unfold endOfNonExistentRange endOfUnknownRange
    omega
  have hsubgroup : readSubgroup version prior flags = pure 0 := by
    rw [readSubgroup, if_neg (not_not.2 hdatagram), if_pos hmode]
  have hnone : readProperties version flags = pure () := by
    rw [readProperties, if_neg (not_not.2 hproperties)]
  refine (decodes_varint hmax).bind ?_
  rw [if_neg hspecial]
  refine (decodes_require hflags).bind (hgroup.bind (hobject.bind ?_))
  rw [hsubgroup, hnone]
  refine (Decodes.pure 0).bind (hprio.bind ((Decodes.pure ()).bind ?_))
  exact (decodes_varint hlength).last (.pure _)

/-- Flags that announce nothing but ids and a priority, and fields that they announce. -/
structure Announces (version : MoqtVersion) (prior : Option Prior) (flags : Nat) (fields : List UInt8)
    (groupId objectId : Nat) (priority : UInt8) : Prop where
  plain : flags ≤ Flag.max ∧ flags &&& Flag.subgroupMode = 0 ∧ flags &&& Flag.datagram = 0 ∧
    flags &&& Flag.properties = 0
  parts : ∃ group object prio, fields = group ++ (object ++ prio) ∧
    Decodes (readGroupId version prior (flags &&& Flag.groupId ≠ 0)) group groupId ∧
    Decodes (readObjectId version prior (flags &&& Flag.groupId ≠ 0) (flags &&& Flag.objectId ≠ 0)) object objectId ∧
    Decodes (readPriority prior flags) prio priority

variable {p : Prior}

theorem decodes_priorityField (hflags : flags &&& Flag.priority = 0) :
    Decodes (readPriority (some p) (flags ||| (priorityField p priority).1))
      (priorityField p priority).2 priority := by
  unfold priorityField readPriority
  by_cases hsame : priority ≠ p.priority
  · rw [if_pos hsame, if_pos]
    · exact decodes_u8 priority
    · dsimp only
      rw [Nat.and_or_distrib_right, hflags, Nat.zero_or]
      decide
  · rw [if_neg hsame, if_neg]
    · rw [not_not.1 hsame]
      exact .lift rfl
    · dsimp only
      rw [Nat.or_zero, hflags]
      decide

theorem decodes_groupField {field : Nat} (hgroup : groupId ≤ intMax version.kind)
    (h : groupField version p groupId = .ok field) :
    Decodes (readGroupId version (some p) true) (putInt version.kind field) groupId := by
  have hword := intMax_lt version.kind
  cases version with
  | v16 =>
    obtain rfl := Except.ok.inj h
    exact (decodes_varint hgroup).last (.pure _)
  | v18 =>
    unfold groupField at h
    by_cases hlt : p.groupId < groupId
    · rw [require_eq_ok.2 hlt] at h
      obtain rfl := Except.ok.inj h
      have hsum : (checkedAdd p.groupId (groupId - p.groupId - 1)).bind (fun g => checkedAdd g 1) = .ok groupId := by
        have hfirst : p.groupId + (groupId - p.groupId - 1) < 2 ^ 64 := by omega
        have hsecond : p.groupId + (groupId - p.groupId - 1) + 1 < 2 ^ 64 := by omega
        have heq : p.groupId + (groupId - p.groupId - 1) + 1 = groupId := by omega
        show (Except.map _ (require _)).bind _ = _
        rw [require_eq_ok.2 hfirst]
        show Except.map _ (require _) = _
        rw [require_eq_ok.2 hsecond]
        exact congrArg Except.ok heq
      exact (decodes_varint (show groupId - p.groupId - 1 ≤ _ by omega)).last (.lift hsum)
    · rw [require, if_neg hlt] at h
      cases h

theorem decodes_objectField (hobject : objectId ≤ intMax version.kind) (hlt : p.objectId < objectId) :
    ((objectField version p objectId).1 = 0 ∨
      (objectField version p objectId).1 = Flag.objectId) ∧ Decodes (readObjectId version (some p) false
      (decide ((objectField version p objectId).1 &&& Flag.objectId ≠ 0)))
      (objectField version p objectId).2 objectId := by
  have hword := intMax_lt version.kind
  unfold objectField
  by_cases hnext : objectId ≠ min (p.objectId + 1) (2 ^ 64 - 1)
  · rw [if_pos hnext]
    refine ⟨.inr rfl, ?_⟩
    have hset : decide (Flag.objectId &&& Flag.objectId ≠ 0) = true := by decide
    rw [hset]
    cases version with
    | v16 => exact (decodes_varint hobject).last (.pure _)
    | v18 =>
      have hsum : checkedAdd p.objectId (objectId - p.objectId) = .ok objectId := by
        have hfits : p.objectId + (objectId - p.objectId) < 2 ^ 64 := by omega
        rw [checkedAdd, require_eq_ok.2 hfits]
        exact congrArg Except.ok (Nat.add_sub_of_le hlt.le)
      have hfield : objectId - p.objectId ≤ intMax MoqtVersion.v18.kind := by omega
      exact (decodes_varint hfield).last (.lift hsum)
  · rw [if_neg hnext]
    refine ⟨.inl rfl, ?_⟩
    have heq : p.objectId + 1 = objectId := by omega
    have hsum : checkedAdd p.objectId 1 = .ok objectId := by
      have hfits : p.objectId + 1 < 2 ^ 64 := by omega
      rw [checkedAdd, require_eq_ok.2 hfits]
      exact congrArg Except.ok heq
    have hclear : decide (0 &&& Flag.objectId ≠ 0) = false := by decide
    exact .lift hsum

theorem announces_fields {fields : List UInt8}
    (hgroup : groupId ≤ intMax version.kind) (hobject : objectId ≤ intMax version.kind)
    (h : FetchWriter.fields version prior groupId objectId priority = .ok (flags, fields)) :
    Announces version prior flags fields groupId objectId priority := by
  unfold FetchWriter.fields at h
  rcases prior with _ | p
  · -- The first object states everything.
    obtain ⟨rfl, rfl⟩ := Prod.mk.inj (Except.ok.inj h)
    refine ⟨by decide, _, _, _, rfl, ?_, ?_, decodes_u8 priority⟩
    · exact (decodes_varint hgroup).last (by cases version <;> exact .pure _)
    · exact (decodes_varint hobject).last (by cases version <;> exact .pure _)
  · dsimp only at h
    have hprio : (priorityField p priority).1 = 0 ∨
        (priorityField p priority).1 = Flag.priority := by
      unfold priorityField
      split_ifs
      · exact .inr rfl
      · exact .inl rfl
    split_ifs at h with hother
    · -- Another group: the object id is absolute.
      rcases hfield : groupField version p groupId with e | group
      · rw [hfield] at h
        cases h
      · rw [hfield] at h
        obtain ⟨rfl, rfl⟩ := Prod.mk.inj (Except.ok.inj h)
        generalize hflags : Flag.groupId ||| Flag.objectId ||| (priorityField p priority).1 = flags
        have hset : (flags ≤ Flag.max ∧ flags &&& Flag.subgroupMode = 0 ∧ flags &&& Flag.datagram = 0 ∧
            flags &&& Flag.properties = 0) ∧ decide (flags &&& Flag.groupId ≠ 0) = true ∧
            decide (flags &&& Flag.objectId ≠ 0) = true := by
          rw [← hflags]
          rcases hprio with hprio | hprio <;> rw [hprio] <;> decide
        refine ⟨hset.1, _, _, _, rfl, ?_, ?_, hflags ▸ decodes_priorityField (by decide)⟩
        · rw [hset.2.1]
          exact decodes_groupField hgroup hfield
        · rw [hset.2.1, hset.2.2]
          exact (decodes_varint hobject).last (by cases version <;> exact .pure _)
    · -- The same group: the group id is left out, and the object id if it is the next one.
      rw [not_not] at hother
      by_cases hlt : p.objectId < objectId
      · rw [require_eq_ok.2 hlt] at h
        obtain ⟨rfl, rfl⟩ := Prod.mk.inj (Except.ok.inj h)
        obtain ⟨hbits, hdecodes⟩ := decodes_objectField (p := p) hobject hlt
        generalize hflags : (objectField version p objectId).1 |||
          (priorityField p priority).1 = flags
        have hset : (flags ≤ Flag.max ∧ flags &&& Flag.subgroupMode = 0 ∧ flags &&& Flag.datagram = 0 ∧
            flags &&& Flag.properties = 0) ∧ decide (flags &&& Flag.groupId ≠ 0) = false ∧
            decide (flags &&& Flag.objectId ≠ 0) =
              decide ((objectField version p objectId).1 &&& Flag.objectId ≠ 0) := by
          rw [← hflags]
          rcases hbits with hbits | hbits <;> rcases hprio with hprio | hprio <;> rw [hbits, hprio] <;> decide
        refine ⟨hset.1, [], _, _, rfl, ?_, ?_, hflags ▸ decodes_priorityField ?_⟩
        · rw [hset.2.1, ← hother]
          exact .lift rfl
        · rw [hset.2.1, hset.2.2]
          exact hdecodes
        · rcases hbits with hbits | hbits <;> rw [hbits] <;> decide
      · rw [require, if_neg hlt] at h
        cases h

theorem length_fields {fields : List UInt8}
    (h : FetchWriter.fields version prior groupId objectId priority = .ok (flags, fields)) : fields.length ≤ 19 := by
  have hint := fun v => (length_putInt version.kind v).2
  have hprio : ∀ p, (priorityField p priority).2.length ≤ 1 := by
    intro p
    unfold priorityField
    split_ifs <;> simp
  unfold FetchWriter.fields at h
  rcases prior with _ | p
  · obtain ⟨-, rfl⟩ := Prod.mk.inj (Except.ok.inj h)
    have hgroup := hint groupId
    have hobject := hint objectId
    simp only [length_append, length_singleton]
    omega
  · dsimp only at h
    have hlast := hprio p
    split_ifs at h
    · rcases hfield : groupField version p groupId with e | group
      · rw [hfield] at h
        cases h
      · rw [hfield] at h
        obtain ⟨-, rfl⟩ := Prod.mk.inj (Except.ok.inj h)
        have hgroup := hint group
        have hobject := hint objectId
        simp only [length_append]
        omega
    · rcases hcheck : require (p.objectId < objectId) with e | u
      · rw [hcheck] at h
        cases h
      · rw [hcheck] at h
        obtain ⟨-, rfl⟩ := Prod.mk.inj (Except.ok.inj h)
        have hobject : (objectField version p objectId).2.length ≤ 9 := by
          unfold objectField
          split_ifs
          · exact hint _
          · exact Nat.zero_le _
        rw [length_append]
        omega

/-- An object is read back. -/
theorem decodes_object {o : FetchObject} {maxObjectBytes : Nat} {next : Prior} (hfits : o.Fits version maxObjectBytes)
    (h : FetchWriter.object version prior o.groupId o.objectId o.priority o.payload = .ok (written, next)) :
    Decodes (readObject version prior maxObjectBytes) written (o.received, next) ∧
      written ≠ [] ∧ written.length ≤ maxObjectBytes + 70000 := by
  rcases hfields : FetchWriter.fields version prior o.groupId o.objectId o.priority with e | ⟨flags, fields⟩
  · rw [FetchWriter.object, hfields] at h
    cases h
  · rw [FetchWriter.object, hfields] at h
    obtain ⟨rfl, rfl⟩ := Prod.mk.inj (Except.ok.inj h)
    have hshort := length_fields hfields
    have hflagsLen := length_putInt version.kind flags
    have hlengthLen := length_putInt version.kind o.payload.length
    have hpayload := hfits.payload
    have hslice := hfits.slice
    obtain ⟨⟨hflags, hmode, hdatagram, hproperties⟩, group, object, prio, rfl, hgroup, hobject, hprio⟩ :=
      announces_fields hfits.groupId hfits.objectId hfields
    have hread := (decodes_readFields hflags hmode hdatagram hproperties hgroup hobject hprio hfits.length).measured
    have hsplit : putInt version.kind flags ++ (group ++ (object ++ prio) ++ (putInt version.kind o.payload.length ++
        o.payload)) = putInt version.kind flags ++ (group ++ (object ++ (prio ++
        putInt version.kind o.payload.length))) ++ o.payload := by
      simp only [append_assoc]
    dsimp only
    refine ⟨?_, ne_nil_of_length_pos ?_, ?_⟩
    · rw [hsplit]
      refine hread.bind ((decodes_require hfits.payload).bind ((decodes_require ?_).bind ?_))
      · simp only [length_append] at hshort ⊢
        omega
      · exact (Decodes.take MoqtError.incomplete o.payload).last (.pure _)
    · rw [length_append]
      omega
    · simp only [length_append] at hshort ⊢
      omega

theorem sends (requestId : Nat) {maxObjectBytes : Nat} {os : List FetchObject}
    (hfits : ∀ o ∈ os, o.Fits version maxObjectBytes) (h : FetchObject.writeAll version prior os = .ok written) :
    ∃ last, Sends (item version maxObjectBytes) (maxObjectBytes + 70000) { requestId := some requestId, prior }
      (os.map FetchObject.received) written last := by
  induction os generalizing prior written with
  | nil =>
    obtain rfl := Except.ok.inj h
    exact ⟨_, .nil _⟩
  | cons o os ih =>
    obtain ⟨⟨first, next⟩, hfirst, h⟩ := bind_eq_ok.1 h
    obtain ⟨rest, hrest, h⟩ := bind_eq_ok.1 h
    obtain rfl := Except.ok.inj h
    obtain ⟨hdecodes, hsome, hlength⟩ := decodes_object (hfits o mem_cons_self) hfirst
    obtain ⟨last, htail⟩ := ih (fun o' ho' => hfits o' (mem_cons_of_mem _ ho')) hrest
    exact ⟨last, .cons (hdecodes.last (.pure _)) hsome hlength htail⟩

end FetchStreamDecoder

end Glass2Glass.Moqt
