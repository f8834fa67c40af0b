import Glass2Glass.Caps.Fixate

/-!
# Declarative transforms and passthrough fields

`CapsTransform` states field by field how a caps-driven transform derives its output from its input
(`caps_transform.rs`). The fields every output shape passes through can be coupled backward: the
`couple` functions narrow an input by what its output must carry, the `project` functions widen an
output back to what the input may carry, and the `discover` functions probe a derivation that is only
known as a function (`runtime/passthrough.rs`).
-/

namespace Glass2Glass

open PartialMeet Option

/-- How one output field is derived from the input field. -/
inductive FieldTransform (α : Type) where
  | identity
  | fixed (v : α)

namespace FieldTransform

variable {α : Type}

/-- Derive the output field. -/
def apply : FieldTransform α → α → α
  | identity, input => input
  | fixed v, _ => v

/-- Whether the field is passed through. -/
def isIdentity : FieldTransform α → Bool
  | identity => true
  | fixed _ => false

end FieldTransform

/-- One output alternative of a raw-video transform. -/
structure RawVideoShape where
  /-- Derivation of the pixel format. -/
  format : FieldTransform RawVideoFormat
  width : FieldTransform Dim
  height : FieldTransform Dim
  framerate : FieldTransform Rate

/-- One output alternative of an audio transform. -/
structure AudioShape where
  /-- Derivation of the sample format. -/
  format : FieldTransform AudioFormat
  /-- Derivation of the channel count. -/
  channels : FieldTransform UInt8
  sampleRate : FieldTransform UInt32

/-- The audio shape that passes every field through. -/
def AudioShape.PASSTHROUGH : AudioShape := ⟨.identity, .identity, .identity⟩

/-- The declarative derivation of a transform: which input formats it takes and which output formats
it makes (an empty list takes or makes all), and its output alternatives in preference order. -/
inductive CapsTransform where
  | rawVideo (accept produce : List RawVideoFormat) (shapes : List RawVideoShape)
  | audio (accept produce : List AudioFormat) (shapes : List AudioShape)

/-- Whether a format list, empty for no restriction, lets a format through. -/
def gate {α : Type} [DecidableEq α] (formats : List α) (f : α) : Bool :=
  formats.isEmpty || formats.contains f

/-- Which fields a transform passes through unchanged. -/
structure PassthroughFields where
  /-- The scalar media identity: raw format, codec or audio format. -/
  format : Bool
  width : Bool
  height : Bool
  framerate : Bool
  channels : Bool
  sampleRate : Bool
  deriving DecidableEq

def PassthroughFields.NONE : PassthroughFields := ⟨false, false, false, false, false, false⟩

def PassthroughFields.ALL : PassthroughFields := ⟨true, true, true, true, true, true⟩

namespace RawVideoShape

/-- The output a shape derives from the fields of a raw-video input. The scan structure is left
alone and the colorimetry becomes unknown. -/
def derive (s : RawVideoShape) (format : RawVideoFormat) (width height : Dim) (framerate : Rate)
    (interlace : Interlace) : Caps :=
  .rawVideo (s.format.apply format) (s.width.apply width) (s.height.apply height)
    (s.framerate.apply framerate) interlace Colorimetry.UNKNOWN

end RawVideoShape

namespace AudioShape

/-- The output a shape derives from the fields of an audio input, with no layout declared. -/
def derive (s : AudioShape) (format : AudioFormat) (channels : UInt8) (sampleRate : UInt32) : Caps :=
  .audio (s.format.apply format) (s.channels.apply channels) (s.sampleRate.apply sampleRate) ChannelLayout.UNSPECIFIED

end AudioShape

namespace CapsTransform

/-- The ordered output alternatives for `input`, without repetitions. -/
def derive (t : CapsTransform) (input : Caps) : CapsSet :=
  match t, input with
  | rawVideo accept produce shapes, .rawVideo format w h r i _ =>
    if gate accept format then
      ⟨shapes.foldl (fun alts s =>
        if gate produce (s.format.apply format) then pushNew alts (s.derive format w h r i)
        else alts) []⟩
    else ⟨[]⟩
  | audio accept produce shapes, .audio format channels rate _ =>
    if gate accept format then
      ⟨shapes.foldl (fun alts s =>
        if gate produce (s.format.apply format) then pushNew alts (s.derive format channels rate)
        else alts) []⟩
    else ⟨[]⟩
  | _, _ => ⟨[]⟩

/-- The fields every output shape passes through; none when there is no shape. -/
def passthrough : CapsTransform → PassthroughFields
  | rawVideo _ _ shapes =>
    if shapes.isEmpty then PassthroughFields.NONE
    else
      { format := shapes.all (·.format.isIdentity)
        width := shapes.all (·.width.isIdentity)
        height := shapes.all (·.height.isIdentity)
        framerate := shapes.all (·.framerate.isIdentity)
        channels := false
        sampleRate := false }
  | audio _ _ shapes =>
    if shapes.isEmpty then PassthroughFields.NONE
    else
      { format := shapes.all (·.format.isIdentity)
        width := false
        height := false
        framerate := false
        channels := shapes.all (·.channels.isIdentity)
        sampleRate := shapes.all (·.sampleRate.isIdentity) }

end CapsTransform

/-! ## Coupling and projecting passthrough fields -/

/-- A coupled field: the overlap when the field is passed through, else the input's own value. -/
def coupleField {α : Type} (masked : Bool) (overlap : α → α → Option α) (input pin : α) : Option α :=
  if masked then overlap input pin else some input

/-- A projected field: the output's value when the field is passed through, else the wildcard. -/
def projectField {α : Type} (masked : Bool) (out wildcard : α) : α := if masked then out else wildcard

/-- Narrow `input` by intersecting each passthrough field with the same field of `pin`; `none` when
the variants differ or a passthrough field has no overlap. An audio result declares no layout. -/
def couplePassthrough (input pin : Caps) (mask : PassthroughFields) : Option Caps :=
  match input, pin with
  | .rawVideo fi wi hi ri ii cli, .rawVideo fp wp hp rp _ _ => do
    let format ← coupleField mask.format discrete fi fp
    let width ← coupleField mask.width Span.intersect wi wp
    let height ← coupleField mask.height Span.intersect hi hp
    let framerate ← coupleField mask.framerate Span.intersect ri rp
    return .rawVideo format width height framerate ii cli
  | .compressedVideo ci wi hi ri cli ai, .compressedVideo cp wp hp rp _ _ => do
    let codec ← coupleField mask.format discrete ci cp
    let width ← coupleField mask.width Span.intersect wi wp
    let height ← coupleField mask.height Span.intersect hi hp
    let framerate ← coupleField mask.framerate Span.intersect ri rp
    return .compressedVideo codec width height framerate cli ai
  | .audio fi ci si _, .audio fp cp sp _ => do
    let format ← coupleField mask.format discrete fi fp
    let channels ← coupleField mask.channels intersectChannels ci cp
    let sampleRate ← coupleField mask.sampleRate intersectSampleRate si sp
    return .audio format channels sampleRate ChannelLayout.UNSPECIFIED
  | _, _ => none

/-- Like `couplePassthrough`, but across the two video variants the shared geometry and framerate
couple and the input keeps its variant. A compressed result then declares no alignment. -/
def couplePassthroughDerived (input pin : Caps) (mask : PassthroughFields) : Option Caps :=
  match input, pin with
  | .rawVideo .., .rawVideo .. => couplePassthrough input pin mask
  | .compressedVideo .., .compressedVideo .. => couplePassthrough input pin mask
  | .audio .., .audio .. => couplePassthrough input pin mask
  | _, _ => do
    let (wi, hi, ri) ← input.dims
    let (wp, hp, rp) ← pin.dims
    let width ← coupleField mask.width Span.intersect wi wp
    let height ← coupleField mask.height Span.intersect hi hp
    let framerate ← coupleField mask.framerate Span.intersect ri rp
    match input with
    | .rawVideo format _ _ _ interlace colorimetry =>
      return .rawVideo format width height framerate interlace colorimetry
    | .compressedVideo codec _ _ _ colorimetry _ =>
      return .compressedVideo codec width height framerate colorimetry .unspecified
    | _ => none

/-- Project an output onto the input side: keep passthrough fields, widen the others. `none` when a
retargeted field has no wildcard. -/
def projectPassthrough (out : Caps) (mask : PassthroughFields) : Option Caps :=
  match out with
  | .rawVideo format w h r _ _ =>
    if mask.format then
      some (.rawVideo format (projectField mask.width w .any) (projectField mask.height h .any)
        (projectField mask.framerate r .any) .any Colorimetry.UNKNOWN)
    else none
  | .compressedVideo codec w h r _ _ =>
    if mask.format then
      some (.compressedVideo codec (projectField mask.width w .any)
        (projectField mask.height h .any) (projectField mask.framerate r .any)
        Colorimetry.UNKNOWN .unspecified)
    else none
  | .audio format channels rate _ =>
    if mask.format && mask.channels then
      some (.audio format channels (projectField mask.sampleRate rate ANY_SAMPLE_RATE) ChannelLayout.UNSPECIFIED)
    else none
  | _ => none

/-- Project an output of a derivation that may change the video variant; `sample` gives the input's
variant and scalar identity. -/
def projectPassthroughDerived (sample out : Caps) (mask : PassthroughFields) : Option Caps :=
  match sample, out with
  | .rawVideo .., .rawVideo .. => projectPassthrough out mask
  | .compressedVideo .., .compressedVideo .. => projectPassthrough out mask
  | .audio .., .audio .. => projectPassthrough out mask
  | _, _ => do
    let (wp, hp, rp) ← out.dims
    let width := projectField mask.width wp .any
    let height := projectField mask.height hp .any
    let framerate := projectField mask.framerate rp .any
    match sample with
    | .rawVideo format .. =>
      return .rawVideo format width height framerate .any Colorimetry.UNKNOWN
    | .compressedVideo codec .. =>
      return .compressedVideo codec width height framerate Colorimetry.UNKNOWN .unspecified
    | _ => none

/-! ## Discovering passthrough fields -/

inductive ProbeField where
  | width
  | height
  | framerate
  | format
  | channels
  | sampleRate

/-- The sample with its ranged fields set to fixed sentinels. -/
def concreteProbeBase : Caps → Caps
  | .rawVideo format .. =>
    .rawVideo format (.fixed 64) (.fixed 64) (.fixed ((30 : UInt32) <<< 16)) .any Colorimetry.UNKNOWN
  | .compressedVideo codec .. =>
    .compressedVideo codec (.fixed 64) (.fixed 64) (.fixed ((30 : UInt32) <<< 16)) Colorimetry.UNKNOWN .unspecified
  | .audio format .. => .audio format 2 48000 ChannelLayout.UNSPECIFIED
  | other => other

/-- The base with one field set to the first or the second probe value; `none` when the variant has
no such field. -/
def setProbe (base : Caps) (field : ProbeField) (hi : Bool) : Option Caps :=
  let geometry : UInt32 := if hi then 128 else 64
  let rate : UInt32 := if hi then (60 : UInt32) <<< 16 else (30 : UInt32) <<< 16
  match base, field with
  | .rawVideo f _ h r i cl, .width => some (.rawVideo f (.fixed geometry) h r i cl)
  | .compressedVideo c _ h r cl al, .width =>
    some (.compressedVideo c (.fixed geometry) h r cl al)
  | .rawVideo f w _ r i cl, .height => some (.rawVideo f w (.fixed geometry) r i cl)
  | .compressedVideo c w _ r cl al, .height =>
    some (.compressedVideo c w (.fixed geometry) r cl al)
  | .rawVideo f w h _ i cl, .framerate => some (.rawVideo f w h (.fixed rate) i cl)
  | .compressedVideo c w h _ cl al, .framerate =>
    some (.compressedVideo c w h (.fixed rate) cl al)
  | .rawVideo _ w h r i cl, .format => some (.rawVideo (if hi then .i420 else .nv12) w h r i cl)
  | .compressedVideo _ w h r cl al, .format =>
    some (.compressedVideo (if hi then .h265 else .h264) w h r cl al)
  | .audio _ c s l, .format => some (.audio (if hi then .pcmF32Le else .pcmS16Le) c s l)
  | .audio f _ s l, .channels => some (.audio f (if hi then 1 else 2) s l)
  | .audio f c _ l, .sampleRate => some (.audio f c (if hi then 44100 else 48000) l)
  | _, _ => none

/-- Whether one field of `out` equals that of `inp`. Geometry compares across the video variants. -/
def fieldEq (out inp : Caps) (field : ProbeField) : Bool :=
  match field with
  | .width => match out.dims, inp.dims with
    | some a, some b => a.1 == b.1
    | _, _ => false
  | .height => match out.dims, inp.dims with
    | some a, some b => a.2.1 == b.2.1
    | _, _ => false
  | .framerate => match out.dims, inp.dims with
    | some a, some b => a.2.2 == b.2.2
    | _, _ => false
  | .format => match out, inp with
    | .rawVideo a .., .rawVideo b .. => a == b
    | .compressedVideo a .., .compressedVideo b .. => a == b
    | .audio a .., .audio b .. => a == b
    | _, _ => false
  | .channels => match out, inp with
    | .audio _ a .., .audio _ b .. => a == b
    | _, _ => false
  | .sampleRate => match out, inp with
    | .audio _ _ a _, .audio _ _ b _ => a == b
    | _, _ => false

def everyOutputKeepsField (f : Caps → CapsSet) (input : Caps) (field : ProbeField) : Bool :=
  let outputs := f input
  !outputs.isEmpty && outputs.alternatives.all fun output => fieldEq output input field

/-- Whether the base and both probes show the field passed through. -/
def probeField (f : Caps → CapsSet) (base : Caps) (field : ProbeField) : Bool :=
  match setProbe base field false, setProbe base field true with
  | some p0, some p1 => [base, p0, p1].all fun input => everyOutputKeepsField f input field
  | _, _ => false

/-- The fields a derivation shows it passes through, on probes made from `sample`. -/
def discoverPassthrough (f : Caps → CapsSet) (sample : Caps) : PassthroughFields :=
  let base := concreteProbeBase sample
  { width := probeField f base .width
    height := probeField f base .height
    framerate := probeField f base .framerate
    format := probeField f base .format
    channels := probeField f base .channels
    sampleRate := probeField f base .sampleRate }

/-! ## What derivation and coupling keep

The forward derivation is monotone: what it derives from a caps is contained in what it derives from
any alternative that contains the caps. The backward coupling loses nothing: a caps that derives a
reachable output survives it. -/

namespace CapsTransform

theorem mem_derive_rawVideo {accept produce : List RawVideoFormat} {shapes : List RawVideoShape}
    {f : RawVideoFormat} {w h : Dim} {r : Rate} {i : Interlace} {cl : Colorimetry} {d : Caps} :
    d ∈ ((rawVideo accept produce shapes).derive (.rawVideo f w h r i cl)).alternatives ↔
      gate accept f ∧ ∃ s ∈ shapes, gate produce (s.format.apply f) ∧ d = s.derive f w h r i := by
  by_cases hf : gate accept f = true
  · simp only [derive, hf, if_true, mem_foldl_pushNew_ite, List.not_mem_nil, false_or, true_and]
  · simp [derive, hf]

theorem mem_derive_audio {accept produce : List AudioFormat} {shapes : List AudioShape}
    {f : AudioFormat} {c : UInt8} {r : UInt32} {l : ChannelLayout} {d : Caps} :
    d ∈ ((audio accept produce shapes).derive (.audio f c r l)).alternatives ↔
      gate accept f ∧ ∃ s ∈ shapes, gate produce (s.format.apply f) ∧ d = s.derive f c r := by
  by_cases hf : gate accept f = true
  · simp only [derive, hf, if_true, mem_foldl_pushNew_ite, List.not_mem_nil, false_or, true_and]
  · simp [derive, hf]

end CapsTransform

theorem FieldTransform.contains_apply {α : Type} {m : α → α → Option α} (hm : Lawful m)
    {t : FieldTransform α} {x y z : α} (hxy : Contains m x y) (hz : Contains m (t.apply y) z) :
    Contains m (t.apply x) z := by
  cases t with
  | identity => exact hxy.trans hm hz
  | fixed v => exact hz

theorem coupleField_contains {α : Type} {m : α → α → Option α} (hm : Lawful m) (masked : Bool)
    {input pin y q : α} (hy : Contains m input y) (hq : Contains m pin q)
    (hmask : masked = true → q = y) : ∃ z, coupleField masked m input pin = some z ∧ Contains m z y := by
  cases masked with
  | false => exact ⟨input, rfl, hy⟩
  | true =>
    obtain rfl := hmask rfl
    exact exists_meet_of_contains hm hy hq

theorem eq_of_contains_discrete {α : Type} [DecidableEq α] {a b : α} (h : Contains discrete a b) : a = b := by
  simpa [Contains, discrete] using h

theorem coupleField_discrete {α : Type} [DecidableEq α] (masked : Bool) {input pin : α}
    (h : masked = true → pin = input) : coupleField masked discrete input pin = some input := by
  cases masked with
  | false => rfl
  | true => simp [coupleField, discrete, h rfl]

theorem contains_of_coupleField {α : Type} {m : α → α → Option α} (hm : Lawful m) {masked : Bool}
    {input pin z x : α} (hz : coupleField masked m input pin = some z) (hx : Contains m z x) : Contains m input x := by
  cases masked with
  | false =>
    obtain rfl := Option.some.inj hz
    exact hx
  | true => exact ((contains_meet_iff hm hz).1 hx).1

namespace Caps

theorem kind_eq_of_contains {a p : Caps} (h : a.contains p) : a.kind = p.kind :=
  (kind_of_meet a p p (contains_iff.1 h)).1

end Caps

/-! ## Hints that coupling drops

Coupling leaves an audio result without a layout, and a compressed result across the video variants
without an alignment. Everything else of the result lies inside the input. -/

namespace Caps

theorem eq_of_coupleField_discrete {α : Type} [DecidableEq α] {masked : Bool} {input pin z : α}
    (hz : coupleField masked discrete input pin = some z) : z = input := by
  have hzz : Contains discrete z z := by simp [Contains, discrete]
  exact (eq_of_contains_discrete (contains_of_coupleField discrete_lawful hz hzz)).symm

end Caps

namespace CapsTransform

/-- The variant a transform takes and makes. -/
def kind : CapsTransform → Caps.Kind
  | rawVideo .. => .rawVideo
  | audio .. => .audio

theorem kind_of_mem_derive {t : CapsTransform} {p d : Caps} (h : d ∈ (t.derive p).alternatives) :
    p.kind = t.kind ∧ d.kind = t.kind := by
  cases t with
  | rawVideo accept produce shapes =>
    cases p with
    | rawVideo f w ht r i cl =>
      obtain ⟨-, s, -, -, rfl⟩ := mem_derive_rawVideo.1 h
      exact ⟨rfl, rfl⟩
    | _ => simp [derive] at h
  | audio accept produce shapes =>
    cases p with
    | audio f c r l =>
      obtain ⟨-, s, -, -, rfl⟩ := mem_derive_audio.1 h
      exact ⟨rfl, rfl⟩
    | _ => simp [derive] at h

/-- Derivation is monotone: what the derivation of `p` contains, the derivation of whatever contains
`p` contains as well. -/
theorem contains_derive (t : CapsTransform) {a p q : Caps} (ha : a.contains p)
    (hq : (t.derive p).contains q) : (t.derive a).contains q := by
  obtain ⟨d, hd, hdq⟩ := hq
  have hspan := Span.intersect_lawful
  cases t with
  | rawVideo accept produce shapes =>
    have hk := Caps.kind_eq_of_contains ha
    rw [(kind_of_mem_derive hd).1] at hk
    cases a with
    | rawVideo f w h r i cl =>
      obtain ⟨w', h', r', i', cl', rfl, hw, hh, hr, hi, -⟩ := Caps.contains_rawVideo_iff.1 ha
      obtain ⟨hacc, s, hs, hprod, rfl⟩ := mem_derive_rawVideo.1 hd
      obtain ⟨w₂, h₂, r₂, i₂, cl₂, rfl, hw₂, hh₂, hr₂, hi₂, hcl₂⟩ := Caps.contains_rawVideo_iff.1 hdq
      exact ⟨_, mem_derive_rawVideo.2 ⟨hacc, s, hs, hprod, rfl⟩, Caps.contains_rawVideo_iff.2
        ⟨w₂, h₂, r₂, i₂, cl₂, rfl, FieldTransform.contains_apply hspan hw hw₂,
          FieldTransform.contains_apply hspan hh hh₂, FieldTransform.contains_apply hspan hr hr₂,
          hi.trans Interlace.intersect_lawful hi₂, hcl₂⟩⟩
    | _ => cases hk
  | audio accept produce shapes =>
    have hk := Caps.kind_eq_of_contains ha
    rw [(kind_of_mem_derive hd).1] at hk
    cases a with
    | audio f c r l =>
      obtain ⟨c', r', l', rfl, hc, hr, -⟩ := Caps.contains_audio_iff.1 ha
      obtain ⟨hacc, s, hs, hprod, rfl⟩ := mem_derive_audio.1 hd
      obtain ⟨c₂, r₂, l₂, rfl, hc₂, hr₂, hl₂⟩ := Caps.contains_audio_iff.1 hdq
      exact ⟨_, mem_derive_audio.2 ⟨hacc, s, hs, hprod, rfl⟩, Caps.contains_audio_iff.2
        ⟨c₂, r₂, l₂, rfl, FieldTransform.contains_apply intersectChannels_lawful hc hc₂,
          FieldTransform.contains_apply intersectSampleRate_lawful hr hr₂, hl₂⟩⟩
    | _ => cases hk

theorem eq_of_contains_apply {α : Type} {m : α → α → Option α} (hm : Lawful m) {t : FieldTransform α}
    {y q : α} (ht : t.isIdentity) (hy : IsPoint m y) (hq : Contains m (t.apply y) q) : q = y := by
  cases t with
  | identity => exact hy q q (((hm q).comm y).trans hq)
  | fixed v => simp [FieldTransform.isIdentity] at ht

theorem apply_eq_of_isIdentity {α : Type} {t : FieldTransform α} {f : α} (ht : t.isIdentity) : t.apply f = f := by
  cases t with
  | identity => rfl
  | fixed v => simp [FieldTransform.isIdentity] at ht

/-- Backward coupling of raw video keeps what derives a reachable output. -/
theorem contains_couple_rawVideo {accept produce : List RawVideoFormat} {shapes : List RawVideoShape}
    {f fp : RawVideoFormat} {w h r wp hp rp : Span} {i ip : Interlace} {cl clp : Colorimetry}
    {p q : Caps} (ha : (Caps.rawVideo f w h r i cl).contains p) (hconc : p.isConcrete)
    (hq : ((rawVideo accept produce shapes).derive p).contains q)
    (hpin : (Caps.rawVideo fp wp hp rp ip clp).contains q) :
    ∃ c, couplePassthrough (.rawVideo f w h r i cl) (.rawVideo fp wp hp rp ip clp)
      (rawVideo accept produce shapes).passthrough = some c ∧ c.contains p := by
  have hspan := Span.intersect_lawful
  obtain ⟨d, hd, hdq⟩ := hq
  obtain ⟨w', h', r', i', cl', rfl, hw, hh, hr, hi, hcl⟩ := Caps.contains_rawVideo_iff.1 ha
  obtain ⟨-, s, hs, -, rfl⟩ := mem_derive_rawVideo.1 hd
  obtain ⟨w₂, h₂, r₂, i₂, cl₂, rfl, hw₂, hh₂, hr₂, -⟩ := Caps.contains_rawVideo_iff.1 hdq
  obtain ⟨w₃, h₃, r₃, i₃, cl₃, heq, hw₃, hh₃, hr₃, -⟩ := Caps.contains_rawVideo_iff.1 hpin
  obtain ⟨rfl, rfl, rfl, rfl, -, -⟩ := heq
  simp only [Caps.isConcrete, Bool.and_eq_true] at hconc
  obtain ⟨⟨⟨⟨hpw, hph⟩, hpr⟩, -⟩, -⟩ := hconc
  -- A masked field is passed through by every shape, in particular by the one that derived `d`.
  have masked : ∀ {P : RawVideoShape → Bool}, shapes.all P = true → P s = true :=
    fun hall => List.all_eq_true.1 hall s hs
  have hf := coupleField_discrete (shapes.all (·.format.isIdentity))
    fun hm => apply_eq_of_isIdentity (f := f) (masked hm)
  obtain ⟨w₄, hw₄, hw₅⟩ := coupleField_contains hspan (shapes.all (·.width.isIdentity)) hw hw₃
    fun hm => eq_of_contains_apply hspan (masked hm) (Span.isPoint_of_isFixed hpw) hw₂
  obtain ⟨h₄, hh₄, hh₅⟩ := coupleField_contains hspan (shapes.all (·.height.isIdentity)) hh hh₃
    fun hm => eq_of_contains_apply hspan (masked hm) (Span.isPoint_of_isFixed hph) hh₂
  obtain ⟨r₄, hr₄, hr₅⟩ := coupleField_contains hspan (shapes.all (·.framerate.isIdentity)) hr hr₃
    fun hm => eq_of_contains_apply hspan (masked hm) (Span.isPoint_of_isFixed hpr) hr₂
  refine ⟨.rawVideo f w₄ h₄ r₄ i cl, ?_, Caps.contains_rawVideo_iff.2
    ⟨w', h', r', i', cl', rfl, hw₅, hh₅, hr₅, hi, hcl⟩⟩
  have hne : shapes.isEmpty = false := List.isEmpty_eq_false_iff.2 (List.ne_nil_of_mem hs)
  simp only [couplePassthrough, passthrough, hne, Bool.false_eq_true, if_false, hf, hw₄, hh₄, hr₄]
  rfl

/-- Backward coupling of audio keeps what derives a reachable output. -/
theorem contains_couple_audio {accept produce : List AudioFormat} {shapes : List AudioShape}
    {f fp : AudioFormat} {c cp : UInt8} {r rp : UInt32} {l lp : ChannelLayout}
    {p q : Caps} (ha : (Caps.audio f c r l).contains p) (hconc : p.isConcrete)
    (hq : ((audio accept produce shapes).derive p).contains q) (hpin : (Caps.audio fp cp rp lp).contains q) :
    ∃ d, couplePassthrough (.audio f c r l) (.audio fp cp rp lp)
      (audio accept produce shapes).passthrough = some d ∧ d.contains p := by
  obtain ⟨d, hd, hdq⟩ := hq
  obtain ⟨c', r', l', rfl, hc, hr, hl⟩ := Caps.contains_audio_iff.1 ha
  obtain ⟨-, s, hs, -, rfl⟩ := mem_derive_audio.1 hd
  obtain ⟨c₂, r₂, l₂, rfl, hc₂, hr₂, -⟩ := Caps.contains_audio_iff.1 hdq
  obtain ⟨c₃, r₃, l₃, heq, hc₃, hr₃, -⟩ := Caps.contains_audio_iff.1 hpin
  obtain ⟨rfl, rfl, rfl, -⟩ := heq
  simp only [Caps.isConcrete, Bool.and_eq_true, bne_iff_ne, ne_eq] at hconc
  obtain ⟨⟨hpc, hpr⟩, -⟩ := hconc
  have masked : ∀ {P : AudioShape → Bool}, shapes.all P = true → P s = true :=
    fun hall => List.all_eq_true.1 hall s hs
  have hf := coupleField_discrete (shapes.all (·.format.isIdentity))
    fun hm => apply_eq_of_isIdentity (f := f) (masked hm)
  obtain ⟨c₄, hc₄, hc₅⟩ := coupleField_contains intersectChannels_lawful
    (shapes.all (·.channels.isIdentity)) hc hc₃ fun hm =>
      eq_of_contains_apply intersectChannels_lawful (masked hm) (intersectChannels_eq ▸ flat_isPoint hpc) hc₂
  obtain ⟨r₄, hr₄, hr₅⟩ := coupleField_contains intersectSampleRate_lawful
    (shapes.all (·.sampleRate.isIdentity)) hr hr₃ fun hm =>
      eq_of_contains_apply intersectSampleRate_lawful (masked hm) (intersectSampleRate_eq ▸ flat_isPoint hpr) hr₂
  refine ⟨.audio f c₄ r₄ ChannelLayout.UNSPECIFIED, ?_, Caps.contains_audio_iff.2
    ⟨c', r', l', rfl, hc₅, hr₅, ChannelLayout.contains_unspecified l'⟩⟩
  have hne : shapes.isEmpty = false := List.isEmpty_eq_false_iff.2 (List.ne_nil_of_mem hs)
  simp only [couplePassthrough, passthrough, hne, Bool.false_eq_true, if_false, hf, hc₄, hr₄]
  rfl

/-- Backward coupling loses nothing: when `a` contains the concrete `p`, the derivation of `p`
contains `q`, and the pin contains `q`, then coupling `a` to the pin keeps `p`. -/
theorem contains_couple (t : CapsTransform) {a p q pin : Caps} (ha : a.contains p)
    (hp : p.isConcrete) (hq : (t.derive p).contains q) (hpin : pin.contains q) :
    ∃ c, couplePassthroughDerived a pin t.passthrough = some c ∧ c.contains p := by
  obtain ⟨d, hd, hdq⟩ := id hq
  have hk := Caps.kind_eq_of_contains ha
  rw [(kind_of_mem_derive hd).1] at hk
  have hkpin := Caps.kind_eq_of_contains hpin
  rw [← Caps.kind_eq_of_contains hdq, (kind_of_mem_derive hd).2] at hkpin
  cases t with
  | rawVideo accept produce shapes =>
    cases a with
    | rawVideo f w h r i cl =>
      cases pin with
      | rawVideo fp wp hp' rp ip clp => exact contains_couple_rawVideo ha hp hq hpin
      | _ => cases hkpin
    | _ => cases hk
  | audio accept produce shapes =>
    cases a with
    | audio f c r l =>
      cases pin with
      | audio fp cp rp lp => exact contains_couple_audio ha hp hq hpin
      | _ => cases hkpin
    | _ => cases hk

end CapsTransform

end Glass2Glass
