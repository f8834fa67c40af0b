import Glass2Glass.Caps.Fields

/-!
# Caps and their intersection

`Caps` is the media description of one link and `Caps.intersect` its Phase 1 intersection
(`caps.rs`). Batches nest, so equality and intersection recurse through lists of streams. The
intersection is a lawful partial meet: each variant is a product of lawful fields, only caps of one
variant overlap, and a batch overlaps stream by stream.
-/

namespace Glass2Glass

open PartialMeet

/-- The errors of the caps layer. Of the variants of `G2gError` only this one is raised here. -/
inductive G2gError where
  | capsMismatch
  deriving DecidableEq

def okOr {α : Type} (o : Option α) (e : G2gError) : Except G2gError α :=
  match o with
  | some a => .ok a
  | none => .error e

/-- The description of the media on a link. -/
inductive Caps where
  | compressedVideo (codec : VideoCodec) (width height : Dim) (framerate : Rate)
      (colorimetry : Colorimetry) (alignment : BitstreamAlignment)
  | rawVideo (format : RawVideoFormat) (width height : Dim) (framerate : Rate)
      (interlace : Interlace) (colorimetry : Colorimetry)
  | audio (format : AudioFormat) (channels : UInt8) (sampleRate : UInt32)
      (channelLayout : ChannelLayout)
  | tensor (dtype : TensorDType) (shape : TensorShape) (layout : TensorLayout)
  | byteStream (encoding : ByteStreamEncoding)
  | text (format : TextFormat)
  | klv
  | closedCaption (format : ClosedCaptionFormat)
  | subPicture (format : SubPictureFormat)
  | onvifMetadata
  | batch (streams : List Caps)

namespace Caps

/-- The variants of `Caps`. -/
inductive Kind where
  | compressedVideo
  | rawVideo
  | audio
  | tensor
  | byteStream
  | text
  | klv
  | closedCaption
  | subPicture
  | onvifMetadata
  | batch
  deriving DecidableEq

/-- The variant of a caps, `core::mem::discriminant`. -/
def kind : Caps → Kind
  | compressedVideo .. => .compressedVideo
  | rawVideo .. => .rawVideo
  | audio .. => .audio
  | tensor .. => .tensor
  | byteStream .. => .byteStream
  | text .. => .text
  | klv => .klv
  | closedCaption .. => .closedCaption
  | subPicture .. => .subPicture
  | onvifMetadata => .onvifMetadata
  | batch .. => .batch

def isLeaf : Caps → Bool
  | batch _ => false
  | _ => true

theorem streamInduction {motive : Caps → Prop} (leaf : ∀ c, c.isLeaf → motive c)
    (batch : ∀ streams, (∀ c ∈ streams, motive c) → motive (batch streams)) (c : Caps) : motive c := by
  refine @Caps.rec motive (fun l => ∀ c ∈ l, motive c) ?_ ?_ ?_ ?_ ?_ ?_ ?_ ?_ ?_ ?_ (fun s h => batch s h) ?_ ?_ c
  case refine_11 => simp
  case refine_12 =>
    intro head tail hhead htail c hc
    rcases List.mem_cons.1 hc with rfl | hc
    · exact hhead
    · exact htail c hc
  all_goals
    intros
    exact leaf _ rfl

/-! ## Equality -/

mutual

/-- Structural equality, as derived by the source. -/
def beq : Caps → Caps → Bool
  | compressedVideo c w h r cl al, compressedVideo c' w' h' r' cl' al' =>
    c == c' && w == w' && h == h' && r == r' && cl == cl' && al == al'
  | rawVideo f w h r i cl, rawVideo f' w' h' r' i' cl' =>
    f == f' && w == w' && h == h' && r == r' && i == i' && cl == cl'
  | audio f c s l, audio f' c' s' l' => f == f' && c == c' && s == s' && l == l'
  | tensor d s l, tensor d' s' l' => d == d' && s == s' && l == l'
  | byteStream e, byteStream e' => e == e'
  | text f, text f' => f == f'
  | klv, klv => true
  | closedCaption f, closedCaption f' => f == f'
  | subPicture f, subPicture f' => f == f'
  | onvifMetadata, onvifMetadata => true
  | batch s, batch s' => beqStreams s s'
  | _, _ => false

/-- Equality of the streams of two batches. -/
def beqStreams : List Caps → List Caps → Bool
  | [], [] => true
  | a :: as, b :: bs => beq a b && beqStreams as bs
  | _, _ => false

end

theorem beqStreams_iff {s : List Caps} (h : ∀ a ∈ s, ∀ b, beq a b = true ↔ a = b) (t : List Caps) :
    beqStreams s t = true ↔ s = t := by
  induction s generalizing t with
  | nil => cases t <;> simp [beqStreams]
  | cons a s ih =>
    cases t with
    | nil => simp [beqStreams]
    | cons b t =>
      rw [beqStreams, Bool.and_eq_true, h a List.mem_cons_self,
        ih (fun x hx => h x (List.mem_cons_of_mem a hx)), List.cons.injEq]

theorem beq_iff (a b : Caps) : beq a b = true ↔ a = b := by
  induction a using streamInduction generalizing b with
  | leaf a ha => cases a <;> cases b <;> simp_all [beq, isLeaf, and_assoc]
  | batch s ih =>
    cases b with
    | batch t => simp only [beq, beqStreams_iff (fun a ha b => ih a ha b), batch.injEq]
    | _ => simp [beq]

instance : DecidableEq Caps := fun a b => decidable_of_iff (beq a b = true) (beq_iff a b)

/-! ## Intersection -/

mutual

/-- Phase 1 intersection: the overlap of two caps of one variant. Ranged and wildcard fields
intersect field by field, scalar fields must be equal. -/
def intersect : Caps → Caps → Except G2gError Caps
  | compressedVideo ca wa ha ra cla aa, compressedVideo cb wb hb rb clb ab =>
    if ca = cb then do
      let width ← okOr (wa.intersect wb) .capsMismatch
      let height ← okOr (ha.intersect hb) .capsMismatch
      let framerate ← okOr (ra.intersect rb) .capsMismatch
      let colorimetry ← okOr (cla.intersect clb) .capsMismatch
      let alignment ← okOr (aa.intersect ab) .capsMismatch
      return compressedVideo ca width height framerate colorimetry alignment
    else throw .capsMismatch
  | rawVideo fa wa ha ra ia cla, rawVideo fb wb hb rb ib clb =>
    if fa = fb then do
      let width ← okOr (wa.intersect wb) .capsMismatch
      let height ← okOr (ha.intersect hb) .capsMismatch
      let framerate ← okOr (ra.intersect rb) .capsMismatch
      let interlace ← okOr (ia.intersect ib) .capsMismatch
      let colorimetry ← okOr (cla.intersect clb) .capsMismatch
      return rawVideo fa width height framerate interlace colorimetry
    else throw .capsMismatch
  | audio fa ca sa la, audio fb cb sb lb =>
    if fa = fb then
      match intersectChannels ca cb, intersectSampleRate sa sb, la.intersect lb with
      | some channels, some sampleRate, some channelLayout =>
        return audio fa channels sampleRate channelLayout
      | _, _, _ => throw .capsMismatch
    else throw .capsMismatch
  | tensor da sha la, tensor db shb lb =>
    if da = db ∧ sha = shb ∧ la = lb then return tensor da sha la else throw .capsMismatch
  | byteStream ea, byteStream eb => if ea = eb then return byteStream ea else throw .capsMismatch
  | text fa, text fb => if fa = fb then return text fa else throw .capsMismatch
  | klv, klv => return klv
  | onvifMetadata, onvifMetadata => return onvifMetadata
  | closedCaption a, closedCaption b =>
    if a = b then return closedCaption a else throw .capsMismatch
  | subPicture a, subPicture b => if a = b then return subPicture a else throw .capsMismatch
  | batch a, batch b =>
    if a.length = b.length then return batch (← intersectStreams a b) else throw .capsMismatch
  | _, _ => throw .capsMismatch

/-- The overlaps of zipped streams, an error at the first pair that has none. -/
def intersectStreams : List Caps → List Caps → Except G2gError (List Caps)
  | a :: as, b :: bs => return (← intersect a b) :: (← intersectStreams as bs)
  | _, _ => return []

end

/-- The overlap as an option, what a caller that drops the error sees. -/
def meet (a b : Caps) : Option Caps := (a.intersect b).toOption

/-! ## The intersection is a lawful meet

The payload of each variant is written as a tuple, so that its overlap is a product of field
overlaps. -/

/-- A compressed-video caps from the tuple of its fields. -/
def ofCompressed (x : VideoCodec × Dim × Dim × Rate × Colorimetry × BitstreamAlignment) : Caps :=
  compressedVideo x.1 x.2.1 x.2.2.1 x.2.2.2.1 x.2.2.2.2.1 x.2.2.2.2.2

/-- The overlap of compressed-video payloads. -/
def compressedMeet :=
  prodMeet (discrete (α := VideoCodec)) (prodMeet Span.intersect (prodMeet Span.intersect
    (prodMeet Span.intersect (prodMeet Colorimetry.intersect BitstreamAlignment.intersect))))

/-- A raw-video caps from the tuple of its fields. -/
def ofRaw (x : RawVideoFormat × Dim × Dim × Rate × Interlace × Colorimetry) : Caps :=
  rawVideo x.1 x.2.1 x.2.2.1 x.2.2.2.1 x.2.2.2.2.1 x.2.2.2.2.2

/-- The overlap of raw-video payloads. -/
def rawMeet :=
  prodMeet (discrete (α := RawVideoFormat)) (prodMeet Span.intersect (prodMeet Span.intersect
    (prodMeet Span.intersect (prodMeet Interlace.intersect Colorimetry.intersect))))

/-- An audio caps from the tuple of its fields. -/
def ofAudio (x : AudioFormat × UInt8 × UInt32 × ChannelLayout) : Caps :=
  audio x.1 x.2.1 x.2.2.1 x.2.2.2

/-- The overlap of audio payloads. -/
def audioMeet :=
  prodMeet (discrete (α := AudioFormat)) (prodMeet intersectChannels
    (prodMeet intersectSampleRate ChannelLayout.intersect))

/-- A tensor caps from the tuple of its fields. -/
def ofTensor (x : TensorDType × TensorShape × TensorLayout) : Caps := tensor x.1 x.2.1 x.2.2

theorem meet_ofCompressed (x y) : meet (ofCompressed x) (ofCompressed y) = (compressedMeet x y).map ofCompressed := by
  simp only [meet, ofCompressed, intersect, compressedMeet, prodMeet, discrete]
  by_cases h : x.1 = y.1
  · simp only [h, if_true]
    rcases x.2.1.intersect y.2.1 with _ | w <;>
    rcases x.2.2.1.intersect y.2.2.1 with _ | ht <;>
    rcases x.2.2.2.1.intersect y.2.2.2.1 with _ | r <;>
    rcases x.2.2.2.2.1.intersect y.2.2.2.2.1 with _ | cl <;>
    rcases x.2.2.2.2.2.intersect y.2.2.2.2.2 with _ | al <;> rfl
  · simp only [h, if_false]
    rfl

theorem meet_ofRaw (x y) : meet (ofRaw x) (ofRaw y) = (rawMeet x y).map ofRaw := by
  simp only [meet, ofRaw, intersect, rawMeet, prodMeet, discrete]
  by_cases h : x.1 = y.1
  · simp only [h, if_true]
    rcases x.2.1.intersect y.2.1 with _ | w <;>
    rcases x.2.2.1.intersect y.2.2.1 with _ | ht <;>
    rcases x.2.2.2.1.intersect y.2.2.2.1 with _ | r <;>
    rcases x.2.2.2.2.1.intersect y.2.2.2.2.1 with _ | i <;>
    rcases x.2.2.2.2.2.intersect y.2.2.2.2.2 with _ | cl <;> rfl
  · simp only [h, if_false]
    rfl

theorem meet_ofAudio (x y) : meet (ofAudio x) (ofAudio y) = (audioMeet x y).map ofAudio := by
  simp only [meet, ofAudio, intersect, audioMeet, prodMeet, discrete]
  by_cases h : x.1 = y.1
  · simp only [h, if_true]
    rcases intersectChannels x.2.1 y.2.1 with _ | c <;>
    rcases intersectSampleRate x.2.2.1 y.2.2.1 with _ | s <;>
    rcases x.2.2.2.intersect y.2.2.2 with _ | l <;> rfl
  · simp only [h, if_false]
    rfl

theorem toOption_ite_eq {α : Type} [DecidableEq α] (mk : α → Caps) (x y : α) :
    (if x = y then return mk x else throw .capsMismatch : Except G2gError Caps).toOption =
      (discrete x y).map mk := by
  unfold discrete
  split_ifs <;> rfl

theorem meet_ofTensor (x y) : meet (ofTensor x) (ofTensor y) = (discrete x y).map ofTensor := by
  rw [← toOption_ite_eq]
  simp only [meet, ofTensor, intersect, Prod.ext_iff]

theorem meet_batch (a b : List Caps) : meet (batch a) (batch b) = (listMeet meet a b).map batch := by
  have streams : ∀ a b : List Caps, a.length = b.length →
      (intersectStreams a b).toOption = listMeet meet a b := by
    intro a
    induction a with
    | nil =>
      intro b hb
      obtain rfl := List.length_eq_zero_iff.1 hb.symm
      rfl
    | cons x a ih =>
      intro b hb
      cases b with
      | nil => simp at hb
      | cons y b =>
        have htail := ih b (by simpa using hb)
        simp only [intersectStreams, listMeet, meet, ← htail]
        rcases x.intersect y with _ | c <;> rcases intersectStreams a b with _ | cs <;> rfl
  have lengths : ∀ a b : List Caps, a.length ≠ b.length → listMeet meet a b = none := by
    intro a
    induction a with
    | nil => intro b hb; cases b <;> simp_all [listMeet]
    | cons x a ih =>
      intro b hb
      cases b with
      | nil => rfl
      | cons y b => simp [listMeet, ih b (by simpa using hb)]
  by_cases h : a.length = b.length
  · rw [← streams a b h]
    simp only [meet, intersect, h, if_true]
    rcases intersectStreams a b with _ | cs <;> rfl
  · rw [lengths a b h]
    simp only [meet, intersect, h, if_false]
    rfl

theorem meet_eq_none_of_kind_ne {a b : Caps} (h : a.kind ≠ b.kind) : meet a b = none := by
  cases a <;> cases b <;> first | rfl | exact absurd rfl h

/-- `mk` makes the caps of one variant, and `m` is the overlap of their payloads. -/
structure Variant {β : Type} (mk : β → Caps) (m : β → β → Option β) : Prop where
  /-- All caps made by `mk` are of one variant. -/
  kind_eq : ∀ x y, (mk x).kind = (mk y).kind
  /-- All caps of that variant are made by `mk`. -/
  exists_eq : ∀ x b, (mk x).kind = b.kind → ∃ y, b = mk y
  /-- Caps of the variant overlap as their payloads do. -/
  meet_eq : ∀ x y, meet (mk x) (mk y) = (m x y).map mk

theorem variant_compressed : Variant ofCompressed compressedMeet := by
  refine ⟨fun _ _ => rfl, fun x b hb => ?_, meet_ofCompressed⟩
  cases b <;> first | exact ⟨(_, _, _, _, _, _), rfl⟩ | cases hb

theorem variant_raw : Variant ofRaw rawMeet := by
  refine ⟨fun _ _ => rfl, fun x b hb => ?_, meet_ofRaw⟩
  cases b <;> first | exact ⟨(_, _, _, _, _, _), rfl⟩ | cases hb

theorem variant_audio : Variant ofAudio audioMeet := by
  refine ⟨fun _ _ => rfl, fun x b hb => ?_, meet_ofAudio⟩
  cases b <;> first | exact ⟨(_, _, _, _), rfl⟩ | cases hb

theorem variant_tensor : Variant ofTensor discrete := by
  refine ⟨fun _ _ => rfl, fun x b hb => ?_, meet_ofTensor⟩
  cases b <;> first | exact ⟨(_, _, _), rfl⟩ | cases hb

theorem variant_byteStream : Variant byteStream discrete := by
  refine ⟨fun _ _ => rfl, fun x b hb => ?_, toOption_ite_eq byteStream⟩
  cases b <;> first | exact ⟨_, rfl⟩ | cases hb

theorem variant_text : Variant text discrete := by
  refine ⟨fun _ _ => rfl, fun x b hb => ?_, toOption_ite_eq text⟩
  cases b <;> first | exact ⟨_, rfl⟩ | cases hb

theorem variant_closedCaption : Variant closedCaption discrete := by
  refine ⟨fun _ _ => rfl, fun x b hb => ?_, toOption_ite_eq closedCaption⟩
  cases b <;> first | exact ⟨_, rfl⟩ | cases hb

theorem variant_subPicture : Variant subPicture discrete := by
  refine ⟨fun _ _ => rfl, fun x b hb => ?_, toOption_ite_eq subPicture⟩
  cases b <;> first | exact ⟨_, rfl⟩ | cases hb

theorem variant_klv : Variant (fun _ : Unit => klv) discrete := by
  refine ⟨fun _ _ => rfl, fun x b hb => ?_, fun _ _ => rfl⟩
  cases b <;> first | exact ⟨(), rfl⟩ | cases hb

theorem variant_onvifMetadata : Variant (fun _ : Unit => onvifMetadata) discrete := by
  refine ⟨fun _ _ => rfl, fun x b hb => ?_, fun _ _ => rfl⟩
  cases b <;> first | exact ⟨(), rfl⟩ | cases hb

theorem variant_batch : Variant batch (listMeet meet) := by
  refine ⟨fun _ _ => rfl, fun x b hb => ?_, meet_batch⟩
  cases b <;> first | exact ⟨_, rfl⟩ | cases hb

theorem exists_variant (a : Caps) : ∃ (β : Type) (mk : β → Caps) (m : β → β → Option β) (x : β),
    Variant mk m ∧ a = mk x := by
  cases a with
  | compressedVideo c w h r cl al => exact ⟨_, _, _, (c, w, h, r, cl, al), variant_compressed, rfl⟩
  | rawVideo f w h r i cl => exact ⟨_, _, _, (f, w, h, r, i, cl), variant_raw, rfl⟩
  | audio f c s l => exact ⟨_, _, _, (f, c, s, l), variant_audio, rfl⟩
  | tensor d s l => exact ⟨_, _, _, (d, s, l), variant_tensor, rfl⟩
  | byteStream e => exact ⟨_, _, _, e, variant_byteStream, rfl⟩
  | text f => exact ⟨_, _, _, f, variant_text, rfl⟩
  | klv => exact ⟨_, _, _, (), variant_klv, rfl⟩
  | closedCaption f => exact ⟨_, _, _, f, variant_closedCaption, rfl⟩
  | subPicture f => exact ⟨_, _, _, f, variant_subPicture, rfl⟩
  | onvifMetadata => exact ⟨_, _, _, (), variant_onvifMetadata, rfl⟩
  | batch s => exact ⟨_, _, _, s, variant_batch, rfl⟩

theorem kind_of_meet (a b c : Caps) (h : meet a b = some c) : a.kind = b.kind ∧ c.kind = a.kind := by
  have hab : a.kind = b.kind := by
    by_contra hne
    simp [meet_eq_none_of_kind_ne hne] at h
  obtain ⟨β, mk, m, x, hv, rfl⟩ := exists_variant a
  obtain ⟨y, rfl⟩ := hv.exists_eq x b hab
  rw [hv.meet_eq, Option.map_eq_some_iff] at h
  obtain ⟨z, -, rfl⟩ := h
  exact ⟨hab, hv.kind_eq z x⟩

theorem Variant.lawsAt {β : Type} {mk : β → Caps} {m : β → β → Option β} (hv : Variant mk m)
    {x : β} (h : LawsAt m x) : LawsAt meet (mk x) :=
  LawsAt.ofKind kind_of_meet hv.exists_eq hv.meet_eq h

theorem Variant.isPoint {β : Type} {mk : β → Caps} {m : β → β → Option β} (hv : Variant mk m)
    {x : β} (h : IsPoint m x) : IsPoint meet (mk x) :=
  IsPoint.ofKind kind_of_meet hv.exists_eq hv.meet_eq h

theorem meet_lawful : Lawful meet := by
  intro a
  have hspan := Span.intersect_lawful
  have hcolor := Colorimetry.intersect_lawful
  induction a using streamInduction with
  | leaf a ha =>
    cases a with
    | compressedVideo c w h r cl al =>
      have hal := BitstreamAlignment.intersect_lawful al
      exact variant_compressed.lawsAt (x := (c, w, h, r, cl, al))
        ((discrete_lawful c).prod ((hspan w).prod ((hspan h).prod ((hspan r).prod ((hcolor cl).prod hal)))))
    | rawVideo f w h r i cl =>
      have hi := Interlace.intersect_lawful i
      exact variant_raw.lawsAt (x := (f, w, h, r, i, cl))
        ((discrete_lawful f).prod ((hspan w).prod ((hspan h).prod ((hspan r).prod (hi.prod (hcolor cl))))))
    | audio f c s l =>
      have hc := intersectChannels_lawful c
      have hs := intersectSampleRate_lawful s
      have hl := ChannelLayout.intersect_lawful l
      exact variant_audio.lawsAt (x := (f, c, s, l)) ((discrete_lawful f).prod (hc.prod (hs.prod hl)))
    | tensor d s l => exact variant_tensor.lawsAt (x := (d, s, l)) (discrete_lawful _)
    | byteStream e => exact variant_byteStream.lawsAt (discrete_lawful e)
    | text f => exact variant_text.lawsAt (discrete_lawful f)
    | klv => exact variant_klv.lawsAt (discrete_lawful ())
    | closedCaption f => exact variant_closedCaption.lawsAt (discrete_lawful f)
    | subPicture f => exact variant_subPicture.lawsAt (discrete_lawful f)
    | onvifMetadata => exact variant_onvifMetadata.lawsAt (discrete_lawful ())
    | batch s => simp [isLeaf] at ha
  | batch s ih => exact variant_batch.lawsAt (LawsAt.list ih)

end Caps

end Glass2Glass
