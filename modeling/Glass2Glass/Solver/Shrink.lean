import Glass2Glass.Solver.Narrow

/-!
# When backward coupling shrinks

`backward_field_narrow` couples each input alternative to the outputs it reaches, and each step is
meant to be an intersection, so that what is returned lies inside what came in. A coupling keeps the
scan structure and the colorimetry of the input, but it resets the layout of audio, and the alignment
of compressed video coupled with raw video. This module says of which inputs the returned set lies
inside the input set, alternative by alternative.

A field is compared with the coupled value `z` by its meet: `FieldCovers` asks it of a field of
another alternative, `FieldRegular` of the alternative's own field, which can only fail outside the
mask and only for a range whose overlap with itself is written in another way.
-/

namespace Glass2Glass

open PartialMeet List

section Field

variable {α : Type} {m : α → α → Option α} {masked : Bool} {wide x y z pin : α}

/-- A field that is passed through overlaps the same field of the pin. -/
def FieldMeets (masked : Bool) (m : α → α → Option α) (x pin : α) : Prop := masked = true → (m x pin).isSome

/-- `wide` takes in what the pin leaves of `x`: overlapping with `wide` first takes nothing away. -/
def FieldCovers (masked : Bool) (m : α → α → Option α) (wide x pin : α) : Prop :=
  if masked then (m wide x).bind (m · pin) = m x pin else m wide x = some x

/-- A field that is not passed through is its own overlap with itself. -/
def FieldRegular (masked : Bool) (m : α → α → Option α) (x : α) : Prop := masked = false → m x x = some x

theorem fieldMeets_iff : FieldMeets masked m x pin ↔ ∃ z, coupleField masked m x pin = some z := by
  cases masked with
  | false => simp [FieldMeets, coupleField]
  | true => simp [FieldMeets, coupleField, Option.isSome_iff_exists]

theorem fieldMeets_of_couple (hz : coupleField masked m x pin = some z) : FieldMeets masked m x pin :=
  fieldMeets_iff.2 ⟨z, hz⟩

section Lawful

variable (hm : Lawful m) (hz : coupleField masked m x pin = some z)
include hm hz

theorem fieldCovers_iff : FieldCovers masked m wide x pin ↔ Contains m wide z := by
  cases masked with
  | false =>
    obtain rfl := Option.some.inj hz
    rfl
  | true =>
    have hxz : m x pin = some z := hz
    have hassoc := (hm wide).assoc x pin
    simp only [FieldCovers, if_true, hassoc, hxz]
    rfl

theorem fieldRegular_of_contains (hy : Contains m y z) : FieldRegular masked m x := by
  rintro rfl
  obtain rfl := Option.some.inj hz
  exact (hm x).absorb (((hm x).comm y).trans hy)

theorem contains_of_fieldRegular (hx : FieldRegular masked m x) : Contains m x z := by
  cases masked with
  | false =>
    obtain rfl := Option.some.inj hz
    exact hx rfl
  | true => exact (hm x).absorb hz

end Lawful

end Field

/-! ## The geometry of a video alternative -/

/-- Width, height and framerate. -/
abbrev Geometry := Dim × Dim × Rate

variable {mask : PassthroughFields} {a o c : Caps} {alts : List Caps}

/-- The passthrough geometry of an alternative overlaps the pin's. -/
def GeometryMeets (mask : PassthroughFields) (x pin : Geometry) : Prop :=
  FieldMeets mask.width Span.intersect x.1 pin.1 ∧ FieldMeets mask.height Span.intersect x.2.1 pin.2.1 ∧
    FieldMeets mask.framerate Span.intersect x.2.2 pin.2.2

/-- `wide` takes in what the pin leaves of the geometry `x`. -/
def GeometryCovers (mask : PassthroughFields) (wide x pin : Geometry) : Prop :=
  FieldCovers mask.width Span.intersect wide.1 x.1 pin.1 ∧
    FieldCovers mask.height Span.intersect wide.2.1 x.2.1 pin.2.1 ∧
    FieldCovers mask.framerate Span.intersect wide.2.2 x.2.2 pin.2.2

/-- The geometry outside the mask is its own overlap with itself. -/
def GeometryRegular (mask : PassthroughFields) (x : Geometry) : Prop :=
  FieldRegular mask.width Span.intersect x.1 ∧ FieldRegular mask.height Span.intersect x.2.1 ∧
    FieldRegular mask.framerate Span.intersect x.2.2

/-- The geometry `z` is what a coupling with the pin leaves of `x`. -/
def GeometryCoupled (mask : PassthroughFields) (x pin z : Geometry) : Prop :=
  coupleField mask.width Span.intersect x.1 pin.1 = some z.1 ∧
    coupleField mask.height Span.intersect x.2.1 pin.2.1 = some z.2.1 ∧
    coupleField mask.framerate Span.intersect x.2.2 pin.2.2 = some z.2.2

/-- Each field of `x` contains that of `z`. -/
def GeometryContains (x z : Geometry) : Prop :=
  Contains Span.intersect x.1 z.1 ∧ Contains Span.intersect x.2.1 z.2.1 ∧ Contains Span.intersect x.2.2 z.2.2

section Geometry

variable {x y z wide pin : Geometry}

theorem geometryMeets_iff : GeometryMeets mask x pin ↔ ∃ z, GeometryCoupled mask x pin z := by
  simp only [GeometryMeets, fieldMeets_iff, GeometryCoupled, Prod.exists]
  constructor
  · rintro ⟨⟨w, hw⟩, ⟨h, hh⟩, ⟨r, hr⟩⟩
    exact ⟨w, h, r, hw, hh, hr⟩
  · rintro ⟨w, h, r, hw, hh, hr⟩
    exact ⟨⟨w, hw⟩, ⟨h, hh⟩, ⟨r, hr⟩⟩

variable (hz : GeometryCoupled mask x pin z)
include hz

theorem geometryCovers_iff : GeometryCovers mask wide x pin ↔ GeometryContains wide z :=
  have hspan := Span.intersect_lawful
  and_congr (fieldCovers_iff hspan hz.1) (and_congr (fieldCovers_iff hspan hz.2.1) (fieldCovers_iff hspan hz.2.2))

theorem geometryRegular_of_contains (hy : GeometryContains y z) : GeometryRegular mask x :=
  have hspan := Span.intersect_lawful
  ⟨fieldRegular_of_contains hspan hz.1 hy.1, fieldRegular_of_contains hspan hz.2.1 hy.2.1,
    fieldRegular_of_contains hspan hz.2.2 hy.2.2⟩

theorem contains_of_geometryRegular (hx : GeometryRegular mask x) : GeometryContains x z :=
  have hspan := Span.intersect_lawful
  ⟨contains_of_fieldRegular hspan hz.1 hx.1, contains_of_fieldRegular hspan hz.2.1 hx.2.1,
    contains_of_fieldRegular hspan hz.2.2 hx.2.2⟩

end Geometry

/-! ## Coupling one alternative -/

/-- Coupling `a` with the output `o` stays inside `alts`. A pair whose passthrough fields do not
overlap is dropped. Of a pair that keeps its hints only the geometry outside the mask is asked
anything; declared audio layouts, and declared alignments coupled with raw video, need another
alternative that declares none and takes in what the pin leaves of the other fields. -/
def CouplesInside (alts : List Caps) (mask : PassthroughFields) (a o : Caps) : Prop :=
  match a, o with
  | .audio f c s l, .audio fp cp sp _ =>
    FieldMeets mask.format discrete f fp → FieldMeets mask.channels intersectChannels c cp →
      FieldMeets mask.sampleRate intersectSampleRate s sp →
      l = ChannelLayout.UNSPECIFIED ∨ ∃ c' s', .audio f c' s' ChannelLayout.UNSPECIFIED ∈ alts ∧
        FieldCovers mask.channels intersectChannels c' c cp ∧
        FieldCovers mask.sampleRate intersectSampleRate s' s sp
  | .rawVideo f w h r _ _, .rawVideo fp wp hp rp _ _ =>
    FieldMeets mask.format discrete f fp → GeometryMeets mask (w, h, r) (wp, hp, rp) → GeometryRegular mask (w, h, r)
  | .compressedVideo f w h r _ _, .compressedVideo fp wp hp rp _ _ =>
    FieldMeets mask.format discrete f fp → GeometryMeets mask (w, h, r) (wp, hp, rp) → GeometryRegular mask (w, h, r)
  | .rawVideo _ w h r _ _, .compressedVideo _ wp hp rp _ _ =>
    GeometryMeets mask (w, h, r) (wp, hp, rp) → GeometryRegular mask (w, h, r)
  | .compressedVideo f w h r cl al, .rawVideo _ wp hp rp _ _ =>
    GeometryMeets mask (w, h, r) (wp, hp, rp) →
      (al = .unspecified ∧ GeometryRegular mask (w, h, r)) ∨
      ∃ w' h' r' cl', .compressedVideo f w' h' r' cl' .unspecified ∈ alts ∧
        GeometryCovers mask (w', h', r') (w, h, r) (wp, hp, rp) ∧ Contains Colorimetry.intersect cl' cl
  | _, _ => True

section Video

variable {w h r wp hp rp : Span} {z : Geometry} {cl : Colorimetry}

theorem couple_geometry_iff (mk : Dim → Dim → Rate → Caps) :
    (do
      let width ← coupleField mask.width Span.intersect w wp
      let height ← coupleField mask.height Span.intersect h hp
      let framerate ← coupleField mask.framerate Span.intersect r rp
      return mk width height framerate) = some c ↔
      ∃ z, GeometryCoupled mask (w, h, r) (wp, hp, rp) z ∧ c = mk z.1 z.2.1 z.2.2 := by
  simp only [Option.bind_eq_bind, Option.bind_eq_some_iff, Option.pure_def, Option.some.injEq,
    GeometryCoupled, Prod.exists]
  constructor
  · rintro ⟨w, hw, h, hh, r, hr, rfl⟩
    exact ⟨w, h, r, ⟨hw, hh, hr⟩, rfl⟩
  · rintro ⟨w, h, r, ⟨hw, hh, hr⟩, rfl⟩
    exact ⟨w, hw, h, hh, r, hr, rfl⟩

theorem couple_scalar_iff {β : Type} [DecidableEq β] {f fp : β} {rest : β → Option Caps} :
    ((coupleField mask.format discrete f fp).bind rest) = some c ↔
      FieldMeets mask.format discrete f fp ∧ rest f = some c := by
  rw [fieldMeets_iff, Option.bind_eq_some_iff]
  constructor
  · rintro ⟨g, hg, hc⟩
    obtain rfl := Caps.eq_of_coupleField_discrete hg
    exact ⟨⟨g, hg⟩, hc⟩
  · rintro ⟨⟨g, hg⟩, hc⟩
    exact ⟨f, (Caps.eq_of_coupleField_discrete hg) ▸ hg, hc⟩

variable (hz : GeometryCoupled mask (w, h, r) (wp, hp, rp) z)
include hz

/-- A coupling that keeps the hints stays inside exactly when the geometry outside the mask is
regular. -/
theorem inside_iff_regular (ha : a ∈ alts) (hc : c.dims = some z) (hac : GeometryContains (w, h, r) z → a.contains c) :
    (∃ a ∈ alts, a.contains c) ↔ GeometryRegular mask (w, h, r) := by
  constructor
  · rintro ⟨a', -, hin⟩
    cases c with
    | rawVideo _ _ _ _ _ _ =>
      cases a' with
      | rawVideo _ w' h' r' _ _ =>
        obtain ⟨_, _, _, _, _, heq, hw, hh, hr, -⟩ := Caps.contains_rawVideo_iff.1 hin
        obtain rfl := Option.some.inj ((congrArg Caps.dims heq).symm.trans hc)
        exact geometryRegular_of_contains (y := (w', h', r')) hz ⟨hw, hh, hr⟩
      | _ => cases Caps.kind_eq_of_contains hin
    | compressedVideo _ _ _ _ _ _ =>
      cases a' with
      | compressedVideo _ w' h' r' _ _ =>
        obtain ⟨_, _, _, _, _, heq, hw, hh, hr, -⟩ := Caps.contains_compressedVideo_iff.1 hin
        obtain rfl := Option.some.inj ((congrArg Caps.dims heq).symm.trans hc)
        exact geometryRegular_of_contains (y := (w', h', r')) hz ⟨hw, hh, hr⟩
      | _ => cases Caps.kind_eq_of_contains hin
    | _ => cases hc
  · intro hreg
    exact ⟨a, ha, hac (contains_of_geometryRegular hz hreg)⟩

/-- A coupling that resets the alignment stays inside exactly when none was declared, or another
alternative declares none and takes in the rest. -/
theorem inside_unaligned_iff {f : VideoCodec} {al : BitstreamAlignment} (ha : .compressedVideo f w h r cl al ∈ alts) :
    (∃ a ∈ alts, a.contains (.compressedVideo f z.1 z.2.1 z.2.2 cl .unspecified)) ↔
      (al = .unspecified ∧ GeometryRegular mask (w, h, r)) ∨
      ∃ w' h' r' cl', .compressedVideo f w' h' r' cl' .unspecified ∈ alts ∧
        GeometryCovers mask (w', h', r') (w, h, r) (wp, hp, rp) ∧ Contains Colorimetry.intersect cl' cl := by
  simp only [geometryCovers_iff hz]
  constructor
  · rintro ⟨a, hin, hac⟩
    cases a with
    | compressedVideo _ w' h' r' cl' al' =>
      obtain ⟨_, _, _, _, _, heq, hw, hh, hr, hcl, hal⟩ := Caps.contains_compressedVideo_iff.1 hac
      obtain ⟨rfl, rfl, rfl, rfl, rfl, rfl⟩ := heq
      -- Only an undeclared alignment contains the undeclared one.
      obtain rfl : al' = .unspecified := by
        cases al' <;> first | rfl | cases hal
      exact Or.inr ⟨w', h', r', cl', hin, ⟨hw, hh, hr⟩, hcl⟩
    | _ => cases Caps.kind_eq_of_contains hac
  · rintro (⟨rfl, hreg⟩ | ⟨w', h', r', cl', hin, ⟨hw, hh, hr⟩, hcl⟩)
    · obtain ⟨hw, hh, hr⟩ := contains_of_geometryRegular hz hreg
      exact ⟨_, ha, Caps.contains_compressedVideo_iff.2 ⟨_, _, _, _, _, rfl, hw, hh, hr, cl.intersect_self,
        BitstreamAlignment.intersect_self _⟩⟩
    · exact ⟨_, hin, Caps.contains_compressedVideo_iff.2 ⟨_, _, _, _, _, rfl, hw, hh, hr, hcl,
        BitstreamAlignment.intersect_self _⟩⟩

end Video

/-- Coupled audio declares no layout: it stays inside exactly when none was declared, or another
alternative declares none and takes in the rest. -/
theorem inside_audio_iff {f : AudioFormat} {c₀ cp c₁ : UInt8} {s₀ sp s₁ : UInt32} {l : ChannelLayout}
    (ha : .audio f c₀ s₀ l ∈ alts) (hc : coupleField mask.channels intersectChannels c₀ cp = some c₁)
    (hs : coupleField mask.sampleRate intersectSampleRate s₀ sp = some s₁) :
    (∃ a ∈ alts, a.contains (.audio f c₁ s₁ ChannelLayout.UNSPECIFIED)) ↔
      l = ChannelLayout.UNSPECIFIED ∨ ∃ c' s', .audio f c' s' ChannelLayout.UNSPECIFIED ∈ alts ∧
        FieldCovers mask.channels intersectChannels c' c₀ cp ∧
        FieldCovers mask.sampleRate intersectSampleRate s' s₀ sp := by
  simp only [fieldCovers_iff intersectChannels_lawful hc, fieldCovers_iff intersectSampleRate_lawful hs]
  constructor
  · rintro ⟨a, hin, hac⟩
    cases a with
    | audio _ c' s' l' =>
      obtain ⟨_, _, _, heq, hc', hs', hl'⟩ := Caps.contains_audio_iff.1 hac
      obtain ⟨rfl, rfl, rfl, rfl⟩ := heq
      -- Only an undeclared layout contains the undeclared one.
      obtain rfl : l' = ChannelLayout.UNSPECIFIED := by
        rw [Contains, ChannelLayout.intersect_eq, flat] at hl'
        split_ifs at hl' with h
        · exact h
        · exact Option.some.inj hl'
      exact Or.inr ⟨c', s', hin, hc', hs'⟩
    | _ => cases Caps.kind_eq_of_contains hac
  · rintro (rfl | ⟨c', s', hin, hc', hs'⟩)
    · have hcr : FieldRegular mask.channels intersectChannels c₀ := fun _ => intersectChannels_eq ▸ flat_self _ _
      have hsr : FieldRegular mask.sampleRate intersectSampleRate s₀ := fun _ => intersectSampleRate_eq ▸ flat_self _ _
      exact ⟨_, ha, Caps.contains_audio_iff.2 ⟨_, _, _, rfl, contains_of_fieldRegular intersectChannels_lawful hc hcr,
        contains_of_fieldRegular intersectSampleRate_lawful hs hsr, ChannelLayout.intersect_self _⟩⟩
    · exact ⟨_, hin, Caps.contains_audio_iff.2 ⟨_, _, _, rfl, hc', hs', ChannelLayout.intersect_self _⟩⟩

/-- A coupling whose result is made from a coupled geometry stays inside exactly under `inside`, when
each result does. -/
theorem couple_inside_iff {scalar inside : Prop} {x pin : Geometry} {couple : Option Caps} {k : Geometry → Caps}
    (hcouple : ∀ c, couple = some c ↔ scalar ∧ ∃ z, GeometryCoupled mask x pin z ∧ c = k z)
    (hk : ∀ z, GeometryCoupled mask x pin z → ((∃ a ∈ alts, a.contains (k z)) ↔ inside)) :
    (scalar → GeometryMeets mask x pin → inside) ↔ ∀ c, couple = some c → ∃ a ∈ alts, a.contains c := by
  rw [geometryMeets_iff]
  constructor
  · intro hinside c hc
    obtain ⟨hscalar, z, hz, rfl⟩ := (hcouple c).1 hc
    exact (hk z hz).2 (hinside hscalar ⟨z, hz⟩)
  · rintro hall hscalar ⟨z, hz⟩
    exact (hk z hz).1 (hall _ ((hcouple _).2 ⟨hscalar, z, hz, rfl⟩))

/-- A pair of alternatives couples inside `alts` exactly as `CouplesInside` has it. -/
theorem couplesInside_iff (ha : a ∈ alts) : CouplesInside alts mask a o ↔
    ∀ c, couplePassthroughDerived a o mask = some c → ∃ a ∈ alts, a.contains c := by
  have raw : ∀ {f w h r i cl} {z : Geometry}, GeometryContains (w, h, r) z →
      (Caps.rawVideo f w h r i cl).contains (.rawVideo f z.1 z.2.1 z.2.2 i cl) := by
    intro f w h r i cl z hz
    exact Caps.contains_rawVideo_iff.2 ⟨_, _, _, _, _, rfl, hz.1, hz.2.1, hz.2.2, i.intersect_self, cl.intersect_self⟩
  unfold CouplesInside
  split
  case h_1 f c s l fp cp sp lp =>
    constructor
    · intro hinside d hd
      obtain ⟨hf, hd⟩ := couple_scalar_iff.1 hd
      simp only [Option.bind_eq_bind, Option.bind_eq_some_iff, Option.pure_def, Option.some.injEq] at hd
      obtain ⟨c', hc, s', hs, rfl⟩ := hd
      exact (inside_audio_iff ha hc hs).2 (hinside hf (fieldMeets_of_couple hc) (fieldMeets_of_couple hs))
    · intro hall hf hcm hsm
      obtain ⟨c', hc⟩ := fieldMeets_iff.1 hcm
      obtain ⟨s', hs⟩ := fieldMeets_iff.1 hsm
      refine (inside_audio_iff ha hc hs).1 (hall _ ?_)
      exact couple_scalar_iff.2 ⟨hf, by rw [hc, hs]; rfl⟩
  case h_2 f w h r i cl fp wp hp rp ip clp =>
    refine couple_inside_iff (k := fun z => .rawVideo f z.1 z.2.1 z.2.2 i cl)
      (fun c => couple_scalar_iff.trans (and_congr_right fun _ => couple_geometry_iff _))
      fun z hz => inside_iff_regular hz ha rfl raw
  case h_3 f w h r cl al fp wp hp rp clp alp =>
    refine couple_inside_iff (k := fun z => .compressedVideo f z.1 z.2.1 z.2.2 cl al)
      (fun c => couple_scalar_iff.trans (and_congr_right fun _ => couple_geometry_iff _))
      fun z hz => inside_iff_regular hz ha rfl fun hin => Caps.contains_compressedVideo_iff.2
        ⟨_, _, _, _, _, rfl, hin.1, hin.2.1, hin.2.2, cl.intersect_self, al.intersect_self⟩
  case h_4 f w h r i cl fp wp hp rp clp alp =>
    exact true_imp_iff.symm.trans (couple_inside_iff (k := fun z => .rawVideo f z.1 z.2.1 z.2.2 i cl)
      (fun c => by rw [true_and]; exact couple_geometry_iff _)
      fun z hz => inside_iff_regular hz ha rfl raw)
  case h_5 f w h r cl al fp wp hp rp ip clp =>
    exact true_imp_iff.symm.trans (couple_inside_iff (k := fun z => .compressedVideo f z.1 z.2.1 z.2.2 cl .unspecified)
      (fun c => by rw [true_and]; exact couple_geometry_iff _)
      fun z hz => inside_unaligned_iff hz ha)
  case h_6 h1 h2 h3 h4 h5 =>
    -- No other pair of variants couples.
    refine ⟨fun _ c hc => ?_, fun _ => trivial⟩
    cases a <;> cases o <;> first
      | exact (h1 _ _ _ _ _ _ _ _ rfl rfl).elim
      | exact (h2 _ _ _ _ _ _ _ _ _ _ _ _ rfl rfl).elim
      | exact (h3 _ _ _ _ _ _ _ _ _ _ _ _ rfl rfl).elim
      | exact (h4 _ _ _ _ _ _ _ _ _ _ _ _ rfl rfl).elim
      | exact (h5 _ _ _ _ _ _ _ _ _ _ _ _ rfl rfl).elim
      | cases hc

/-! ## The returned sets -/

/-- Every input alternative couples inside the input set with every output it reaches. -/
def CouplingsInside (derive : Caps → CapsSet) (mask : PassthroughFields) (inSet outSet : CapsSet) : Prop :=
  ∀ a ∈ inSet.alternatives, ∀ o ∈ ((derive a).intersect outSet).alternatives,
    CouplesInside inSet.alternatives mask a o

/-- The mask a derivation shows on the first input alternative. -/
def probedMask (f : Caps → CapsSet) (inSet : CapsSet) : PassthroughFields :=
  match inSet.alternatives.head? with
  | some sample => discoverPassthrough f sample
  | none => PassthroughFields.NONE

/-- The same of a derivation that is probed: without a mask the alternatives that reach the output
are kept as they are. -/
def DerivedInside (f : Caps → CapsSet) (inSet outSet : CapsSet) : Prop :=
  if probedMask f inSet = PassthroughFields.NONE then
    ∀ a ∈ inSet.alternatives, ((f a).intersect outSet).isEmpty = false → a.intersect a = .ok a
  else CouplingsInside f (probedMask f inSet) inSet outSet

section Sets

variable {derive f : Caps → CapsSet} {inSet outSet s : CapsSet}

theorem mem_coupled_of_narrow (h : backwardFieldNarrow derive mask inSet outSet = .ok (some s)) :
    c ∈ s.alternatives ↔ ∃ a ∈ inSet.alternatives, ∃ o ∈ ((derive a).intersect outSet).alternatives,
      couplePassthroughDerived a o mask = some c := by
  unfold backwardFieldNarrow at h
  simp only [foldl_pushNew_nil] at h
  split_ifs at h
  · cases h
  · obtain rfl := Option.some.inj (Except.ok.inj h)
    simp only [List.mem_eraseDups, List.mem_flatMap, coupledAlternatives, List.mem_filterMap]

theorem narrow_inside_iff (h : backwardFieldNarrow derive mask inSet outSet = .ok (some s)) :
    (∀ c ∈ s.alternatives, ∃ a ∈ inSet.alternatives, a.contains c) ↔ CouplingsInside derive mask inSet outSet := by
  constructor
  · intro hin a ha o ho
    rw [couplesInside_iff ha]
    intro c hc
    exact hin c ((mem_coupled_of_narrow h).2 ⟨a, ha, o, ho, hc⟩)
  · intro hin c hc
    obtain ⟨a, ha, o, ho, hco⟩ := (mem_coupled_of_narrow h).1 hc
    exact (couplesInside_iff ha).1 (hin a ha o ho) c hco

theorem contains_self_of_contains (h : a.contains c) : c.contains c := by
  rw [Caps.contains_iff] at h ⊢
  exact (Caps.meet_lawful c).absorb (((Caps.meet_lawful c).comm a).trans h)

theorem filter_inside_iff (h : backwardFilterDerived f inSet outSet = .ok (some s)) :
    (∀ c ∈ s.alternatives, ∃ a ∈ inSet.alternatives, a.contains c) ↔
      ∀ a ∈ inSet.alternatives, ((f a).intersect outSet).isEmpty = false → a.contains a := by
  unfold backwardFilterDerived at h
  simp only at h
  split_ifs at h
  · cases h
  · cases h
  · obtain rfl := Option.some.inj (Except.ok.inj h)
    simp only [List.mem_filter, Bool.not_eq_true', and_imp]
    constructor
    · intro hin a ha hreach
      obtain ⟨a', -, haa⟩ := hin a ha hreach
      exact contains_self_of_contains haa
    · intro hself a ha hreach
      exact ⟨a, ha, hself a ha hreach⟩

/-- The sets the two backward steps return lie inside their input, alternative by alternative,
exactly when each coupling they make does. -/
theorem backward_shrinks_iff :
    (backwardFieldNarrow derive mask inSet outSet = .ok (some s) →
      ((∀ c ∈ s.alternatives, ∃ a ∈ inSet.alternatives, a.intersect c = .ok c) ↔
        CouplingsInside derive mask inSet outSet)) ∧
    (derivedBackward derive inSet outSet = .ok (some s) →
      ((∀ c ∈ s.alternatives, ∃ a ∈ inSet.alternatives, a.intersect c = .ok c) ↔
        DerivedInside derive inSet outSet)) := by
  refine ⟨narrow_inside_iff, fun h => ?_⟩
  have hmask : derivedBackward derive inSet outSet =
      if probedMask derive inSet = PassthroughFields.NONE then backwardFilterDerived derive inSet outSet
      else backwardFieldNarrow derive (probedMask derive inSet) inSet outSet := rfl
  rw [hmask] at h
  unfold DerivedInside
  split_ifs at h ⊢
  · exact filter_inside_iff h
  · exact narrow_inside_iff h

end Sets

/-- NV12 of the given width. -/
def nv12Wide (width : Dim) : Caps := .rawVideo .nv12 width (.fixed 1080) (.fixed 30) .any Colorimetry.UNKNOWN

/-- A pinned width comes back through an identity, declared or probed. -/
theorem backward_shrinks_pinned :
    (∀ c ∈ [nv12Wide (.fixed 160)], ∃ a ∈ [nv12Wide (.range 1 1920)], a.intersect c = .ok c) ∧
      ∀ c ∈ [nv12Wide (.fixed 160)], ∃ a ∈ [nv12Wide (.range 1 1920)], a.intersect c = .ok c := by
  have hinside : ∀ mask : PassthroughFields, mask.width = true → CouplingsInside CapsSet.one mask
      ⟨[nv12Wide (.range 1 1920)]⟩ ⟨[nv12Wide (.fixed 160)]⟩ := by
    intro mask hmask a ha o ho
    obtain rfl := List.mem_singleton.1 ha
    have hreach : ((CapsSet.one (nv12Wide (.range 1 1920))).intersect ⟨[nv12Wide (.fixed 160)]⟩).alternatives =
        [nv12Wide (.fixed 160)] := by decide
    rw [hreach, List.mem_singleton] at ho
    subst ho
    intro _ _
    refine ⟨fun hwidth => ?_, fun _ => by decide, fun _ => by decide⟩
    rw [hmask] at hwidth
    cases hwidth
  have hiff := @backward_shrinks_iff PassthroughFields.ALL CapsSet.one ⟨[nv12Wide (.range 1 1920)]⟩
    ⟨[nv12Wide (.fixed 160)]⟩ ⟨[nv12Wide (.fixed 160)]⟩
  refine ⟨(hiff.1 (by decide)).2 (hinside _ rfl), (hiff.2 (by decide)).2 ?_⟩
  unfold DerivedInside
  rw [if_neg (by decide)]
  exact hinside _ (by decide)

/-- Stereo PCM of the given layout. -/
def pcmLaidOut (layout : ChannelLayout) : Caps := .audio .pcmS16Le 2 48000 layout

def h264Sized (width height : Dim) (alignment : BitstreamAlignment) : Caps :=
  .compressedVideo .h264 width height .any Colorimetry.UNKNOWN alignment

/-- A decoder to NV12 that keeps the geometry. -/
def decodes : Caps → CapsSet
  | .compressedVideo _ w h r cl _ => CapsSet.one (.rawVideo .nv12 w h r .any cl)
  | _ => ⟨[]⟩

/-- An identity takes the layout of its input away, and a decoder the alignment. -/
theorem coupling_widens :
    (¬ ∀ (derive : Caps → CapsSet) (mask : PassthroughFields) (inSet outSet s : CapsSet),
      backwardFieldNarrow derive mask inSet outSet = .ok (some s) →
        ∀ c ∈ s.alternatives, ∃ a ∈ inSet.alternatives, a.intersect c = .ok c) ∧
    ¬ ∀ (derive : Caps → CapsSet) (inSet outSet s : CapsSet),
      derivedBackward derive inSet outSet = .ok (some s) →
        ∀ c ∈ s.alternatives, ∃ a ∈ inSet.alternatives, a.intersect c = .ok c := by
  constructor
  · intro hall
    have hin := hall CapsSet.one PassthroughFields.ALL ⟨[pcmLaidOut .STEREO]⟩ ⟨[pcmLaidOut .STEREO]⟩
      ⟨[pcmLaidOut .UNSPECIFIED]⟩ (by decide)
    exact absurd hin (by decide)
  · intro hall
    have hin := hall decodes ⟨[h264Sized .any .any .accessUnit]⟩
      ⟨[.rawVideo .nv12 (.fixed 640) (.fixed 480) .any .any Colorimetry.UNKNOWN]⟩
      ⟨[h264Sized (.fixed 640) (.fixed 480) .unspecified]⟩ (by decide)
    exact absurd hin (by decide)

end Glass2Glass
