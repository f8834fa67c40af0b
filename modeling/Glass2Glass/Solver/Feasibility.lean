import Glass2Glass.Solver.Frame

/-!
# Downstream feasibility

The snapshot a mid-stream change of caps is judged by (`graph_downstream_feasibility` of
`runtime/solver.rs`): for every edge a set of caps the nodes downstream of it can still carry, folded
from the sinks upward. It errs on the side of letting caps through: concrete caps that the nodes in
the downstream cone of an edge can carry are in the edge's set, if it has one.
-/

namespace Glass2Glass

open PartialMeet CapsTransform List Option Function

/-! ## The fold -/

/-- The mask with the format passed through. -/
def PassthroughFields.withFormat (m : PassthroughFields) : PassthroughFields :=
  { m with format := true }

/-- The projected template with each accepted format in turn; `none` for another variant. -/
def acceptedInputs (t : CapsTransform) (template : Caps) : Option (List Caps) :=
  match t, template with
  | .rawVideo accept _ _, .rawVideo _ w h r i cl =>
    some (accept.map fun format => .rawVideo format w h r i cl)
  | .audio accept _ _, .audio _ channels rate layout =>
    some (accept.map fun format => .audio format channels rate layout)
  | _, _ => none

/-- The inputs of a declared transform that reach an output. A retargeted format has no wildcard, so
it is enumerated over the accept list; `none` when it cannot be. -/
def derivedFieldsInputs (t : CapsTransform) (out : Caps) : Option (List Caps) :=
  match projectPassthrough out t.passthrough with
  | some input => some [input]
  | none => do
    let template ← projectPassthrough out t.passthrough.withFormat
    let inputs ← acceptedInputs t template
    if inputs.isEmpty then none
    else some (inputs.filter fun input => !((t.derive input).intersect (.one out)).isEmpty)

/-- The inputs of a declared transform that reach one of several outputs, without repetition. -/
def derivedFieldsInputsOf (t : CapsTransform) (outs : List Caps) : Option (List Caps) :=
  outs.foldlM (fun alts o => (derivedFieldsInputs t o).map fun inputs => inputs.foldl pushNew alts) []

/-- One hop upward: what an element's input can carry, given what its output can. `inSample` is the
caps its input carried at startup, with which a derivation given as a function is probed. -/
def backwardFeasible (c : CapsConstraint) (down : Option CapsSet) (inSample : Option Caps) : Option CapsSet :=
  match c with
  | .identity s => some (match down with
    | some d => s.intersect d
    | none => s)
  | .identityAny => down
  | .mapping pairs => some (pairs.foldl (fun acc pair =>
      let outOk := match down with
        | some d => !(pair.2.intersect d).isEmpty
        | none => true
      if outOk then acc.union pair.1 else acc) ⟨[]⟩)
  | .derivedFields t => do
    let d ← down
    let alts ← derivedFieldsInputsOf t d.alternatives
    return ⟨alts⟩
  | .derivedOutput f => do
    let d ← down
    let sample ← inSample
    let mask := discoverPassthrough f sample
    if mask = PassthroughFields.NONE then none
    else
      let alts := d.alternatives.foldl (fun alts o =>
        match projectPassthroughDerived sample o mask with
        | some c => pushNew alts c
        | none => alts) []
      if alts.isEmpty then none else some ⟨alts⟩
  | _ => none

def acceptSet : CapsConstraint → Option CapsSet
  | .accepts s => some s
  | _ => none

/-- Write the feasible sets of a node's input edges, given those of its output edges. -/
def feasibilityStep (g : Graph) (constraints : List NodeConstraint) (solution : List Caps)
    (feas : EdgeSets) (node : Nat) : EdgeSets :=
  match g.kind node, constraintAt constraints node with
  | .source, _ | .fanoutSrc _, _ => feas
  | .sink, .element c => Function.update feas (g.inEdge node) (acceptSet c)
  | .sink, _ => Function.update feas (g.inEdge node) none
  | .transform, .element c => Function.update feas (g.inEdge node)
      (backwardFeasible c (feas (g.outEdge node)) (solution[g.inEdge node]?))
  | .transform, _ => feas
  | .tee _, .demux input _ => Function.update feas (g.inEdge node) (acceptSet input)
  | .tee _, .batchDemux input => Function.update feas (g.inEdge node) (acceptSet input)
  | .tee _, _ => Function.update feas (g.inEdge node) (meetEdges feas none (g.outEdges node))
  | .muxer _, .muxer inputs _ _ | .muxer _, .batchMuxer inputs
  | .faninSink _, .muxer inputs _ _ | .faninSink _, .batchMuxer inputs =>
    (g.inEdges node).foldl (fun feas e =>
      Function.update feas e (inputs[(g.edge e).dst.index]?.bind acceptSet)) feas
  | .muxer _, _ | .faninSink _, _ => feas

/-- What every edge can carry as far as the nodes downstream of it are concerned; no set for no
constraint. -/
def graphDownstreamFeasibility (g : ValidatedGraph) (constraints : List NodeConstraint)
    (solution : List Caps) : EdgeSets :=
  g.topo.reverse.foldl (feasibilityStep g.toGraph constraints solution) fun _ => none

/-! ## One hop keeps what the element relates -/

theorem projectField_contains {α : Type} {m : α → α → Option α} {masked : Bool} {out wildcard y q : α}
    (hq : Contains m out q) (heq : masked = true → q = y) (hwild : Contains m wildcard y) :
    Contains m (projectField masked out wildcard) y := by
  cases masked with
  | false => exact hwild
  | true => exact heq rfl ▸ hq

/-- The template of a raw-video output, with the input's own format, contains the input. -/
theorem contains_template_rawVideo {accept produce : List RawVideoFormat}
    {shapes : List RawVideoShape} {fo : RawVideoFormat} {wo ho ro : Span} {io : Interlace}
    {clo : Colorimetry} {p q : Caps} (hconc : p.isConcrete)
    (hq : ((CapsTransform.rawVideo accept produce shapes).derive p).contains q)
    (ho' : (Caps.rawVideo fo wo ho ro io clo).contains q) : ∃ f, gate accept f = true ∧
      ((CapsTransform.rawVideo accept produce shapes).passthrough.format = true → f = fo) ∧ (Caps.rawVideo f
        (projectField (CapsTransform.rawVideo accept produce shapes).passthrough.width wo .any)
        (projectField (CapsTransform.rawVideo accept produce shapes).passthrough.height ho .any)
        (projectField (CapsTransform.rawVideo accept produce shapes).passthrough.framerate ro .any)
        .any Colorimetry.UNKNOWN).contains p := by
  have hspan := Span.intersect_lawful
  obtain ⟨d, hd, hdq⟩ := hq
  have hk := (kind_of_mem_derive hd).1
  cases p with
  | rawVideo f w h r i cl =>
    obtain ⟨hgate, s, hs, -, rfl⟩ := CapsTransform.mem_derive_rawVideo.1 hd
    obtain ⟨w₂, h₂, r₂, i₂, cl₂, rfl, hw₂, hh₂, hr₂, -⟩ := Caps.contains_rawVideo_iff.1 hdq
    obtain ⟨w₃, h₃, r₃, i₃, cl₃, heq, hw₃, hh₃, hr₃, -⟩ := Caps.contains_rawVideo_iff.1 ho'
    simp only [Caps.rawVideo.injEq] at heq
    obtain ⟨hf, rfl, rfl, rfl, -, -⟩ := heq
    simp only [Caps.isConcrete, Bool.and_eq_true] at hconc
    obtain ⟨⟨⟨⟨hpw, hph⟩, hpr⟩, -⟩, -⟩ := hconc
    have hne : shapes.isEmpty = false := List.isEmpty_eq_false_iff.2 (ne_nil_of_mem hs)
    have masked : ∀ {P : RawVideoShape → Bool}, shapes.all P = true → P s = true :=
      fun hall => List.all_eq_true.1 hall s hs
    simp only [CapsTransform.passthrough, hne, Bool.false_eq_true, if_false]
    refine ⟨f, hgate, fun hm => ?_, Caps.contains_rawVideo_iff.2 ⟨w, h, r, i, cl, rfl, ?_, ?_, ?_,
      Interlace.contains_any i, Colorimetry.contains_unknown cl⟩⟩
    · exact (apply_eq_of_isIdentity (masked hm)).symm.trans hf
    · exact projectField_contains hw₃ (fun hm => eq_of_contains_apply hspan (masked hm)
        (Span.isPoint_of_isFixed hpw) hw₂) (Span.contains_any hpw)
    · exact projectField_contains hh₃ (fun hm => eq_of_contains_apply hspan (masked hm)
        (Span.isPoint_of_isFixed hph) hh₂) (Span.contains_any hph)
    · exact projectField_contains hr₃ (fun hm => eq_of_contains_apply hspan (masked hm)
        (Span.isPoint_of_isFixed hpr) hr₂) (Span.contains_any hpr)
  | _ => cases hk

/-- The template of an audio output with passed-through channels, with the input's own format,
contains the input. -/
theorem contains_template_audio {accept produce : List AudioFormat} {shapes : List AudioShape}
    {fo : AudioFormat} {co : UInt8} {ro : UInt32} {lo : ChannelLayout} {p q : Caps} (hconc : p.isConcrete)
    (hq : ((CapsTransform.audio accept produce shapes).derive p).contains q) (ho : (Caps.audio fo co ro lo).contains q)
    (hchannels : (CapsTransform.audio accept produce shapes).passthrough.channels = true) : ∃ f, gate accept f = true ∧
      ((CapsTransform.audio accept produce shapes).passthrough.format = true → f = fo) ∧ (Caps.audio f co
        (projectField (CapsTransform.audio accept produce shapes).passthrough.sampleRate ro
          ANY_SAMPLE_RATE) ChannelLayout.UNSPECIFIED).contains p := by
  obtain ⟨d, hd, hdq⟩ := hq
  have hk := (kind_of_mem_derive hd).1
  cases p with
  | audio f c r l =>
    obtain ⟨hgate, s, hs, -, rfl⟩ := CapsTransform.mem_derive_audio.1 hd
    obtain ⟨c₂, r₂, l₂, rfl, hc₂, hr₂, -⟩ := Caps.contains_audio_iff.1 hdq
    obtain ⟨c₃, r₃, l₃, heq, hc₃, hr₃, -⟩ := Caps.contains_audio_iff.1 ho
    simp only [Caps.audio.injEq] at heq
    obtain ⟨hf, rfl, rfl, -⟩ := heq
    simp only [Caps.isConcrete, Bool.and_eq_true, bne_iff_ne, ne_eq] at hconc
    obtain ⟨⟨hpc, hpr⟩, -⟩ := hconc
    have hne : shapes.isEmpty = false := List.isEmpty_eq_false_iff.2 (ne_nil_of_mem hs)
    have masked : ∀ {P : AudioShape → Bool}, shapes.all P = true → P s = true :=
      fun hall => List.all_eq_true.1 hall s hs
    simp only [CapsTransform.passthrough, hne, Bool.false_eq_true, if_false] at hchannels ⊢
    refine ⟨f, hgate, fun hm => ?_, Caps.contains_audio_iff.2 ⟨c, r, l, rfl, ?_, ?_,
      ChannelLayout.contains_unspecified l⟩⟩
    · exact (apply_eq_of_isIdentity (masked hm)).symm.trans hf
    · have hcc := eq_of_contains_apply intersectChannels_lawful (masked hchannels)
        (intersectChannels_eq ▸ flat_isPoint hpc) hc₂
      exact hcc ▸ hc₃
    · exact projectField_contains hr₃ (fun hm =>
        eq_of_contains_apply intersectSampleRate_lawful (masked hm) (intersectSampleRate_eq ▸ flat_isPoint hpr) hr₂)
        (intersectSampleRate_eq ▸ flat_contains_top _ r)
  | _ => cases hk

theorem mem_of_gate {α : Type} [DecidableEq α] {accept : List α} {f : α} (h : gate accept f = true)
    (hne : accept ≠ []) : f ∈ accept := by
  simpa [gate, hne] using h

theorem reaches_of_contains {t : CapsTransform} {input p q out : Caps} (hp : input.contains p)
    (hq : (t.derive p).contains q) (ho : out.contains q) :
    (!((t.derive input).intersect (.one out)).isEmpty) = true := by
  have hboth : ((t.derive input).intersect (.one out)).contains q :=
    CapsSet.contains_intersect_iff.2 ⟨t.contains_derive hp hq, out, List.mem_singleton.2 rfl, ho⟩
  rw [CapsSet.isEmpty_eq_false_of_contains hboth]
  rfl

/-- The inputs enumerated for an output contain every concrete input that derives something the
output contains. -/
theorem contains_derivedFieldsInputs {t : CapsTransform} {out p q : Caps} {inputs : List Caps}
    (hconc : p.isConcrete) (hq : (t.derive p).contains q) (ho : out.contains q)
    (h : derivedFieldsInputs t out = some inputs) : ∃ input ∈ inputs, input.contains p := by
  have hkind : out.kind = t.kind := by
    obtain ⟨d, hd, hdq⟩ := id hq
    exact (Caps.kind_eq_of_contains ho).trans ((Caps.kind_eq_of_contains hdq).symm.trans (kind_of_mem_derive hd).2)
  unfold derivedFieldsInputs at h
  cases t with
  | rawVideo accept produce shapes =>
    cases out with
    | rawVideo fo wo ho' ro io clo =>
      obtain ⟨f, hgate, hformat, hcontains⟩ := contains_template_rawVideo hconc hq ho
      simp only [projectPassthrough, PassthroughFields.withFormat, if_true] at h
      split_ifs at h with hm
      · obtain rfl := Option.some.inj h
        exact ⟨_, List.mem_singleton.2 rfl, hformat hm ▸ hcontains⟩
      · simp only [acceptedInputs, bind_eq_bind, bind_some] at h
        split_ifs at h with hempty
        obtain rfl := Option.some.inj h
        have haccept : accept ≠ [] := by simpa using hempty
        exact ⟨_, List.mem_filter.2 ⟨List.mem_map.2 ⟨f, mem_of_gate hgate haccept, rfl⟩,
          reaches_of_contains hcontains hq ho⟩, hcontains⟩
    | _ => cases hkind
  | audio accept produce shapes =>
    cases out with
    | audio fo co ro lo =>
      simp only [projectPassthrough, PassthroughFields.withFormat, Bool.true_and] at h
      -- Without passed-through channels nothing is enumerated.
      by_cases hchannels : (CapsTransform.audio accept produce shapes).passthrough.channels = true
      · obtain ⟨f, hgate, hformat, hcontains⟩ := contains_template_audio hconc hq ho hchannels
        simp only [hchannels, Bool.and_true, if_true] at h
        split_ifs at h with hm
        · obtain rfl := Option.some.inj h
          exact ⟨_, List.mem_singleton.2 rfl, hformat hm ▸ hcontains⟩
        · simp only [acceptedInputs, bind_eq_bind, bind_some] at h
          split_ifs at h with hempty
          obtain rfl := Option.some.inj h
          have haccept : accept ≠ [] := by simpa using hempty
          exact ⟨_, List.mem_filter.2 ⟨List.mem_map.2 ⟨f, mem_of_gate hgate haccept, rfl⟩,
            reaches_of_contains hcontains hq ho⟩, hcontains⟩
      · simp [hchannels] at h
    | _ => cases hkind

theorem mem_derivedFieldsInputsOf {t : CapsTransform} {outs alts : List Caps}
    (h : derivedFieldsInputsOf t outs = some alts) {out : Caps} (ho : out ∈ outs) :
    ∃ inputs, derivedFieldsInputs t out = some inputs ∧ ∀ c ∈ inputs, c ∈ alts := by
  suffices hloop : ∀ (outs : List Caps) (acc : List Caps),
      outs.foldlM (fun alts o => (derivedFieldsInputs t o).map fun inputs => inputs.foldl pushNew alts)
        acc = some alts →
      (∀ c ∈ acc, c ∈ alts) ∧ ∀ out ∈ outs, ∃ inputs, derivedFieldsInputs t out = some inputs ∧
        ∀ c ∈ inputs, c ∈ alts from (hloop outs [] h).2 out ho
  intro outs
  induction outs with
  | nil =>
    intro acc h
    obtain rfl := Option.some.inj h
    exact ⟨fun _ h => h, by simp⟩
  | cons o outs ih =>
    intro acc h
    obtain ⟨next, hnext, h⟩ := Option.bind_eq_some_iff.1 h
    obtain ⟨inputs, hinputs, rfl⟩ := Option.map_eq_some_iff.1 hnext
    obtain ⟨hacc, houts⟩ := ih _ h
    refine ⟨fun c hc => hacc c (mem_foldl_pushNew.2 (Or.inl hc)), ?_⟩
    intro out hout
    rcases List.mem_cons.1 hout with rfl | hout
    · exact ⟨inputs, hinputs, fun c hc => hacc c (mem_foldl_pushNew.2 (Or.inr hc))⟩
    · exact houts out hout

theorem contains_backward_mapping {pairs : List (CapsSet × CapsSet)} (outOk : CapsSet → Bool)
    {pair : CapsSet × CapsSet} (hpair : pair ∈ pairs) (hok : outOk pair.2 = true) {p : Caps}
    (hp : pair.1.contains p) :
    (pairs.foldl (fun acc pair => if outOk pair.2 then acc.union pair.1 else acc)
      (⟨[]⟩ : CapsSet)).contains p := by
  suffices hloop : ∀ (pairs : List (CapsSet × CapsSet)) (acc : CapsSet), acc.contains p ∨ pair ∈ pairs →
      (pairs.foldl (fun acc pair => if outOk pair.2 then acc.union pair.1 else acc) acc).contains p
    from hloop pairs ⟨[]⟩ (Or.inr hpair)
  intro pairs
  induction pairs with
  | nil =>
    rintro acc (h | h)
    · exact h
    · exact absurd h not_mem_nil
  | cons head pairs ih =>
    intro acc h
    rw [foldl_cons]
    refine ih _ ?_
    rcases h with h | h
    · split_ifs
      · exact Or.inl (CapsSet.contains_union.2 (Or.inl h))
      · exact Or.inl h
    · rcases List.mem_cons.1 h with rfl | h
      · rw [if_pos hok]
        exact Or.inl (CapsSet.contains_union.2 (Or.inr hp))
      · exact Or.inr h

/-- One hop keeps a concrete input that the element relates to an output downstream can carry. -/
theorem contains_backwardFeasible {c : CapsConstraint} {down : Option CapsSet}
    {inSample : Option Caps} {p q : Caps} (hf : ∀ f, c ≠ .derivedOutput f) (hp : p.isConcrete)
    (hq : q.isConcrete) (hrel : c.relates p q) (hdraws : c.drawsFrom p) (hdown : q ∈ denote down) :
    p ∈ denote (backwardFeasible c down inSample) := by
  cases c with
  | identity s =>
    obtain rfl : p = q := hrel
    cases down with
    | none => exact hdraws
    | some d => exact CapsSet.contains_intersect_iff.2 ⟨hdraws, hdown⟩
  | identityAny =>
    obtain rfl : p = q := hrel
    exact hdown
  | mapping pairs =>
    obtain ⟨pair, hpair, hpin, hpout⟩ := hrel
    cases down with
    | none =>
      exact contains_backward_mapping (fun _ => true) hpair rfl (CapsSet.contains_of_accepts hp hpin)
    | some d =>
      have hout : (pair.2.intersect d).contains q :=
        CapsSet.contains_intersect_iff.2 ⟨CapsSet.contains_of_accepts hq hpout, hdown⟩
      exact contains_backward_mapping (fun s => !(s.intersect d).isEmpty) hpair
        (by simp only [CapsSet.isEmpty_eq_false_of_contains hout, Bool.not_false])
        (CapsSet.contains_of_accepts hp hpin)
  | derivedOutput f => exact absurd rfl (hf f)
  | derivedFields t =>
    cases down with
    | none => trivial
    | some d =>
      obtain ⟨o, ho, hoq⟩ := hdown
      rcases halts : derivedFieldsInputsOf t d.alternatives with _ | alts
      · simp [backwardFeasible, halts, denote]
      · obtain ⟨inputs, hinputs, hsub⟩ := mem_derivedFieldsInputsOf halts ho
        obtain ⟨input, hinput, hcontains⟩ := contains_derivedFieldsInputs hp
          (CapsSet.contains_of_accepts hq hrel) hoq hinputs
        simp only [backwardFeasible, bind_eq_bind, bind_some, halts]
        exact ⟨input, hsub input hinput, hcontains⟩
  | _ => trivial

/-! ## The whole fold -/

/-- The nodes an edge leads to. -/
inductive InCone (g : Graph) (e : Nat) : Nat → Prop where
  | dst : InCone g e (g.edge e).dst.node
  /-- The nodes its outputs end at. -/
  | step {node o : Nat} (h : InCone g e node) (ho : o ∈ g.outEdges node) :
    InCone g e (g.edge o).dst.node

theorem InCone.of_outEdge {g : Graph} {e o node : Nat} (ho : o ∈ g.outEdges (g.edge e).dst.node)
    (h : InCone g o node) : InCone g e node := by
  induction h with
  | dst => exact .step .dst ho
  | step _ ho' ih => exact .step ih ho'

theorem foldl_update_apply {α : Type} (value : Nat → α) (l : List Nat) (f : Nat → α) (e : Nat) :
    (l.foldl (fun f e => Function.update f e (value e)) f) e = if e ∈ l then value e else f e := by
  induction l generalizing f with
  | nil => simp
  | cons e' l ih =>
    rw [foldl_cons, ih]
    by_cases hl : e ∈ l
    · simp [hl]
    · by_cases heq : e = e'
      · simp [heq]
      · simp [hl, heq]

section Fold

variable {g : ValidatedGraph} {constraints : List NodeConstraint} {solution : List Caps}
  {p : Nat → Caps} {feas : EdgeSets} {node e : Nat}

theorem feasibilityStep_of_notMem (hn : node < g.nodeCount) (he : e ∉ g.inEdges node) :
    feasibilityStep g.toGraph constraints solution feas node e = feas e := by
  have hsingle : (g.kind node).inPads = 1 → ∀ s, Function.update feas (g.inEdge node) s e = feas e := by
    intro hk s
    refine update_of_ne ?_ _ _
    rintro rfl
    exact he (g.inEdge_mem hn hk)
  generalize hstep : feasibilityStep g.toGraph constraints solution feas node = feas'
  unfold feasibilityStep at hstep
  split at hstep <;> subst hstep
  case h_1 => rfl
  case h_2 => rfl
  case h_3 hk _ => exact hsingle (by rw [hk]; rfl) _
  case h_4 hk _ => exact hsingle (by rw [hk]; rfl) _
  case h_5 hk _ => exact hsingle (by rw [hk]; rfl) _
  case h_6 => rfl
  case h_7 hk _ => exact hsingle (by rw [hk]; rfl) _
  case h_8 hk _ => exact hsingle (by rw [hk]; rfl) _
  case h_9 hk _ _ => exact hsingle (by rw [hk]; rfl) _
  case h_10 => rw [foldl_update_apply, if_neg he]
  case h_11 => rw [foldl_update_apply, if_neg he]
  case h_12 => rw [foldl_update_apply, if_neg he]
  case h_13 => rw [foldl_update_apply, if_neg he]
  case h_14 => rfl
  case h_15 => rfl

theorem mem_denote_acceptSet {c : CapsConstraint} {caps : Caps} (h : c.acceptsInput caps) :
    caps ∈ denote (acceptSet c) := by
  cases c with
  | accepts s => exact h
  | _ => trivial

/-- A step gives the input edges of its node sets that keep the caps the node relates to outputs that
downstream can carry. -/
theorem mem_feasibilityStep (hn : node < g.nodeCount)
    (hclosure : ∀ f, constraintAt constraints node ≠ .element (.derivedOutput f))
    (hconc : ∀ e < g.edgeCount, (p e).isConcrete) (hrel : nodeRelates g.toGraph (constraintAt constraints node) p node)
    (hdraws : nodeDraws g.toGraph (constraintAt constraints node) p node)
    (hout : ∀ o ∈ g.outEdges node, p o ∈ denote (feas o)) (he : e ∈ g.inEdges node) (hfeas : feas e = none) :
    p e ∈ denote (feasibilityStep g.toGraph constraints solution feas node e) := by
  have heq : (g.kind node).inPads = 1 → e = g.inEdge node := fun hk =>
    List.mem_singleton.1 (g.inEdges_eq hn hk ▸ he)
  have huntouched : p e ∈ denote (feas e) := by
    rw [hfeas]
    trivial
  -- The pads of a fan-in node take their own accept sets.
  have hpads : ∀ inputs : List CapsConstraint, padsAccept g.toGraph node inputs p →
      p e ∈ denote (inputs[(g.edge e).dst.index]?.bind acceptSet) := by
    intro inputs hpads
    rcases hpad : inputs[(g.edge e).dst.index]? with _ | c
    · trivial
    · exact mem_denote_acceptSet (hpads e he c hpad)
  unfold nodeRelates at hrel
  unfold nodeDraws at hdraws
  generalize hstep : feasibilityStep g.toGraph constraints solution feas node = feas'
  unfold feasibilityStep at hstep
  split at hstep <;> subst hstep
  case h_1 => exact huntouched
  case h_2 => exact huntouched
  case h_3 c hk hc =>
    simp only [hk, hc] at hrel
    rw [heq (by rw [hk]; rfl), update_self]
    exact mem_denote_acceptSet hrel
  case h_4 hk _ =>
    rw [heq (by rw [hk]; rfl), update_self]
    trivial
  case h_5 c hk hc =>
    simp only [hk, hc] at hrel hdraws
    have hinE := g.inEdge_mem hn (by rw [hk]; rfl)
    have houtE := g.outEdge_mem hn (by rw [hk]; rfl)
    rw [heq (by rw [hk]; rfl), update_self]
    refine contains_backwardFeasible (fun f hf => hclosure f ?_)
      (hconc _ (Graph.mem_inEdges.1 hinE).1) (hconc _ (Graph.mem_outEdges.1 houtE).1) hrel hdraws
      (hout _ houtE)
    rw [hc, hf]
  case h_6 => exact huntouched
  case h_7 input ports hk hc =>
    simp only [hk, hc] at hrel
    rw [heq (by rw [hk]; rfl), update_self]
    exact mem_denote_acceptSet hrel.1
  case h_8 input hk hc =>
    simp only [hk, hc] at hrel
    rw [heq (by rw [hk]; rfl), update_self]
    exact mem_denote_acceptSet hrel.1
  case h_9 hk hdemux hbatch =>
    simp only [hk] at hrel
    rw [heq (by rw [hk]; rfl), update_self, mem_denote_meetEdges]
    exact ⟨trivial, fun o ho => hrel o ho ▸ hout o ho⟩
  case h_10 inputs _ _ hk hc =>
    simp only [hk, hc] at hrel
    rw [foldl_update_apply, if_pos he]
    exact hpads inputs hrel.1
  case h_11 inputs hk hc =>
    simp only [hk, hc] at hrel
    rw [foldl_update_apply, if_pos he]
    exact hpads inputs hrel.1
  case h_12 inputs _ _ hk hc =>
    simp only [hk, hc] at hrel
    rw [foldl_update_apply, if_pos he]
    exact hpads inputs hrel
  case h_13 inputs hk hc =>
    simp only [hk, hc] at hrel
    rw [foldl_update_apply, if_pos he]
    exact hpads inputs hrel
  case h_14 => exact huntouched
  case h_15 => exact huntouched

end Fold

/-- Downstream feasibility lets through every concrete choice of caps that the downstream cone of an
edge can carry: the entry of the edge is no set, or has an alternative that contains the edge's
caps. -/
theorem downstream_feasibility_overapproximates (g : ValidatedGraph)
    (constraints : List NodeConstraint) (solution : List Caps) (p : Nat → Caps)
    (hclosure : ∀ node f, constraintAt constraints node ≠ .element (.derivedOutput f))
    (hconc : ∀ e < g.edgeCount, (p e).isConcrete) (e : Nat) (he : e < g.edgeCount)
    (hcone : ∀ node, InCone g.toGraph e node → nodeRelates g.toGraph (constraintAt constraints node) p node ∧
        nodeDraws g.toGraph (constraintAt constraints node) p node) :
    graphDownstreamFeasibility g constraints solution e = none ∨
      ∃ s, graphDownstreamFeasibility g constraints solution e = some s ∧ s.contains (p e) := by
  suffices hmem : p e ∈ denote (graphDownstreamFeasibility g constraints solution e) by
    rcases hs : graphDownstreamFeasibility g constraints solution e with _ | s
    · exact Or.inl rfl
    · rw [hs] at hmem
      exact Or.inr ⟨s, rfl, hmem⟩
  -- Fold over a suffix of the order: the edges that end in it are settled, the others untouched.
  have hsuffix : ∀ post pre : List Nat, g.topo = pre ++ post → ∀ e < g.edgeCount,
      let feas := post.foldr (fun node feas => feasibilityStep g.toGraph constraints solution feas node)
        fun _ => none
      ((g.edge e).dst.node ∉ post → feas e = none) ∧
      ((g.edge e).dst.node ∈ post → (∀ node, InCone g.toGraph e node →
        nodeRelates g.toGraph (constraintAt constraints node) p node ∧
          nodeDraws g.toGraph (constraintAt constraints node) p node) → p e ∈ denote (feas e)) := by
    intro post
    induction post with
    | nil => exact fun pre _ e _ => ⟨fun _ => rfl, fun h => absurd h not_mem_nil⟩
    | cons v post ih =>
      intro pre ht e he
      have ht' : g.topo = (pre ++ [v]) ++ post := by simp [ht]
      have hv : v < g.nodeCount := g.mem_topo.1 (ht ▸ mem_append_right pre mem_cons_self)
      have hvpost : v ∉ post := by
        have hnd := ht ▸ g.topo_nodup
        exact (List.nodup_cons.1 (List.nodup_append.1 hnd).2.1).1
      obtain ⟨hnone, hsettled⟩ := ih (pre ++ [v]) ht' e he
      simp only [foldr_cons]
      refine ⟨fun hdst => ?_, fun hdst hcone => ?_⟩
      · have hnot : e ∉ g.inEdges v := fun hin =>
          hdst ((Graph.mem_inEdges.1 hin).2 ▸ mem_cons_self)
        rw [feasibilityStep_of_notMem hv hnot]
        exact hnone fun h => hdst (mem_cons_of_mem v h)
      · by_cases hin : e ∈ g.inEdges v
        · have hdstv := (Graph.mem_inEdges.1 hin).2
          have hrel := hcone v (hdstv ▸ .dst)
          refine mem_feasibilityStep hv (hclosure v) hconc hrel.1 hrel.2 (fun o ho => ?_) hin (hnone (hdstv ▸ hvpost))
          exact (ih (pre ++ [v]) ht' o (Graph.mem_outEdges.1 ho).1).2 (g.dst_mem_suffix ht ho)
            fun node hnode => hcone node (.of_outEdge (hdstv ▸ ho) hnode)
        · rw [feasibilityStep_of_notMem hv hin]
          have hne : (g.edge e).dst.node ≠ v := fun h => hin (Graph.mem_inEdges.2 ⟨he, h⟩)
          exact hsettled ((List.mem_cons.1 hdst).resolve_left hne) hcone
  rw [graphDownstreamFeasibility, foldl_reverse]
  exact (hsuffix g.topo [] rfl e he).2 (g.mem_topo.2 (g.dst_lt_nodeCount he)) hcone

/-- A source, a tee and two sinks. -/
def teeGraph : ValidatedGraph where
  kinds := [.source, .tee 2, .sink, .sink]
  edges := [⟨⟨0, 0⟩, ⟨1, 0⟩⟩, ⟨⟨1, 0⟩, ⟨2, 0⟩⟩, ⟨⟨1, 1⟩, ⟨3, 0⟩⟩]
  topo := [0, 1, 2, 3]
  src_lt := by decide
  dst_lt := by decide
  fan_pos := by decide
  in_pads := by decide
  out_pads := by decide
  topo_perm := by decide
  topo_lt := by decide

/-- Sinks whose accept sets share one encoding. -/
def teeConstraints : List NodeConstraint :=
  [.element (.produces (.one (.byteStream .mpegTs))), .element .identityAny,
    .element (.accepts ⟨[.byteStream .mpegTs, .byteStream .matroska]⟩),
    .element (.accepts ⟨[.byteStream .matroska, .byteStream .ogg]⟩)]

/-- A change to the shared encoding is feasible in front of the tee. -/
theorem teeGraph_feasible : ∃ s, graphDownstreamFeasibility teeGraph teeConstraints [] 0 = some s ∧
      s.contains (.byteStream .matroska) := by
  have hclosure : ∀ node f, constraintAt teeConstraints node ≠ .element (.derivedOutput f) := by
    intro node f
    match node with
    | 0 | 1 | 2 | 3 => simp [constraintAt, teeConstraints]
    | _ + 4 => simp [constraintAt, teeConstraints]
  have hcone : ∀ node, InCone teeGraph.toGraph 0 node → nodeRelates teeGraph.toGraph (constraintAt teeConstraints node)
          (fun _ => .byteStream .matroska) node ∧
        nodeDraws teeGraph.toGraph (constraintAt teeConstraints node)
          (fun _ => .byteStream .matroska) node := by
    -- Every node of the cone is the end of an edge.
    have hdst : ∀ e < teeGraph.edgeCount,
        nodeRelates teeGraph.toGraph (constraintAt teeConstraints (teeGraph.edge e).dst.node)
            (fun _ => .byteStream .matroska) (teeGraph.edge e).dst.node ∧
          nodeDraws teeGraph.toGraph (constraintAt teeConstraints (teeGraph.edge e).dst.node)
            (fun _ => .byteStream .matroska) (teeGraph.edge e).dst.node := by
      intro e he
      match e with
      | 0 => exact ⟨fun _ _ => rfl, trivial⟩
      | 1 => exact ⟨by show CapsSet.contains _ _; decide, trivial⟩
      | 2 => exact ⟨by show CapsSet.contains _ _; decide, trivial⟩
    intro node hnode
    cases hnode with
    | dst => exact hdst 0 (by decide)
    | step _ ho => exact hdst _ (Graph.mem_outEdges.1 ho).1
  have hfeasible := downstream_feasibility_overapproximates teeGraph teeConstraints []
    (fun _ => .byteStream .matroska) hclosure (fun _ _ => rfl) 0 (by decide) hcone
  have hset : graphDownstreamFeasibility teeGraph teeConstraints [] 0 ≠ none := by decide
  exact hfeasible.resolve_left hset

end Glass2Glass
