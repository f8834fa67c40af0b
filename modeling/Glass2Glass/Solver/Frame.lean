import Glass2Glass.Lib.Loop
import Glass2Glass.Solver.Sweep

/-!
# What a step may change

A node touches only its own edges, and on every edge but its inputs it only narrows: what the edge
may carry after the step, it could carry before. An input edge of a derivation is the exception, since
backward coupling rebuilds its alternatives. Everything the sweeps establish about an edge is carried
through later steps by these facts.
-/

namespace Glass2Glass

open Loop List Function

/-- The step changed only edges of `frame`, and narrowed every edge outside `free`. -/
structure Narrowed (frame free : Set Nat) (edges edges' : EdgeSets) : Prop where
  /-- Edges outside the frame are left alone. -/
  same : ∀ e ∉ frame, edges' e = edges e
  /-- Edges that are not free carry no more than before. -/
  shrink : ∀ e ∉ free, denote (edges' e) ⊆ denote (edges e)
  /-- An edge that has a set keeps having one. -/
  isSome : ∀ e, (edges e).isSome → (edges' e).isSome

namespace Narrowed

variable {frame free frame' free' : Set Nat} {edges edges' edges'' : EdgeSets}

theorem refl (frame free : Set Nat) (edges : EdgeSets) : Narrowed frame free edges edges :=
  ⟨fun _ _ => rfl, fun _ _ => subset_rfl, fun _ h => h⟩

theorem trans (h : Narrowed frame free edges edges') (h' : Narrowed frame free edges' edges'') :
    Narrowed frame free edges edges'' :=
  ⟨fun e he => (h'.same e he).trans (h.same e he),
    fun e he => (h'.shrink e he).trans (h.shrink e he), fun e he => h'.isSome e (h.isSome e he)⟩

theorem mono (h : Narrowed frame free edges edges') (hframe : frame ⊆ frame') (hfree : free ⊆ free') :
    Narrowed frame' free' edges edges' :=
  ⟨fun e he => h.same e fun he' => he (hframe he'), fun e he => h.shrink e fun he' => he (hfree he'),
    h.isSome⟩

theorem update {e : Nat} {s : CapsSet} (he : e ∈ frame) (hs : e ∉ free → denote (some s) ⊆ denote (edges e)) :
    Narrowed frame free edges (Function.update edges e (some s)) := by
  refine ⟨fun e' he' => ?_, fun e' he' => ?_, fun e' he' => ?_⟩
  · exact update_of_ne (fun heq : e' = e => he' (heq ▸ he)) _ _
  · by_cases heq : e' = e
    · subst heq
      rw [update_self]
      exact hs he'
    · rw [update_of_ne heq]
  · by_cases heq : e' = e
    · rw [heq, update_self]
      rfl
    · rwa [update_of_ne heq]

end Narrowed

theorem Narrowed.foldlM {α : Type} {frame free : Set Nat}
    {step : EdgeSets → α → Except NegotiationFailure EdgeSets} {l : List α}
    (hstep : ∀ a ∈ l, ∀ edges edges', step edges a = .ok edges' → Narrowed frame free edges edges')
    {edges edges' : EdgeSets} (h : l.foldlM step edges = .ok edges') : Narrowed frame free edges edges' :=
  foldlM_keeps (fun a ha e1 e2 h12 hn => hn.trans (hstep a ha e1 e2 h12)) h
    (.refl frame free edges)

section Steps

variable {g : Graph} {edges edges' : EdgeSets} {node : Nat} {e : Nat}

theorem narrowEdge_eq_ok {s : CapsSet} (h : narrowEdge g edges e s node = .ok edges') :
    (narrowBy (edges e) s).isEmpty = false ∧ edges' = Function.update edges e (some (narrowBy (edges e) s)) := by
  unfold narrowEdge at h
  by_cases hempty : (narrowBy (edges e) s).isEmpty = true
  · simp only [hempty, if_true] at h
    split_ifs at h
  · simp only [hempty, Bool.false_eq_true, if_false, Except.ok.injEq] at h
    exact ⟨Bool.eq_false_iff.2 hempty, h.symm⟩

theorem narrowEdge_narrowed {s : CapsSet} (h : narrowEdge g edges e s node = .ok edges') :
    Narrowed {e} ∅ edges edges' := by
  obtain ⟨-, rfl⟩ := narrowEdge_eq_ok h
  exact .update rfl fun _ p hp => (contains_narrowBy.1 hp).1

theorem coupleEdges_narrowed {a b : Nat} (h : coupleEdges g edges a b = .ok edges') :
    Narrowed {a, b} ∅ edges edges' := by
  unfold coupleEdges at h
  rcases ha : edges a with _ | sa <;> rcases hb : edges b with _ | sb <;> simp only [ha, hb] at h
  · obtain rfl := Except.ok.inj h
    exact .refl _ _ _
  · obtain rfl := Except.ok.inj h
    exact .update (by simp) fun _ p _ => by simp [ha, denote]
  · obtain rfl := Except.ok.inj h
    exact .update (by simp) fun _ p _ => by simp [hb, denote]
  · split_ifs at h with hempty
    obtain rfl := Except.ok.inj h
    have hboth := fun p => @CapsSet.contains_intersect_iff sa sb p
    refine .trans (.update (by simp) fun _ p hp => ?_)
      (.update (by simp) fun _ p hp => ?_)
    · rw [ha]
      exact ((hboth p).1 hp).1
    · by_cases hab : b = a
      · rw [hab, update_self]
        exact hp
      · rw [update_of_ne hab, hb]
        exact ((hboth p).1 hp).2

variable {inE : Nat}

variable {outE : Nat}

theorem applyMapping_narrowed {pairs : List (CapsSet × CapsSet)}
    (h : applyTransformNode g (.mapping pairs) inE outE edges node = .ok edges') :
    Narrowed {inE, outE} {inE} edges edges' := by
  obtain ⟨h1, h2, -⟩ := contains_filterPairs (edges inE) (edges outE) pairs
  simp only [applyTransformNode] at h
  split_ifs at h
  obtain rfl := Except.ok.inj h
  refine .trans (.update (by simp) fun hfree => absurd rfl hfree)
    (.update (by simp) fun hfree q hq => ?_)
  rw [update_of_ne hfree]
  exact h2 q hq

theorem narrowForward_narrowed {derive : Caps → CapsSet}
    (h : narrowForward g derive inE outE edges node = .ok edges') : Narrowed {outE} ∅ edges edges' := by
  unfold narrowForward at h
  rcases hin : edges inE with _ | inSet <;> simp only [hin] at h
  · obtain rfl := Except.ok.inj h
    exact .refl _ _ _
  · split_ifs at h
    exact narrowEdge_narrowed h

variable {backward : CapsSet → CapsSet → Except Unit (Option CapsSet)}

theorem narrowBackward_narrowed
    (h : narrowBackward g backward inE outE edges = .ok edges') : Narrowed {inE} {inE} edges edges' := by
  unfold narrowBackward at h
  split at h
  · split at h
    · obtain rfl := Except.ok.inj h
      exact .update (by simp) fun hfree => absurd rfl hfree
    · obtain rfl := Except.ok.inj h
      exact .refl _ _ _
    · cases h
  · obtain rfl := Except.ok.inj h
    exact .refl _ _ _

theorem applyDerived_narrowed {derive : Caps → CapsSet}
    (h : applyDerived g derive backward inE outE edges node = .ok edges') :
    Narrowed {inE, outE} {inE} edges edges' := by
  obtain ⟨mid, hmid, h⟩ := bind_eq_ok.1 h
  exact ((narrowForward_narrowed hmid).mono (by simp) (by simp)).trans
    ((narrowBackward_narrowed h).mono (by simp) subset_rfl)

theorem applyTransformNode_narrowed {c : CapsConstraint}
    (h : applyTransformNode g c inE outE edges node = .ok edges') : Narrowed {inE, outE} {inE} edges edges' := by
  cases c with
  | identity s =>
    obtain ⟨e1, h1, h⟩ := bind_eq_ok.1 h
    obtain ⟨e2, h2, h3⟩ := bind_eq_ok.1 h
    exact ((narrowEdge_narrowed h1).mono (by simp) (by simp)).trans
      (((narrowEdge_narrowed h2).mono (by simp) (by simp)).trans
        ((coupleEdges_narrowed h3).mono subset_rfl (by simp)))
  | identityAny => exact (coupleEdges_narrowed h).mono subset_rfl (by simp)
  | mapping pairs => exact applyMapping_narrowed h
  | derivedOutput f | derivedFields t => exact applyDerived_narrowed h
  | _ => cases h

theorem mem_denote_meetEdges (edges : EdgeSets) (init : Option CapsSet) (outE : List Nat) (p : Caps) :
    p ∈ denote (meetEdges edges init outE) ↔ p ∈ denote init ∧ ∀ o ∈ outE, p ∈ denote (edges o) := by
  unfold meetEdges
  induction outE generalizing init with
  | nil => simp
  | cons o outE ih =>
    rw [foldl_cons, ih]
    rcases ho : edges o with _ | s
    · simp [ho, denote]
    · simp only [forall_mem_cons, ho]
      rw [mem_denote_some, contains_narrowBy, mem_denote_some, and_assoc]

variable {outE : List Nat}

theorem foldl_update_narrowed {frame : Set Nat} {coupled : CapsSet} (hframe : ∀ o ∈ outE, o ∈ frame)
    (hs : ∀ o ∈ outE, denote (some coupled) ⊆ denote (edges o)) : Narrowed frame ∅ edges
      (outE.foldl (fun edges o => Function.update edges o (some coupled)) edges) := by
  induction outE generalizing edges with
  | nil => exact Narrowed.refl _ _ _
  | cons o outE ih =>
    refine (Narrowed.update (hframe o mem_cons_self) fun _ =>
      hs o mem_cons_self).trans (ih (fun o' ho' => hframe o' (mem_cons_of_mem o ho')) ?_)
    intro o' ho'
    by_cases heq : o' = o
    · rw [heq, update_self]
    · rw [update_of_ne heq]
      exact hs o' (mem_cons_of_mem o ho')

theorem applyTeeNode_narrowed
    (h : applyTeeNode g inE outE edges = .ok edges') :
    Narrowed ({inE} ∪ {o | o ∈ outE}) ∅ edges edges' := by
  unfold applyTeeNode at h
  have hacc := mem_denote_meetEdges edges (edges inE) outE
  rcases hcoupled : meetEdges edges (edges inE) outE with _ | coupled <;>
    simp only [hcoupled] at h hacc
  · obtain rfl := Except.ok.inj h
    exact Narrowed.refl _ _ _
  · split_ifs at h
    obtain rfl := Except.ok.inj h
    refine (Narrowed.update (by simp) fun _ p hp => ((hacc p).1 hp).1).trans
      (foldl_update_narrowed (fun o ho => by simp [ho]) fun o ho p hp => ?_)
    by_cases heq : o = inE
    · rw [heq, update_self]
      exact hp
    · rw [update_of_ne heq]
      exact ((hacc p).1 hp).2 o ho

variable {input : CapsConstraint}

theorem narrowInput_narrowed (h : narrowInput g node inE input edges = .ok edges') : Narrowed {inE} ∅ edges edges' := by
  unfold narrowInput at h
  split at h
  · exact narrowEdge_narrowed h
  · obtain rfl := Except.ok.inj h
    exact .refl _ _ _

theorem applyPort_narrowed {o : Nat} {ports : List CapsConstraint}
    (h : applyPort g node inE ports edges o = .ok edges') : Narrowed {inE, o} {inE} edges edges' := by
  unfold applyPort at h
  split at h
  · exact (narrowEdge_narrowed h).mono (by simp) (by simp)
  · exact applyTransformNode_narrowed h
  · obtain rfl := Except.ok.inj h
    exact .refl _ _ _

theorem applyDemuxNode_narrowed
    {ports : List CapsConstraint} (h : applyDemuxNode g node inE outE input ports edges = .ok edges') :
    Narrowed ({inE} ∪ {o | o ∈ outE}) {inE} edges edges' := by
  obtain ⟨mid, hmid, h⟩ := bind_eq_ok.1 h
  refine ((narrowInput_narrowed hmid).mono (by simp) (by simp)).trans (.foldlM ?_ h)
  intro o ho e1 e2 h12
  refine (applyPort_narrowed h12).mono ?_ subset_rfl
  rintro e (rfl | rfl)
  · simp
  · simp [ho]

variable {inputs : List CapsConstraint}

theorem narrowMuxerInputs_narrowed
    (h : narrowMuxerInputs g node inputs edges = .ok edges') :
    Narrowed {e | e ∈ g.inEdges node} ∅ edges edges' := by
  refine .foldlM ?_ h
  intro e he e1 e2 h12
  unfold narrowPad at h12
  split at h12
  · exact (narrowEdge_narrowed h12).mono (by simpa using he) subset_rfl
  · obtain rfl := Except.ok.inj h12
    exact .refl _ _ _
  · cases h12

def incident (g : Graph) (node : Nat) : Set Nat := {e | e ∈ g.inEdges node ∨ e ∈ g.outEdges node}

theorem padEdge_mem {pad : Nat} (h : padEdge g node pad = some e) :
    e ∈ g.inEdges node ∧ (g.edge e).dst.index = pad := by
  have h1 := List.mem_of_find?_eq_some h
  have h2 := List.find?_some h
  exact ⟨h1, by simpa using h2⟩

theorem narrowMuxerOutput_narrowed {output : CapsConstraint} {follows : Option Nat}
    (hout : g.outEdge node ∈ g.outEdges node) (h : narrowMuxerOutput g node output follows edges = .ok edges') :
    Narrowed (incident g node) ∅ edges edges' := by
  unfold narrowMuxerOutput at h
  split at h
  · split at h
    · rename_i inE hpad
      refine (coupleEdges_narrowed h).mono ?_ subset_rfl
      rintro e (rfl | rfl)
      · exact .inl (padEdge_mem hpad).1
      · exact .inr hout
    · cases h
  · refine (narrowEdge_narrowed h).mono ?_ subset_rfl
    rintro e rfl
    exact .inr hout
  · cases h

theorem applyMuxerNode_narrowed {output : CapsConstraint}
    {follows : Option Nat} (hout : g.outEdge node ∈ g.outEdges node)
    (h : applyMuxerNode g node inputs output follows edges = .ok edges') :
    Narrowed (incident g node) ∅ edges edges' := by
  obtain ⟨mid, hmid, h⟩ := bind_eq_ok.1 h
  exact ((narrowMuxerInputs_narrowed hmid).mono (fun e he => .inl he) subset_rfl).trans
    (narrowMuxerOutput_narrowed hout h)

theorem mem_padsInOrder {pad : Nat × Nat} :
    pad ∈ padsInOrder g node ↔ pad.2 ∈ g.inEdges node ∧ (g.edge pad.2).dst.index = pad.1 := by
  obtain ⟨i, e⟩ := pad
  simp only [padsInOrder, mem_insertionSort, List.mem_map, Prod.mk.injEq]
  constructor
  · rintro ⟨e', he', rfl, rfl⟩
    exact ⟨he', rfl⟩
  · rintro ⟨he, rfl⟩
    exact ⟨e, he, rfl, rfl⟩

theorem narrowBatches_narrowed (hout : g.outEdge node ∈ g.outEdges node)
    (h : (do let edges ← narrowBatchOutput g node edges
             narrowBatchInputs g node edges) = .ok edges') :
    Narrowed (incident g node) ∅ edges edges' := by
  obtain ⟨e2, h2, h3⟩ := bind_eq_ok.1 h
  have houtput : Narrowed (incident g node) ∅ edges e2 := by
    unfold narrowBatchOutput at h2
    split at h2
    · refine (narrowEdge_narrowed h2).mono ?_ subset_rfl
      rintro e rfl
      exact .inr hout
    · obtain rfl := Except.ok.inj h2
      exact .refl _ _ _
  refine houtput.trans ?_
  unfold narrowBatchInputs at h3
  split at h3
  · refine .foldlM ?_ h3
    intro pad hpad e4 e5 h45
    refine (narrowEdge_narrowed h45).mono ?_ subset_rfl
    rintro e rfl
    have hmem : pad.1 ∈ padsInOrder g node := fst_mem_of_mem_zipIdx hpad
    exact .inl (mem_padsInOrder.1 hmem).1
  · obtain rfl := Except.ok.inj h3
    exact .refl _ _ _

theorem applyBatchMuxerNode_narrowed (hout : g.outEdge node ∈ g.outEdges node)
    (h : applyBatchMuxerNode g node inputs edges = .ok edges') : Narrowed (incident g node) ∅ edges edges' := by
  obtain ⟨mid, hmid, h⟩ := bind_eq_ok.1 h
  exact ((narrowMuxerInputs_narrowed hmid).mono (fun e he => .inl he) subset_rfl).trans
    (narrowBatches_narrowed hout h)

theorem narrowBatchPorts_narrowed
    (h : narrowBatchPorts g node inE outE edges = .ok edges') :
    Narrowed ({inE} ∪ {o | o ∈ outE}) ∅ edges edges' := by
  unfold narrowBatchPorts at h
  split at h
  · obtain rfl := Except.ok.inj h
    exact .refl _ _ _
  · obtain ⟨e2, h2, h3⟩ := bind_eq_ok.1 h
    refine .trans (.foldlM ?_ h2) ?_
    · intro o ho e4 e5 h45
      refine (narrowEdge_narrowed h45).mono ?_ subset_rfl
      rintro e rfl
      simp [ho]
    · unfold narrowBatchSource at h3
      split at h3
      · obtain rfl := Except.ok.inj h3
        exact .refl _ _ _
      · obtain ⟨narrowed, -, h3⟩ := bind_eq_ok.1 h3
        exact (narrowEdge_narrowed h3).mono (by simp) subset_rfl

theorem applyBatchDemuxNode_narrowed
    (h : applyBatchDemuxNode g node inE outE input edges = .ok edges') :
    Narrowed ({inE} ∪ {o | o ∈ outE}) ∅ edges edges' := by
  obtain ⟨mid, hmid, h⟩ := bind_eq_ok.1 h
  exact ((narrowInput_narrowed hmid).mono (by simp) subset_rfl).trans (narrowBatchPorts_narrowed h)

end Steps

/-- A step touches only its node's edges, and narrows all of them but its inputs. -/
theorem applyNode_narrowed {g : ValidatedGraph} {constraints : List NodeConstraint} {node : Nat}
    {edges edges' : EdgeSets} (hn : node < g.nodeCount)
    (h : applyNode g.toGraph constraints node edges = .ok edges') :
    Narrowed (incident g.toGraph node) {e | e ∈ g.inEdges node} edges edges' := by
  have hin := g.inEdge_mem hn
  have hout := g.outEdge_mem hn
  have hpair : (g.kind node).inPads = 1 → (g.kind node).outPads = 1 →
      ({g.inEdge node, g.outEdge node} : Set Nat) ⊆ incident g.toGraph node := fun h1 h2 => by
    rintro e (rfl | rfl)
    · exact .inl (hin h1)
    · exact .inr (hout h2)
  have hfan : (g.kind node).inPads = 1 →
      {g.inEdge node} ∪ {o | o ∈ g.outEdges node} ⊆ incident g.toGraph node := fun h1 => by
    rintro e (rfl | he)
    · exact .inl (hin h1)
    · exact .inr he
  unfold applyNode at h
  split at h
  case h_1 hk _ =>
    refine (narrowEdge_narrowed h).mono ?_ (by simp)
    rintro e rfl
    exact .inr (hout (by rw [hk]; rfl))
  case h_2 hk _ =>
    refine (narrowEdge_narrowed h).mono ?_ (by simp)
    rintro e rfl
    exact .inl (hin (by rw [hk]; rfl))
  case h_3 =>
    obtain rfl := Except.ok.inj h
    exact .refl _ _ _
  case h_4 hk _ =>
    exact (applyTransformNode_narrowed h).mono (hpair (by rw [hk]; rfl) (by rw [hk]; rfl))
      (by simpa using hin (by rw [hk]; rfl))
  case h_5 hk _ =>
    exact (applyDemuxNode_narrowed h).mono (hfan (by rw [hk]; rfl))
      (by simpa using hin (by rw [hk]; rfl))
  case h_6 hk _ =>
    exact (applyBatchDemuxNode_narrowed h).mono (hfan (by rw [hk]; rfl)) (by simp)
  case h_7 hk _ _ =>
    exact (applyTeeNode_narrowed h).mono (hfan (by rw [hk]; rfl)) (by simp)
  case h_8 hk _ => exact (applyMuxerNode_narrowed (hout (by rw [hk]; rfl)) h).mono subset_rfl (by simp)
  case h_9 hk _ =>
    exact (applyBatchMuxerNode_narrowed (hout (by rw [hk]; rfl)) h).mono subset_rfl (by simp)
  case h_10 => exact (narrowMuxerInputs_narrowed h).mono (fun e he => .inl he) (by simp)
  case h_11 =>
    have hports : Narrowed {o | o ∈ g.outEdges node} ∅ edges edges' := .foldlM ?_ h
    · exact hports.mono (fun e he => .inr he) (Set.empty_subset _)
    intro o ho e1 e2 h12
    unfold narrowPort at h12
    split at h12
    · exact (narrowEdge_narrowed h12).mono (by simpa using ho) subset_rfl
    · cases h12
  case h_12 => cases h

end Glass2Glass
