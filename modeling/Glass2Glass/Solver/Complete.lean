import Glass2Glass.Solver.Search

/-!
# The sweeps lose no solution

Take one concrete caps per edge that satisfies every node's relation. Whatever node takes a step, the
set of every edge keeps an alternative that contains the edge's caps, and the step does not fail with
an empty link or a derivation without output. Derivations given as functions are left out, since
nothing relates their values on different inputs, and so are batches.
-/

namespace Glass2Glass

open Loop List Function

/-- The failures that report that caps do not match. -/
def NegotiationFailure.isMismatch : NegotiationFailure → Bool
  | emptyLink .. | noOutputForInput .. => true
  | _ => false

/-- Every edge may still carry the caps `p` assigns to it. -/
def carries (p : Nat → Caps) (edges : EdgeSets) : Prop := ∀ e, p e ∈ denote (edges e)

/-- A step keeps the assignment, or fails for another reason than a mismatch. -/
abbrev Keeps (p : Nat → Caps) : Except NegotiationFailure EdgeSets → Prop :=
  Meets (carries p) fun f => f.isMismatch = false

section Steps

variable {g : Graph} {p : Nat → Caps} {edges : EdgeSets} {node : Nat}

section

variable (h : carries p edges)

include h

theorem carries.update {e : Nat} {s : CapsSet} (hs : s.contains (p e)) :
    carries p (Function.update edges e (some s)) := by
  intro e'
  by_cases heq : e' = e
  · rw [heq, update_self]
    exact hs
  · rw [update_of_ne heq]
    exact h e'

theorem carries.contains {e : Nat} {s : CapsSet} (hs : edges e = some s) : s.contains (p e) := by
  have hmem := h e
  rw [hs] at hmem
  exact hmem

theorem keeps_narrowEdge {e : Nat} {s : CapsSet} (hs : s.contains (p e)) :
    Keeps p (narrowEdge g edges e s node) := by
  have hnext : (narrowBy (edges e) s).contains (p e) := contains_narrowBy.2 ⟨h e, hs⟩
  unfold narrowEdge
  simp only [CapsSet.isEmpty_eq_false_of_contains hnext, Bool.false_eq_true, if_false]
  exact h.update hnext

theorem keeps_coupleEdges {a b : Nat} (hab : p a = p b) : Keeps p (coupleEdges g edges a b) := by
  unfold coupleEdges
  rcases ha : edges a with _ | sa <;> rcases hb : edges b with _ | sb
  · exact h
  · exact h.update (hab ▸ h.contains hb)
  · exact h.update (hab ▸ h.contains ha)
  · have hboth : (sa.intersect sb).contains (p a) :=
      CapsSet.contains_intersect_iff.2 ⟨h.contains ha, hab ▸ h.contains hb⟩
    simp only [CapsSet.isEmpty_eq_false_of_contains hboth, Bool.false_eq_true, if_false]
    exact (h.update hboth).update (hab ▸ hboth)

theorem keeps_applyDerived {t : CapsTransform} {inE outE : Nat}
    (hconc : (p inE).isConcrete) (hrel : (t.derive (p inE)).contains (p outE)) :
    Keeps p (applyDerived g t.derive (backwardFieldNarrow t.derive t.passthrough) inE outE edges node) := by
  have hforward : Keeps p (narrowForward g t.derive inE outE edges node) := by
    unfold narrowForward
    rcases hin : edges inE with _ | inSet
    · exact h
    · obtain ⟨a, ha, hap⟩ := h.contains hin
      have hder : (forwardDerivedUnion t.derive inSet).contains (p outE) :=
        contains_forwardDerivedUnion.2 ⟨a, ha, t.contains_derive hap hrel⟩
      simp only [CapsSet.isEmpty_eq_false_of_contains hder, Bool.false_eq_true, if_false]
      exact keeps_narrowEdge h hder
  refine hforward.bind fun mid _ hmid => ?_
  unfold narrowBackward
  split
  · rename_i inSet outSet hin hout
    obtain ⟨r, hr, hkept⟩ :=
      contains_backwardFieldNarrow t (hmid.contains hin) hconc hrel (hmid.contains hout)
    rw [hr]
    cases r with
    | none => exact hmid
    | some narrowed => exact hmid.update hkept
  · exact hmid

theorem keeps_applyTransformNode {c : CapsConstraint} {inE outE : Nat}
    (hf : ∀ f, c ≠ .derivedOutput f) (hin : (p inE).isConcrete) (hout : (p outE).isConcrete)
    (hrel : c.relates (p inE) (p outE)) (hdraws : c.drawsFrom (p inE)) :
    Keeps p (applyTransformNode g c inE outE edges node) := by
  cases c with
  | identity set =>
    have heq : p inE = p outE := hrel
    refine (keeps_narrowEdge h hdraws).bind fun e1 _ h1 => ?_
    refine (keeps_narrowEdge h1 (heq ▸ hdraws)).bind fun e2 _ h2 => ?_
    exact keeps_coupleEdges h2 heq
  | identityAny => exact keeps_coupleEdges h hrel
  | mapping pairs =>
    obtain ⟨pair, hpair, hpin, hpout⟩ := hrel
    obtain ⟨hnewIn, hnewOut⟩ := (contains_filterPairs (edges inE) (edges outE) pairs).2.2 pair hpair
      (p inE) (p outE) (h inE) (CapsSet.contains_of_accepts hin hpin) (h outE)
      (CapsSet.contains_of_accepts hout hpout)
    simp only [applyTransformNode, CapsSet.isEmpty_eq_false_of_contains hnewIn,
      CapsSet.isEmpty_eq_false_of_contains hnewOut, Bool.or_self, Bool.false_eq_true, if_false]
    exact (h.update hnewIn).update hnewOut
  | derivedOutput f => exact absurd rfl (hf f)
  | derivedFields t => exact keeps_applyDerived h hin (CapsSet.contains_of_accepts hout hrel)
  | accepts set | produces set | acceptsAny => rfl

theorem keeps_applyTeeNode {inE : Nat} {outE : List Nat}
    (hrel : ∀ o ∈ outE, p o = p inE) : Keeps p (applyTeeNode g inE outE edges) := by
  unfold applyTeeNode
  have hmeet : p inE ∈ denote (meetEdges edges (edges inE) outE) :=
    (mem_denote_meetEdges edges (edges inE) outE (p inE)).2 ⟨h inE, fun o ho => hrel o ho ▸ h o⟩
  rcases hcoupled : meetEdges edges (edges inE) outE with _ | coupled
  · exact h
  · rw [hcoupled] at hmeet
    have hne : coupled.isEmpty = false := CapsSet.isEmpty_eq_false_of_contains hmeet
    simp only [hne, Bool.false_eq_true, if_false]
    -- Every branch gets the shared set in turn.
    suffices hloop : ∀ (l : List Nat) (edges : EdgeSets), (∀ o ∈ l, p o = p inE) → carries p edges →
        carries p (l.foldl (fun edges o => Function.update edges o (some coupled)) edges) from
      hloop outE _ hrel (h.update hmeet)
    intro l
    induction l with
    | nil => exact fun edges _ h => h
    | cons o l ih =>
      intro edges hl h
      exact ih _ (fun o' ho' => hl o' (mem_cons_of_mem o ho')) (h.update ((hl o mem_cons_self) ▸ hmeet))

theorem keeps_narrowMuxerInputs {inputs : List CapsConstraint}
    (hpads : padsAccept g node inputs p) : Keeps p (narrowMuxerInputs g node inputs edges) := by
  refine Meets.foldlM (fun e he edges h => ?_) h
  unfold narrowPad
  split
  · rename_i set hpad
    exact keeps_narrowEdge h (hpads e he _ hpad)
  · exact h
  · rfl

theorem keeps_narrowMuxerOutput {output : CapsConstraint} {follows : Option Nat}
    (hout : follows = none → output.producesOutput (p (g.outEdge node)))
    (hfollows : ∀ pad, follows = some pad → ∀ e ∈ g.inEdges node, (g.edge e).dst.index = pad →
      p (g.outEdge node) = p e) : Keeps p (narrowMuxerOutput g node output follows edges) := by
  unfold narrowMuxerOutput
  split
  · rename_i pad
    split
    · rename_i inE hpad
      obtain ⟨hmem, hidx⟩ := padEdge_mem hpad
      exact keeps_coupleEdges h (hfollows pad rfl inE hmem hidx).symm
    · rfl
  · exact keeps_narrowEdge h (hout rfl)
  · rfl

end

end Steps

/-! ## Whole sweeps -/

/-- The node kinds and constraints the statement is about: no derivation given as a function, no
batches, and every linked demux port with its own set. -/
def sweepable (g : Graph) (nc : NodeConstraint) (node : Nat) : Prop :=
  match g.kind node, nc with
  | .transform, .element c => ∀ f, c ≠ .derivedOutput f
  | .tee _, .demux _ ports =>
    ∀ o ∈ g.outEdges node, ∃ s, ports[(g.edge o).src.index]? = some (.produces s)
  | .tee _, .batchDemux _ => False
  | .muxer _, .batchMuxer _ => False
  | _, _ => True

/-- An assignment of concrete caps that satisfies every node. -/
structure IsSolution (g : ValidatedGraph) (constraints : List NodeConstraint) (p : Nat → Caps) : Prop where
  /-- Every edge carries concrete caps. -/
  concrete : ∀ e < g.edgeCount, (p e).isConcrete
  /-- Every node's relation holds. -/
  relates : ∀ node < g.nodeCount, nodeRelates g.toGraph (constraintAt constraints node) p node
  /-- Every pass-through with a set draws from it. -/
  draws : ∀ node < g.nodeCount, nodeDraws g.toGraph (constraintAt constraints node) p node
  /-- Every muxer that follows a pad carries its caps. -/
  follows : ∀ node < g.nodeCount, nodeFollows g.toGraph (constraintAt constraints node) p node

section Sweeps

variable {g : ValidatedGraph} {constraints : List NodeConstraint} {p : Nat → Caps} {edges : EdgeSets}
  {node : Nat}

/-- A step keeps a solution. -/
theorem keeps_applyNode (hp : IsSolution g constraints p) (hn : node < g.nodeCount)
    (hclass : sweepable g.toGraph (constraintAt constraints node) node) (h : carries p edges) :
    Keeps p (applyNode g.toGraph constraints node edges) := by
  have hrel := hp.relates node hn
  have hdraws := hp.draws node hn
  have hfollows := hp.follows node hn
  have hconcrete : ∀ e, e ∈ g.inEdges node ∨ e ∈ g.outEdges node → (p e).isConcrete := by
    rintro e (he | he)
    · exact hp.concrete e (Graph.mem_inEdges.1 he).1
    · exact hp.concrete e (Graph.mem_outEdges.1 he).1
  unfold nodeRelates at hrel
  unfold nodeDraws at hdraws
  unfold nodeFollows at hfollows
  unfold sweepable at hclass
  unfold applyNode
  split
  case h_1 hk hc =>
    simp only [hk, hc] at hrel
    exact keeps_narrowEdge h hrel
  case h_2 hk hc =>
    simp only [hk, hc] at hrel
    exact keeps_narrowEdge h hrel
  case h_3 => exact h
  case h_4 c hk hc =>
    simp only [hk, hc] at hrel hdraws hclass
    exact keeps_applyTransformNode h hclass (hconcrete _ (Or.inl (g.inEdge_mem hn (by rw [hk]; rfl))))
      (hconcrete _ (Or.inr (g.outEdge_mem hn (by rw [hk]; rfl)))) hrel hdraws
  case h_5 input ports hk hc =>
    simp only [hk, hc] at hrel hclass
    have hinput : Keeps p (narrowInput g.toGraph node (g.inEdge node) input edges) := by
      unfold narrowInput
      split
      · exact keeps_narrowEdge h hrel.1
      · exact h
    refine hinput.bind fun mid _ hmid => Meets.foldlM (fun o ho edges h => ?_) hmid
    obtain ⟨s, hs⟩ := hclass o ho
    simp only [applyPort, hs]
    exact keeps_narrowEdge h (hrel.2 o ho _ hs).1
  case h_6 hk hc => simp only [hk, hc] at hclass
  case h_7 hk hdemux hbatch =>
    simp only [hk] at hrel
    exact keeps_applyTeeNode h hrel
  case h_8 inputs output follows hk hc =>
    simp only [hk, hc] at hrel hfollows
    refine (keeps_narrowMuxerInputs h hrel.1).bind fun mid _ hmid => ?_
    refine keeps_narrowMuxerOutput hmid hrel.2 fun pad hpad => ?_
    subst hpad
    exact hfollows
  case h_9 hk hc => simp only [hk, hc] at hclass
  case h_10 hk hc =>
    simp only [hk, hc] at hrel
    exact keeps_narrowMuxerInputs h hrel
  case h_11 ports hk hc =>
    simp only [hk, hc] at hrel
    refine Meets.foldlM (fun o ho edges h => ?_) h
    unfold narrowPort
    split
    · rename_i set hport
      exact keeps_narrowEdge h (hrel o ho _ hport)
    · rfl
  case h_12 => rfl

end Sweeps

/-! ## Every edge gets a set -/

section IsSome

variable {g : Graph} {edges edges' : EdgeSets} {node : Nat}

theorem isSome_of_narrowEdge {e : Nat} {s : CapsSet} (h : narrowEdge g edges e s node = .ok edges') :
    (edges' e).isSome := by
  obtain ⟨-, rfl⟩ := narrowEdge_eq_ok h
  rw [update_self]
  rfl

theorem isSome_of_coupleEdges {a b : Nat} (ha : (edges a).isSome)
    (h : coupleEdges g edges a b = .ok edges') : (edges' b).isSome := by
  obtain ⟨sa, hsa⟩ := Option.isSome_iff_exists.1 ha
  unfold coupleEdges at h
  rcases hb : edges b with _ | sb <;> simp only [hsa, hb] at h
  · obtain rfl := Except.ok.inj h
    simp
  · split_ifs at h
    obtain rfl := Except.ok.inj h
    simp

theorem isSome_of_applyTransformNode {c : CapsConstraint} {inE outE : Nat}
    (hin : (edges inE).isSome) (h : applyTransformNode g c inE outE edges node = .ok edges') :
    (edges' outE).isSome := by
  have hderived : ∀ {derive : Caps → CapsSet}
      {backward : CapsSet → CapsSet → Except Unit (Option CapsSet)},
      applyDerived g derive backward inE outE edges node = .ok edges' → (edges' outE).isSome := by
    intro derive backward h
    obtain ⟨mid, hmid, h⟩ := bind_eq_ok.1 h
    refine (narrowBackward_narrowed h).isSome outE ?_
    obtain ⟨inSet, hinSet⟩ := Option.isSome_iff_exists.1 hin
    simp only [narrowForward, hinSet] at hmid
    split_ifs at hmid
    exact isSome_of_narrowEdge hmid
  cases c with
  | identity s =>
    obtain ⟨e1, h1, h⟩ := bind_eq_ok.1 h
    obtain ⟨e2, h2, h3⟩ := bind_eq_ok.1 h
    exact (coupleEdges_narrowed h3).isSome outE (isSome_of_narrowEdge h2)
  | identityAny => exact isSome_of_coupleEdges hin h
  | mapping pairs =>
    simp only [applyTransformNode] at h
    split_ifs at h
    obtain rfl := Except.ok.inj h
    simp
  | derivedOutput f | derivedFields t => exact hderived h
  | _ => cases h

theorem isSome_foldl_update {coupled : CapsSet} {l : List Nat} {o : Nat} (ho : o ∈ l) :
    ((l.foldl (fun edges o => Function.update edges o (some coupled)) edges) o).isSome := by
  obtain ⟨pre, post, rfl⟩ := append_of_mem ho
  rw [foldl_append, foldl_cons]
  suffices hloop : ∀ (l : List Nat) (edges : EdgeSets), (edges o).isSome →
      ((l.foldl (fun edges o => Function.update edges o (some coupled)) edges) o).isSome from
    hloop post _ (by simp)
  intro l
  induction l with
  | nil => exact fun edges h => h
  | cons o' l ih =>
    intro edges h
    rw [foldl_cons]
    refine ih _ ?_
    by_cases heq : o = o'
    · simp [heq]
    · rwa [update_of_ne heq]

theorem isSome_of_applyTeeNode {inE o : Nat} {outE : List Nat} (hin : (edges inE).isSome)
    (ho : o ∈ outE) (h : applyTeeNode g inE outE edges = .ok edges') : (edges' o).isSome := by
  have hmeet : ∀ (l : List Nat) (init : Option CapsSet), init.isSome →
      (meetEdges edges init l).isSome := by
    intro l
    induction l with
    | nil => exact fun init h => h
    | cons o l ih =>
      intro init hinit
      unfold meetEdges
      rw [foldl_cons]
      rcases edges o with _ | s
      · exact ih init hinit
      · exact ih _ rfl
  obtain ⟨coupled, hcoupled⟩ := Option.isSome_iff_exists.1 (hmeet outE (edges inE) hin)
  simp only [applyTeeNode, hcoupled] at h
  split_ifs at h
  obtain rfl := Except.ok.inj h
  exact isSome_foldl_update ho

end IsSome

section Domains

variable {g : ValidatedGraph} {constraints : List NodeConstraint} {p : Nat → Caps}
  {edges edges' : EdgeSets} {node : Nat}

/-- A step gives every output of its node a set once all its inputs have one. -/
theorem isSome_of_applyNode (hn : node < g.nodeCount)
    (hclass : sweepable g.toGraph (constraintAt constraints node) node)
    (h : applyNode g.toGraph constraints node edges = .ok edges')
    (hin : ∀ e ∈ g.inEdges node, (edges e).isSome) : ∀ o ∈ g.outEdges node, (edges' o).isSome := by
  intro o ho
  have hinE := fun hk => hin _ (g.inEdge_mem hn hk)
  have houtE : (g.kind node).outPads = 1 → o = g.outEdge node := fun hk =>
    List.mem_singleton.1 (g.outEdges_eq hn hk ▸ ho)
  have hnone : (g.kind node).outPads ≠ 0 := fun hk => by
    rw [List.length_eq_zero_iff.1 ((g.length_outEdges hn).trans hk)] at ho
    simp at ho
  unfold sweepable at hclass
  unfold applyNode at h
  split at h
  case h_1 hk hc =>
    rw [houtE (by rw [hk]; rfl)]
    exact isSome_of_narrowEdge h
  case h_2 hk hc => exact absurd (by rw [hk]; rfl) hnone
  case h_3 hk hc => exact absurd (by rw [hk]; rfl) hnone
  case h_4 c hk hc =>
    rw [houtE (by rw [hk]; rfl)]
    exact isSome_of_applyTransformNode (hinE (by rw [hk]; rfl)) h
  case h_5 input ports hk hc =>
    simp only [hk, hc] at hclass
    obtain ⟨s, hs⟩ := hclass o ho
    obtain ⟨mid, -, h⟩ := bind_eq_ok.1 h
    obtain ⟨pre, post, hsplit⟩ := append_of_mem ho
    rw [hsplit] at h
    refine foldlM_establishes (P := fun edges => (edges o).isSome) ?_ ?_ h
    · intro e1 e2 h12
      simp only [applyPort, hs] at h12
      exact isSome_of_narrowEdge h12
    · exact fun o' _ e1 e2 h12 hs => (applyPort_narrowed h12).isSome o hs
  case h_6 hk hc => simp only [hk, hc] at hclass
  case h_7 hk _ _ => exact isSome_of_applyTeeNode (hinE (by rw [hk]; rfl)) ho h
  case h_8 inputs output follows hk hc =>
    rw [houtE (by rw [hk]; rfl)]
    obtain ⟨mid, hmid, h⟩ := bind_eq_ok.1 h
    unfold narrowMuxerOutput at h
    split at h
    · split at h
      · rename_i inE hpad
        refine isSome_of_coupleEdges ?_ h
        exact (narrowMuxerInputs_narrowed hmid).isSome _ (hin inE (padEdge_mem hpad).1)
      · cases h
    · exact isSome_of_narrowEdge h
    · cases h
  case h_9 hk hc => simp only [hk, hc] at hclass
  case h_10 hk hc => exact absurd (by rw [hk]; rfl) hnone
  case h_11 ports hk hc =>
    obtain ⟨pre, post, hsplit⟩ := append_of_mem ho
    rw [hsplit] at h
    refine foldlM_establishes (P := fun edges => (edges o).isSome) ?_ ?_ h
    · intro e1 e2 h12
      unfold narrowPort at h12
      split at h12
      · exact isSome_of_narrowEdge h12
      · cases h12
    · intro o' _ e1 e2 h12 hs
      unfold narrowPort at h12
      split at h12
      · exact (narrowEdge_narrowed h12).isSome o hs
      · cases h12
  case h_12 => cases h

/-- After a sweep every edge has a set: the forward sweep reaches a node after all its producers. -/
theorem isSome_of_sweepOnce (hclass : ∀ node < g.nodeCount, sweepable g.toGraph (constraintAt constraints node) node)
    (h : sweepOnce g constraints edges = .ok edges') : ∀ e < g.edgeCount, (edges' e).isSome := by
  obtain ⟨mid, hmid, h⟩ := bind_eq_ok.1 h
  have hstep : ∀ node ∈ g.topo, ∀ e1 e2, applyNode g.toGraph constraints node e1 = .ok e2 →
      ∀ e, (e1 e).isSome → (e2 e).isSome := fun node hnode e1 e2 h12 =>
    (applyNode_narrowed (g.mem_topo.1 hnode) h12).isSome
  have hforward : ∀ (post pre : List Nat) (edges : EdgeSets), g.topo = pre ++ post →
      (∀ v ∈ pre, ∀ o ∈ g.outEdges v, (edges o).isSome) →
      post.foldlM (fun edges node => applyNode g.toGraph constraints node edges) edges = .ok mid →
      ∀ v ∈ g.topo, ∀ o ∈ g.outEdges v, (mid o).isSome := by
    intro post
    induction post with
    | nil =>
      intro pre edges ht hpre hrun
      obtain rfl := Except.ok.inj hrun
      rw [ht, append_nil]
      exact hpre
    | cons v post ih =>
      intro pre edges ht hpre hrun
      obtain ⟨next, hnext, hrun⟩ := bind_eq_ok.1 hrun
      have hv : v ∈ g.topo := ht ▸ mem_append_right pre mem_cons_self
      refine ih (pre ++ [v]) next (by simp [ht]) ?_ hrun
      intro u hu o ho
      rcases List.mem_append.1 hu with hu | hu
      · exact hstep v hv edges next hnext o (hpre u hu o ho)
      · obtain rfl := List.mem_singleton.1 hu
        refine isSome_of_applyNode (g.mem_topo.1 hv) (hclass u (g.mem_topo.1 hv)) hnext ?_ o ho
        intro e he
        have hsrc := g.src_mem_front ht he
        exact hpre _ hsrc e (Graph.mem_outEdges.2 ⟨(Graph.mem_inEdges.1 he).1, rfl⟩)
  intro e he
  have hmidE : (mid e).isSome := hforward g.topo [] edges rfl (by simp) hmid _
    (g.mem_topo.2 (g.src_lt_nodeCount he)) e (Graph.mem_outEdges.2 ⟨he, rfl⟩)
  refine foldlM_keeps (P := fun edges => (edges e).isSome) ?_ h hmidE
  exact fun node hnode e1 e2 h12 => hstep node (List.mem_reverse.1 hnode) e1 e2 h12 e

theorem keeps_sweepLoop (hp : IsSolution g constraints p)
    (hclass : ∀ node < g.nodeCount, sweepable g.toGraph (constraintAt constraints node) node)
    (fuel : Nat) (h : carries p edges) :
    Meets (fun edges => carries p edges ∧ ∀ e < g.edgeCount, (edges e).isSome)
      (fun f => f.isMismatch = false) (sweepLoop g constraints (fuel + 1) edges) := by
  have hsweep : ∀ nodes : List Nat, (∀ node ∈ nodes, node ∈ g.topo) → ∀ edges, carries p edges →
      Keeps p (nodes.foldlM (fun edges node => applyNode g.toGraph constraints node edges) edges) :=
    fun nodes hnodes edges h => Meets.foldlM (fun node hnode edges h =>
      have hn := g.mem_topo.1 (hnodes node hnode)
      keeps_applyNode hp hn (hclass node hn) h) h
  have honce : ∀ edges, carries p edges → Keeps p (sweepOnce g constraints edges) := fun edges h =>
    (hsweep g.topo (fun _ h => h) edges h).bind fun mid _ hmid =>
      hsweep g.topo.reverse (fun _ h => List.mem_reverse.1 h) mid hmid
  induction fuel generalizing edges with
  | zero =>
    refine (honce edges h).bind fun next hnext hcarries => ?_
    have hsome := isSome_of_sweepOnce hclass hnext
    split_ifs
    · exact ⟨hcarries, hsome⟩
    · exact ⟨hcarries, hsome⟩
  | succ fuel ih =>
    refine (honce edges h).bind fun next hnext hcarries => ?_
    split_ifs
    · exact ⟨hcarries, isSome_of_sweepOnce hclass hnext⟩
    · exact ih hcarries

end Domains

/-- Negotiation loses no solution. When one concrete caps per edge satisfies every node, every edge
that has a set after any steps of any nodes has an alternative that contains the edge's caps, and
solving does not fail with an empty link or a derivation without output. -/
theorem negotiation_keeps_solutions (g : ValidatedGraph) (constraints : List NodeConstraint)
    (p : Nat → Caps) (hp : IsSolution g constraints p)
    (hclass : ∀ node < g.nodeCount, sweepable g.toGraph (constraintAt constraints node) node) :
    (∀ steps : List Nat, (∀ node ∈ steps, node < g.nodeCount) → ∀ edges,
      steps.foldlM (fun edges node => applyNode g.toGraph constraints node edges) (fun _ => none) =
        .ok edges → ∀ e s, edges e = some s → s.contains (p e)) ∧
    (∀ edges, sweeps g constraints = .ok edges → ∀ e < g.edgeCount, ∃ s, edges e = some s ∧ s.contains (p e)) ∧
    ∀ f, solveGraph g constraints = .error f → f.isMismatch = false := by
  have hempty : carries p fun _ => none := fun _ => trivial
  have hsweeps := keeps_sweepLoop hp hclass (8 * g.edgeCount + 3) hempty
  have hset : ∀ edges, sweeps g constraints = .ok edges →
      ∀ e < g.edgeCount, ∃ s, edges e = some s ∧ s.contains (p e) := by
    intro edges hedges e he
    obtain ⟨hcarries, hsome⟩ := hsweeps.of_ok hedges
    obtain ⟨s, hs⟩ := Option.isSome_iff_exists.1 (hsome e he)
    exact ⟨s, hs, hcarries.contains hs⟩
  refine ⟨?_, hset, ?_⟩
  · intro steps hsteps edges hrun e s hs
    have hkeeps : Keeps p (steps.foldlM
        (fun edges node => applyNode g.toGraph constraints node edges) fun _ => none) :=
      Meets.foldlM (fun node hnode edges h =>
        keeps_applyNode hp (hsteps node hnode) (hclass node (hsteps node hnode)) h) hempty
    exact (hkeeps.of_ok hrun).contains hs
  · intro f hf
    refine Meets.of_error (P := fun _ => True) (E := fun f => f.isMismatch = false) ?_ hf
    unfold solveGraph solveGraphPreferred
    split_ifs
    · rfl
    refine Meets.bind hsweeps fun edges hedges _ => ?_
    refine Meets.bind (P := fun _ => True) (Meets.mapM fun e he => ?_) fun domains _ _ => ?_
    · -- The set of an edge contains the edge's caps, so it is not empty.
      obtain ⟨s, hs, hcontains⟩ := hset edges hedges e (List.mem_range.1 he)
      simp only [edgeDomain, hs, CapsSet.isEmpty_eq_false_of_contains hcontains, Bool.false_eq_true,
        if_false]
      split_ifs
      · rfl
      · trivial
    · refine Meets.bind (P := fun _ => True) ?_ fun _ _ _ => trivial
      unfold chooseAssignment
      split
      · trivial
      · split
        · trivial
        · rfl

/-- A source, a transform and a sink. -/
def audioChain : ValidatedGraph := .through .transform rfl rfl rfl

/-- A source of any layout and rate, a transform that passes every field on, and a sink that takes any
number of channels. -/
def audioConstraints : List NodeConstraint :=
  [.element (.produces (.one (.audio .pcmS16Le 2 ANY_SAMPLE_RATE .UNSPECIFIED))),
    .element (.derivedFields (.audio [] [] [.PASSTHROUGH])),
    .element (.accepts (.one (.audio .pcmS16Le ANY_CHANNELS 48000 .STEREO)))]

/-- The concrete caps all three agree on are not lost. -/
theorem negotiation_keeps_solutions_audio : (∀ edges, sweeps audioChain audioConstraints = .ok edges →
      ∀ e < audioChain.edgeCount, ∃ s, edges e = some s ∧ s.contains (.audio .pcmS16Le 2 48000 .STEREO)) ∧
    ∀ f, solveGraph audioChain audioConstraints = .error f → f.isMismatch = false := by
  have hp : IsSolution audioChain audioConstraints fun _ => .audio .pcmS16Le 2 48000 .STEREO := by
    refine ⟨fun _ _ => by decide, fun node hn => ?_, fun node hn => ?_, fun node hn => ?_⟩
    · match node with
      | 0 =>
        show CapsSet.contains _ _
        decide
      | 1 =>
        show CapsSet.accepts _ _ = true
        decide
      | 2 =>
        show CapsSet.contains _ _
        decide
    · match node with
      | 0 | 1 | 2 => trivial
    · match node with
      | 0 | 1 | 2 => trivial
  have hclass : ∀ node < audioChain.nodeCount,
      sweepable audioChain.toGraph (constraintAt audioConstraints node) node := by
    intro node hn
    match node with
    | 0 | 2 => trivial
    | 1 =>
      intro f hf
      cases hf
  have hkeeps := negotiation_keeps_solutions audioChain audioConstraints _ hp hclass
  exact ⟨hkeeps.2.1, hkeeps.2.2⟩

end Glass2Glass
