import Glass2Glass.Runtime.Live
import Glass2Glass.Runtime.Prune

/-!
# Runs of mutations

What a request that is served has done to the routes through the graph, and that a run of served requests
keeps the live topology sound (`rewiring_runs`). The one thing asked of a run is that when a branch is
removed, every transform on it is found by its own name: `remove_branch` looks them up by name, and two
nodes may have the same (`remove_branch_drops_wrong_edge`).
-/

namespace Glass2Glass.Runtime

namespace MutationService

open Fallible

variable {Err : Type} {s s' : MutationService}

variable {answers : Answers Err}

def Live (s : MutationService) (i : Nat) : Prop := s.topology.wiring.live i

/-- A way through the graph from one node to another: the edges and the nodes they lead to. -/
def Path (s : MutationService) (a : Nat) (steps : List (Nat × Nat)) (z : Nat) : Prop :=
  Route s.topology.wiring.Hop a steps z

def HaveNames (s : MutationService) (nodes : List Nat) (names : List InstanceName) : Prop :=
  List.Forall₂ (fun i name => ∃ n, s.nodes.get? i = some n ∧ n.name = name) nodes names

/-- The names were made for elements of these categories, and no node had one of them. -/
def MadeFor (s : MutationService) (categories names : List InstanceName) : Prop :=
  List.Forall₂ (fun category name => s.NewName category name) categories names

/-- One node has taken the place of another on every path. -/
def Replaced (s s' : MutationService) (old new : Nat) : Prop :=
  s.Live old ∧ ¬ s.Live new ∧ (∀ i, s'.Live i ↔ i = new ∨ (i ≠ old ∧ s.Live i)) ∧ ∀ a z, s.Live a → s.Live z → ∀ steps',
      s'.Path (Wiring.swapped old new a) steps' (Wiring.swapped old new z) ↔
        ∃ steps, s.Path a steps z ∧ steps' = steps.map fun step => (step.1, Wiring.swapped old new step.2)

/-- What a request has done to the paths when it is served, with the names it returns. -/
def Rerouted (s s' : MutationService) (names : List InstanceName) : MutationOp Err → Prop
  -- Every path over the edge makes a detour over the new nodes.
  | .insert name side elements _ =>
    (elements = [] ∧ names = [] ∧ s' = s) ∨
    ∃ e news tail, (s.edgeAt name side : Except (Stop Err) Nat) = .ok e ∧
      s.MadeFor ((elements ++ tail).map Element.category) names ∧ s'.HaveNames (news.map Prod.fst) names ∧
      (∀ i, s'.Live i ↔ i ∈ news.map Prod.fst ∨ s.Live i) ∧
      ∀ a z, s.Live a → s.Live z → ∀ steps',
        s'.Path a steps' z ↔ ∃ steps, s.Path a steps z ∧ steps' = steps.flatMap (Route.detours e news)
  -- No path makes the detour over the node any more.
  | .remove name =>
    ∃ i above below, (s.find name : Except (Stop Err) Nat) = .ok i ∧ (∀ j, s'.Live j ↔ j ≠ i ∧ s.Live j) ∧
      ∀ a z, s'.Live a → s'.Live z → ∀ steps,
        s.Path a steps z ↔ ∃ steps', s'.Path a steps' z ∧ steps = steps'.flatMap (Route.detour above i below)
  | .replaceSink name element =>
    ∃ old new, (s.find name : Except (Stop Err) Nat) = .ok old ∧ s.MadeFor [element.category] names ∧
      s'.HaveNames [new] names ∧ s.Replaced s' old new
  | .replaceSource name source =>
    ∃ old new, (s.find name : Except (Stop Err) Nat) = .ok old ∧ s.MadeFor [source.category] names ∧
      s'.HaveNames [new] names ∧ s.Replaced s' old new
  -- The paths to the new sink are those to the tee, with the branch behind them.
  | .addBranch tee branch _ =>
    ∃ t top sink news transforms element tail, (s.find tee : Except (Stop Err) Nat) = .ok t ∧
      branch = some (transforms, element) ∧
      s.MadeFor ((transforms ++ tail).map Element.category ++ [element.category]) names ∧
      s'.HaveNames (news.map Prod.fst ++ [sink]) names ∧
      (∀ i, s'.Live i ↔ i ∈ news.map Prod.fst ∨ i = sink ∨ s.Live i) ∧ ∀ a, s.Live a →
        (∀ z, s.Live z → ∀ steps, s'.Path a steps z ↔ s.Path a steps z) ∧
        ∀ steps, s'.Path a steps sink ↔ ∃ before, s.Path a before t ∧ steps = before ++ Route.through top news sink
  -- The path from the tee to the sink is gone, and no other.
  | .removeBranch sink =>
    ∃ i t branch, (s.find sink : Except (Stop Err) Nat) = .ok i ∧
      (∃ n mode, s.nodes.get? t = some n ∧ n.growth = .branches mode) ∧ s.Path t branch i ∧
      (∀ j, s'.Live j ↔ j ∉ branch.map Prod.snd ∧ s.Live j) ∧
      ∀ a z, s'.Live a → s'.Live z → ∀ steps, s'.Path a steps z ↔ s.Path a steps z
  -- The paths from the new source are those from the muxer, with the new edge before them.
  | .addInput muxer source =>
    ∃ m e new, (s.find muxer : Except (Stop Err) Nat) = .ok m ∧ s.MadeFor [source.category] names ∧
      s'.HaveNames [new] names ∧ (∀ i, s'.Live i ↔ i = new ∨ s.Live i) ∧ ∀ z, s.Live z →
        (∀ a, s.Live a → ∀ steps, s'.Path a steps z ↔ s.Path a steps z) ∧
        ∀ steps, s'.Path new steps z ↔ ∃ after, s.Path m after z ∧ steps = (e, m) :: after

/-- When a branch is removed, every transform on it is found by its own name. -/
def FoundByName (s : MutationService) : MutationOp Err → Prop
  | .removeBranch sink => ∀ e, (s.edgeAt sink .above : Except (Stop Err) Nat) = .ok e → OwnNames Err s e
  | _ => True

def Served (s s' : MutationService) (names : List InstanceName) (request : MutationOp Err) : Prop :=
  s'.topology.Sound ∧ s.topology.Follows s'.topology ∧ s.Rerouted s' names request

/-! ## One request -/

theorem not_live_of_free {i : Nat} (h : s.topology.nodes i = none) : ¬ s.Live i := by
  simp [Live, Topology.wiring, h]

theorem target_of_free {e : Nat} (h : s.topology.edges e = none) : s.topology.wiring.target e = none := by
  simp [Topology.wiring, h]

section

variable (h : s.topology.Sound)

include h

theorem replaced_of_rename {old new : Nat} (hold : s.Live old) (hnew : ¬ s.Live new)
    (hw : s'.topology.wiring = s.topology.wiring.rename old new) : s.Replaced s' old new := by
  refine ⟨hold, hnew, fun i => ?_, fun a z ha hz steps' => ?_⟩
  · unfold Live
    rw [hw]
    exact .rfl
  · have hne : ∀ i x d, s.topology.wiring.Hop i x d → i ≠ new ∧ d ≠ new := by
      intro i x d hop
      refine ⟨?_, ?_⟩ <;> rintro rfl
      · exact hnew (h.wellFormed.live_of_mem_outs hop.1)
      · exact hnew (h.wellFormed.live_of_mem_ins ((h.wellFormed.mem_ins x d).2 hop.2))
    unfold Path
    rw [hw]
    refine Route.renamed_iff (fun _ _ _ => Wiring.hop_rename h.wellFormed hold hnew) hne ?_ ?_
    · exact fun heq => hnew (heq ▸ ha)
    · exact fun heq => hnew (heq ▸ hz)

theorem sound_rename {old new : Nat} (hold : s.Live old) (hnew : ¬ s.Live new)
    (hw : s'.topology.wiring = s.topology.wiring.rename old new) (hf : s.topology.Follows s'.topology) :
    s'.topology.Sound := by
  refine h.follow hf ?_ ?_ <;> rw [hw]
  · exact h.wellFormed.rename hold hnew
  · exact .rename h.wellFormed hold hnew h.acyclic

variable {name : InstanceName}

variable {converters : Option (Option (List (Element Err)))}

theorem meets_serve_insert {side : Side} {elements : List (Element Err)}
    :
    Meets (insert name side elements converters answers) s
      (fun names s' => s.Served s' names (.insert name side elements converters) ∧ names.Nodup) NoPanic := by
  refine (meets_insert h).mono (fun names s' hpost => ?_) fun _ _ h => h
  rcases hpost with ⟨rfl, rfl, rfl⟩ | ⟨e, c, news, tail, he, hmade, hnodup, hnames, -, hs, hw, hf⟩
  · exact ⟨⟨h, .refl _, .inl ⟨rfl, rfl, rfl⟩⟩, List.nodup_nil⟩
  · refine ⟨⟨h.follow hf ?_ ?_, hf, .inr ⟨e, news, tail, he, ?_, ?_, fun i => ?_, fun a z ha hz steps' => ?_⟩⟩, hnodup⟩
    · rw [hw]
      exact h.wellFormed.spliceAll hs
    · rw [hw]
      exact h.acyclic.spliceAll h.wellFormed hs
    · exact List.forall₂_map_left_iff.2 hmade
    · exact List.forall₂_map_left_iff.2 hnames
    · unfold Live
      rw [hw]
      exact Wiring.live_spliceAll
    · unfold Path
      rw [hw]
      exact Route.spliceAll_iff h.wellFormed hs ha hz

theorem meets_serve_remove :
    Meets (remove name answers) s (fun _ s' => s.Served s' [] (.remove name : MutationOp Err)) NoPanic := by
  refine (meets_remove h).mono (fun _ s' hpost => ?_) fun _ _ h => h
  obtain ⟨i, a, c, b, hi, hb, hw, hf⟩ := hpost
  refine ⟨h.follow hf ?_ ?_, hf, i, a, b, hi, fun j => ?_, fun x z hx hz steps => ?_⟩
  · rw [hw]
    exact h.wellFormed.bypass hb
  · rw [hw]
    exact h.acyclic.bypass h.wellFormed hb
  · unfold Live
    rw [hw]
    exact .rfl
  · unfold Live at hx hz
    unfold Path
    rw [hw] at hx hz ⊢
    exact Route.subdivided_iff (Route.subdivides_bypass h.wellFormed hb) hx.1 hz.1

theorem served_of_renamed {name category fresh : InstanceName} (hr : Renamed Err s s' name category fresh) :
    s'.topology.Sound ∧ s.topology.Follows s'.topology ∧ ∃ old new,
      (s.find name : Except (Stop Err) Nat) = .ok old ∧ s.MadeFor [category] [fresh] ∧
      s'.HaveNames [new] [fresh] ∧ s.Replaced s' old new := by
  obtain ⟨old, new, n, hold, hfree, hn, hname, hmade, hw, hf⟩ := hr
  obtain ⟨m, hm, -⟩ := find_eq_ok hold
  have hlive : s.Live old := Topology.live_of_node hm
  have hdead := not_live_of_free hfree
  exact ⟨sound_rename h hlive hdead hw hf, hf, old, new, hold, .cons hmade .nil, .cons ⟨n, hn, hname⟩ .nil,
    replaced_of_rename h hlive hdead hw⟩

theorem meets_serve_replaceSink {element : SinkElement Err} :
    Meets (replaceSink name element answers) s (fun r s' => s.Served s' [r.1] (.replaceSink name element)) NoPanic :=
  (meets_replaceSink h).mono (fun _ _ hr => served_of_renamed h hr) fun _ _ h => h

theorem meets_serve_replaceSource {source : SourceElement Err} :
    Meets (replaceSource name source answers) s (fun r s' => s.Served s' [r.1] (.replaceSource name source)) NoPanic :=
  (meets_replaceSource h).mono (fun _ _ hr => served_of_renamed h hr) fun _ _ h => h

theorem meets_serve_addBranch {tee : InstanceName} {branch : Option (List (Element Err) × SinkElement Err)}
    :
    Meets (addBranch tee branch converters answers) s
      (fun names s' => s.Served s' names (.addBranch tee branch converters) ∧ names.Nodup) NoPanic := by
  refine (meets_addBranch h).mono (fun names s' hpost => ?_) fun _ _ h => h
  obtain ⟨t, top, sink, news, transforms, element, tail, ht, hbranch, hmade, hnodup, hnames, hfree, htop, hs, hw,
    hf⟩ := hpost
  obtain ⟨m, hm, -⟩ := find_eq_ok ht
  have hlive : s.Live t := Topology.live_of_node hm
  have hdead := not_live_of_free hfree
  have htarget := target_of_free htop
  have hne : t ≠ sink := fun heq => hdead (heq ▸ hlive)
  have hwf : ((s.topology.wiring.add sink).connect t top sink).WellFormed :=
    h.wellFormed.add.connect (.inr hlive) (.inl rfl) htarget
  have hacyclic : ((s.topology.wiring.add sink).connect t top sink).Acyclic :=
    h.acyclic.add.connect_leaf h.wellFormed.add htarget hne (h.wellFormed.live_outs sink hdead)
  refine ⟨⟨h.follow hf ?_ ?_, hf, t, top, sink, news, transforms, element, tail, ht, hbranch, hmade, hnames,
    fun i => ?_, fun a ha => ⟨fun z hz steps => ?_, fun steps => ?_⟩⟩, hnodup⟩
  · rw [hw]
    exact hwf.spliceAll hs
  · rw [hw]
    exact hacyclic.spliceAll hwf hs
  · unfold Live
    rw [hw]
    exact Wiring.live_spliceAll
  · unfold Path
    rw [hw]
    exact Route.branch_iff h.wellFormed hlive hdead htarget hs ha hz
  · unfold Path
    rw [hw]
    exact Route.to_branch_iff h.wellFormed hlive hdead htarget hs ha

theorem meets_serve_removeBranch {sink : InstanceName}
    (hown : s.FoundByName (.removeBranch sink : MutationOp Err)) :
    Meets (removeBranch sink answers) s (fun _ s' => s.Served s' [] (.removeBranch sink : MutationOp Err)) NoPanic := by
  refine (meets_removeBranch h hown).mono (fun _ s' hpost => ?_) fun _ _ h => h
  obtain ⟨i, e, tee, top, n, mode, before, hi, hn, hgrowth, htop, hhead, hd, hw, hf⟩ := hpost
  have hpath : s.Path tee (before ++ [(e, i)]) i := .of_dangles h.wellFormed hd fun step hstep => by
    rw [hstep] at hhead
    rwa [← Option.some.inj hhead] at htop
  have hb : s.topology.wiring.Branch tee top ((before ++ [(e, i)]).map Prod.snd) ((before ++ [(e, i)]).map Prod.fst) := by
    obtain ⟨⟨top', k⟩, rest, hsteps⟩ : ∃ step rest, before ++ [(e, i)] = step :: rest :=
      List.exists_cons_of_ne_nil (List.append_ne_nil_of_right_ne_nil _ (List.cons_ne_nil _ _))
    rw [hsteps] at hhead hd ⊢
    obtain rfl : top' = top := Option.some.inj hhead
    exact hd.branch h.acyclic h.wellFormed htop
  refine ⟨h.follow hf ?_ ?_, hf, i, tee, _, hi, ⟨n, mode, hn, hgrowth⟩, hpath, fun j => ?_, fun a z _ hz steps => ?_⟩
  · rw [hw]
    exact h.wellFormed.dropBranch hb
  · rw [hw]
    exact h.acyclic.dropBranch h.wellFormed hb
  · unfold Live
    rw [hw]
    exact .rfl
  · unfold Live at hz
    unfold Path
    rw [hw] at hz ⊢
    exact Route.dropBranch_iff h.wellFormed hb hz.1

theorem meets_serve_addInput {muxer : InstanceName} {source : SourceElement Err} : Meets (addInput muxer source answers) s
      (fun name s' => s.Served s' [name] (.addInput muxer source)) NoPanic := by
  refine (meets_addInput h).mono (fun name s' hpost => ?_) fun _ _ h => h
  obtain ⟨m, new, e, n, hm, hfree, hedge, hn, hname, hmade, hw, hf⟩ := hpost
  obtain ⟨k, hk, -⟩ := find_eq_ok hm
  have hlive : s.Live m := Topology.live_of_node hk
  have hdead := not_live_of_free hfree
  have htarget := target_of_free hedge
  have hne : new ≠ m := fun heq => hdead (heq ▸ hlive)
  have hin : ∀ i x, ¬ s.topology.wiring.Hop i x new := fun i x hop =>
    hdead (h.wellFormed.live_of_mem_ins ((h.wellFormed.mem_ins x new).2 hop.2))
  have hout : ∀ x k, ¬ s.topology.wiring.Hop new x k := fun x k hop => hdead (h.wellFormed.live_of_mem_outs hop.1)
  refine ⟨h.follow hf ?_ ?_, hf, m, e, new, hm, .cons hmade .nil, .cons ⟨n, hn, hname⟩ .nil, fun i => ?_,
    fun z hz => ⟨fun a ha steps => ?_, fun steps => ?_⟩⟩
  · rw [hw]
    exact h.wellFormed.add.connect (.inl rfl) (.inr hlive) htarget
  · rw [hw]
    exact h.acyclic.add.connect_root h.wellFormed.add htarget hne (h.wellFormed.live_ins new hdead)
  · unfold Live
    rw [hw]
    exact .rfl
  · unfold Path
    rw [hw]
    refine Route.root_iff (fun _ _ _ => Wiring.hop_connect h.wellFormed.add htarget) hin ?_
    exact fun heq => hdead (heq ▸ ha)
  · unfold Path
    rw [hw]
    refine Route.from_root_iff (fun _ _ _ => Wiring.hop_connect h.wellFormed.add htarget) hin hout hne ?_
    exact fun heq => hdead (heq ▸ hz)

/-- A request is served with names that are different from each other. -/
theorem meets_serve_nodup {request : MutationOp Err} (hown : s.FoundByName request) :
    Meets (serve request answers) s (fun r s' => s.Served s' r.1 request ∧ r.1.Nodup) NoPanic := by
  have hone (name : InstanceName) : [name].Nodup := List.nodup_singleton name
  refine .ite (fun _ => meets_refusing) fun _ => ?_
  cases request with
  | insert name side elements converters => exact .bind (meets_serve_insert h) fun _ _ hr => .pure hr
  | remove name => exact .bind (meets_serve_remove h) fun _ _ hr => .pure ⟨hr, List.nodup_nil⟩
  | replaceSink name element => exact .bind (meets_serve_replaceSink h) fun _ _ hr => .pure ⟨hr, hone _⟩
  | replaceSource name source => exact .bind (meets_serve_replaceSource h) fun _ _ hr => .pure ⟨hr, hone _⟩
  | addBranch tee branch converters => exact .bind (meets_serve_addBranch h) fun _ _ hr => .pure hr
  | removeBranch sink => exact .bind (meets_serve_removeBranch h hown) fun _ _ hr => .pure ⟨hr, List.nodup_nil⟩
  | addInput muxer source => exact .bind (meets_serve_addInput h) fun _ _ hr => .pure ⟨hr, hone _⟩

theorem meets_serve {request : MutationOp Err} (hown : s.FoundByName request) :
    Meets (serve request answers) s (fun r s' => s.Served s' r.1 request) NoPanic :=
  (meets_serve_nodup h hown).mono (fun _ _ hr => hr.1) fun _ _ h => h

end

/-! ## Runs -/

def step (s : MutationService) (r : MutationOp Err × Answers Err) : Option MutationService :=
  match serve r.1 r.2 s with
  | (.ok _, s') => some s'
  | (.error _, _) => none

theorem served_of_step {r : MutationOp Err × Answers Err} (h : s.topology.Sound) (hnamed : s.FoundByName r.1)
    (hs : s.step r = some s') : ∃ names, s.Served s' names r.1 := by
  unfold step at hs
  rcases hserve : serve r.1 r.2 s with ⟨_ | result, mid⟩
  · rw [hserve] at hs
    cases hs
  · rw [hserve] at hs
    obtain rfl := Option.some.inj hs
    exact ⟨result.1, (meets_serve h hnamed).of_ok hserve⟩

/-- In every run of served requests the live topology stays sound, and the next request is served as it
should be or stops without a panic. -/
theorem rewiring_runs {served : List (MutationOp Err × Answers Err)} (h : s.topology.Sound)
    (hnamed : Machine.Along step (fun s r => s.FoundByName r.1) s served) (hrun : Machine.run step s served = some s') :
    s'.topology.Sound ∧ ∀ (request : MutationOp Err) (answers : Answers Err), s'.FoundByName request →
      Meets (serve request answers) s' (fun r s'' => s'.Served s'' r.1 request) NoPanic := by
  have hsound : s'.topology.Sound := by
    refine Machine.run_keeps_along (P := fun s => s.topology.Sound) (fun s r s' hs hr hstep => ?_) hrun hnamed h
    obtain ⟨-, hserved, -⟩ := served_of_step hs hr hstep
    exact hserved
  exact ⟨hsound, fun request answers hrequest => meets_serve hsound hrequest⟩

end MutationService

/-! ## Two nodes of one name -/

/-- A source and a tee with two branches, each a transform and a sink. -/
def twoBranches : ValidatedGraph where
  kinds := [.source, .tee 2, .transform, .sink, .transform, .sink]
  edges := [⟨⟨0, 0⟩, ⟨1, 0⟩⟩, ⟨⟨1, 0⟩, ⟨2, 0⟩⟩, ⟨⟨2, 0⟩, ⟨3, 0⟩⟩, ⟨⟨1, 1⟩, ⟨4, 0⟩⟩, ⟨⟨4, 0⟩, ⟨5, 0⟩⟩]
  topo := [0, 1, 2, 3, 4, 5]
  src_lt := by decide
  dst_lt := by decide
  fan_pos := by decide
  in_pads := by decide
  out_pads := by decide
  topo_perm := .refl _
  topo_lt := by decide

/-- What the runner knows of it. -/
def twoBranchesStartup (name : Nat → InstanceName) : Startup where
  name
  demux _ := false
  fanoutPolicy _ := .failLoud
  inputCount _ := 0
  done node := if node = 0 then some (.source 0) else if node = 1 then none else some (.element node)
  endpoint := some
  feasible _ := none
  policy _ := .block
  capacity _ := none
  branchMode _ := .failLoud
  linkCapacity := 4

/-- Its service, when no packet has passed. -/
def twoBranchesService (name : Nat → InstanceName) : MutationService :=
  (twoBranchesStartup name).service twoBranches (fun e => .new (.into e)) 5

/-- The producer of an edge stops at its next push, and everything else answers. -/
def promptly (edge : Nat) : Answers Unit :=
  { noTimer := false, waiting := [(edge, .poll)], timedOut := false, announced := none, drained := true
    arms := fun _ => true, delivered := fun _ => true, eos := true, grows := true, admitted := none }

def letters (names : List Char) (node : Nat) : InstanceName := [names.getD node ' ']

/-- With different names, a branch can be removed. -/
theorem rewiring_runs_twoBranches :
    ∃ s', Machine.run MutationService.step (twoBranchesService (letters ['s', 't', 'x', 'a', 'y', 'b']))
        [((.removeBranch ['b'] : MutationOp Unit), promptly 3)] = some s' ∧ s'.topology.Sound := by
  have hfind : ∀ i < 6, ((twoBranchesService (letters ['s', 't', 'x', 'a', 'y', 'b'])).find
      (letters ['s', 't', 'x', 'a', 'y', 'b'] i) : Except (Stop Unit) Nat) = .ok i := by
    decide +kernel
  obtain ⟨s', hs'⟩ := Option.isSome_iff_exists.1 (show (Machine.run MutationService.step
    (twoBranchesService (letters ['s', 't', 'x', 'a', 'y', 'b']))
    [((.removeBranch ['b'] : MutationOp Unit), promptly 3)]).isSome by decide +kernel)
  refine ⟨s', hs', (MutationService.rewiring_runs Startup.sound_liveTopology ?_ hs').1⟩
  refine Machine.Along.cons (fun e _ i n _ hn => ?_) fun _ _ => Machine.along_nil
  obtain ⟨hi, rfl⟩ := Startup.nodes_service.1 hn
  exact hfind i hi

/-- When the transforms of two branches have one name, the removal of the second branch takes the first
one's edge from the tee. -/
theorem remove_branch_drops_wrong_edge : ∃ (s : MutationService) (request : MutationOp Unit) (answers : Answers Unit),
    s.topology.Sound ∧ (MutationService.serve request answers s).1.isOk = true ∧
      ¬ (MutationService.serve request answers s).2.topology.wiring.WellFormed := by
  refine ⟨twoBranchesService (letters ['s', 't', 'x', 'a', 'x', 'b']), .removeBranch ['b'], promptly 1,
    Startup.sound_liveTopology, by decide +kernel, fun h => ?_⟩
  have hlisted : 3 ∈ (MutationService.serve (.removeBranch ['b']) (promptly 1)
      (twoBranchesService (letters ['s', 't', 'x', 'a', 'x', 'b']))).2.topology.wiring.outs 1 := by
    decide +kernel
  have hgone : (MutationService.serve (.removeBranch ['b']) (promptly 1)
      (twoBranchesService (letters ['s', 't', 'x', 'a', 'x', 'b']))).2.topology.wiring.target 3 = none := by
    decide +kernel
  exact h.not_mem_outs hgone hlisted

end Glass2Glass.Runtime
