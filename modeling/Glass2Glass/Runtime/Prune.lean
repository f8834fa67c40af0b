import Glass2Glass.Runtime.Rewire

/-!
# Removing a branch

`remove_branch` walks up from a sink to the tee above it. It knows each node on the way by its index, but
looks the edge above a transform up by the transform's name. When every transform on the way is found by its
own name, the walk collects the chain that hangs at the tee, and the branch is dropped from the wiring.
-/

namespace Glass2Glass.Runtime

open List

namespace Topology

variable {t t' t'' : Topology} {i : Nat} {n : LiveNode} {nodes edges : List Nat}

/-- Some nodes are without their handbacks. -/
structure Handed (t t' : Topology) : Prop where
  edges : t'.edges = t.edges
  nodes : ∀ i, t'.nodes i = t.nodes i ∨ ∃ n, t.nodes i = some n ∧ t'.nodes i = some { n with done := none }

theorem Handed.refl (t : Topology) : t.Handed t := ⟨rfl, fun _ => .inl rfl⟩

theorem Handed.step (h : t.Handed t') (hn : t'.nodes i = some n) :
    t.Handed (t'.setNode i (some { n with done := none })) where
  edges := h.edges
  nodes j := by
    by_cases hj : j = i
    · subst hj
      rw [nodes_setNode_self]
      rcases h.nodes j with hsame | ⟨m, hm, hdone⟩
      · exact .inr ⟨n, hsame.symm.trans hn, rfl⟩
      · obtain rfl := Option.some.inj (hn.symm.trans hdone)
        exact .inr ⟨m, hm, rfl⟩
    · rw [nodes_setNode_of_ne hj]
      exact h.nodes j

theorem Handed.trans (h : t.Handed t') (h' : t'.Handed t'') : t.Handed t'' where
  edges := h'.edges.trans h.edges
  nodes i := by
    rcases h'.nodes i with hsame | ⟨m, hm, hdone⟩
    · rw [hsame]
      exact h.nodes i
    · rcases h.nodes i with hsame | ⟨n, hn, hdone'⟩
      · exact .inr ⟨m, hsame.symm.trans hm, hdone⟩
      · obtain rfl := Option.some.inj (hm.symm.trans hdone')
        exact .inr ⟨n, hn, hdone⟩

theorem Handed.exists_node (h : t.Handed t') (hn : t.nodes i = some n) : ∃ done, t'.nodes i = some { n with done } := by
  rcases h.nodes i with hsame | ⟨m, hm, hdone⟩
  · exact ⟨n.done, hsame.trans hn⟩
  · obtain rfl := Option.some.inj (hn.symm.trans hm)
    exact ⟨none, hdone⟩

theorem Handed.wiring (h : t.Handed t') : t'.wiring = t.wiring := by
  unfold Topology.wiring
  rw [h.edges]
  congr 1
  all_goals
    funext i
    rcases h.nodes i with hsame | ⟨n, hn, hdone⟩
    · rw [hsame]
    · rw [hn, hdone]
      rfl

theorem Handed.follows (h : t.Handed t') : t.Follows t' where
  kept i n n' hn hn' := by
    obtain ⟨done, hdone⟩ := h.exists_node hn
    obtain rfl := Option.some.inj (hn'.symm.trans hdone)
    exact kept_done n done
  fresh i n' hn hn' := by
    rcases h.nodes i with hsame | ⟨m, hm, -⟩
    · rw [hsame, hn] at hn'
      cases hn'
    · rw [hn] at hm
      cases hm

/-- Nodes and edges are taken out of the tables. -/
def erased (t : Topology) (nodes edges : List Nat) : Topology where
  nodes i := if i ∈ nodes then none else t.nodes i
  edges e := if e ∈ edges then none else t.edges e

theorem erased_nil : t.erased [] [] = t := rfl

theorem erased_cons {e : Nat} : ((t.setEdge e none).setNode i none).erased nodes edges =
    t.erased (i :: nodes) (e :: edges) := by
  simp only [erased, setNode, setEdge, mem_cons, Function.update_apply]
  congr 1 <;> funext j <;> grind

theorem wiring_erased : (t.erased nodes edges).wiring = t.wiring.eraseAll nodes edges := by
  simp only [Topology.wiring, erased, Wiring.eraseAll]
  congr 1 <;> funext j <;> grind

theorem Follows.erase (h : t.Follows t') (nodes edges : List Nat) : t.Follows (t'.erased nodes edges) where
  kept i n n' hn hn' := by
    unfold erased at hn'
    dsimp only at hn'
    split_ifs at hn'
    exact h.kept i n n' hn hn'
  fresh i n' hn hn' := by
    unfold erased at hn'
    dsimp only at hn'
    split_ifs at hn'
    exact h.fresh i n' hn hn'

theorem length_filter_ne {l : List Nat} {x : Nat} (hnodup : l.Nodup) (hx : x ∈ l) :
    (l.filter (· ≠ x)).length + 1 = l.length := by
  have herase : l.erase x = l.filter (· ≠ x) := by
    rw [hnodup.erase_eq_filter]
    refine filter_congr fun y _ => ?_
    rw [Bool.eq_iff_iff]
    simp
  rw [← herase, length_erase_of_mem hx]
  have hpos := length_pos_of_mem hx
  omega

theorem removedBranch_eq {tee top m : Nat} {rest : List (Nat × Nat)} {pruned : LiveNode} {t1 t' : Topology}
    (h : t.Sound) (hn : t.nodes tee = some n) (htop : top ∈ n.outEdges) (hgrowth : n.growth ≠ .fixed)
    (hd : t.wiring.Dangles ((top, m) :: rest)) (hhanded : t.Handed t1)
    (ht' : t' = (t1.erased (((top, m) :: rest).map Prod.snd) (((top, m) :: rest).map Prod.fst)).setNode tee (some pruned))
    (hpruned : ∃ done, pruned = { n with
      done, outEdges := n.outEdges.filter (· ≠ top), totalOutEdges := n.totalOutEdges - 1 }) :
    t'.wiring = t.wiring.dropBranch tee top (((top, m) :: rest).map Prod.snd) (((top, m) :: rest).map Prod.fst) ∧
      t.Follows t' := by
  subst ht'
  obtain ⟨done, rfl⟩ := hpruned
  have htop' : top ∈ t.wiring.outs tee := by rwa [outs_of_node hn]
  have hbranch := hd.branch h.acyclic h.wellFormed htop'
  obtain ⟨done', hdone'⟩ := hhanded.exists_node hn
  have hn1 : (t1.erased (((top, m) :: rest).map Prod.snd) (((top, m) :: rest).map Prod.fst)).nodes tee =
      some { n with done := done' } := (if_neg hbranch.apart).trans hdone'
  constructor
  · rw [wiring_changeOuts { n with
        done, outEdges := n.outEdges.filter (· ≠ top), totalOutEdges := n.totalOutEdges - 1 } hn1 rfl, wiring_erased,
      hhanded.wiring, ← outs_of_node hn]
    exact Wiring.dropBranch_eq hbranch.apart
  · refine .changeNode (.erase hhanded.follows _ _) hn ⟨rfl, rfl, rfl, ?_, fun hfixed => ?_⟩
    · have hlen := length_filter_ne (outs_of_node hn ▸ h.wellFormed.nodup_outs tee) htop
      have hle := (h.fits tee n hn).outs
      dsimp only
      omega
    · exact absurd hfixed hgrowth

end Topology

namespace MutationService

open Fallible

variable {Err : Type} {s s' : MutationService} {i e : Nat} {n : LiveNode} {answers : Answers Err}
  {name : InstanceName}

/-- A transform on the way up from an edge. -/
inductive TransformAbove (s : MutationService) : Nat → Nat → Prop where
  | producer {e i : Nat} {n : LiveNode} (hi : s.producerOf e = some i) (hn : s.topology.nodes i = some n)
      (hr : n.removable = true) : TransformAbove s e i
  | further {e i a j : Nat} {n : LiveNode} (h : TransformAbove s e i) (hn : s.topology.nodes i = some n)
      (ha : a ∈ n.inEdges) (hj : TransformAbove s a j) : TransformAbove s e j

/-- Every transform on the way up from an edge is found by its own name. -/
def OwnNames (Err : Type) (s : MutationService) (e : Nat) : Prop :=
  ∀ i n, s.TransformAbove e i → s.topology.nodes i = some n → (s.find n.name : Except (Stop Err) Nat) = .ok i

theorem producerOf_eq_some (h : s.producerOf e = some i) : ∃ n, s.topology.nodes i = some n ∧ e ∈ n.outEdges := by
  obtain ⟨⟨j, n⟩, hfind, rfl⟩ := Option.map_eq_some_iff.1 h
  have hmem := List.find?_some hfind
  exact ⟨n, Slots.mem_iter.1 (List.mem_of_find?_eq_some hfind), List.contains_iff_mem.1 hmem⟩

/-- What a walk up has collected when it is at an edge. -/
structure Collected (s : MutationService) (chain : List Nat) (e : Nat) (steps : List (Nat × Nat)) : Prop where
  nodes : steps.map Prod.snd = chain
  top : steps.head?.map Prod.fst = some e
  dangles : s.topology.wiring.Dangles steps
  elements : ∀ i ∈ chain, ∃ n done, s.topology.nodes i = some n ∧ n.done = some (.element done)

variable {steps : List (Nat × Nat)} {chain : List Nat}

theorem Collected.length_le (h : s.topology.Sound)
    (hc : s.Collected chain e steps) : chain.length ≤ s.nodes.entries.length := by
  have hnodup : chain.Nodup := hc.nodes ▸ hc.dangles.nodup h.acyclic h.wellFormed
  have hsub : chain ⊆ List.range s.nodes.entries.length := fun i hi => by
    obtain ⟨n, done, hn, -⟩ := hc.elements i hi
    exact List.mem_range.2 (Slots.lt_length_of_get? hn)
  exact (List.Nodup.length_le_of_subset hnodup hsub).trans (Nat.le_of_eq length_range)

theorem Collected.cons {above done : Nat} (h : s.topology.Sound)
    (hc : s.Collected chain e steps) (hn : s.topology.nodes i = some n) (hout : e ∈ n.outEdges)
    (hr : n.removable = true) (hdone : n.done = some (.element done)) (hins : n.inEdges = [above]) :
    s.Collected (i :: chain) above ((above, i) :: steps) where
  nodes := congrArg (i :: ·) hc.nodes
  top := rfl
  dangles := by
    -- A transform has one output, so nothing else hangs at it.
    have hone : n.outEdges = [e] := by
      have hfits := h.fits i n hn
      have hle := hfits.outs
      rw [(hfits.transform hr).1] at hle
      obtain ⟨x, hx⟩ := List.length_eq_one_iff.1 (Nat.le_antisymm hle (length_pos_of_mem hout))
      rw [hx, mem_singleton] at hout
      rw [hx, hout]
    refine ⟨(Topology.ins_of_node hn).trans hins, ?_, hc.dangles⟩
    rw [hc.top, Topology.outs_of_node hn, hone]
    rfl
  elements := by
    intro j hj
    rcases List.mem_cons.1 hj with rfl | hj
    · exact ⟨n, done, hn, hdone⟩
    · exact hc.elements j hj

/-- The walk ends at a tee, with the chain that hangs at it. -/
theorem walkUp_spec (name : InstanceName) {fuel : Nat} (h : s.topology.Sound)
    (hown : OwnNames Err s e) (hc : s.Collected chain e steps)
    (hfuel : s.nodes.entries.length + 2 ≤ fuel + chain.length) : Loop.Meets
      (fun r => ∃ before, s.Collected r.1 r.2.2 (before ++ steps) ∧
        ∃ n mode, s.topology.nodes r.2.1 = some n ∧ r.2.2 ∈ n.outEdges ∧ n.growth = .branches mode)
      (fun stop => stop ≠ .panic ∧ stop ≠ .waits)
      (s.walkUp name fuel chain e : Except (Stop Err) (List Nat × Nat × Nat)) := by
  induction fuel generalizing chain e steps with
  | zero =>
    have hle := hc.length_le h
    omega
  | succ fuel ih =>
    unfold walkUp
    rcases hproducer : s.producerOf e with _ | producer
    · exact ⟨nofun, nofun⟩
    · obtain ⟨n, hn, hout⟩ := producerOf_eq_some hproducer
      show Loop.Meets _ _ (s.node producer >>= _)
      rw [node_eq hn]
      dsimp only [bind, Except.bind]
      split
      · next mode hgrowth => exact ⟨[], hc, n, _, hn, hout, hgrowth⟩
      · next done hr hdone _ =>
        have hfound := hown producer n (.producer hproducer hn hr) hn
        have hedge : Loop.Meets (fun above => n.inEdges = [above]) (fun stop => stop ≠ .panic ∧ stop ≠ .waits)
            (s.edgeAt n.name .above : Except (Stop Err) Nat) := by
          rw [edgeAt_of_find hfound hn]
          split_ifs
          · exact ⟨nofun, nofun⟩
          · split
            · next heq => exact heq
            · exact ⟨nofun, nofun⟩
        refine hedge.bind fun above _ hins => ?_
        have hown' : OwnNames Err s above := fun j m hj hm =>
          hown j m (.further (.producer hproducer hn hr) hn (hins ▸ mem_singleton_self above) hj) hm
        refine (ih hown' (hc.cons h hn hout hr hdone hins) ?_).mono fun r hr => ?_
        · rw [length_cons]
          omega
        · obtain ⟨before, hr, htee⟩ := hr
          refine ⟨before ++ [(above, producer)], ?_, htee⟩
          rwa [append_assoc]
      · exact ⟨nofun, nofun⟩

/-! ## Taking the branch out -/

theorem meets_collect (hnodup : chain.Nodup)
    (h : ∀ i ∈ chain, ∃ n done, s.topology.nodes i = some n ∧ n.done = some (.element done)) :
    Meets (collect answers chain) s (fun _ s' => s.topology.Handed s'.topology) NoPanic := by
  induction chain generalizing s with
  | nil => exact .pure (.refl _)
  | cons i rest ih =>
    obtain ⟨n, done, hn, hdone⟩ := h i mem_cons_self
    obtain ⟨hi, hnodup⟩ := List.nodup_cons.1 hnodup
    refine .bind (meets_takeElementHandback hn) fun handback s1 h1 => ?_
    rcases h1 with ⟨-, -, hnone⟩ | ⟨done', rfl, -, h1⟩
    · exact absurd hdone (hnone _)
    refine .ite (fun _ => meets_stopping) fun _ => ?_
    have hrest : ∀ j ∈ rest, ∃ m done, s1.topology.nodes j = some m ∧ m.done = some (.element done) := by
      intro j hj
      obtain ⟨m, done, hm, hdone⟩ := h j (mem_cons_of_mem _ hj)
      have hji : j ≠ i := fun heq => hi (heq ▸ hj)
      exact ⟨m, done, by rwa [h1, Topology.nodes_setNode_of_ne hji], hdone⟩
    refine .bind (ih hnodup hrest) fun elements s2 h2 => .pure ?_
    rw [h1] at h2
    exact ((Topology.Handed.refl _).step hn).trans h2

theorem meets_removeOne {edge : LiveEdge} (he : s.topology.edges e = some edge) :
    Meets ([e].forM fun e => do
      let _ ← removeEdge e : Op Err Unit) s (fun _ s' => s'.topology = s.topology.setEdge e none) NoPanic := by
  have hone : Meets (do
      let _ ← removeEdge e : Op Err Unit) s (fun _ s' => s'.topology = s.topology.setEdge e none) NoPanic :=
    .bind (meets_removeEdge he) fun _ _ h => .pure h.2
  exact .bind hone fun _ _ h => .pure h

theorem meets_prune (hnodes : (steps.map Prod.snd).Nodup) (hedges : (steps.map Prod.fst).Nodup)
    (h : ∀ step ∈ steps, (∃ n, s.topology.nodes step.2 = some n ∧ n.inEdges = [step.1]) ∧
      ∃ edge, s.topology.edges step.1 = some edge) : Meets (prune (steps.map Prod.snd) : Op Err Unit) s
      (fun _ s' => s'.topology = s.topology.erased (steps.map Prod.snd) (steps.map Prod.fst)) NoPanic := by
  induction steps generalizing s with
  | nil => exact .pure Topology.erased_nil.symm
  | cons step rest ih =>
    obtain ⟨⟨n, hn, hins⟩, edge, hedge⟩ := h step mem_cons_self
    rw [map_cons, nodup_cons] at hnodes hedges
    refine .seq (.query_ok (node_eq hn) ?_)
    refine .bind (meets_modifyNode hn) fun _ s1 h1 => ?_
    have he1 : s1.topology.edges step.1 = some edge := by rwa [h1]
    rw [hins]
    refine .bind (meets_removeOne he1) fun _ s2 h2 => ?_
    have hn2 : s2.topology.nodes step.2 = some { n with inEdges := [] } := by
      rw [h2, Topology.nodes_setEdge, h1, Topology.nodes_setNode_self]
    refine .bind (meets_retireNode hn2) fun _ s3 h3 => ?_
    have ht : s3.topology = (s.topology.setEdge step.1 none).setNode step.2 none := by
      rw [h3, h2, h1]
      exact Topology.setNode_setNode (t := s.topology.setEdge step.1 none) _ _
    refine (ih hnodes.2 hedges.2 fun next hnext => ?_).mono (fun _ s4 h4 => ?_) fun _ _ h => h
    · obtain ⟨⟨m, hm, hmins⟩, edge', hedge'⟩ := h next (mem_cons_of_mem _ hnext)
      have hnode : next.2 ≠ step.2 := fun heq => hnodes.1 (heq ▸ List.mem_map.2 ⟨next, hnext, rfl⟩)
      have hedge : next.1 ≠ step.1 := fun heq => hedges.1 (heq ▸ List.mem_map.2 ⟨next, hnext, rfl⟩)
      rw [ht, Topology.nodes_setNode_of_ne hnode, Topology.edges_setNode, Topology.edges_setEdge_of_ne hedge]
      exact ⟨⟨m, hm, hmins⟩, edge', hedge'⟩
    · rw [h4, ht]
      exact Topology.erased_cons

theorem nodup_edges_of_dangles (h : s.topology.Sound)
    (hd : s.topology.wiring.Dangles steps) : (steps.map Prod.fst).Nodup := by
  refine .map_on (fun x hx y hy heq => Prod.ext heq ?_) (hd.nodup h.acyclic h.wellFormed).of_map
  have htarget : ∀ step ∈ steps, s.topology.wiring.target step.1 = some step.2 := fun step hstep => by
    rw [← h.wellFormed.mem_ins, hd.ins hstep]
    exact mem_singleton_self _
  have hy' := htarget y hy
  rw [← heq, htarget x hx] at hy'
  exact Option.some.inj hy'

theorem meets_removeBranch (h : s.topology.Sound)
    (hown : ∀ e, (s.edgeAt name .above : Except (Stop Err) Nat) = .ok e → OwnNames Err s e) :
    Meets (removeBranch name answers) s
      (fun _ s' => ∃ i e tee top n mode before, (s.find name : Except (Stop Err) Nat) = .ok i ∧
        s.topology.nodes tee = some n ∧ n.growth = .branches mode ∧ top ∈ s.topology.wiring.outs tee ∧
        (before ++ [(e, i)]).head?.map Prod.fst = some top ∧ s.topology.wiring.Dangles (before ++ [(e, i)]) ∧
        s'.topology.wiring = s.topology.wiring.dropBranch tee top ((before ++ [(e, i)]).map Prod.snd)
          ((before ++ [(e, i)]).map Prod.fst) ∧ s.topology.Follows s'.topology) NoPanic := by
  refine meets_named fun i n hi hn => ?_
  refine .ite (fun _ => meets_refusing) fun htotal => ?_
  have houts := h.outs_eq_nil hn (not_not.1 htotal)
  rcases hdone : n.done with _ | ⟨done⟩ | ⟨_⟩
  · exact meets_refusing
  swap
  · exact meets_refusing
  refine .seq (meets_ask quiet_edgeAt fun e he => ?_)
  obtain ⟨hins, -⟩ := edgeAt_eq_ok hi hn he
  have hstart : s.Collected [i] e [(e, i)] := by
    refine ⟨rfl, rfl, ⟨(Topology.ins_of_node hn).trans hins, (Topology.outs_of_node hn).trans houts, trivial⟩, ?_⟩
    intro j hj
    obtain rfl := List.mem_singleton.1 hj
    exact ⟨n, done, hn, hdone⟩
  have hwalk := walkUp_spec name h (hown e he) hstart (Nat.le_refl (s.nodes.entries.length + 1 + 1))
  refine .seq (meets_ask (fun hpanic => ?_) fun r hr => ?_)
  · exact (hwalk.of_error hpanic).1 rfl
  obtain ⟨before, hcollected, m, mode, hm, htop, hgrowth⟩ := hwalk.of_ok hr
  obtain ⟨chain, tee, top⟩ := r
  dsimp only at hcollected hm htop
  have hdangles := hcollected.dangles
  obtain ⟨edge, hedge, -⟩ := h.exists_edge_of_outs hm htop
  refine .seq (.query_ok (edge_eq hedge) ?_)
  refine .bind meets_atEndpoint fun _ s1 h1 => ?_
  refine .bind (meets_detach.mono (fun _ _ h => h) fun _ _ h => h.2) fun _ s2 h2 => ?_
  refine .ite (fun _ => meets_failing) fun _ => ?_
  refine .bind meets_atEndpoint fun _ s3 h3 => ?_
  have ht3 : s3.topology = s.topology := by rw [((h1.trans h2).trans h3).topology]
  -- The elements come back, then the tables follow.
  have hnodes : chain.Nodup := hcollected.nodes ▸ hdangles.nodup h.acyclic h.wellFormed
  refine .bind (meets_collect hnodes (ht3 ▸ hcollected.elements)) fun elements s4 h4 => ?_
  rw [ht3] at h4
  have htables : ∀ step ∈ before ++ [(e, i)], (∃ n, s4.topology.nodes step.2 = some n ∧ n.inEdges = [step.1]) ∧
      ∃ edge, s4.topology.edges step.1 = some edge := by
    intro step hstep
    have hin := hdangles.ins hstep
    obtain ⟨k, -, hk, -⟩ := hcollected.elements step.2 (hcollected.nodes ▸ List.mem_map.2 ⟨step, hstep, rfl⟩)
    rw [Topology.ins_of_node hk] at hin
    obtain ⟨done, hk'⟩ := h4.exists_node hk
    obtain ⟨edge, hedge, -⟩ := h.exists_edge_of_ins hk (hin ▸ mem_singleton_self _)
    exact ⟨⟨_, hk', hin⟩, edge, by rwa [h4.edges]⟩
  rw [← hcollected.nodes] at hnodes ⊢
  refine .bind (meets_prune hnodes (nodup_edges_of_dangles h hdangles) htables) fun _ s5 h5 => ?_
  obtain ⟨⟨top', k⟩, rest, hsteps⟩ : ∃ step rest, before ++ [(e, i)] = step :: rest :=
    exists_cons_of_ne_nil (append_ne_nil_of_right_ne_nil _ (cons_ne_nil _ _))
  have hhead := hcollected.top
  rw [hsteps] at hhead
  obtain rfl : top' = top := Option.some.inj hhead
  have htop' : top' ∈ s.topology.wiring.outs tee := by rwa [Topology.outs_of_node hm]
  have hapart : tee ∉ (before ++ [(e, i)]).map Prod.snd := by
    have hbranch := (hsteps ▸ hdangles).branch h.acyclic h.wellFormed htop'
    rw [hsteps]
    exact hbranch.apart
  obtain ⟨done', htee4⟩ := h4.exists_node hm
  have htee5 : s5.topology.nodes tee = some { m with done := done' } := by
    rw [h5]
    exact (if_neg hapart).trans htee4
  refine .bind (meets_modifyNode htee5) fun _ s6 h6 => ?_
  have htee6 := h6 ▸ Topology.nodes_setNode_self _
  refine .bind (meets_modifyNode htee6) fun _ s7 h7 => .pure ?_
  rw [h6, Topology.setNode_setNode, h5] at h7
  refine ⟨i, e, tee, top', m, mode, before, hi, hm, hgrowth, htop', hcollected.top, hdangles, ?_⟩
  rw [hsteps] at hdangles h7 ⊢
  refine Topology.removedBranch_eq h hm htop ?_ hdangles h4 h7 ⟨done', rfl⟩
  rw [hgrowth]
  exact nofun

end MutationService

end Glass2Glass.Runtime
