import Glass2Glass.Lib.Route
import Glass2Glass.Runtime.Mutate

/-!
# The live topology as a wiring

What the tables of a `MutationService` hold, as partial functions (`Topology`), and the wiring they stand for.
A sound topology is a well-formed wiring without cycles whose nodes have no more edges than they count
(`Sound`); the one that a run starts with is sound (`sound_liveTopology`).

The rules for the accesses to the tables say what each does to the topology. None of them panics when the
slot is occupied that it reads, and free that it fills.
-/

namespace Glass2Glass.Runtime

open Fallible List Function

/-- What the tables hold. -/
@[ext]
structure Topology where
  nodes : Nat → Option LiveNode
  edges : Nat → Option LiveEdge

/-- A node has the edges it lists, and may have others that are not mutable. -/
structure LiveNode.Fits (n : LiveNode) : Prop where
  ins : n.inEdges.length ≤ n.totalInEdges
  outs : n.outEdges.length ≤ n.totalOutEdges
  /-- A node that can be removed has one output. -/
  transform : n.removable = true → n.totalOutEdges = 1 ∧ n.growth = .fixed

/-- What an operation leaves of a node that stays. -/
structure LiveNode.Kept (n n' : LiveNode) : Prop where
  name : n'.name = n.name
  removable : n'.removable = n.removable
  /-- The totals move with the lists. -/
  ins : n'.totalInEdges + n.inEdges.length = n.totalInEdges + n'.inEdges.length
  outs : n'.totalOutEdges + n.outEdges.length = n.totalOutEdges + n'.outEdges.length
  /-- A node that takes no new edges keeps its number of outputs. -/
  fixed : n.growth = .fixed → n'.growth = .fixed ∧ n'.totalOutEdges = n.totalOutEdges

/-- What an operation adds: a node whose edges are all mutable. -/
structure LiveNode.Fresh (n : LiveNode) : Prop where
  ins : n.totalInEdges = n.inEdges.length
  outs : n.totalOutEdges = n.outEdges.length
  transform : n.removable = true → n.totalOutEdges = 1
  fixed : n.growth = .fixed

namespace LiveNode

variable {n n' : LiveNode}

theorem Kept.refl : n.Kept n := ⟨rfl, rfl, rfl, rfl, fun h => ⟨h, rfl⟩⟩

theorem Fits.kept (h : n.Fits) (hk : n.Kept n') : n'.Fits where
  ins := by
    have hins := hk.ins
    have hle := h.ins
    omega
  outs := by
    have houts := hk.outs
    have hle := h.outs
    omega
  transform hr := by
    obtain ⟨hone, hfixed⟩ := h.transform (hk.removable ▸ hr)
    obtain ⟨hgrowth, htotal⟩ := hk.fixed hfixed
    exact ⟨htotal.trans hone, hgrowth⟩

theorem Fresh.kept (h : n.Fresh) (hk : n.Kept n') : n'.Fresh where
  ins := by
    have hins := hk.ins
    rw [h.ins] at hins
    omega
  outs := by
    have houts := hk.outs
    rw [h.outs] at houts
    omega
  transform hr := by
    rw [(hk.fixed h.fixed).2]
    exact h.transform (hk.removable ▸ hr)
  fixed := (hk.fixed h.fixed).1

theorem Fresh.fits (h : n.Fresh) : n.Fits where
  ins := Nat.le_of_eq h.ins.symm
  outs := Nat.le_of_eq h.outs.symm
  transform hr := ⟨h.transform hr, h.fixed⟩

end LiveNode

namespace Topology

variable {t t' : Topology} {i e : Nat} {n : LiveNode} {edge : LiveEdge}

/-- The wiring that the tables stand for. -/
def wiring (t : Topology) : Wiring Nat Nat where
  live i := (t.nodes i).isSome = true
  ins i := (t.nodes i).elim [] LiveNode.inEdges
  outs i := (t.nodes i).elim [] LiveNode.outEdges
  target e := (t.edges e).map LiveEdge.consumer

/-- A topology that the operations may be applied to. -/
structure Sound (t : Topology) : Prop where
  wellFormed : t.wiring.WellFormed
  acyclic : t.wiring.Acyclic
  fits : ∀ i n, t.nodes i = some n → n.Fits

def setNode (t : Topology) (i : Nat) (n : Option LiveNode) : Topology :=
  { t with nodes := Function.update t.nodes i n }

def setEdge (t : Topology) (e : Nat) (edge : Option LiveEdge) : Topology :=
  { t with edges := Function.update t.edges e edge }

@[simp]
theorem edges_setNode (n : Option LiveNode) : (t.setNode i n).edges = t.edges := rfl

@[simp]
theorem nodes_setEdge (edge : Option LiveEdge) : (t.setEdge e edge).nodes = t.nodes := rfl

@[simp]
theorem nodes_setNode_self (n : Option LiveNode) : (t.setNode i n).nodes i = n := update_self _ _ _

@[simp]
theorem edges_setEdge_self (edge : Option LiveEdge) : (t.setEdge e edge).edges e = edge :=
  update_self _ _ _

theorem nodes_setNode_of_ne {j : Nat} (h : j ≠ i) (n : Option LiveNode) : (t.setNode i n).nodes j = t.nodes j :=
  update_of_ne h _ _

theorem edges_setEdge_of_ne {x : Nat} (h : x ≠ e) (edge : Option LiveEdge) :
    (t.setEdge e edge).edges x = t.edges x := update_of_ne h _ _

theorem setNode_setNode (first second : Option LiveNode) :
    (t.setNode i first).setNode i second = t.setNode i second := by
  simp only [setNode, update_idem]

theorem nodes_setNode {j : Nat} {o : Option LiveNode} :
    (t.setNode i o).nodes j = some n ↔ (j = i ∧ o = some n) ∨ (j ≠ i ∧ t.nodes j = some n) :=
  Wiring.update_eq_some

/-- The nodes that stay are kept, and those that are added are new. -/
structure Follows (t t' : Topology) : Prop where
  kept : ∀ i n n', t.nodes i = some n → t'.nodes i = some n' → n.Kept n'
  fresh : ∀ i n', t.nodes i = none → t'.nodes i = some n' → n'.Fresh

theorem Follows.refl (t : Topology) : t.Follows t where
  kept i n n' h h' := by
    obtain rfl := Option.some.inj (h.symm.trans h')
    exact LiveNode.Kept.refl
  fresh i n' h h' := by
    rw [h] at h'
    cases h'

theorem Follows.extend {t'' : Topology} (h : t.Follows t') (h' : t'.Follows t'')
    (hsame : ∀ i n, t.nodes i = some n → t'.nodes i = some n) : t.Follows t'' where
  kept i n n' hn hn' := h'.kept i n n' (hsame i n hn) hn'
  fresh i n' hn hn' := by
    rcases hmid : t'.nodes i with _ | m
    · exact h'.fresh i n' hmid hn'
    · exact (h.fresh i m hn hmid).kept (h'.kept i m n' hmid hn')

theorem Follows.setEdge (h : t.Follows t') (e : Nat) (edge : Option LiveEdge) : t.Follows (t'.setEdge e edge) :=
  ⟨h.kept, h.fresh⟩

theorem Follows.addNode (h : t.Follows t') (hi : t.nodes i = none) (hn : n.Fresh) :
    t.Follows (t'.setNode i (some n)) where
  kept j m m' hm hm' := by
    rcases nodes_setNode.1 hm' with ⟨rfl, -⟩ | ⟨-, hm'⟩
    · rw [hi] at hm
      cases hm
    · exact h.kept j m m' hm hm'
  fresh j m' hm hm' := by
    rcases nodes_setNode.1 hm' with ⟨-, heq⟩ | ⟨-, hm'⟩
    · exact Option.some.inj heq ▸ hn
    · exact h.fresh j m' hm hm'

theorem Follows.changeNode {old : LiveNode} (h : t.Follows t') (hi : t.nodes i = some old) (hn : old.Kept n) :
    t.Follows (t'.setNode i (some n)) where
  kept j m m' hm hm' := by
    rcases nodes_setNode.1 hm' with ⟨rfl, heq⟩ | ⟨-, hm'⟩
    · rw [hi] at hm
      exact Option.some.inj hm ▸ Option.some.inj heq ▸ hn
    · exact h.kept j m m' hm hm'
  fresh j m' hm hm' := by
    rcases nodes_setNode.1 hm' with ⟨rfl, -⟩ | ⟨-, hm'⟩
    · rw [hi] at hm
      cases hm
    · exact h.fresh j m' hm hm'

theorem Follows.dropNode (h : t.Follows t') (i : Nat) : t.Follows (t'.setNode i none) where
  kept j m m' hm hm' := by
    rcases nodes_setNode.1 hm' with ⟨-, heq⟩ | ⟨-, hm'⟩
    · cases heq
    · exact h.kept j m m' hm hm'
  fresh j m' hm hm' := by
    rcases nodes_setNode.1 hm' with ⟨-, heq⟩ | ⟨-, hm'⟩
    · cases heq
    · exact h.fresh j m' hm hm'

theorem Sound.follow (h : t.Sound) (hf : t.Follows t') (hwf : t'.wiring.WellFormed) (hacyclic : t'.wiring.Acyclic) :
    t'.Sound where
  wellFormed := hwf
  acyclic := hacyclic
  fits i n' hn' := by
    rcases hn : t.nodes i with _ | n
    · exact (hf.fresh i n' hn hn').fits
    · exact (h.fits i n hn).kept (hf.kept i n n' hn hn')

/-! ## What the wiring of a topology is -/

theorem wiring_setNode_some : (t.setNode i (some n)).wiring = t.wiring.put i n.inEdges n.outEdges := by
  unfold wiring setNode Wiring.put
  congr 1 <;> funext j <;> dsimp only <;> simp only [update_apply]
  all_goals split_ifs with hj <;> simp [hj]

theorem wiring_setNode_none : (t.setNode i none).wiring = t.wiring.erase i := by
  unfold wiring setNode Wiring.erase
  congr 1 <;> funext j <;> dsimp only <;> simp only [update_apply]
  all_goals split_ifs with hj <;> simp [hj]

theorem wiring_setEdge {edge : Option LiveEdge} : (t.setEdge e edge).wiring =
    t.wiring.setTarget e (edge.map LiveEdge.consumer) := by
  unfold wiring setEdge Wiring.setTarget
  congr 1
  funext x
  simp only [update_apply]
  split_ifs <;> rfl

theorem ins_of_node (h : t.nodes i = some n) : t.wiring.ins i = n.inEdges := by
  simp only [wiring, h, Option.elim_some]

theorem outs_of_node (h : t.nodes i = some n) : t.wiring.outs i = n.outEdges := by
  simp only [wiring, h, Option.elim_some]

theorem target_of_edge (h : t.edges e = some edge) : t.wiring.target e = some edge.consumer := by
  simp only [wiring, h, Option.map_some]

theorem live_of_node (h : t.nodes i = some n) : t.wiring.live i := by
  simp only [wiring, h, Option.isSome_some]

theorem wiring_changeIns (n' : LiveNode) (h : t.nodes i = some n) (hout : n'.outEdges = n.outEdges) :
    (t.setNode i (some n')).wiring = t.wiring.setIns i n'.inEdges := by
  rw [wiring_setNode_some, hout, ← outs_of_node h]
  exact Wiring.put_ins (live_of_node h)

theorem wiring_changeOuts (n' : LiveNode) (h : t.nodes i = some n) (hin : n'.inEdges = n.inEdges) :
    (t.setNode i (some n')).wiring = t.wiring.setOuts i n'.outEdges := by
  rw [wiring_setNode_some, hin, ← ins_of_node h]
  exact Wiring.put_outs (live_of_node h)

theorem wiring_same (n' : LiveNode) (h : t.nodes i = some n) (hin : n'.inEdges = n.inEdges)
    (hout : n'.outEdges = n.outEdges) : (t.setNode i (some n')).wiring = t.wiring := by
  rw [wiring_changeIns n' h hout, Wiring.setIns, hin, ← ins_of_node h, update_eq_self]

theorem exists_node (h : t.wiring.live i) : ∃ n, t.nodes i = some n := Option.isSome_iff_exists.1 h

theorem exists_edge {c : Nat} (h : t.wiring.target e = some c) :
    ∃ edge, t.edges e = some edge ∧ edge.consumer = c := Option.map_eq_some_iff.1 h

namespace Sound

theorem exists_edge_of_outs (h : t.Sound) (hn : t.nodes i = some n) (he : e ∈ n.outEdges) :
    ∃ edge, t.edges e = some edge ∧ ∃ nc, t.nodes edge.consumer = some nc := by
  obtain ⟨c, hc⟩ := h.wellFormed.edge e i (by rwa [outs_of_node hn])
  obtain ⟨edge, hedge, rfl⟩ := exists_edge hc
  exact ⟨edge, hedge, exists_node (h.wellFormed.live_of_mem_ins ((h.wellFormed.mem_ins _ _).2 hc))⟩

theorem exists_edge_of_ins (h : t.Sound) (hn : t.nodes i = some n) (he : e ∈ n.inEdges) :
    ∃ edge, t.edges e = some edge ∧ edge.consumer = i := by
  refine exists_edge ((h.wellFormed.mem_ins e i).1 ?_)
  rwa [ins_of_node hn]

end Sound

end Topology

namespace MutationService

variable {Err : Type} {s s' : MutationService} {i e : Nat} {n : LiveNode} {edge : LiveEdge}
  {E : Stop Err → MutationService → Prop}

def topology (s : MutationService) : Topology := ⟨s.nodes.get?, s.edges.get?⟩

structure SameTables (s s' : MutationService) : Prop where
  nodes : s'.nodes = s.nodes
  edges : s'.edges = s.edges

theorem SameTables.refl (s : MutationService) : s.SameTables s := ⟨rfl, rfl⟩

theorem SameTables.trans {s'' : MutationService} (h : s.SameTables s') (h' : s'.SameTables s'') : s.SameTables s'' :=
  ⟨h'.nodes.trans h.nodes, h'.edges.trans h.edges⟩

theorem SameTables.topology (h : s.SameTables s') : s'.topology = s.topology := by
  unfold MutationService.topology
  rw [h.nodes, h.edges]

def NoPanic (e : Stop Err) (_ : MutationService) : Prop := e ≠ .panic

/-! ## Accesses to the tables -/

theorem node_eq (h : s.topology.nodes i = some n) : (s.node i : Except (Stop Err) LiveNode) = .ok n := by
  unfold node
  rw [show s.nodes.get? i = some n from h]

theorem edge_eq (h : s.topology.edges e = some edge) : (s.edge e : Except (Stop Err) LiveEdge) = .ok edge := by
  unfold MutationService.edge
  rw [show s.edges.get? e = some edge from h]

theorem meets_setNodes {nodes : MutationService → Option (Slots LiveNode)} {table : Slots LiveNode}
    (h : nodes s = some table) :
    Meets (setNodes nodes : Op Err Unit) s (fun _ s' => s' = { s with nodes := table }) E := by
  unfold Meets setNodes
  rw [h]

theorem meets_setEdges {α : Type} {a : α} {edges : MutationService → Option (α × Slots LiveEdge)}
    {table : Slots LiveEdge} (h : edges s = some (a, table)) :
    Meets (setEdges edges : Op Err α) s (fun a' s' => a' = a ∧ s' = { s with edges := table }) E := by
  unfold Meets setEdges
  rw [h]
  exact ⟨rfl, rfl⟩

theorem meets_modifyNode {f : LiveNode → LiveNode} (hn : s.topology.nodes i = some n) :
    Meets (modifyNode i f : Op Err Unit) s (fun _ s' => s'.topology = s.topology.setNode i (some (f n))) E := by
  obtain ⟨table, htable⟩ : ∃ table, s.nodes.modify i f = some table :=
    Option.isSome_iff_exists.1 (by simp [Slots.modify, show s.nodes.get? i = some n from hn])
  obtain ⟨m, hm, hget⟩ := Slots.modify_eq_some htable
  obtain rfl := Option.some.inj (hm.symm.trans hn)
  refine (meets_setNodes htable).mono ?_ fun _ _ h => h
  rintro _ _ rfl
  exact Topology.ext hget rfl

theorem meets_fillNode {count : Nat} {rest : List Nat} (h : s.nodes.vacant (count + 1) = i :: rest) :
    Meets (fillNode i n : Op Err Unit) s
      (fun _ s' => s'.topology = s.topology.setNode i (some n) ∧ s'.nodes.vacant count = rest ∧
        s'.edges = s.edges) E := by
  obtain ⟨table, htable, hrest⟩ := Slots.fill_vacant h n
  refine (meets_setNodes htable).mono ?_ fun _ _ h => h
  rintro _ _ rfl
  exact ⟨Topology.ext (Slots.fill_eq_some htable).2 rfl, hrest, rfl⟩

theorem meets_insertNode : Meets (insertNode n : Op Err Unit) s
    (fun _ s' => ∃ i, s.topology.nodes i = none ∧ s'.topology = s.topology.setNode i (some n)) E := by
  obtain ⟨i, table, htable, hfree, hget⟩ := Slots.insert_eq_some s.nodes n
  have hsnd : (s.nodes.insert n).map Prod.snd = some table := by
    rw [htable]
    rfl
  refine (meets_setNodes hsnd).mono ?_ fun _ _ h => h
  rintro _ _ rfl
  exact ⟨i, hfree, Topology.ext hget rfl⟩

theorem meets_retireNode (hn : s.topology.nodes i = some n) :
    Meets (retireNode i : Op Err Unit) s (fun _ s' => s'.topology = s.topology.setNode i none) E := by
  unfold Meets retireNode
  have hremove : s.nodes.remove i = some (n, ⟨s.nodes.entries.set i none⟩) := by
    unfold Slots.remove
    rw [show s.nodes.get? i = some n from hn]
    rfl
  rw [hremove]
  exact Topology.ext (Slots.remove_eq_some hremove).2 rfl

theorem meets_modifyEdge {f : LiveEdge → LiveEdge} (he : s.topology.edges e = some edge) :
    Meets (modifyEdge e f : Op Err Unit) s (fun _ s' => s'.topology = s.topology.setEdge e (some (f edge))) E := by
  obtain ⟨table, htable⟩ : ∃ table, s.edges.modify e f = some table :=
    Option.isSome_iff_exists.1 (by simp [Slots.modify, show s.edges.get? e = some edge from he])
  obtain ⟨m, hm, hget⟩ := Slots.modify_eq_some htable
  obtain rfl := Option.some.inj (hm.symm.trans he)
  have hpair : (s.edges.modify e f).map ((), ·) = some ((), table) := by
    rw [htable]
    rfl
  refine (meets_setEdges hpair).mono ?_ fun _ _ h => h
  rintro _ _ ⟨-, rfl⟩
  exact Topology.ext rfl hget

theorem meets_fillEdge {count : Nat} {rest : List Nat} (h : s.edges.vacant (count + 1) = e :: rest) :
    Meets (fillEdge e edge : Op Err Unit) s
      (fun _ s' => s'.topology = s.topology.setEdge e (some edge) ∧ s'.edges.vacant count = rest ∧
        s'.nodes = s.nodes) E := by
  obtain ⟨table, htable, hrest⟩ := Slots.fill_vacant h edge
  have hpair : (s.edges.fill e edge).map ((), ·) = some ((), table) := by
    rw [htable]
    rfl
  refine (meets_setEdges hpair).mono ?_ fun _ _ h => h
  rintro _ _ ⟨-, rfl⟩
  exact ⟨Topology.ext rfl (Slots.fill_eq_some htable).2, hrest, rfl⟩

theorem meets_insertEdge : Meets (insertEdge edge : Op Err Nat) s
    (fun e s' => s.topology.edges e = none ∧ s'.topology = s.topology.setEdge e (some edge) ∧
      s'.nodes = s.nodes) E := by
  obtain ⟨e, table, htable, hfree, hget⟩ := Slots.insert_eq_some s.edges edge
  refine (meets_setEdges htable).mono ?_ fun _ _ h => h
  rintro _ _ ⟨rfl, rfl⟩
  exact ⟨hfree, Topology.ext rfl hget, rfl⟩

theorem meets_removeEdge (he : s.topology.edges e = some edge) : Meets (removeEdge e : Op Err LiveEdge) s
    (fun removed s' => removed = edge ∧ s'.topology = s.topology.setEdge e none) E := by
  have hremove : s.edges.remove e = some (edge, ⟨s.edges.entries.set e none⟩) := by
    unfold Slots.remove
    rw [show s.edges.get? e = some edge from he]
    rfl
  refine (meets_setEdges hremove).mono ?_ fun _ _ h => h
  rintro _ _ ⟨rfl, rfl⟩
  exact ⟨rfl, Topology.ext rfl (Slots.remove_eq_some hremove).2⟩

/-! ## Names -/

theorem searchName_eq_some {category : InstanceName} {taken : List InstanceName} {fuel k floor floor' : Nat}
    {name : InstanceName} (h : s.searchName category taken fuel k floor = some (name, floor')) :
    (∀ i n, s.topology.nodes i = some n → n.name ≠ name) ∧ name ∉ taken ∧
      ∃ number, name = category ++ Nat.toDigits 10 number := by
  induction fuel generalizing k floor with
  | zero => cases h
  | succ fuel ih =>
    unfold searchName at h
    dsimp only at h
    split at h
    · next hfree =>
      obtain ⟨rfl, -⟩ := Prod.mk.inj (Option.some.inj h)
      rw [Bool.and_eq_true, Bool.not_eq_true', Bool.not_eq_true', any_eq_false] at hfree
      refine ⟨fun i n hn heq => ?_, ?_, k, rfl⟩
      · exact hfree.1 (i, n) (Slots.mem_iter.2 hn) (beq_iff_eq.2 heq)
      · intro hmem
        rw [List.contains_iff_mem.2 hmem] at hfree
        exact absurd hfree.2 (by simp)
    · exact ih h

/-- Among more numbers than there are names, one is free. -/
theorem searchName_ne_none {category : InstanceName} {taken : List InstanceName} {fuel : Nat} (k floor : Nat)
    (hfuel : s.nodes.entries.length + taken.length < fuel) : s.searchName category taken fuel k floor ≠ none := by
  have hblocked : ∀ fuel k floor, s.searchName category taken fuel k floor = none → ∀ m < fuel,
      category ++ Nat.toDigits 10 (k + m) ∈ s.nodes.iter.map (fun entry => entry.2.name) ++ taken := by
    intro fuel
    induction fuel with
    | zero => exact fun _ _ _ m hm => absurd hm (Nat.not_lt_zero m)
    | succ fuel ih =>
      intro k floor hnone m hm
      unfold searchName at hnone
      dsimp only at hnone
      split at hnone
      · cases hnone
      · next htaken =>
        rcases m with _ | m
        · rw [Nat.add_zero, mem_append]
          by_contra hout
          obtain ⟨hgraph, hother⟩ := not_or.1 hout
          refine htaken ?_
          rw [Bool.and_eq_true, Bool.not_eq_true', Bool.not_eq_true', any_eq_false]
          refine ⟨fun entry hentry heq => hgraph ?_, ?_⟩
          · exact List.mem_map.2 ⟨entry, hentry, beq_iff_eq.1 heq⟩
          · simpa using hother
        · have hstep := ih (k + 1) _ hnone m (by omega)
          rwa [show k + 1 + m = k + (m + 1) by omega] at hstep
  intro hnone
  have hsub : (List.range fuel).map (fun m => category ++ Nat.toDigits 10 (k + m)) ⊆
      s.nodes.iter.map (fun entry => entry.2.name) ++ taken := by
    intro name hname
    obtain ⟨m, hm, rfl⟩ := List.mem_map.1 hname
    exact hblocked fuel k floor hnone m (List.mem_range.1 hm)
  have hnodup : ((List.range fuel).map fun m => category ++ Nat.toDigits 10 (k + m)).Nodup := by
    refine List.nodup_range.map fun m m' heq => ?_
    have hdigits := congrArg (Text.parseDigits 10 · 0) (append_cancel_left heq)
    simp only [Text.parseDigits_toDigits (by decide : 1 < 10) (by decide)] at hdigits
    have := Option.some.inj hdigits
    omega
  have hiter : s.nodes.iter.length ≤ s.nodes.entries.length := by
    exact Nat.le_trans (length_filterMap_le _ _) (Nat.le_of_eq length_range)
  have hlen := List.Nodup.length_le_of_subset hnodup hsub
  rw [length_append, length_map, length_map, length_range] at hlen
  omega

/-- A new name, made of the category and a number. -/
structure NewName (s : MutationService) (category : InstanceName) (name : InstanceName) : Prop where
  new : ∀ i n, s.topology.nodes i = some n → n.name ≠ name
  numbered : ∃ number, name = category ++ Nat.toDigits 10 number

theorem meets_uniqueNameAmong (category : InstanceName) (taken : List InstanceName) :
    Meets (uniqueNameAmong category taken : Op Err InstanceName) s
      (fun name s' => s.SameTables s' ∧ s.NewName category name ∧ name ∉ taken) E := by
  unfold Meets uniqueNameAmong
  dsimp only
  rcases hsearch : s.searchName category taken (s.nodes.entries.length + taken.length + 1)
    ((s.nameFloors category).getD 0) ((s.nameFloors category).getD 0) with _ | ⟨name, floor⟩
  · exact absurd hsearch (searchName_ne_none _ _ (Nat.lt_succ_self _))
  · obtain ⟨hnew, htaken, hnumbered⟩ := searchName_eq_some hsearch
    exact ⟨⟨rfl, rfl⟩, ⟨hnew, hnumbered⟩, htaken⟩

end MutationService

end Glass2Glass.Runtime
