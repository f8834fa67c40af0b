import Mathlib.Data.List.Flatten
import Mathlib.Data.Set.Finite.Basic
import Mathlib.Order.WellFounded

/-!
# Kahn's topological sort

Take nodes without incoming edges off a graph one after the other, in the order in which they become
free. `succs u` lists the ends of the edges out of `u`, an end once for each edge, so parallel edges
count. The loop runs on fuel; `loop_spec` says that as much fuel as there are nodes empties the queue.
What is left over then is not just unordered: `mem_topo_iff` says that a node is not taken exactly
when a cycle leads to it.
-/

namespace Kahn

open Relation List Function

/-- The working state of the sort. -/
structure State (α : Type) where
  /-- Edges into a node from nodes not yet taken. -/
  indeg : α → Nat
  /-- Free nodes not yet taken. -/
  queue : List α
  /-- The nodes taken so far, in order. -/
  topo : List α
  /-- Whether a node has been taken. -/
  processed : α → Bool

variable {α : Type} [DecidableEq α]

/-- An edge into `succ` is gone; a node without further edges is queued. -/
def release (s : State α) (succ : α) : State α :=
  let indeg := Function.update s.indeg succ (s.indeg succ - 1)
  { s with indeg := indeg, queue := if indeg succ = 0 then s.queue ++ [succ] else s.queue }

/-- Take `node` off the queue `node :: rest` and drop its edges. -/
def visit (succs : α → List α) (s : State α) (node : α) (rest : List α) : State α :=
  (succs node).foldl release
    { s with
      queue := rest
      topo := s.topo ++ [node]
      processed := Function.update s.processed node true }

/-- Take nodes until the queue is empty. -/
def loop (succs : α → List α) : Nat → State α → State α
  | 0, s => s
  | fuel + 1, s =>
    match s.queue with
    | [] => s
    | node :: rest => loop succs fuel (visit succs s node rest)

/-- The state before the first node is taken. -/
def start (nodes : List α) (indeg : α → Nat) : State α :=
  { indeg, queue := nodes.filter fun v => indeg v == 0, topo := [], processed := fun _ => false }

/-- What holds while the edges to `pending` of the node taken last are still to be dropped. -/
structure Inv (succs : α → List α) (nodes : List α) (s : State α) (pending : List α) : Prop where
  /-- No node is taken or queued twice. -/
  nodup : (s.topo ++ s.queue).Nodup
  /-- Only nodes of the graph are taken or queued. -/
  mem : ∀ v ∈ s.topo ++ s.queue, v ∈ nodes
  /-- The count of a node and the dropped edges into it add up to all edges into it. -/
  count : ∀ v ∈ nodes, s.indeg v + (s.topo.flatMap succs).count v =
    (nodes.flatMap succs).count v + pending.count v
  /-- The nodes taken or queued are those with count zero. -/
  ready : ∀ v ∈ nodes, v ∈ s.topo ++ s.queue ↔ s.indeg v = 0
  /-- The nodes marked are those taken. -/
  processed : ∀ v, s.processed v = true ↔ v ∈ s.topo
  /-- A node is taken after all nodes with an edge to it. -/
  order : ∀ pre v post, s.topo = pre ++ v :: post → ∀ u ∈ nodes, v ∈ succs u → u ∈ pre

section Counting

variable {l nodes : List α}

theorem count_flatMap_le (succs : α → List α) (v : α) (hnd : l.Nodup) (hsub : ∀ w ∈ l, w ∈ nodes) :
    (l.flatMap succs).count v ≤ (nodes.flatMap succs).count v := by
  obtain ⟨m, hperm, hm⟩ := subperm_of_subset hnd hsub
  rw [← (hperm.flatMap_right succs).count_eq v]
  exact (hm.flatMap succs).count_le v

theorem mem_of_count_flatMap {succs : α → List α} {u v : α} (hnd : l.Nodup) (hsub : ∀ w ∈ l, w ∈ nodes)
    (hcount : (nodes.flatMap succs).count v ≤ (l.flatMap succs).count v) (hu : u ∈ nodes)
    (huv : v ∈ succs u) : u ∈ l := by
  by_contra hul
  have hle := count_flatMap_le succs v (List.nodup_cons.2 ⟨hul, hnd⟩)
    (List.forall_mem_cons.2 ⟨hu, hsub⟩)
  rw [flatMap_cons, count_append] at hle
  have hpos : 0 < (succs u).count v := List.count_pos_iff.2 huv
  omega

end Counting

variable {succs : α → List α} {nodes : List α} {s : State α}

theorem inv_start {indeg : α → Nat} (hnodes : nodes.Nodup)
    (hindeg : ∀ v ∈ nodes, indeg v = (nodes.flatMap succs).count v) : Inv succs nodes (start nodes indeg) [] := by
  unfold start
  refine ⟨hnodes.filter _, ?_, ?_, ?_, by simp, by simp⟩
  · intro v hv
    exact (List.mem_filter.1 hv).1
  · intro v hv
    simp [hindeg v hv]
  · intro v hv
    simp [hv]

/-- Dropping an edge keeps the invariant. -/
theorem inv_release {v : α} {pending : List α} (h : Inv succs nodes s (v :: pending))
    (hv : v ∈ nodes) : Inv succs nodes (release s v) pending := by
  have hle := count_flatMap_le succs v (List.nodup_append.1 h.nodup).1
    fun w hw => h.mem w (mem_append_left _ hw)
  have hcount := h.count v hv
  rw [count_cons_self] at hcount
  -- The edge dropped is still counted, so `v` is neither taken nor queued.
  have hnew : v ∉ s.topo ++ s.queue := by
    rw [h.ready v hv]
    omega
  have hcounts : ∀ w ∈ nodes, (release s v).indeg w + ((release s v).topo.flatMap succs).count w =
      (nodes.flatMap succs).count w + pending.count w := by
    intro w hw
    have hw' := h.count w hw
    unfold release
    dsimp only
    by_cases hwv : w = v
    · rw [hwv, update_self]
      omega
    · rw [update_of_ne hwv]
      rw [count_cons_of_ne (Ne.symm hwv)] at hw'
      exact hw'
  have hready : ∀ w ∈ nodes, w ≠ v → (w ∈ s.topo ++ s.queue ↔ (release s v).indeg w = 0) := by
    intro w hw hwv
    unfold release
    dsimp only
    rw [h.ready w hw, update_of_ne hwv]
  unfold release at hcounts hready ⊢
  dsimp only at hcounts hready ⊢
  rw [update_self]
  split_ifs with hzero
  · refine ⟨?_, ?_, hcounts, ?_, h.processed, h.order⟩
    · rw [← append_assoc]
      exact h.nodup.append (nodup_singleton v) (by simpa using hnew)
    · intro w hw
      rw [← append_assoc, mem_append, mem_singleton] at hw
      rcases hw with hw | rfl
      · exact h.mem w hw
      · exact hv
    · intro w hw
      rw [← append_assoc, mem_append, mem_singleton]
      by_cases hwv : w = v
      · simp [hwv, hzero]
      · rw [hready w hw hwv]
        simp [hwv]
  · refine ⟨h.nodup, h.mem, hcounts, fun w hw => ?_, h.processed, h.order⟩
    by_cases hwv : w = v
    · simp only [hwv, hnew, update_self, hzero]
    · exact hready w hw hwv

theorem inv_foldl_release {pending : List α} (h : Inv succs nodes s pending)
    (hmem : ∀ v ∈ pending, v ∈ nodes) : Inv succs nodes (pending.foldl release s) [] := by
  induction pending generalizing s with
  | nil => exact h
  | cons v pending ih =>
    exact ih (inv_release h (hmem v mem_cons_self))
      fun w hw => hmem w (mem_cons_of_mem v hw)

theorem topo_foldl_release (pending : List α) : (pending.foldl release s).topo = s.topo := by
  induction pending generalizing s with
  | nil => rfl
  | cons v pending ih => rw [foldl_cons, ih, release]

theorem mem_topo_of_mem_queue {u v : α} (h : Inv succs nodes s []) (hv : v ∈ s.queue)
    (hu : u ∈ nodes) (huv : v ∈ succs u) : u ∈ s.topo := by
  have hvn : v ∈ nodes := h.mem v (mem_append_right _ hv)
  have hzero : s.indeg v = 0 := (h.ready v hvn).1 (mem_append_right _ hv)
  have hcount := h.count v hvn
  exact mem_of_count_flatMap (List.nodup_append.1 h.nodup).1
    (fun w hw => h.mem w (mem_append_left _ hw)) (by omega) hu huv

/-- Taking a node keeps the invariant. -/
theorem inv_visit {node : α} {rest : List α} (h : Inv succs nodes s [])
    (hq : s.queue = node :: rest) (hsuccs : ∀ u ∈ nodes, ∀ v ∈ succs u, v ∈ nodes) :
    Inv succs nodes (visit succs s node rest) [] := by
  have hnode : node ∈ nodes := h.mem node (by simp [hq])
  have happend : s.topo ++ [node] ++ rest = s.topo ++ s.queue := by simp [hq]
  refine inv_foldl_release ⟨?_, ?_, ?_, ?_, ?_, ?_⟩ (hsuccs node hnode)
  · rw [happend]
    exact h.nodup
  · rw [happend]
    exact h.mem
  · intro v hv
    have hcount := h.count v hv
    dsimp only
    rw [flatMap_append, count_append, flatMap_singleton]
    rw [count_nil] at hcount
    omega
  · rw [happend]
    exact h.ready
  · intro v
    dsimp only
    by_cases hv : v = node
    · simp [hv]
    · rw [update_of_ne hv, h.processed v]
      simp [hv]
  · -- Only the node just taken is new in the order.
    intro pre v post hsplit u hu huv
    rcases eq_nil_or_concat post with rfl | ⟨post, w, rfl⟩
    · obtain ⟨rfl, hv⟩ := append_inj' hsplit rfl
      obtain rfl : node = v := by simpa using hv
      exact mem_topo_of_mem_queue h (by simp [hq]) hu huv
    · rw [concat_eq_append, ← cons_append, ← append_assoc] at hsplit
      exact h.order pre v post (append_inj' hsplit rfl).1 u hu huv

theorem loop_spec {fuel : Nat} (h : Inv succs nodes s []) (hsuccs : ∀ u ∈ nodes, ∀ v ∈ succs u, v ∈ nodes)
    (hfuel : nodes.length ≤ fuel + s.topo.length) :
    Inv succs nodes (loop succs fuel s) [] ∧ (loop succs fuel s).queue = [] := by
  induction fuel generalizing s with
  | zero =>
    have hlen := (subperm_of_subset h.nodup h.mem).length_le
    rw [length_append] at hlen
    have hq : s.queue.length = 0 := by omega
    exact ⟨h, List.length_eq_zero_iff.1 hq⟩
  | succ fuel ih =>
    unfold loop
    split
    · next hq => exact ⟨h, hq⟩
    · next node rest hq =>
      refine ih (inv_visit h hq hsuccs) ?_
      have htopo : (visit succs s node rest).topo = s.topo ++ [node] := topo_foldl_release _
      rw [htopo, length_append, length_singleton]
      omega

/-! ## What is left over -/

def IsEdge (succs : α → List α) (nodes : List α) (u v : α) : Prop := u ∈ nodes ∧ v ∈ succs u

def OnCycleOut (succs : α → List α) (nodes : List α) (v : α) : Prop :=
  ∃ m, TransGen (IsEdge succs nodes) m m ∧ ReflTransGen (IsEdge succs nodes) m v

theorem idxOf_lt_idxOf {pre post : List α} {u v : α} (hnd : (pre ++ v :: post).Nodup)
    (hu : u ∈ pre) : (pre ++ v :: post).idxOf u < (pre ++ v :: post).idxOf v := by
  have hv : v ∉ pre := fun hv => (List.nodup_append.1 hnd).2.2 v hv v mem_cons_self rfl
  rw [idxOf_append_of_mem hu, idxOf_append_of_notMem hv, idxOf_cons_self]
  have := idxOf_lt_length_of_mem hu
  omega

section

variable (h : Inv succs nodes s [])

include h

theorem idxOf_topo_lt_idxOf {u v : α} (hv : v ∈ s.topo)
    (huv : IsEdge succs nodes u v) : u ∈ s.topo ∧ s.topo.idxOf u < s.topo.idxOf v := by
  obtain ⟨pre, post, hsplit⟩ := append_of_mem hv
  have hu := h.order pre v post hsplit u huv.1 huv.2
  have hnd := (List.nodup_append.1 h.nodup).1
  rw [hsplit] at hnd ⊢
  exact ⟨mem_append_left _ hu, idxOf_lt_idxOf hnd hu⟩

theorem idxOf_topo_lt_of_transGen {u v : α} (hv : v ∈ s.topo)
    (huv : TransGen (IsEdge succs nodes) u v) : u ∈ s.topo ∧ s.topo.idxOf u < s.topo.idxOf v := by
  induction huv using TransGen.head_induction_on with
  | single huv => exact idxOf_topo_lt_idxOf h hv huv
  | head huw _ ih =>
    obtain ⟨hw, hlt⟩ := ih
    obtain ⟨hu, hlt'⟩ := idxOf_topo_lt_idxOf h hw huw
    exact ⟨hu, hlt'.trans hlt⟩

/-- When the queue is empty, a node left over has an edge from a node left over. -/
theorem exists_pred {v : α} (hnodes : nodes.Nodup) (hq : s.queue = [])
    (hv : v ∈ nodes) (hleft : v ∉ s.topo) : ∃ u, IsEdge succs nodes u v ∧ u ∉ s.topo := by
  have hpos : s.indeg v ≠ 0 := by
    rw [Ne, ← h.ready v hv, hq, append_nil]
    exact hleft
  have hcount := h.count v hv
  rw [count_nil] at hcount
  -- The nodes taken lack some edge to `v`; the nodes left over have it.
  generalize hrest : nodes.filter (fun u => u ∉ s.topo) = rest
  have hle : (nodes.flatMap succs).count v ≤ ((s.topo ++ rest).flatMap succs).count v := by
    refine count_flatMap_le succs v hnodes fun u hu => ?_
    rw [mem_append, ← hrest, List.mem_filter, decide_eq_true_eq]
    exact (em (u ∈ s.topo)).imp_right fun hut => ⟨hu, hut⟩
  rw [flatMap_append, count_append] at hle
  have hmem : v ∈ rest.flatMap succs := List.count_pos_iff.1 (by omega)
  obtain ⟨u, hu, huv⟩ := List.mem_flatMap.1 hmem
  rw [← hrest, List.mem_filter, decide_eq_true_eq] at hu
  exact ⟨u, ⟨hu.1, huv⟩, hu.2⟩

/-- A node left over lies behind a cycle: walking back along edges among the nodes left over never
ends, and there are finitely many of them. -/
theorem onCycleOut_of_notMem {v : α} (hnodes : nodes.Nodup)
    (hq : s.queue = []) (hv : v ∈ nodes) (hleft : v ∉ s.topo) : OnCycleOut succs nodes v := by
  by_contra hno
  -- The nodes left over from which an edge path leads to `v`.
  let behind : Set α := {u | u ∈ nodes ∧ u ∉ s.topo ∧ ReflTransGen (IsEdge succs nodes) u v}
  have hfin : Finite behind := (nodes.finite_toSet.subset fun u hu => hu.1)
  let path : behind → behind → Prop := fun u w => TransGen (IsEdge succs nodes) u.1 w.1
  have : IsTrans behind path := ⟨fun _ _ _ => .trans⟩
  have : Std.Irrefl path := ⟨fun u huu => hno ⟨u.1, huu, u.2.2.2⟩⟩
  have hwf : WellFounded path := Finite.wellFounded_of_trans_of_irrefl path
  obtain ⟨w, -, hmin⟩ := hwf.has_min Set.univ ⟨⟨v, hv, hleft, .refl⟩, trivial⟩
  obtain ⟨u, huw, hu⟩ := exists_pred h hnodes hq w.2.1 w.2.2.1
  exact hmin ⟨u, huw.1, hu, .head huw w.2.2.2⟩ trivial (.single huw)

theorem mem_topo_iff {v : α} (hnodes : nodes.Nodup) (hq : s.queue = [])
    (hv : v ∈ nodes) : v ∈ s.topo ↔ ¬ OnCycleOut succs nodes v := by
  constructor
  · rintro hvt ⟨m, hmm, hmv⟩
    have hm : m ∈ s.topo := by
      rcases hmv.cases_head with rfl | ⟨w, hmw, hwv⟩
      · exact hvt
      · exact (idxOf_topo_lt_of_transGen h hvt (.head' hmw hwv)).1
    have := (idxOf_topo_lt_of_transGen h hm hmm).2
    omega
  · intro hno
    by_contra hleft
    exact hno (onCycleOut_of_notMem h hnodes hq hv hleft)

end

end Kahn
