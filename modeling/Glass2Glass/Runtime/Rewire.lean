import Glass2Glass.Runtime.Topology

/-!
# What the operations do to the wiring

Each operation that returns has made one change to the wiring of the live topology: an insertion splices an
edge, a removal bypasses a node, a replacement renames one, a branch is attached as a leaf with a chain or
dropped, an input is attached as a root. None of them panics on a sound topology.
-/

namespace Glass2Glass.Runtime

open List
open Loop (bind_eq_ok)

namespace Topology

variable {t : Topology} {i e : Nat} {n : LiveNode} {edge : LiveEdge}

theorem length_retarget {edges : List Nat} {old new : Nat} : (retarget edges old new).length = edges.length :=
  length_map _

theorem kept_retarget (n : LiveNode) (old new : Nat) : n.Kept { n with inEdges := retarget n.inEdges old new } where
  name := rfl
  removable := rfl
  ins := by rw [length_retarget]
  outs := rfl
  fixed hfixed := ⟨hfixed, rfl⟩

theorem kept_done (n : LiveNode) (done : Option Handback) : n.Kept { n with done } :=
  ⟨rfl, rfl, rfl, rfl, fun hfixed => ⟨hfixed, rfl⟩⟩

theorem Sound.bypassable (h : t.Sound) {a b : Nat} (hn : t.nodes i = some n) (ha : n.inEdges = [a])
    (hb : n.outEdges = [b]) (hedge : t.edges b = some edge) : t.wiring.Bypassable a edge.consumer i b where
  live := live_of_node hn
  ins := (ins_of_node hn).trans ha
  outs := (outs_of_node hn).trans hb
  target := target_of_edge hedge
  ne heq := by
    obtain ⟨rank, hrank⟩ := h.acyclic
    have hout : b ∈ t.wiring.outs i := by
      rw [outs_of_node hn, hb]
      exact mem_singleton_self b
    exact Nat.lt_irrefl _ (hrank i b i ⟨hout, heq ▸ target_of_edge hedge⟩)

variable {first second : LiveEdge}

theorem removed_eq {a b c : Nat} {nc : LiveNode} (hn : t.nodes i = some n)
    (hnc : t.nodes c = some nc) (hne : c ≠ i) (hab : a ≠ b) {t' : Topology}
    (ht' : t' = (((((t.setNode i (some { n with done := none })).setEdge a (some first)).setEdge b none).setEdge a
      (some second)).setNode c (some { nc with inEdges := retarget nc.inEdges b a })).setNode i none)
    (hsecond : second.consumer = c) : t'.wiring = t.wiring.bypass a c i b ∧ t.Follows t' := by
  subst ht'
  have hnc' : ((((t.setNode i (some { n with done := none })).setEdge a (some first)).setEdge b none).setEdge a
      (some second)).nodes c = some nc := by
    simpa [nodes_setNode_of_ne hne] using hnc
  constructor
  · rw [wiring_setNode_none, wiring_changeIns { nc with inEdges := retarget nc.inEdges b a } hnc' rfl, wiring_setEdge,
      wiring_setEdge, wiring_setEdge, wiring_same { n with done := none } hn rfl rfl, Option.map_some, Option.map_some,
      Option.map_none, hsecond, ← ins_of_node hnc]
    exact Wiring.bypass_eq hne hab _
  · refine .dropNode (.changeNode ?_ hnc (kept_retarget nc b a)) i
    exact (((Follows.refl t).changeNode hn (kept_done n none)).setEdge _ _ |>.setEdge _ _).setEdge _ _

variable {new : LiveNode}

theorem replacedSink_eq {m : Nat} (h : t.Sound)
    (hn : t.nodes i = some n) (hm : t.nodes m = none) (hins : n.inEdges = [e]) (houts : n.outEdges = [])
    {t' : Topology} (ht' : t' = ((((t.setNode i (some { n with done := none })).setNode m (some new)).setEdge e
      (some first)).setEdge e (some second)).setNode i none)
    (hsecond : second.consumer = m) (hnew : new.Fresh) (hnewins : new.inEdges = [e]) (hnewouts : new.outEdges = []) :
    t'.wiring = t.wiring.rename i m ∧ t.Follows t' := by
  subst ht'
  have hmi : m ≠ i := by
    rintro rfl
    rw [hm] at hn
    cases hn
  constructor
  · rw [wiring_setNode_none, wiring_setEdge, wiring_setEdge, wiring_setNode_some,
      wiring_same { n with done := none } hn rfl rfl, Option.map_some, Option.map_some, hsecond, hnewins, hnewouts,
      Wiring.setTarget_setTarget]
    exact Wiring.rename_sink_eq h.wellFormed hmi ((ins_of_node hn).trans hins) ((outs_of_node hn).trans houts)
  · refine .dropNode (.setEdge (.setEdge ?_ _ _) _ _) i
    exact ((Follows.refl t).changeNode hn (kept_done n none)).addNode hm hnew

theorem replacedSource_eq {m : Nat} (h : t.Sound) (hn : t.nodes i = some n)
    (hm : t.nodes m = none) (hins : n.inEdges = []) (houts : n.outEdges = [e]) {t' : Topology}
    (ht' : t' = ((t.setNode i (some { n with done := none })).setNode m (some new)).setNode i none)
    (hnew : new.Fresh) (hnewins : new.inEdges = []) (hnewouts : new.outEdges = [e]) :
    t'.wiring = t.wiring.rename i m ∧ t.Follows t' := by
  subst ht'
  have hmi : m ≠ i := by
    rintro rfl
    rw [hm] at hn
    cases hn
  constructor
  · rw [wiring_setNode_none, wiring_setNode_some, wiring_same { n with done := none } hn rfl rfl, hnewins, hnewouts]
    exact Wiring.rename_source_eq h.wellFormed hmi ((ins_of_node hn).trans hins) ((outs_of_node hn).trans houts)
  · refine .dropNode ?_ i
    exact ((Follows.refl t).changeNode hn (kept_done n none)).addNode hm hnew

theorem addedInput_eq {j : Nat} {grown : LiveNode} (h : t.Sound) (hn : t.nodes i = some n)
    (hj : t.nodes j = none) {t' : Topology}
    (ht' : t' = ((t.setEdge e (some edge)).setNode j (some new)).setNode i (some grown))
    (hedge : edge.consumer = i) (hnew : new.Fresh) (hnewins : new.inEdges = []) (hnewouts : new.outEdges = [e])
    (hkept : n.Kept grown) (hins : grown.inEdges = n.inEdges ++ [e]) (houts : grown.outEdges = n.outEdges) :
    t'.wiring = (t.wiring.add j).connect j e i ∧ t.Follows t' := by
  subst ht'
  have hji : i ≠ j := by
    rintro rfl
    rw [hj] at hn
    cases hn
  have hn' : ((t.setEdge e (some edge)).setNode j (some new)).nodes i = some n := by
    rwa [nodes_setNode_of_ne hji]
  have hdead : ¬ t.wiring.live j := by simp [wiring, hj]
  constructor
  · rw [wiring_changeIns grown hn' houts, wiring_setNode_some, wiring_setEdge, Option.map_some, hedge, hnewins, hnewouts,
      hins, ← ins_of_node hn]
    exact Wiring.connect_root_eq h.wellFormed hdead
  · exact (((Follows.refl t).setEdge _ _).addNode hj hnew).changeNode hn hkept

/-! ## Chains -/

/-- A chain of new nodes, each with an edge that leads on from it, was put behind an edge. -/
structure Grown (t t' : Topology) (c above : Nat) (news : List (Nat × Nat)) (names : List InstanceName) : Prop where
  wiring : t'.wiring = t.wiring.growAll c above news
  follows : t.Follows t'
  nodes : ∀ i n, t.nodes i = some n → t'.nodes i = some n
  edges : ∀ e edge, t.edges e = some edge → t'.edges e = some edge
  free_nodes : ∀ new ∈ news, t.nodes new.1 = none
  free_edges : ∀ new ∈ news, t.edges new.2 = none
  nodup_nodes : (news.map Prod.fst).Nodup
  nodup_edges : (news.map Prod.snd).Nodup
  names : List.Forall₂ (fun new name => ∃ n, t'.nodes new.1 = some n ∧ n.name = name) news names

variable {t' : Topology} {c above : Nat} {news : List (Nat × Nat)} {names : List InstanceName}

theorem Grown.nil : t.Grown t c above [] [] where
  wiring := rfl
  follows := .refl t
  nodes _ _ h := h
  edges _ _ h := h
  free_nodes := nofun
  free_edges := nofun
  nodup_nodes := nodup_nil
  nodup_edges := nodup_nil
  names := .nil

/-- A chain of one more. -/
theorem Grown.cons (hi : t.nodes i = none) (he : t.edges e = none)
    (hedge : edge.consumer = (news.head?.map Prod.fst).getD c) (hn : n.Fresh) (hins : n.inEdges = [above])
    (houts : n.outEdges = [e]) (h : ((t.setEdge e (some edge)).setNode i (some n)).Grown t' c e news names) :
    t.Grown t' c above ((i, e) :: news) (n.name :: names) := by
  have hfirst : t.Follows ((t.setEdge e (some edge)).setNode i (some n)) :=
    ((Follows.refl t).setEdge _ _).addNode hi hn
  have hnode : ∀ j m, t.nodes j = some m → ((t.setEdge e (some edge)).setNode i (some n)).nodes j = some m := by
    intro j m hm
    have hji : j ≠ i := by
      rintro rfl
      rw [hi] at hm
      cases hm
    rwa [nodes_setNode_of_ne hji]
  have hedges : ∀ x m, t.edges x = some m → ((t.setEdge e (some edge)).setNode i (some n)).edges x = some m := by
    intro x m hm
    have hxe : x ≠ e := by
      rintro rfl
      rw [he] at hm
      cases hm
    rwa [edges_setNode, edges_setEdge_of_ne hxe]
  have hout : ∀ new ∈ news, new.1 ≠ i ∧ new.2 ≠ e := by
    intro new hnew
    constructor
    · intro heq
      have hfree := h.free_nodes new hnew
      rw [heq, nodes_setNode_self] at hfree
      cases hfree
    · intro heq
      have hfree := h.free_edges new hnew
      rw [heq, edges_setNode, edges_setEdge_self] at hfree
      cases hfree
  constructor
  case wiring =>
    rw [h.wiring, wiring_setNode_some, wiring_setEdge, Option.map_some, hedge, hins, houts]
    rfl
  case follows => exact hfirst.extend h.follows hnode
  case nodes => exact fun j m hm => h.nodes j m (hnode j m hm)
  case edges => exact fun x m hm => h.edges x m (hedges x m hm)
  case free_nodes =>
    intro new hnew
    rcases List.mem_cons.1 hnew with rfl | hnew
    · exact hi
    · rw [← h.free_nodes new hnew, nodes_setNode_of_ne (hout new hnew).1, nodes_setEdge]
  case free_edges =>
    intro new hnew
    rcases List.mem_cons.1 hnew with rfl | hnew
    · exact he
    · rw [← h.free_edges new hnew, edges_setNode, edges_setEdge_of_ne (hout new hnew).2]
  case nodup_nodes =>
    refine List.nodup_cons.2 ⟨fun hmem => ?_, h.nodup_nodes⟩
    obtain ⟨new, hnew, heq⟩ := List.mem_map.1 hmem
    exact (hout new hnew).1 heq
  case nodup_edges =>
    refine List.nodup_cons.2 ⟨fun hmem => ?_, h.nodup_edges⟩
    obtain ⟨new, hnew, heq⟩ := List.mem_map.1 hmem
    exact (hout new hnew).2 heq
  case names => exact .cons ⟨n, h.nodes i n (nodes_setNode_self _), rfl⟩ h.names

/-- The changes when a chain is spliced in. -/
theorem inserted_eq {nc : LiveNode} (h : t.Sound) (he : t.edges e = some edge)
    (hnc : t.nodes edge.consumer = some nc) (hne : news ≠ []) {t1 t' : Topology}
    (hgrown : t.Grown t1 edge.consumer e news names)
    (ht' : t' = ((t1.setEdge e (some first)).setEdge e (some second)).setNode edge.consumer
      (some { nc with inEdges := retarget nc.inEdges e (Wiring.lastEdge e news) }))
    (hsecond : some second.consumer = news.head?.map Prod.fst) :
    t.wiring.SpliceableAll e edge.consumer news ∧ t'.wiring = t.wiring.spliceAll e edge.consumer news ∧
      t.Follows t' := by
  subst ht'
  have hc : t.wiring.live edge.consumer := live_of_node hnc
  have hdead : ∀ new ∈ news, ¬ t.wiring.live new.1 := fun new hnew => by
    simp [wiring, hgrown.free_nodes new hnew]
  have hfree : ∀ new ∈ news, t.wiring.target new.2 = none := fun new hnew => by
    simp [wiring, hgrown.free_edges new hnew]
  have htarget := target_of_edge he
  refine ⟨Wiring.spliceableAll_of_nodup htarget hdead hfree hgrown.nodup_nodes hgrown.nodup_edges, ?_, ?_⟩
  · obtain ⟨⟨m, b⟩, rest, rfl⟩ := exists_cons_of_ne_nil hne
    have hfirst : second.consumer = m := Option.some.inj hsecond
    have hnc1 : ((t1.setEdge e (some first)).setEdge e (some second)).nodes edge.consumer = some nc :=
      hgrown.nodes _ _ hnc
    rw [wiring_changeIns { nc with inEdges := retarget nc.inEdges e (Wiring.lastEdge e ((m, b) :: rest)) } hnc1 rfl,
      wiring_setEdge, wiring_setEdge, Wiring.setTarget_setTarget, Option.map_some, hfirst, hgrown.wiring,
      ← ins_of_node hnc]
    refine Wiring.spliceAll_eq (fun new hnew heq => ?_) (fun new hnew heq => ?_) (fun new hnew => ?_) hgrown.nodup_edges
    · rw [← heq, hfree new hnew] at htarget
      cases htarget
    · exact hdead new hnew (heq ▸ hc)
    · exact h.wellFormed.not_mem_ins (hfree new hnew)
  · refine .changeNode ?_ hnc (kept_retarget nc e _)
    exact (hgrown.follows.setEdge _ _).setEdge _ _

theorem Grown.exists_node (h : t.Grown t' c above news names) : ∀ new ∈ news, ∃ n, t'.nodes new.1 = some n := by
  intro new hnew
  obtain ⟨k, hk, rfl⟩ := List.mem_iff_getElem.1 hnew
  obtain ⟨n, hn, -⟩ := h.names.get hk (h.names.length_eq ▸ hk)
  exact ⟨n, hn⟩

/-- The changes when a branch is attached. -/
theorem addedBranch_eq {sink : Nat} {grown : LiveNode} (h : t.Sound) (hn : t.nodes i = some n) {t1 t' : Topology}
    (hgrown : (t.setEdge e (some first)).Grown t1 sink e news names) (hsink : t1.nodes sink = none)
    (hfirst : first.consumer = (news.head?.map Prod.fst).getD sink)
    (ht' : t' = (t1.setNode sink (some new)).setNode i (some grown)) (hnew : new.Fresh)
    (hnewins : new.inEdges = [Wiring.lastEdge e news]) (hnewouts : new.outEdges = [])
    (hkept : n.Kept grown) (hins : grown.inEdges = n.inEdges) (houts : grown.outEdges = n.outEdges ++ [e]) :
    ((t.wiring.add sink).connect i e sink).SpliceableAll e sink news ∧
      t'.wiring = ((t.wiring.add sink).connect i e sink).spliceAll e sink news ∧ t.Follows t' := by
  subst ht'
  have hfree : t.nodes sink = none := by
    rcases hold : t.nodes sink with _ | m
    · rfl
    · rw [hgrown.nodes sink m hold] at hsink
      cases hsink
  have hdead : ¬ t.wiring.live sink := by simp [wiring, hfree]
  have hisink : i ≠ sink := by
    rintro rfl
    rw [hfree] at hn
    cases hn
  have hnode : ∀ new ∈ news, new.1 ≠ sink ∧ new.1 ≠ i := fun new hnew => by
    obtain ⟨m, hm⟩ := hgrown.exists_node new hnew
    have hold : t.nodes new.1 = none := hgrown.free_nodes new hnew
    constructor <;> intro heq
    · rw [heq, hsink] at hm
      cases hm
    · rw [heq, hn] at hold
      cases hold
  have hedge : ∀ new ∈ news, new.2 ≠ e := fun new hnew heq => by
    have hold := hgrown.free_edges new hnew
    rw [heq, edges_setEdge_self] at hold
    cases hold
  have hn1 : (t1.setNode sink (some new)).nodes i = some n := by
    rw [nodes_setNode_of_ne hisink]
    exact hgrown.nodes i n hn
  refine ⟨Wiring.spliceableAll_of_nodup ?_ (fun new hnew => ?_) (fun new hnew => ?_) hgrown.nodup_nodes
    hgrown.nodup_edges, ?_, ?_⟩
  · exact Function.update_self _ _ _
  · refine not_or.2 ⟨(hnode new hnew).1, ?_⟩
    have hold : t.nodes new.1 = none := hgrown.free_nodes new hnew
    simp [wiring, hold]
  · have hold := hgrown.free_edges new hnew
    rw [edges_setEdge_of_ne (hedge new hnew)] at hold
    exact (Function.update_of_ne (hedge new hnew) _ _).trans (by simp [wiring, hold, Wiring.add])
  · rw [wiring_changeOuts grown hn1 hins, wiring_setNode_some, hgrown.wiring, wiring_setEdge, Option.map_some, hfirst,
      hnewins, hnewouts, houts, ← outs_of_node hn]
    exact Wiring.branch_eq h.wellFormed hdead hnode hedge hgrown.nodup_edges
  · have hfollows : t.Follows t1 := ⟨hgrown.follows.kept, hgrown.follows.fresh⟩
    exact (hfollows.addNode hfree hnew).changeNode hn hkept

theorem Sound.outs_eq_nil (h : t.Sound) (hn : t.nodes i = some n) (htotal : n.totalOutEdges = 0) : n.outEdges = [] := by
  have hle := (h.fits i n hn).outs
  rw [htotal] at hle
  exact eq_nil_of_length_eq_zero (Nat.le_zero.1 hle)

theorem Sound.ins_eq_nil (h : t.Sound) (hn : t.nodes i = some n) (htotal : n.totalInEdges = 0) : n.inEdges = [] := by
  have hle := (h.fits i n hn).ins
  rw [htotal] at hle
  exact eq_nil_of_length_eq_zero (Nat.le_zero.1 hle)

end Topology

namespace MutationService

open Fallible
open Topology (nodes_setNode_self nodes_setNode_of_ne nodes_setEdge edges_setEdge_self edges_setEdge_of_ne setNode_setNode)

variable {Err α : Type} {s s' : MutationService} {i e : Nat} {n : LiveNode} {edge : LiveEdge}

variable {error : MutationError Err} {P : α → MutationService → Prop}

variable {chain : List (Element Err × Caps)}

variable {converters : Option (Option (List (Element Err)))}
  {E : Stop Err → MutationService → Prop} {answers : Answers Err} {name : InstanceName}

/-! ## Questions -/

/-- A question that finds every slot occupied. -/
def Quiet (x : Except (Stop Err) α) : Prop := x ≠ .error .panic

variable {x : Except (Stop Err) α}

theorem quiet_bind {β : Type} {f : α → Except (Stop Err) β} (hx : Quiet x)
    (hf : ∀ a, x = .ok a → Quiet (f a)) : Quiet (x >>= f) := by
  rcases x with e | a
  · exact fun heq => hx (congrArg Except.error (Except.error.inj heq))
  · exact hf a rfl

theorem quiet_ok {a : α} : Quiet (.ok a : Except (Stop Err) α) := nofun

theorem quiet_refused : Quiet (.error (.refused error) : Except (Stop Err) α) := nofun

theorem quiet_orRefuse {o : Option α} : Quiet (orRefuse o error) := by
  rcases o with _ | a
  · exact quiet_refused
  · exact quiet_ok

/-- A request that asks for what the graph has not, or not in a state to be changed. -/
def Rejects : MutationError Err → Prop
  | .unknownNode _ | .notMutable _ => True
  | _ => False

/-- A question to the elements: it stops only with a refusal, which is not about the graph. -/
def Mild (x : Except (Stop Err) α) : Prop := ∀ stop, x = .error stop → ∃ err, stop = .refused err ∧ ¬ Rejects err

theorem Mild.quiet (h : Mild x) : Quiet x := by
  intro heq
  obtain ⟨err, herr, -⟩ := h .panic heq
  cases herr

theorem mild_ok {a : α} : Mild (.ok a : Except (Stop Err) α) := nofun

theorem mild_refused (h : ¬ Rejects error) : Mild (.error (.refused error) : Except (Stop Err) α) := by
  intro stop heq
  exact ⟨error, (Except.error.inj heq).symm, h⟩

theorem mild_bind {β : Type} {f : α → Except (Stop Err) β} (hx : Mild x)
    (hf : ∀ a, x = .ok a → Mild (f a)) : Mild (x >>= f) := by
  rcases x with e | a
  · exact fun stop heq => hx stop (congrArg Except.error (Except.error.inj heq))
  · exact hf a rfl

theorem mild_orRefuse {o : Option α} (h : ¬ Rejects error) : Mild (orRefuse o error) := by
  rcases o with _ | a
  · exact mild_refused h
  · exact mild_ok

theorem mild_answer {x : Except Err α} : Mild (answer x) := by
  rcases x with e | a
  · exact mild_refused id
  · exact mild_ok

theorem mild_admitted : Mild (match answers.admitted with
    | some admitted => answer admitted
    | none => .error (.refused .graphEnded) : Except (Stop Err) Caps) := by
  rcases answers.admitted with _ | admitted
  · exact mild_refused id
  · exact mild_answer

variable {sink : SinkElement Err}

theorem mild_prepareSink {caps : Caps} {configured : Except Err Unit} :
    Mild (prepareSink caps sink configured) := mild_bind mild_answer fun _ _ => mild_ok

theorem mild_agreed {feasible : Option CapsSet} {produced : CapsSet} {edgeCaps : Caps} :
    Mild (if produced.accepts edgeCaps then .ok edgeCaps else agreedCaps feasible produced :
      Except (Stop Err) Caps) := by
  split_ifs
  · exact mild_ok
  · exact mild_bind (mild_orRefuse id) fun _ _ => mild_orRefuse id

theorem meets_ask {g : MutationService → Except (Stop Err) α}
    (hq : Quiet (g s)) (h : ∀ a, g s = .ok a → P a s) : Meets (query g) s P NoPanic :=
  .query h fun _ he heq => hq (heq ▸ he)

theorem forall_right {β γ : Type} {R : β → γ → Prop} {q : γ → Prop} {l : List β} {l' : List γ}
    (h : List.Forall₂ R l l') (hq : ∀ b c, R b c → q c) : ∀ c ∈ l', q c := by
  induction h with
  | nil => exact nofun
  | cons hr _ ih => exact forall_mem_cons.2 ⟨hq _ _ hr, ih⟩

theorem find_eq_ok (h : (s.find name : Except (Stop Err) Nat) = .ok i) :
    ∃ n, s.topology.nodes i = some n ∧ n.name = name := by
  unfold find at h
  rcases hfind : s.nodes.iter.find? fun entry => entry.2.name == name with _ | ⟨j, n⟩
  · rw [hfind] at h
    cases h
  · rw [hfind] at h
    obtain rfl : j = i := Except.ok.inj h
    have hname := List.find?_some hfind
    exact ⟨n, Slots.mem_iter.1 (List.mem_of_find?_eq_some hfind), beq_iff_eq.1 hname⟩

def edgesOn (n : LiveNode) : Side → List Nat
  | .below => n.outEdges
  | .above => n.inEdges

/-- All the edges on a side of a node, mutable or not. -/
def totalOn (n : LiveNode) : Side → Nat
  | .below => n.totalOutEdges
  | .above => n.totalInEdges

variable {side : Side}

theorem edgeAt_of_find (hi : (s.find name : Except (Stop Err) Nat) = .ok i)
    (hn : s.topology.nodes i = some n) : (s.edgeAt name side : Except (Stop Err) Nat) =
      if totalOn n side ≠ 1 then .error (.refused (.notMutable name))
      else match edgesOn n side with
        | [e] => .ok e
        | _ => .error (.refused (.notMutable name)) := by
  unfold edgeAt
  rw [hi]
  show (s.node i >>= _) = _
  rw [node_eq hn]
  have hcheck : ∀ (edges : List Nat) (total : Nat),
      (if total ≠ 1 then (.error (.refused (.notMutable name)) : Except (Stop Err) Unit) >>= fun _ =>
          (match edges with
          | [e] => .ok e
          | _ => .error (.refused (.notMutable name)) : Except (Stop Err) Nat)
        else match edges with
          | [e] => .ok e
          | _ => .error (.refused (.notMutable name))) =
        if total ≠ 1 then .error (.refused (.notMutable name))
        else match edges with
          | [e] => .ok e
          | _ => .error (.refused (.notMutable name)) := by
    intro edges total
    split_ifs <;> rfl
  cases side
  · exact hcheck n.outEdges n.totalOutEdges
  · exact hcheck n.inEdges n.totalInEdges

theorem edgeAt_eq_ok (hi : (s.find name : Except (Stop Err) Nat) = .ok i)
    (hn : s.topology.nodes i = some n) (h : (s.edgeAt name side : Except (Stop Err) Nat) = .ok e) :
    edgesOn n side = [e] ∧ totalOn n side = 1 := by
  rw [edgeAt_of_find hi hn] at h
  split_ifs at h with htotal
  refine ⟨?_, not_not.1 htotal⟩
  split at h
  · next heq => rw [heq, Except.ok.inj h]
  · cases h

theorem exists_find_of_edgeAt (h : (s.edgeAt name side : Except (Stop Err) Nat) = .ok e) :
    ∃ i n, (s.find name : Except (Stop Err) Nat) = .ok i ∧ s.topology.nodes i = some n := by
  unfold edgeAt at h
  rcases hi : (s.find name : Except (Stop Err) Nat) with _ | i
  · rw [hi] at h
    cases h
  · obtain ⟨n, hn, -⟩ := find_eq_ok hi
    exact ⟨i, n, rfl, hn⟩

theorem quiet_find : Quiet (s.find name : Except (Stop Err) Nat) := quiet_orRefuse

theorem meets_named {f : Nat → LiveNode → Op Err α} (h : ∀ i n, (s.find name : Except (Stop Err) Nat) = .ok i →
    s.topology.nodes i = some n → Meets (f i n) s P NoPanic) :
    Meets (query (·.find name) >>= fun i => query (·.node i) >>= f i) s P NoPanic := by
  refine .seq (meets_ask quiet_find fun i hi => ?_)
  obtain ⟨n, hn, -⟩ := find_eq_ok hi
  exact .seq (.query_ok (node_eq hn) (h i n hi hn))

theorem quiet_edgeAt : Quiet (s.edgeAt name side : Except (Stop Err) Nat) := by
  rcases hi : (s.find name : Except (Stop Err) Nat) with e | i
  · unfold edgeAt
    rw [hi]
    exact fun heq => quiet_find (hi.trans heq)
  · obtain ⟨n, hn, -⟩ := find_eq_ok hi
    rw [edgeAt_of_find hi hn]
    split_ifs
    · exact quiet_refused
    · split
      · exact quiet_ok
      · exact quiet_refused

/-! ## Steps that leave the tables alone -/

variable {f : ProducerEndpoint → ProducerEndpoint}

theorem meets_atEndpoint :
    Meets (atEndpoint e f : Op Err Unit) s (fun _ s' => s.SameTables s') E := .update ⟨rfl, rfl⟩

theorem meets_number : Meets (number : Op Err Nat) s (fun _ s' => s.SameTables s') E := ⟨rfl, rfl⟩

theorem meets_newEndpoint {caps : Caps} {link : LinkSender} :
    Meets (newEndpoint caps link : Op Err Nat) s (fun _ s' => s.SameTables s') E := ⟨rfl, rfl⟩

theorem sameTables_produce (s : MutationService) (events : List (Nat × ProducerEvent)) :
    s.SameTables (s.produce events) := by
  induction events generalizing s with
  | nil => exact .refl s
  | cons event events ih =>
    have hfirst : s.SameTables (s.onEndpoint event.1 (·.after event.2)) := ⟨rfl, rfl⟩
    exact hfirst.trans (ih _)

theorem meets_detach : Meets (detach e answers) s (fun _ s' => s.SameTables s')
    (fun stop s' => s.SameTables s' ∧ stop ≠ .panic) := by
  have hproduce := sameTables_produce s answers.waiting
  refine .seq (.update ?_)
  refine .ite (fun _ => ?_) fun _ => ?_
  · exact .bind meets_atEndpoint fun _ s' h => .stop ⟨hproduce.trans h, nofun⟩
  · unfold Meets
    dsimp only
    rcases ((s.produce answers.waiting).endpoints e).pollDetached with ⟨_ | _ | link, endpoint⟩
    · exact ⟨hproduce, nofun⟩
    · exact ⟨hproduce, nofun⟩
    · exact hproduce.trans ⟨rfl, rfl⟩

theorem meets_onStop {x : Op Err α} {cleanup : Op Err Unit} {Q : Stop Err → MutationService → Prop} (hx : Meets x s P Q)
    (hc : ∀ stop s', Q stop s' → Meets cleanup s' (fun _ s'' => E stop s'') E) : Meets (onStop x cleanup) s P E := by
  unfold Meets onStop at *
  rcases hrun : x s with ⟨stop | a, s1⟩
  · rw [hrun] at hx
    have hcleanup := hc stop s1 hx
    dsimp only
    rcases hclean : cleanup s1 with ⟨stop' | u, s2⟩
    · rwa [hclean] at hcleanup
    · rwa [hclean] at hcleanup
  · rwa [hrun] at hx

variable {k : Unit → Op Err α}

theorem meets_failing : Meets (atEndpoint e f >>= fun _ => (fail error : Op Err Unit) >>= k) s P NoPanic :=
  .bind meets_atEndpoint fun _ _ _ => .bind (P := fun _ _ => False) (.stop nofun) fun _ _ h => h.elim

theorem meets_refusing : Meets ((refuse error : Op Err Unit) >>= k) s P NoPanic :=
  .bind (P := fun _ _ => False) (.stop nofun) fun _ _ h => h.elim

theorem meets_stopping : Meets ((fail error : Op Err Unit) >>= k) s P NoPanic :=
  .bind (P := fun _ _ => False) (.stop nofun) fun _ _ h => h.elim

theorem meets_announce {c : Prop} [Decidable c]
    (h : Meets (k ()) s P NoPanic) :
    Meets (if c then
        match answers.announced with
        | some error => do
          atEndpoint e f
          let r ← fail (.refused error)
          k r
        | none => k ()
      else k ()) s P NoPanic := by
  refine .ite (fun _ => ?_) fun _ => h
  rcases answers.announced with _ | error
  · exact h
  · exact meets_failing

theorem meets_announceCaps {c : Prop} [Decidable c]
    (h : ∀ s', s.SameTables s' → Meets (k ()) s' P NoPanic) :
    Meets (if c then
        match answers.announced with
        | some error => do
          let r ← fail (.refused error)
          k r
        | none => do
          let r ← atEndpoint e f
          k r
      else k ()) s P NoPanic := by
  refine .ite (fun _ => ?_) fun _ => h s (.refl s)
  rcases answers.announced with _ | error
  · exact .bind meets_atEndpoint fun _ s' hs' => h s' hs'
  · exact meets_stopping

theorem meets_takeElementHandback (hn : s.topology.nodes i = some n) :
    Meets (takeElementHandback i : Op Err (Option Nat)) s
      (fun o s' => (o = none ∧ s' = s ∧ ∀ done, n.done ≠ some (.element done)) ∨
        ∃ done, o = some done ∧ n.done = some (.element done) ∧
          s'.topology = s.topology.setNode i (some { n with done := none })) E := by
  refine .seq (.query_ok (node_eq hn) ?_)
  split
  · next done hdone =>
    exact .bind (meets_modifyNode hn) fun _ s' h => .pure (.inr ⟨done, rfl, hdone, h⟩)
  · next hdone => exact .pure (.inl ⟨rfl, rfl, hdone⟩)

theorem meets_takeSourceHandback (hn : s.topology.nodes i = some n) :
    Meets (takeSourceHandback i : Op Err (Option Nat)) s
      (fun o s' => (o = none ∧ s' = s ∧ ∀ done, n.done ≠ some (.source done)) ∨
        ∃ done, o = some done ∧ n.done = some (.source done) ∧
          s'.topology = s.topology.setNode i (some { n with done := none })) E := by
  refine .seq (.query_ok (node_eq hn) ?_)
  split
  · next done hdone =>
    exact .bind (meets_modifyNode hn) fun _ s' h => .pure (.inr ⟨done, rfl, hdone, h⟩)
  · next hdone => exact .pure (.inl ⟨rfl, rfl, hdone⟩)

theorem meets_detach_putBack {handback : Handback} (hn : s.topology.nodes i = some n) :
    Meets (onStop (detach e answers) (putBack i handback)) s (fun _ s' => s.SameTables s') NoPanic := by
  refine meets_onStop meets_detach fun stop s' h => ?_
  have hn' : s'.topology.nodes i = some n := by rwa [h.1.topology]
  exact (meets_modifyNode hn').mono (fun _ _ _ => h.2) fun _ _ h => h

/-! ## Removing a transform -/

theorem meets_remove (h : s.topology.Sound) : Meets (remove name answers) s
    (fun _ s' => ∃ i a c b, (s.find name : Except (Stop Err) Nat) = .ok i ∧
      s.topology.wiring.Bypassable a c i b ∧ s'.topology.wiring = s.topology.wiring.bypass a c i b ∧
      s.topology.Follows s'.topology) NoPanic := by
  refine meets_named fun i n hi hn => ?_
  refine .ite (fun _ => meets_refusing) fun _ => ?_
  refine .seq (meets_ask quiet_edgeAt fun a ha => ?_)
  refine .seq (meets_ask quiet_edgeAt fun b hb => ?_)
  obtain ⟨hins, -⟩ := edgeAt_eq_ok hi hn ha
  obtain ⟨houts, -⟩ := edgeAt_eq_ok hi hn hb
  obtain ⟨bE, hbE, nc, hnc⟩ := h.exists_edge_of_outs hn (houts ▸ mem_singleton_self b)
  obtain ⟨aE, haE, -⟩ := h.exists_edge_of_ins hn (hins ▸ mem_singleton_self a)
  have hbypass := h.bypassable hn hins houts hbE
  have hab := hbypass.edges_ne h.wellFormed
  refine .seq (.query_ok (edge_eq hbE) ?_)
  refine .seq (.query_ok (edge_eq haE) ?_)
  -- What can still be refused comes before the producer is stopped.
  refine .bind (meets_takeElementHandback hn) fun handback s1 h1 => ?_
  refine .seq (meets_ask quiet_orRefuse fun done hdone => ?_)
  rcases h1 with ⟨rfl, -⟩ | ⟨-, -, -, h1⟩
  · cases hdone
  have hn1 : s1.topology.nodes i = some { n with done := none } := by
    rw [h1, nodes_setNode_self]
  refine .seq (meets_ask quiet_orRefuse fun upstreamCaps _ => ?_)
  refine .seq (.query_ok rfl ?_)
  refine .ite (fun _ => .bind (meets_modifyNode hn1) fun _ _ _ => meets_refusing) fun _ => ?_
  refine .bind meets_atEndpoint fun _ s2 h2 => ?_
  have hn2 : s2.topology.nodes i = some { n with done := none } := by rwa [h2.topology]
  refine .bind (meets_detach_putBack hn2) fun _ s3 h3 => ?_
  refine .bind meets_atEndpoint fun _ s4 h4 => ?_
  refine .bind meets_atEndpoint fun _ s5 h5 => ?_
  refine .ite (fun _ => meets_failing) fun _ => ?_
  refine .seq (.query_ok rfl (meets_announce ?_))
  refine .bind meets_atEndpoint fun _ s6 h6 => ?_
  have ht : s6.topology = s.topology.setNode i (some { n with done := none }) := by
    rw [(((h2.trans h3).trans (h4.trans h5)).trans h6).topology, h1]
  -- The tables follow.
  have ha6 : s6.topology.edges a = some aE := by rwa [ht]
  refine .bind (meets_modifyEdge ha6) fun _ s7 h7 => ?_
  have hb7 : s7.topology.edges b = some bE := by
    rw [h7, edges_setEdge_of_ne hab.symm, ht]
    exact hbE
  refine .bind (meets_removeEdge hb7) fun bypassed s8 h8 => ?_
  have ha8 : s8.topology.edges a = some { aE with consumer := bE.consumer } := by
    rw [h8.2, edges_setEdge_of_ne hab, h7, edges_setEdge_self]
  refine .bind (meets_modifyEdge ha8) fun _ s9 h9 => ?_
  have hc9 : s9.topology.nodes bE.consumer = some nc := by
    rw [h9, nodes_setEdge, h8.2, nodes_setEdge, h7, nodes_setEdge, ht,
      nodes_setNode_of_ne hbypass.ne, hnc]
  refine .bind (meets_modifyNode hc9) fun _ s10 h10 => ?_
  have hi10 : s10.topology.nodes i = some { n with done := none } := by
    rw [h10, nodes_setNode_of_ne hbypass.ne.symm, h9, nodes_setEdge, h8.2, nodes_setEdge,
      h7, nodes_setEdge, ht, nodes_setNode_self]
  refine .bind (meets_retireNode hi10) fun _ s11 h11 => .pure ?_
  rw [h10, h9, h8.2, h7, ht] at h11
  exact ⟨i, a, bE.consumer, b, hi, hbypass, Topology.removed_eq hn hnc hbypass.ne hab h11 rfl⟩

/-! ## Replacing the ends -/

theorem fresh_sinkNode (name : InstanceName) (edge done : Nat) : (sinkNode name edge done).Fresh :=
  ⟨rfl, rfl, nofun, rfl⟩

theorem fresh_sourceNode (name : InstanceName) (edge done : Nat) : (sourceNode name edge done).Fresh :=
  ⟨rfl, rfl, nofun, rfl⟩

theorem meets_startSink {taken : Bool} : Meets (startSink name e taken : Op Err Nat) s
    (fun slot s' => s.topology.nodes slot = none ∧ ∃ rest done, s.nodes.vacant 1 = slot :: rest ∧
      s'.topology = s.topology.setNode slot (some (sinkNode name e done))) NoPanic := by
  obtain ⟨slot, hslot⟩ := s.nodes.exists_vacant
  refine .seq (.query_ok rfl ?_)
  refine .bind meets_number fun done s1 h1 => ?_
  refine .ite (fun _ => .bind (P := fun _ _ => False) (.stop nofun) nofun) fun _ => ?_
  have hvacant : s1.nodes.vacant (0 + 1) = (s.nodes.vacant 1).headD 0 :: [] := by
    rw [h1.nodes, hslot]
    rfl
  refine .bind (meets_fillNode hvacant) fun _ s2 h2 => .pure ?_
  rw [hslot]
  refine ⟨Slots.get?_of_mem_vacant (hslot ▸ mem_singleton_self slot), [], done, rfl, ?_⟩
  rw [h2.1, h1.topology, hslot]

/-- A node with a new name has taken the place of the node with the old one. -/
def Renamed (Err : Type) (s s' : MutationService) (name category fresh : InstanceName) : Prop :=
  ∃ i m new, (s.find name : Except (Stop Err) Nat) = .ok i ∧ s.topology.nodes m = none ∧
    s'.topology.nodes m = some new ∧ new.name = fresh ∧ s.NewName category fresh ∧
    s'.topology.wiring = s.topology.wiring.rename i m ∧ s.topology.Follows s'.topology

theorem meets_replaceSink {element : SinkElement Err} (h : s.topology.Sound) :
    Meets (replaceSink name element answers) s
      (fun r s' => Renamed Err s s' name element.category r.1) NoPanic := by
  refine meets_named fun i n hi hn => ?_
  refine .ite (fun _ => meets_refusing) fun htotal => ?_
  have houts := h.outs_eq_nil hn (not_not.1 htotal)
  split
  · next hdone =>
    refine .seq (meets_ask quiet_edgeAt fun e he => ?_)
    obtain ⟨hins, -⟩ := edgeAt_eq_ok hi hn he
    obtain ⟨edge, hedge, -⟩ := h.exists_edge_of_ins hn (hins ▸ mem_singleton_self e)
    refine .seq (.query_ok (edge_eq hedge) ?_)
    refine .seq (meets_ask quiet_orRefuse fun edgeCaps _ => ?_)
    refine .seq (meets_ask mild_prepareSink.quiet fun feasible _ => ?_)
    refine .bind (meets_uniqueNameAmong element.category []) fun fresh s1 h1 => ?_
    obtain ⟨h1, hfresh, -⟩ := h1
    have hn1 : s1.topology.nodes i = some n := by rwa [h1.topology]
    refine .bind (meets_takeElementHandback hn1) fun handback s2 h2 => ?_
    rcases h2 with ⟨-, -, hnone⟩ | ⟨done, rfl, -, h2⟩
    · exact absurd hdone (hnone _)
    have hn2 : s2.topology.nodes i = some { n with done := none } := by rw [h2, nodes_setNode_self]
    refine .bind meets_atEndpoint fun _ s3 h3 => ?_
    have hn3 : s3.topology.nodes i = some { n with done := none } := by rwa [h3.topology]
    refine .bind (meets_detach_putBack hn3) fun _ s4 h4 => ?_
    refine .ite (fun _ => meets_failing) fun _ => ?_
    refine .bind meets_number fun feed s5 h5 => ?_
    have ht5 : s5.topology = s.topology.setNode i (some { n with done := none }) := by
      rw [((h3.trans h4).trans h5).topology, h2, h1.topology]
    refine .bind (meets_onStop meets_startSink fun stop s' hstop => ?_) fun slot s6 h6 => ?_
    · exact meets_atEndpoint.mono (fun _ _ _ => hstop) fun _ _ h => h
    obtain ⟨hslot5, -, channel, -, h6⟩ := h6
    have hslot : s.topology.nodes slot = none := by
      rw [ht5] at hslot5
      by_cases hsi : slot = i
      · simp [hsi] at hslot5
      · rwa [nodes_setNode_of_ne hsi] at hslot5
    -- The tables follow.
    refine .bind meets_atEndpoint fun _ s7 h7 => ?_
    have he7 : s7.topology.edges e = some edge := by
      rw [h7.topology, h6, Topology.edges_setNode, ht5]
      exact hedge
    refine .bind (meets_modifyEdge he7) fun _ s8 h8 => ?_
    have he8 : s8.topology.edges e = some { edge with consumer := slot } := by rw [h8, edges_setEdge_self]
    refine .bind (meets_modifyEdge he8) fun _ s9 h9 => ?_
    have hsi : i ≠ slot := by
      rintro rfl
      rw [hn] at hslot
      cases hslot
    have hi9 : s9.topology.nodes i = some { n with done := none } := by
      rw [h9, nodes_setEdge, h8, nodes_setEdge, h7.topology, h6, nodes_setNode_of_ne hsi,
        ht5, nodes_setNode_self]
    refine .bind (meets_retireNode hi9) fun _ s10 h10 => .pure ?_
    have hnew : s10.topology.nodes slot = some (sinkNode fresh e channel) := by
      rw [h10, nodes_setNode_of_ne hsi.symm, h9, nodes_setEdge, h8, nodes_setEdge,
        h7.topology, h6, nodes_setNode_self]
    rw [h9, h8, h7.topology, h6, ht5] at h10
    exact ⟨i, slot, _, hi, hslot, hnew, rfl, hfresh, Topology.replacedSink_eq h hn hslot hins houts h10 rfl
      (fresh_sinkNode fresh e channel) rfl rfl⟩
  · exact meets_refusing

theorem meets_replaceSource {source : SourceElement Err} (h : s.topology.Sound) :
    Meets (replaceSource name source answers) s
      (fun r s' => Renamed Err s s' name source.category r.1) NoPanic := by
  refine meets_named fun i n hi hn => ?_
  refine .ite (fun _ => meets_refusing) fun htotal => ?_
  have hins := h.ins_eq_nil hn (not_not.1 htotal)
  rcases hdone : n.done with _ | ⟨_⟩ | ⟨_⟩
  · exact meets_refusing
  · exact meets_refusing
  · refine .seq (meets_ask quiet_edgeAt fun e he => ?_)
    obtain ⟨houts, -⟩ := edgeAt_eq_ok hi hn he
    obtain ⟨edge, hedge, -⟩ := h.exists_edge_of_outs hn (houts ▸ mem_singleton_self e)
    refine .seq (.query_ok (edge_eq hedge) ?_)
    refine .seq (meets_ask quiet_orRefuse fun edgeCaps _ => ?_)
    refine .seq (meets_ask mild_answer.quiet fun produced _ => ?_)
    refine .seq (meets_ask mild_agreed.quiet fun caps _ => ?_)
    refine .seq (meets_ask mild_answer.quiet fun _ _ => ?_)
    refine .bind (meets_uniqueNameAmong source.category []) fun fresh s1 h1 => ?_
    obtain ⟨h1, hfresh, -⟩ := h1
    have hn1 : s1.topology.nodes i = some n := by rwa [h1.topology]
    refine .bind (meets_takeSourceHandback hn1) fun handback s2 h2 => ?_
    rcases h2 with ⟨-, -, hnone⟩ | ⟨done, rfl, -, h2⟩
    · exact absurd hdone (hnone _)
    have hn2 : s2.topology.nodes i = some { n with done := none } := by rw [h2, nodes_setNode_self]
    refine .bind meets_atEndpoint fun _ s3 h3 => ?_
    have hn3 : s3.topology.nodes i = some { n with done := none } := by rwa [h3.topology]
    refine .bind (meets_detach_putBack hn3) fun link s4 h4 => ?_
    refine .bind meets_atEndpoint fun _ s5 h5 => ?_
    refine .ite (fun _ => meets_stopping) fun _ => ?_
    refine .bind meets_atEndpoint fun _ s6 h6 => ?_
    have ht6 : s6.topology = s.topology.setNode i (some { n with done := none }) := by
      rw [((h3.trans h4).trans (h5.trans h6)).topology, h2, h1.topology]
    refine meets_announceCaps fun s7 h7 => ?_
    refine .bind meets_number fun channel s8 h8 => ?_
    refine .ite (fun _ => meets_stopping) fun _ => ?_
    refine .bind meets_atEndpoint fun _ s9 h9 => ?_
    have ht9 : s9.topology = s.topology.setNode i (some { n with done := none }) := by
      rw [((h7.trans h8).trans h9).topology, ht6]
    -- The tables follow.
    refine .bind meets_insertNode fun _ s10 ⟨slot, hslot9, h10⟩ => ?_
    have hsi : i ≠ slot := by
      rintro rfl
      rw [ht9, nodes_setNode_self] at hslot9
      cases hslot9
    have hslot : s.topology.nodes slot = none := by
      rwa [ht9, nodes_setNode_of_ne hsi.symm] at hslot9
    have hi10 : s10.topology.nodes i = some { n with done := none } := by
      rw [h10, nodes_setNode_of_ne hsi, ht9, nodes_setNode_self]
    refine .bind (meets_retireNode hi10) fun _ s11 h11 => .pure ?_
    have hnew : s11.topology.nodes slot = some (sourceNode fresh e channel) := by
      rw [h11, nodes_setNode_of_ne hsi.symm, h10, nodes_setNode_self]
    rw [h10, ht9] at h11
    exact ⟨i, slot, _, hi, hslot, hnew, rfl, hfresh, Topology.replacedSource_eq h hn hslot hins houts h11
      (fresh_sourceNode fresh e channel) rfl rfl⟩

/-! ## Adding an input -/

theorem meets_addInput {source : SourceElement Err} (h : s.topology.Sound) : Meets (addInput name source answers) s
      (fun r s' => ∃ i j e new, (s.find name : Except (Stop Err) Nat) = .ok i ∧ s.topology.nodes j = none ∧
        s.topology.edges e = none ∧ s'.topology.nodes j = some new ∧ new.name = r ∧
        s.NewName source.category r ∧ s'.topology.wiring = (s.topology.wiring.add j).connect j e i ∧
        s.topology.Follows s'.topology) NoPanic := by
  refine meets_named fun i n hi hn => ?_
  rcases hgrowth : n.growth with _ | ⟨mode⟩ | ⟨padsInUse, declared⟩
  · exact .stop nofun
  · exact .stop nofun
  · refine .seq (meets_ask quiet_orRefuse fun pad _ => ?_)
    refine .seq (meets_ask mild_answer.quiet fun _ _ => ?_)
    refine .bind meets_number fun link s1 h1 => ?_
    refine .ite (fun _ => meets_refusing) fun _ => ?_
    refine .seq (meets_ask mild_admitted.quiet fun fixated _ => ?_)
    refine .seq (meets_ask mild_answer.quiet fun _ _ => ?_)
    refine .bind (meets_uniqueNameAmong source.category []) fun fresh s2 ⟨h2, hfresh, _⟩ => ?_
    refine .bind meets_newEndpoint fun endpoint s3 h3 => ?_
    refine .bind meets_number fun done s4 h4 => ?_
    refine .ite (fun _ => meets_stopping) fun _ => ?_
    refine .seq (.query_ok rfl ?_)
    have ht4 : s4.topology = s.topology := by rw [((h1.trans h2).trans (h3.trans h4)).topology]
    have hfresh' : s.NewName source.category fresh := by
      refine ⟨fun j m hm => hfresh.new j m ?_, hfresh.numbered⟩
      rwa [h1.topology]
    -- The tables follow.
    refine .bind meets_insertEdge fun e s5 ⟨he, h5, _⟩ => ?_
    refine .bind meets_insertNode fun _ s6 ⟨j, hj, h6⟩ => ?_
    rw [ht4] at he h5
    rw [h5] at hj h6
    have hij : i ≠ j := by
      rintro rfl
      rw [nodes_setEdge, hn] at hj
      cases hj
    have hn6 : s6.topology.nodes i = some n := by
      rwa [h6, nodes_setNode_of_ne hij]
    refine .bind (meets_modifyNode hn6) fun _ s7 h7 => ?_
    have hn7 := h7 ▸ nodes_setNode_self _
    refine .bind (meets_modifyNode hn7) fun _ s8 h8 => ?_
    have hn8 := h8 ▸ nodes_setNode_self _
    refine .bind (meets_modifyNode hn8) fun _ s9 h9 => .pure ?_
    rw [h8, setNode_setNode, h7, setNode_setNode, h6] at h9
    have hnew : s9.topology.nodes j = some (sourceNode fresh e done) := by
      rw [h9, nodes_setNode_of_ne hij.symm, nodes_setNode_self]
    refine ⟨i, j, e, _, hi, hj, he, hnew, rfl, hfresh', ?_⟩
    refine Topology.addedInput_eq h hn hj h9 rfl (fresh_sourceNode fresh e done) rfl rfl ⟨rfl, rfl, ?_, rfl, ?_⟩ rfl rfl
    · simp only [length_append, length_singleton]
      omega
    · rw [hgrowth]
      exact nofun

/-! ## Inserting transforms -/

theorem fresh_transformNode (name : InstanceName) (above below done : Nat) :
    (transformNode name above below done).Fresh :=
  ⟨rfl, rfl, fun _ => rfl, rfl⟩

theorem meets_spliceNodes {above : Nat} {xs : List Spliced} (hslots : s.nodes.vacant xs.length = xs.map Spliced.slot) :
    Meets (spliceNodes edge above xs : Op Err Nat) s
      (fun last s' => ∃ news, news.map Prod.fst = xs.map Spliced.slot ∧ last = Wiring.lastEdge above news ∧
        s.topology.Grown s'.topology edge.consumer above news (xs.map Spliced.name)) NoPanic := by
  induction xs generalizing s above with
  | nil => exact .pure ⟨[], rfl, rfl, .nil⟩
  | cons x rest ih =>
    refine .bind meets_insertEdge fun below s1 ⟨hbelow, h1, hnodes⟩ => ?_
    have hmem : x.slot ∈ s.nodes.vacant (x :: rest).length := hslots ▸ mem_cons_self
    have hslot : s.topology.nodes x.slot = none := Slots.get?_of_mem_vacant hmem
    rw [length_cons, map_cons, ← hnodes] at hslots
    refine .bind (meets_fillNode hslots) fun _ s2 ⟨h2, hvacant, _⟩ => ?_
    refine (ih hvacant).mono (fun last s' => ?_) fun _ _ h => h
    rintro ⟨news, hnews, rfl, hgrown⟩
    rw [h2, h1] at hgrown
    refine ⟨(x.slot, below) :: news, by rw [map_cons, hnews, map_cons], rfl, ?_⟩
    refine .cons hslot hbelow ?_ (fresh_transformNode x.name above below x.done) rfl rfl hgrown
    -- The edge leads to the next node, or to where the chain ends.
    rw [← List.head?_map, ← List.head?_map, hnews]

theorem meets_startTransforms {endpoint k : Nat} {taken : List InstanceName} :
    Meets (startTransforms endpoint answers chain k taken) s (fun started s' => s.SameTables s' ∧
        List.Forall₂ (fun entry x => s.NewName entry.1.category x.1) chain started ∧
        (started.map Prod.fst).Nodup ∧ ∀ x ∈ started, x.1 ∉ taken) NoPanic := by
  induction chain generalizing s k taken with
  | nil => exact .pure ⟨.refl s, .nil, nodup_nil, nofun⟩
  | cons entry rest ih =>
    obtain ⟨element, caps⟩ := entry
    refine .bind (meets_uniqueNameAmong element.category taken) fun name s1 ⟨h1, hname, htaken⟩ => ?_
    refine .bind meets_number fun done s2 h2 => ?_
    refine .ite (fun _ => meets_failing) fun _ => ?_
    refine .bind ih fun started s3 ⟨h3, hstarted, hnodup, hout⟩ => .pure ?_
    have hsame := h1.trans h2
    refine ⟨hsame.trans h3, .cons hname (hstarted.imp fun entry x hx => ?_), ?_, ?_⟩
    · exact ⟨fun i n hn => hx.new i n (by rwa [hsame.topology]), hx.numbered⟩
    · refine List.nodup_cons.2 ⟨fun hmem => ?_, hnodup⟩
      obtain ⟨x, hx, rfl⟩ := List.mem_map.1 hmem
      exact hout x hx (mem_append_right _ (mem_singleton_self _))
    · rintro x (_ | ⟨_, hx⟩)
      · exact htaken
      · exact fun hmem => hout x hx (mem_append_left _ hmem)

theorem meets_hopEndpoints {last : Nat} : Meets (hopEndpoints last chain : Op Err (List Nat)) s
      (fun endpoints s' => s.SameTables s' ∧ endpoints.length = chain.length) NoPanic := by
  induction chain generalizing s with
  | nil => exact .pure ⟨.refl s, rfl⟩
  | cons entry rest ih =>
    rcases rest with _ | ⟨next, rest⟩
    · exact .pure ⟨.refl s, rfl⟩
    · unfold hopEndpoints
      refine .bind meets_number fun link s1 h1 => ?_
      refine .bind meets_newEndpoint fun hop s2 h2 => ?_
      refine .bind ih fun endpoints s3 ⟨h3, hlen⟩ => .pure ?_
      exact ⟨(h1.trans h2).trans h3, congrArg (· + 1) hlen⟩

variable {elements : List (Element Err)}

theorem mild_negotiateChain : Mild (negotiateChain elements) := by
  unfold negotiateChain
  induction elements with
  | nil => exact mild_ok
  | cons element rest ih =>
    rw [mapM_cons]
    refine mild_bind (mild_bind mild_answer fun _ _ => mild_ok) fun _ _ => ?_
    exact mild_bind ih fun _ _ => mild_ok

theorem mild_configureChain : Mild (configureChain chain) := by
  induction chain with
  | nil => exact mild_ok
  | cons entry rest ih =>
    exact mild_bind mild_answer fun _ _ => ih

theorem mild_convertTail {produced : Caps} {accepted : CapsSet}
    : Mild (convertTail chain produced accepted converters) := by
  refine mild_bind (mild_orRefuse id) fun _ _ => mild_bind (mild_orRefuse id) fun _ _ => ?_
  refine mild_bind mild_negotiateChain fun _ _ => ?_
  split_ifs
  · exact mild_refused id
  · exact mild_ok

theorem negotiateChain_eq_ok (h : negotiateChain elements = .ok chain) : chain.map Prod.fst = elements := by
  unfold negotiateChain at h
  induction elements generalizing chain with
  | nil =>
    obtain rfl := Except.ok.inj h
    rfl
  | cons element rest ih =>
    rw [mapM_cons] at h
    obtain ⟨entry, hentry, h⟩ := bind_eq_ok.1 h
    obtain ⟨out, -, hentry⟩ := bind_eq_ok.1 hentry
    obtain ⟨tail, htail, h⟩ := bind_eq_ok.1 h
    obtain rfl := Except.ok.inj hentry
    obtain rfl := Except.ok.inj h
    rw [map_cons, ih htail]

theorem convertTail_eq_ok {chain chain' : List (Element Err × Caps)} {produced : Caps} {accepted : CapsSet}
    (h : convertTail chain produced accepted converters = .ok chain') : ∃ tail, chain' = chain ++ tail := by
  obtain ⟨factory, -, h⟩ := bind_eq_ok.1 h
  obtain ⟨elements, -, h⟩ := bind_eq_ok.1 h
  obtain ⟨tail, -, h⟩ := bind_eq_ok.1 h
  split_ifs at h
  · cases h
  · exact ⟨tail, (Except.ok.inj h).symm⟩

theorem prepareChain_eq_ok {plan : ChainPlan Err} (h : s.prepareChain name side elements converters = .ok plan) :
    (s.edgeAt name side : Except (Stop Err) Nat) = .ok plan.edge ∧
      ∃ tail, plan.chain.map Prod.fst = elements ++ tail := by
  obtain ⟨e, he, h⟩ := bind_eq_ok.1 h
  obtain ⟨edge, -, h⟩ := bind_eq_ok.1 h
  obtain ⟨edgeCaps, -, h⟩ := bind_eq_ok.1 h
  obtain ⟨chain, hchain, h⟩ := bind_eq_ok.1 h
  have hfirst := negotiateChain_eq_ok hchain
  -- Only a chain that changes the caps to some that are not accepted gets converters.
  dsimp only at h
  split_ifs at h
  · obtain ⟨accepted, -, h⟩ := bind_eq_ok.1 h
    obtain ⟨chain', hchain', h⟩ := bind_eq_ok.1 h
    obtain ⟨_, -, h⟩ := bind_eq_ok.1 h
    obtain rfl := Except.ok.inj h
    obtain ⟨tail, rfl⟩ := convertTail_eq_ok hchain'
    exact ⟨he, tail.map Prod.fst, by rw [map_append, hfirst]⟩
  · obtain ⟨chain', hchain', h⟩ := bind_eq_ok.1 h
    obtain rfl := Except.ok.inj hchain'
    obtain ⟨_, -, h⟩ := bind_eq_ok.1 h
    obtain rfl := Except.ok.inj h
    exact ⟨he, [], by rw [hfirst, append_nil]⟩

theorem exists_edge_of_edgeAt (h : s.topology.Sound) (he : (s.edgeAt name side : Except (Stop Err) Nat) = .ok e) :
    ∃ edge, s.topology.edges e = some edge ∧ ∃ nc, s.topology.nodes edge.consumer = some nc := by
  obtain ⟨i, n, hi, hn⟩ := exists_find_of_edgeAt he
  obtain ⟨hone, -⟩ := edgeAt_eq_ok hi hn he
  have hmem : e ∈ edgesOn n side := hone ▸ mem_singleton_self e
  cases side with
  | below => exact h.exists_edge_of_outs hn hmem
  | above =>
    obtain ⟨edge, hedge, hc⟩ := h.exists_edge_of_ins hn hmem
    exact ⟨edge, hedge, n, hc ▸ hn⟩

theorem mild_prepareOnEdge {edge : LiveEdge}
    (plan : Caps → List (Element Err × Caps) → ChainPlan Err) :
    Mild (do
      let edgeCaps ← orRefuse (s.endpoints edge.endpoint).caps .noCaps
      let chain ← negotiateChain elements
      let produced := lastCaps edgeCaps chain
      let chain ←
        if produced ≠ edgeCaps ∧ acceptsDownstream edge.feasible produced = false then do
          let accepted ← orRefuse edge.feasible .downstreamRefused
          convertTail chain produced accepted converters
        else pure chain
      configureChain chain
      return plan edgeCaps chain) := by
  refine mild_bind (mild_orRefuse id) fun edgeCaps _ => mild_bind mild_negotiateChain fun chain _ => ?_
  dsimp only
  split_ifs
  · refine mild_bind (mild_orRefuse id) fun _ _ => mild_bind mild_convertTail fun _ _ => ?_
    exact mild_bind mild_configureChain fun _ _ => mild_ok
  · refine mild_bind mild_ok fun _ _ => ?_
    exact mild_bind mild_configureChain fun _ _ => mild_ok

theorem quiet_prepareChain (h : s.topology.Sound) : Quiet (s.prepareChain name side elements converters) := by
  refine quiet_bind quiet_edgeAt fun e he => ?_
  obtain ⟨edge, hedge, -⟩ := exists_edge_of_edgeAt h he
  rw [edge_eq hedge]
  exact quiet_bind quiet_ok fun edge' _ => (mild_prepareOnEdge _).quiet

theorem splicedOf_spec {slots endpoints : List Nat} {started : List (InstanceName × Nat)}
    (hslots : slots.length = chain.length)
    (hendpoints : endpoints.length = chain.length) (hstarted : started.length = chain.length) :
    (splicedOf slots endpoints started chain).map Spliced.slot = slots ∧
      (splicedOf slots endpoints started chain).map Spliced.name = started.map Prod.fst ∧
      (splicedOf slots endpoints started chain).length = chain.length := by
  unfold splicedOf
  induction chain generalizing slots endpoints started with
  | nil =>
    obtain rfl := eq_nil_of_length_eq_zero hslots
    obtain rfl := eq_nil_of_length_eq_zero hstarted
    exact ⟨rfl, rfl, rfl⟩
  | cons entry rest ih =>
    obtain ⟨slot, slots, rfl⟩ := exists_cons_of_length_eq_add_one hslots
    obtain ⟨endpoint, endpoints, rfl⟩ := exists_cons_of_length_eq_add_one hendpoints
    obtain ⟨x, started, rfl⟩ := exists_cons_of_length_eq_add_one hstarted
    obtain ⟨h1, h2, h3⟩ := ih (Nat.succ.inj hslots) (Nat.succ.inj hendpoints) (Nat.succ.inj hstarted)
    exact ⟨congrArg _ h1, congrArg _ h2, congrArg _ h3⟩

theorem meets_insert (h : s.topology.Sound) : Meets (insert name side elements converters answers) s
      (fun names s' => (elements = [] ∧ names = [] ∧ s' = s) ∨
        ∃ e c news tail, (s.edgeAt name side : Except (Stop Err) Nat) = .ok e ∧
          List.Forall₂ (fun element name => s.NewName element.category name) (elements ++ tail) names ∧ names.Nodup ∧
          List.Forall₂ (fun new name => ∃ n, s'.topology.nodes new.1 = some n ∧ n.name = name) news names ∧
          s.topology.wiring.target e = some c ∧ s.topology.wiring.SpliceableAll e c news ∧
          s'.topology.wiring = s.topology.wiring.spliceAll e c news ∧ s.topology.Follows s'.topology) NoPanic := by
  refine .ite (fun hempty => .pure (.inl ⟨List.isEmpty_iff.1 hempty, rfl, rfl⟩)) fun hne => ?_
  refine .seq (meets_ask (quiet_prepareChain h) fun plan hplan => ?_)
  obtain ⟨he, tail, hchain⟩ := prepareChain_eq_ok hplan
  obtain ⟨edge, hedge, nc, hnc⟩ := exists_edge_of_edgeAt h he
  refine .seq (.query_ok (edge_eq hedge) ?_)
  refine .bind meets_atEndpoint fun _ s1 h1 => ?_
  refine .bind (meets_detach.mono (fun _ _ h => h) fun _ _ h => h.2) fun original s2 h2 => ?_
  refine .bind meets_newEndpoint fun last s3 h3 => ?_
  refine meets_announce ?_
  refine .bind meets_number fun feed s4 h4 => ?_
  refine .bind meets_hopEndpoints fun endpoints s5 ⟨h5, hendpoints⟩ => ?_
  refine .seq (.query_ok rfl ?_)
  refine .bind meets_startTransforms fun started s6 ⟨h6, hstarted, hnodup, _⟩ => ?_
  refine .bind meets_atEndpoint fun _ s7 h7 => ?_
  have hsame5 := ((h1.trans h2).trans (h3.trans h4)).trans h5
  have hsame := hsame5.trans (h6.trans h7)
  -- The tables follow.
  obtain ⟨hslots, hnames, hlen⟩ := splicedOf_spec (Slots.length_vacant (s := s5.nodes)) hendpoints
    hstarted.length_eq.symm
  have hvacant : s7.nodes.vacant (splicedOf (s5.nodes.vacant plan.chain.length) endpoints started plan.chain).length =
      (splicedOf (s5.nodes.vacant plan.chain.length) endpoints started plan.chain).map Spliced.slot := by
    rw [hlen, hslots, (h6.trans h7).nodes]
  refine .bind (meets_spliceNodes hvacant) fun above s8 ⟨news, hnews, habove, hgrown⟩ => ?_
  rw [hsame.topology, hnames] at hgrown
  rw [hslots] at hnews
  have hnonempty : news ≠ [] := by
    rintro rfl
    have hlength := congrArg List.length hnews
    rw [Slots.length_vacant, ← length_map (f := Prod.fst), hchain, length_append] at hlength
    have hpos := List.length_pos_iff.2 (mt List.isEmpty_iff.2 hne)
    simp at hlength
    omega
  have he8 : s8.topology.edges plan.edge = some edge := hgrown.edges _ _ hedge
  refine .bind (meets_modifyEdge he8) fun _ s9 h9 => ?_
  have he9 := h9 ▸ edges_setEdge_self _
  refine .bind (meets_modifyEdge he9) fun _ s10 h10 => ?_
  have hc10 : s10.topology.nodes edge.consumer = some nc := by
    rw [h10, nodes_setEdge, h9, nodes_setEdge]
    exact hgrown.nodes _ _ hnc
  refine .bind (meets_modifyNode hc10) fun _ s11 h11 => .pure (.inr ?_)
  rw [h10, h9, habove] at h11
  have hfirst : some ((s5.nodes.vacant plan.chain.length).headD 0) = news.head?.map Prod.fst := by
    obtain ⟨new, rest, rfl⟩ := exists_cons_of_ne_nil hnonempty
    rw [← hnews]
    rfl
  have hall : List.Forall₂ (fun element name => s.NewName element.category name) (elements ++ tail)
      (started.map Prod.fst) := by
    rw [← hchain, forall₂_map_left_iff, forall₂_map_right_iff]
    refine hstarted.imp fun entry x hx => ⟨fun i n hn => hx.new i n ?_, hx.numbered⟩
    rwa [hsame5.topology]
  have hnew : List.Forall₂ (fun new name => ∃ n, s11.topology.nodes new.1 = some n ∧ n.name = name) news
      (started.map Prod.fst) := by
    refine hgrown.names.imp fun new name ⟨n, hn, hname⟩ => ?_
    rw [h11]
    by_cases hc : new.1 = edge.consumer
    · rw [hc, hgrown.nodes _ _ hnc] at hn
      rw [hc, nodes_setNode_self]
      exact ⟨_, rfl, (congrArg LiveNode.name (Option.some.inj hn)).trans hname⟩
    · exact ⟨n, by rwa [nodes_setNode_of_ne hc], hname⟩
  exact ⟨plan.edge, edge.consumer, news, tail, he, hall, hnodup, hnew, Topology.target_of_edge hedge,
    Topology.inserted_eq h hedge hnc hnonempty hgrown h11 hfirst⟩

/-! ## Adding a branch -/

theorem quiet_firstCaps {edges : List Nat} (h : ∀ e ∈ edges, ∃ edge, s.topology.edges e = some edge) :
    Quiet (s.firstCaps edges : Except (Stop Err) Caps) := by
  induction edges with
  | nil => exact quiet_refused
  | cons e edges ih =>
    obtain ⟨edge, hedge⟩ := h e mem_cons_self
    unfold firstCaps
    rw [edge_eq hedge]
    refine quiet_bind quiet_ok fun edge _ => ?_
    split
    · exact quiet_ok
    · exact ih fun x hx => h x (mem_cons_of_mem _ hx)

theorem quiet_teeCaps (h : s.topology.Sound) (hn : s.topology.nodes i = some n) :
    Quiet (s.teeCaps i : Except (Stop Err) Caps) := by
  unfold teeCaps
  rw [node_eq hn]
  refine quiet_firstCaps fun e he => ?_
  rcases List.mem_append.1 he with he | he
  · obtain ⟨edge, hedge, -⟩ := h.exists_edge_of_ins hn he
    exact ⟨edge, hedge⟩
  · obtain ⟨edge, hedge, -⟩ := h.exists_edge_of_outs hn he
    exact ⟨edge, hedge⟩

theorem quiet_queue (h : s.topology.Sound) (hn : s.topology.nodes i = some n) : Quiet (match n.outEdges.head? with
      | some e => do
        let edge ← s.edge e
        return (edge.policy, edge.capacity)
      | none => return (.block, s.linkCapacity) : Except (Stop Err) (LinkPolicy × Nat)) := by
  rcases houts : n.outEdges with _ | ⟨e, rest⟩
  · exact quiet_ok
  · obtain ⟨edge, hedge, -⟩ := h.exists_edge_of_outs hn (houts ▸ mem_cons_self)
    show Quiet (s.edge e >>= _)
    rw [edge_eq hedge]
    exact quiet_ok

theorem meets_growTransforms {policy : LinkPolicy} {capacity : Nat} {mode : BranchMode} {k : Nat} {input : Caps}
    {slots edges : List Nat}
    (hslots : s.nodes.vacant (chain.length + 1) = slots) (hedges : s.edges.vacant (chain.length + 1) = edges) :
    Meets (growTransforms policy capacity mode answers k input chain slots edges) s
      (fun names s' => ∃ news, s'.nodes.vacant 1 = [slots.getD chain.length 0] ∧
        s'.edges.vacant 1 = [Wiring.lastEdge (edges.headD 0) news] ∧
        edges.getD chain.length 0 = Wiring.lastEdge (edges.headD 0) news ∧
        List.Forall₂ (fun entry name => s.NewName entry.1.category name) chain names ∧ names.Nodup ∧
        ∀ last : LiveEdge, last.consumer = slots.getD chain.length 0 →
          ∃ first : LiveEdge, first.consumer = (news.head?.map Prod.fst).getD (slots.getD chain.length 0) ∧
            (s.topology.setEdge (edges.headD 0) (some first)).Grown
              (s'.topology.setEdge (Wiring.lastEdge (edges.headD 0) news) (some last))
              (slots.getD chain.length 0) (edges.headD 0) news names) NoPanic := by
  induction chain generalizing s k input slots edges with
  | nil =>
    obtain ⟨slot, hslot⟩ := s.nodes.exists_vacant
    obtain ⟨e, he⟩ := s.edges.exists_vacant
    obtain rfl : [slot] = slots := hslot.symm.trans hslots
    obtain rfl : [e] = edges := he.symm.trans hedges
    refine .pure ⟨[], hslot, he, rfl, .nil, nodup_nil, fun last hlast => ⟨last, hlast, .nil⟩⟩
  | cons entry rest ih =>
    obtain ⟨element, caps⟩ := entry
    have hslotsLen : slots.length = rest.length + 2 := by
      rw [← hslots, Slots.length_vacant, length_cons]
    have hedgesLen : edges.length = rest.length + 2 := by
      rw [← hedges, Slots.length_vacant, length_cons]
    obtain ⟨slot, slots, rfl⟩ := exists_cons_of_length_eq_add_one hslotsLen
    obtain ⟨e, edges, rfl⟩ := exists_cons_of_length_eq_add_one hedgesLen
    obtain ⟨below, edges, rfl⟩ := exists_cons_of_length_eq_add_one (Nat.succ.inj hedgesLen)
    refine .bind (meets_uniqueNameAmong element.category []) fun name s1 ⟨h1, hname, _⟩ => ?_
    refine .bind meets_number fun done s2 h2 => ?_
    refine .ite (fun _ => meets_stopping) fun _ => ?_
    refine .bind meets_number fun link s3 h3 => ?_
    refine .bind meets_newEndpoint fun endpoint s4 h4 => ?_
    have hsame := (h1.trans h2).trans (h3.trans h4)
    rw [← hsame.edges] at hedges
    refine .bind (meets_fillEdge hedges) fun _ s5 ⟨h5, hedges5, hnodes5⟩ => ?_
    rw [← hsame.nodes, ← hnodes5] at hslots
    refine .bind (meets_fillNode hslots) fun _ s6 ⟨h6, hslots6, hedges6⟩ => ?_
    rw [← hedges6] at hedges5
    rw [h5, hsame.topology] at h6
    refine .bind (ih hslots6 hedges5) fun names s7 ⟨news, hnodes7, hedges7, hlastEdge, hnames, hnodup, hgrown⟩ =>
      .pure ?_
    have hslot : s.topology.nodes slot = none := by
      have hmem : slot ∈ s5.nodes.vacant (rest.length + 1 + 1) := hslots ▸ mem_cons_self
      have hfree := Slots.get?_of_mem_vacant hmem
      rwa [hnodes5, hsame.nodes] at hfree
    have hbelow : s6.topology.edges below = none := by
      have hmem : below ∈ s6.edges.vacant (rest.length + 1) := hedges5 ▸ mem_cons_self
      exact Slots.get?_of_mem_vacant hmem
    have hall : List.Forall₂ (fun entry name => s.NewName entry.1.category name) rest names := by
      refine hnames.imp fun entry x hx => ⟨fun j m hm => hx.new j m ?_, hx.numbered⟩
      have hjs : j ≠ slot := by
        rintro rfl
        rw [hslot] at hm
        cases hm
      rwa [h6, nodes_setNode_of_ne hjs]
    have hout : name ∉ names := fun hmem =>
      forall_right hnames (fun _ _ hx => hx.new slot _ (h6 ▸ nodes_setNode_self _)) name hmem rfl
    refine ⟨(slot, below) :: news, hnodes7, hedges7, hlastEdge, .cons hname hall, nodup_cons.2 ⟨hout, hnodup⟩,
      fun last hlast => ?_⟩
    obtain ⟨first, hfirst, hgrown⟩ := hgrown last hlast
    rw [h6] at hgrown hbelow
    refine ⟨{ endpoint, consumer := slot, feasible := some (.one input), policy, capacity, mode }, rfl, ?_⟩
    refine .cons ?_ ?_ hfirst (fresh_transformNode name e below done) rfl rfl hgrown
    · exact hslot
    · exact hbelow

theorem mild_prepareBranch {sticky : Caps} {transforms : List (Element Err)}
    : Mild (prepareBranch sticky transforms sink converters) := by
  refine mild_bind mild_negotiateChain fun chain _ => ?_
  dsimp only
  rcases hsink : prepareSink (lastCaps sticky chain) sink sink.configured with refusal | feasible
  · have hmild : ∃ err, refusal = .refused err ∧ ¬ Rejects err := mild_prepareSink refusal hsink
    rcases sink.accepts with _ | set
    · exact fun stop heq => Except.error.inj heq ▸ hmild
    · refine mild_bind mild_ok fun accepted _ => ?_
      rcases convertTail chain (lastCaps sticky chain) accepted converters with _ | chain'
      · exact fun stop heq => Except.error.inj heq ▸ hmild
      · refine mild_bind mild_ok fun _ _ => mild_bind mild_prepareSink fun _ _ => mild_bind mild_ok fun _ _ => ?_
        exact mild_bind mild_configureChain fun _ _ => mild_ok
  · exact mild_bind mild_ok fun _ _ => mild_bind mild_configureChain fun _ _ => mild_ok

theorem prepareBranch_eq_ok {sticky : Caps} {transforms : List (Element Err)} {feasible : CapsSet}
    (h : prepareBranch sticky transforms sink converters = .ok (chain, feasible)) :
    ∃ tail, chain.map Prod.fst = transforms ++ tail := by
  obtain ⟨chain', hchain', h⟩ := bind_eq_ok.1 h
  have hfirst := negotiateChain_eq_ok hchain'
  dsimp only at h
  split at h
  · obtain ⟨_, hpair, h⟩ := bind_eq_ok.1 h
    obtain rfl := Except.ok.inj hpair
    obtain ⟨_, -, h⟩ := bind_eq_ok.1 h
    obtain ⟨rfl, -⟩ := Prod.mk.inj (Except.ok.inj h)
    exact ⟨[], by rw [hfirst, append_nil]⟩
  · split at h
    · obtain ⟨accepted, -, h⟩ := bind_eq_ok.1 h
      split at h
      · next hconvert =>
        obtain ⟨tail, rfl⟩ := convertTail_eq_ok hconvert
        obtain ⟨_, hpure, h⟩ := bind_eq_ok.1 h
        obtain rfl := Except.ok.inj hpure
        obtain ⟨_, -, h⟩ := bind_eq_ok.1 h
        obtain ⟨_, hpair, h⟩ := bind_eq_ok.1 h
        obtain rfl := Except.ok.inj hpair
        obtain ⟨_, -, h⟩ := bind_eq_ok.1 h
        obtain ⟨rfl, -⟩ := Prod.mk.inj (Except.ok.inj h)
        exact ⟨tail.map Prod.fst, by rw [map_append, hfirst]⟩
      · cases h
    · cases h

theorem meets_addBranch {branch : Option (List (Element Err) × SinkElement Err)} (h : s.topology.Sound) :
    Meets (addBranch name branch converters answers) s (fun names s' => ∃ i top sink news transforms element tail,
        (s.find name : Except (Stop Err) Nat) = .ok i ∧ branch = some (transforms, element) ∧
        List.Forall₂ (fun category name => s.NewName category name)
          ((transforms ++ tail).map Element.category ++ [element.category]) names ∧ names.Nodup ∧
        List.Forall₂ (fun i name => ∃ n, s'.topology.nodes i = some n ∧ n.name = name)
          (news.map Prod.fst ++ [sink]) names ∧ s.topology.nodes sink = none ∧ s.topology.edges top = none ∧
        ((s.topology.wiring.add sink).connect i top sink).SpliceableAll top sink news ∧
        s'.topology.wiring = ((s.topology.wiring.add sink).connect i top sink).spliceAll top sink news ∧
        s.topology.Follows s'.topology) NoPanic := by
  refine meets_named fun i n hi hn => ?_
  rcases hgrowth : n.growth with _ | ⟨mode⟩ | ⟨padsInUse, declared⟩
  · exact .stop nofun
  swap
  · exact .stop nofun
  rcases branch with _ | ⟨transforms, element⟩
  · exact .stop nofun
  refine .seq (meets_ask (quiet_teeCaps h hn) fun sticky _ => ?_)
  refine .seq (meets_ask (quiet_queue h hn) fun queue _ => ?_)
  refine .seq (meets_ask mild_prepareBranch.quiet fun plan hplan => ?_)
  obtain ⟨chain, feasible⟩ := plan
  obtain ⟨tail, hchain⟩ := prepareBranch_eq_ok hplan
  refine .seq (.query_ok rfl ?_)
  refine .seq (.query_ok rfl ?_)
  refine .bind (meets_growTransforms rfl rfl)
    fun names s1 ⟨news, hnodes1, hedges1, hlastEdge, hnames, hnodup, hgrown⟩ => ?_
  refine .bind (meets_uniqueNameAmong element.category []) fun sinkName s2 ⟨h2, hsinkName, _⟩ => ?_
  refine .bind meets_number fun link s3 h3 => ?_
  refine .bind meets_newEndpoint fun endpoint s4 h4 => ?_
  have hsame := h2.trans (h3.trans h4)
  have htop : s.topology.edges ((s.edges.vacant (chain.length + 1)).headD 0) = none := by
    obtain ⟨top, rest, hvacant⟩ := exists_cons_of_length_eq_add_one
      (Slots.length_vacant (s := s.edges) : (s.edges.vacant (chain.length + 1)).length = chain.length + 1)
    have hmem : top ∈ s.edges.vacant (chain.length + 1) := hvacant ▸ mem_cons_self
    rw [hvacant]
    exact Slots.get?_of_mem_vacant hmem
  rw [hlastEdge]
  generalize (s.edges.vacant (chain.length + 1)).headD 0 = top at *
  generalize (s.nodes.vacant (chain.length + 1)).getD chain.length 0 = sink at *
  -- The tables follow.
  rw [← hsame.edges] at hedges1
  refine .bind (meets_fillEdge hedges1) fun _ s5 ⟨h5, _, hnodes5⟩ => ?_
  rw [hsame.topology] at h5
  obtain ⟨first, hfirst, hgrown⟩ := hgrown
    { endpoint, consumer := sink, feasible := some feasible, policy := queue.1, capacity := queue.2, mode } rfl
  rw [← h5] at hgrown
  refine .bind meets_startSink fun slot s6 ⟨hslot, rest, done, hvacant, h6⟩ => ?_
  obtain rfl : sink = slot := by
    rw [hnodes5, hsame.nodes, hnodes1] at hvacant
    exact (List.cons.inj hvacant).1
  refine .ite (fun _ => meets_stopping) fun _ => ?_
  have hi5 : s5.topology.nodes i = some n := hgrown.nodes i n hn
  have hisink : i ≠ sink := by
    rintro rfl
    rw [hi5] at hslot
    cases hslot
  have hi6 : s6.topology.nodes i = some n := by rwa [h6, nodes_setNode_of_ne hisink]
  refine .bind (meets_modifyNode hi6) fun _ s7 h7 => ?_
  have hi7 := h7 ▸ nodes_setNode_self _
  refine .bind (meets_modifyNode hi7) fun _ s8 h8 => .pure ?_
  rw [h7, setNode_setNode, h6] at h8
  have hfree : s.topology.nodes sink = none := by
    rcases hold : s.topology.nodes sink with _ | m
    · rfl
    · rw [hgrown.nodes sink m hold] at hslot
      cases hslot
  have hall : List.Forall₂ (fun category name => s.NewName category name)
      ((transforms ++ tail).map Element.category ++ [element.category]) (names ++ [sinkName]) := by
    refine rel_append ?_ (.cons ⟨fun j m hm => hsinkName.new j m ?_, hsinkName.numbered⟩ .nil)
    · rw [← hchain, map_map, forall₂_map_left_iff]
      exact hnames
    · have hm5 := hgrown.nodes j m hm
      rwa [h5] at hm5
  have hnew : List.Forall₂ (fun j name => ∃ m, s8.topology.nodes j = some m ∧ m.name = name)
      (news.map Prod.fst ++ [sink]) (names ++ [sinkName]) := by
    rw [h8]
    refine rel_append ?_ (.cons ⟨sinkNode sinkName (Wiring.lastEdge top news) done, ?_, rfl⟩ .nil)
    · rw [forall₂_map_left_iff]
      refine hgrown.names.imp fun new name ⟨m, hm, hname⟩ => ?_
      have hsink : new.1 ≠ sink := by
        intro heq
        rw [heq, hslot] at hm
        cases hm
      by_cases hnew : new.1 = i
      · rw [hnew, hi5] at hm
        rw [hnew, nodes_setNode_self]
        exact ⟨_, rfl, (congrArg LiveNode.name (Option.some.inj hm)).trans hname⟩
      · exact ⟨m, by rwa [nodes_setNode_of_ne hnew, nodes_setNode_of_ne hsink], hname⟩
    · rw [nodes_setNode_of_ne hisink.symm, nodes_setNode_self]
  refine ⟨i, top, sink, news, transforms, element, tail, hi, rfl, hall, ?_, hnew, hfree, htop, ?_⟩
  · rw [← concat_eq_append]
    refine hnodup.concat fun hmem => ?_
    refine forall_right (q := (· ≠ sinkName)) hgrown.names (fun new name ⟨m, hm, hname⟩ => ?_) sinkName hmem rfl
    rw [h5] at hm
    exact hname ▸ hsinkName.new new.1 m hm
  refine Topology.addedBranch_eq h hn hgrown hslot hfirst h8 (fresh_sinkNode _ _ _) rfl rfl ⟨rfl, rfl, rfl, ?_, ?_⟩ rfl rfl
  · simp only [length_append, length_singleton]
    omega
  · rw [hgrowth]
    exact nofun

end MutationService

end Glass2Glass.Runtime
