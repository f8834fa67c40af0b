import Glass2Glass.Lib.Wiring

/-!
# Routes

A route follows the edges of a wiring from node to node. What an operation on a wiring does to its routes is
said by where the edges lead: on a subdivided edge every route makes a detour over the new node, a renamed
node is renamed on every route, and a leaf or a root ends or begins new routes and leaves the others alone.
-/

variable {ν ε : Type}

/-- The edges and nodes from the node `a` to the node `z`, by where the edges lead. -/
def Route (hop : ν → ε → ν → Prop) : ν → List (ε × ν) → ν → Prop
  | a, [], z => a = z
  | a, (e, c) :: steps, z => hop a e c ∧ Route hop c steps z

namespace Route

open List

variable {hop hop' : ν → ε → ν → Prop} {a z c n t : ν} {e b : ε} {steps steps' : List (ε × ν)}

theorem append_iff : Route hop a (steps ++ steps') z ↔ ∃ m, Route hop a steps m ∧ Route hop m steps' z := by
  induction steps generalizing a with
  | nil =>
    constructor
    · exact fun h => ⟨a, rfl, h⟩
    · rintro ⟨m, rfl, h⟩
      exact h
  | cons step steps ih =>
    simp only [cons_append, Route, ih]
    constructor
    · rintro ⟨hhop, m, h, h'⟩
      exact ⟨m, ⟨hhop, h⟩, h'⟩
    · rintro ⟨m, ⟨hhop, h⟩, h'⟩
      exact ⟨hhop, m, h, h'⟩

theorem exists_hop (h : Route hop a steps z) {step : ε × ν} (hstep : step ∈ steps) : ∃ i, hop i step.1 step.2 := by
  induction steps generalizing a with
  | nil => cases hstep
  | cons first steps ih =>
    rcases List.mem_cons.1 hstep with rfl | hstep
    · exact ⟨a, h.1⟩
    · exact ih h.2 hstep

/-! ## Renaming -/

/-- The routes with a node renamed. -/
theorem renamed_iff {r : ν} [DecidableEq ν]
    (h : ∀ i x d, hop' i x d ↔ ∃ j k, hop j x k ∧ Wiring.swapped r n j = i ∧ Wiring.swapped r n k = d)
    (hne : ∀ i x d, hop i x d → i ≠ n ∧ d ≠ n) (ha : a ≠ n) (hz : z ≠ n) :
    Route hop' (Wiring.swapped r n a) steps' (Wiring.swapped r n z) ↔
      ∃ steps, Route hop a steps z ∧ steps' = steps.map fun step => (step.1, Wiring.swapped r n step.2) := by
  constructor
  · intro hroute
    induction steps' generalizing a with
    | nil =>
      refine ⟨[], ?_, rfl⟩
      exact Wiring.swapped_inj ha hz hroute
    | cons step rest ih =>
      obtain ⟨x, d⟩ := step
      obtain ⟨hhop, hroute⟩ := hroute
      obtain ⟨j, k, hold, hj, rfl⟩ := (h _ _ _).1 hhop
      obtain ⟨hjn, hkn⟩ := hne j x k hold
      obtain rfl := Wiring.swapped_inj hjn ha hj
      obtain ⟨steps, hsteps, rfl⟩ := ih hkn hroute
      exact ⟨(x, k) :: steps, ⟨hold, hsteps⟩, rfl⟩
  · rintro ⟨steps, hroute, rfl⟩
    induction steps generalizing a with
    | nil =>
      obtain rfl : a = z := hroute
      rfl
    | cons step steps ih =>
      obtain ⟨hhop, hroute⟩ := hroute
      refine ⟨(h _ _ _).2 ⟨a, step.2, hhop, rfl, rfl⟩, ?_⟩
      exact ih (hne a step.1 step.2 hhop).2 hroute

/-! ## Leaves and roots -/

section Extend

variable {d : ν} (h : ∀ i x k, hop' i x k ↔ (i = t ∧ x = e ∧ k = d) ∨ hop i x k)

include h

theorem extend (hroute : Route hop a steps z) : Route hop' a steps z := by
  induction steps generalizing a with
  | nil => exact hroute
  | cons step steps ih => exact ⟨(h _ _ _).2 (.inr hroute.1), ih hroute.2⟩

theorem leaf_iff (ht : t ≠ d) (hd : ∀ x k, ¬ hop d x k) (hz : z ≠ d) : Route hop' a steps z ↔ Route hop a steps z := by
  refine ⟨fun hroute => ?_, extend h⟩
  induction steps generalizing a with
  | nil => exact hroute
  | cons step steps ih =>
    obtain ⟨hhop, hroute⟩ := hroute
    rcases (h _ _ _).1 hhop with ⟨-, -, heq⟩ | hold
    · rw [heq] at hroute
      -- Nothing leads on from the leaf.
      match steps, hroute with
      | [], hroute => exact absurd hroute.symm hz
      | _ :: _, ⟨hhop', _⟩ =>
        rcases (h _ _ _).1 hhop' with ⟨hdt, -, -⟩ | hold'
        · exact absurd hdt.symm ht
        · exact absurd hold' (hd _ _)
    · exact ⟨hold, ih hroute⟩

theorem to_leaf_iff (ht : t ≠ d) (hd : ∀ x k, ¬ hop d x k) (hin : ∀ i x, ¬ hop i x d) (ha : a ≠ d) :
    Route hop' a steps d ↔ ∃ before, Route hop a before t ∧ steps = before ++ [(e, d)] := by
  constructor
  · intro hroute
    rcases eq_nil_or_concat steps with rfl | ⟨before, step, rfl⟩
    · exact absurd hroute ha
    · obtain ⟨m, hbefore, hlast⟩ := append_iff.1 (concat_eq_append ▸ hroute)
      obtain ⟨hhop, hend⟩ := hlast
      obtain ⟨x, k⟩ := step
      obtain rfl : k = d := hend
      rcases (h _ _ _).1 hhop with ⟨rfl, rfl, -⟩ | hold
      · exact ⟨before, (leaf_iff h ht hd ht).1 hbefore, concat_eq_append⟩
      · exact absurd hold (hin _ _)
  · rintro ⟨before, hroute, rfl⟩
    exact append_iff.2 ⟨t, extend h hroute, (h _ _ _).2 (.inl ⟨rfl, rfl, rfl⟩), rfl⟩

theorem root_iff (ht : ∀ i x, ¬ hop i x t) (ha : a ≠ t) : Route hop' a steps z ↔ Route hop a steps z := by
  refine ⟨fun hroute => ?_, extend h⟩
  induction steps generalizing a with
  | nil => exact hroute
  | cons step steps ih =>
    obtain ⟨hhop, hroute⟩ := hroute
    rcases (h _ _ _).1 hhop with ⟨heq, -, -⟩ | hold
    · exact absurd heq ha
    · refine ⟨hold, ih ?_ hroute⟩
      intro heq
      exact ht _ _ (heq ▸ hold)

theorem from_root_iff (ht : ∀ i x, ¬ hop i x t) (hout : ∀ x k, ¬ hop t x k) (htd : t ≠ d) (hz : z ≠ t) :
    Route hop' t steps z ↔ ∃ after, Route hop d after z ∧ steps = (e, d) :: after := by
  constructor
  · intro hroute
    match steps, hroute with
    | [], hroute => exact absurd hroute.symm hz
    | (x, k) :: after, ⟨hhop, hroute⟩ =>
      rcases (h _ _ _).1 hhop with ⟨-, rfl, rfl⟩ | hold
      · exact ⟨after, (root_iff h ht htd.symm).1 hroute, rfl⟩
      · exact absurd hold (hout _ _)
  · rintro ⟨after, hroute, rfl⟩
    exact ⟨(h _ _ _).2 (.inl ⟨rfl, rfl, rfl⟩), extend h hroute⟩

end Extend

/-! ## Detours -/

/-- The edge `e` to `c` is subdivided by the node `n`, which the edge `b` leaves. -/
structure Subdivides (hop hop' : ν → ε → ν → Prop) (e : ε) (c n : ν) (b : ε) : Prop where
  iff : ∀ i x d, hop' i x d ↔ (i = n ∧ x = b ∧ d = c) ∨ (x = e ∧ d = n ∧ hop i e c) ∨ (x ≠ e ∧ hop i x d)
  /-- The edge leads to one node. -/
  target : ∀ i d, hop i e d → d = c
  /-- The node is new. -/
  ne : ∀ i x d, hop i x d → i ≠ n ∧ d ≠ n

variable [DecidableEq ε]

/-- A step over a subdivided edge. -/
def detour (e : ε) (n : ν) (b : ε) (step : ε × ν) : List (ε × ν) :=
  if step.1 = e then [(e, n), (b, step.2)] else [step]

theorem detour_of_route (h : Subdivides hop hop' e c n b) (hroute : Route hop a steps z) :
    Route hop' a (steps.flatMap (detour e n b)) z := by
  induction steps generalizing a with
  | nil => exact hroute
  | cons step steps ih =>
    obtain ⟨x, d⟩ := step
    obtain ⟨hhop, hroute⟩ := hroute
    rw [flatMap_cons]
    unfold detour
    split_ifs with hx
    · obtain rfl : x = e := hx
      obtain rfl := h.target a d hhop
      refine ⟨(h.iff a x n).2 (.inr (.inl ⟨rfl, rfl, hhop⟩)), ?_⟩
      exact ⟨(h.iff n b d).2 (.inl ⟨rfl, rfl, rfl⟩), ih hroute⟩
    · exact ⟨(h.iff a x d).2 (.inr (.inr ⟨hx, hhop⟩)), ih hroute⟩

theorem route_of_detour (h : Subdivides hop hop' e c n b) (ha : a ≠ n) (hz : z ≠ n) (hroute : Route hop' a steps' z) :
    ∃ steps, Route hop a steps z ∧ steps' = steps.flatMap (detour e n b) := by
  -- A step onto the new node is followed by the step off it.
  induction hlen : steps'.length using Nat.strongRecOn generalizing a steps' with
  | _ len ih =>
  match steps', hroute with
  | [], hroute => exact ⟨[], hroute, rfl⟩
  | (x, d) :: rest, ⟨hhop, hroute⟩ =>
    rcases (h.iff a x d).1 hhop with ⟨rfl, -, -⟩ | ⟨rfl, rfl, hold⟩ | ⟨hx, hold⟩
    · exact absurd rfl ha
    · match rest, hroute with
      | [], hroute => exact absurd hroute.symm hz
      | (y, d') :: rest, ⟨hhop', hroute⟩ =>
        rcases (h.iff d y d').1 hhop' with ⟨-, rfl, rfl⟩ | ⟨-, -, hold'⟩ | ⟨-, hold'⟩
        · have hlt : rest.length < len := by
            rw [← hlen, length_cons, length_cons]
            omega
          obtain ⟨steps, hsteps, rfl⟩ := ih rest.length hlt (h.ne a x d' hold).2 hroute rfl
          refine ⟨(x, d') :: steps, ⟨hold, hsteps⟩, ?_⟩
          rw [flatMap_cons, detour, if_pos rfl]
          rfl
        · exact absurd rfl (h.ne d _ _ hold').1
        · exact absurd rfl (h.ne d _ _ hold').1
    · have hlt : rest.length < len := by
        rw [← hlen, length_cons]
        omega
      obtain ⟨steps, hsteps, rfl⟩ := ih rest.length hlt (h.ne a x d hold).2 hroute rfl
      refine ⟨(x, d) :: steps, ⟨hold, hsteps⟩, ?_⟩
      rw [flatMap_cons, detour, if_neg hx]
      rfl

theorem subdivided_iff (h : Subdivides hop hop' e c n b) (ha : a ≠ n) (hz : z ≠ n) :
    Route hop' a steps' z ↔ ∃ steps, Route hop a steps z ∧ steps' = steps.flatMap (detour e n b) := by
  constructor
  · exact route_of_detour h ha hz
  · rintro ⟨steps, hroute, rfl⟩
    exact detour_of_route h hroute

/-- The detour over several new nodes, each with the edge that leaves it. -/
def through : ε → List (ν × ε) → ν → List (ε × ν)
  | e, [], d => [(e, d)]
  | e, (n, b) :: news, d => (e, n) :: through b news d

/-- A step over an edge that is subdivided several times. -/
def detours (e : ε) (news : List (ν × ε)) (step : ε × ν) : List (ε × ν) :=
  if step.1 = e then through e news step.2 else [step]

theorem flatMap_detours {news : List (ν × ε)} (hbe : b ≠ e) (hb : ∀ step ∈ steps, step.1 ≠ b) :
    (steps.flatMap (detour e n b)).flatMap (detours b news) = steps.flatMap (detours e ((n, b) :: news)) := by
  rw [flatMap_assoc]
  refine flatMap_congr fun step hstep => ?_
  unfold detour detours
  by_cases he : step.1 = e
  · rw [if_pos he, if_pos he, flatMap_cons, flatMap_cons, if_neg hbe.symm, if_pos rfl]
    rw [flatMap_nil, append_nil]
    rfl
  · rw [if_neg he, if_neg he, flatMap_cons, if_neg (hb step hstep)]
    rfl

/-! ## Routes of a wiring -/

variable [DecidableEq ν] {w : Wiring ν ε} {a' : ε}

theorem subdivides_splice (h : w.WellFormed) (hs : w.Spliceable e c n b) :
    Subdivides w.Hop (w.splice e c n b).Hop e c n b where
  iff _ _ _ := Wiring.hop_splice h hs
  target i d hop := Option.some.inj (hop.2.symm.trans hs.target)
  ne i x d hop := by
    refine ⟨?_, ?_⟩ <;> rintro rfl
    · exact hs.node (h.live_of_mem_outs hop.1)
    · exact hs.node (h.live_of_mem_ins ((h.mem_ins x d).2 hop.2))

theorem subdivides_bypass (h : w.WellFormed) (hb : w.Bypassable a' c n b) :
    Subdivides (w.bypass a' c n b).Hop w.Hop a' c n b where
  iff i x d := by
    have hout : b ∈ w.outs n := hb.outs ▸ mem_singleton_self b
    have hab := hb.edges_ne h
    have hin := hb.target_in h
    have htarget := hb.target
    have honly : ∀ i, b ∈ w.outs i → i = n := fun i hi => h.unique b i n hi hout
    simp only [Wiring.hop_bypass h hb]
    unfold Wiring.Hop
    grind
  target i d hop := by
    rcases (Wiring.hop_bypass h hb).1 hop with ⟨-, hd, -⟩ | ⟨hne, -⟩
    · exact hd
    · exact absurd rfl hne
  ne i x d hop := by
    have hwf := h.bypass hb
    have hlive : ∀ j, (w.bypass a' c n b).live j → j ≠ n := fun j hj => hj.1
    exact ⟨hlive i (hwf.live_of_mem_outs hop.1), hlive d (hwf.live_of_mem_ins ((hwf.mem_ins x d).2 hop.2))⟩

/-- Routes between old nodes make a detour over all the nodes that are put on an edge. -/
theorem spliceAll_iff {news : List (ν × ε)} (h : w.WellFormed) (hs : w.SpliceableAll e c news)
    (ha : w.live a) (hz : w.live z) : Route (w.spliceAll e c news).Hop a steps' z ↔
      ∃ steps, Route w.Hop a steps z ∧ steps' = steps.flatMap (detours e news) := by
  induction news generalizing w e with
  | nil =>
    have hid : ∀ steps : List (ε × ν), steps.flatMap (detours e []) = steps := fun steps => by
      have hone : detours e ([] : List (ν × ε)) = fun step => [step] := by
        funext step
        unfold detours through
        split_ifs with hstep
        · rw [← hstep]
        · rfl
      rw [hone, flatMap_singleton']
    simp only [Wiring.spliceAll, hid]
    constructor
    · intro hroute
      exact ⟨_, hroute, rfl⟩
    · rintro ⟨_, hroute, rfl⟩
      exact hroute
  | cons new news ih =>
    obtain ⟨n, b⟩ := new
    obtain ⟨hfirst, hrest⟩ := hs
    have han : a ≠ n := fun heq => hfirst.node (heq ▸ ha)
    have hzn : z ≠ n := fun heq => hfirst.node (heq ▸ hz)
    have hbe : b ≠ e := fun heq => by simpa [heq, hfirst.target] using hfirst.edge
    have hoff : ∀ steps, Route w.Hop a steps z → ∀ step ∈ steps, step.1 ≠ b := fun steps hroute step hstep heq => by
      obtain ⟨i, hop⟩ := exists_hop hroute hstep
      have htarget := heq ▸ hop.2
      rw [hfirst.edge] at htarget
      cases htarget
    rw [Wiring.spliceAll, ih (h.splice hfirst) hrest (.inr ha) (.inr hz)]
    constructor
    · rintro ⟨mid, hmid, rfl⟩
      obtain ⟨steps, hroute, rfl⟩ := (subdivided_iff (subdivides_splice h hfirst) han hzn).1 hmid
      exact ⟨steps, hroute, flatMap_detours hbe (hoff steps hroute)⟩
    · rintro ⟨steps, hroute, rfl⟩
      refine ⟨_, detour_of_route (subdivides_splice h hfirst) hroute, ?_⟩
      exact (flatMap_detours hbe (hoff steps hroute)).symm

omit [DecidableEq ν] in
/-- Steps that keep off an edge make no detour. -/
theorem flatMap_detours_eq_self {news : List (ν × ε)} (h : ∀ step ∈ steps, step.1 ≠ e) :
    steps.flatMap (detours e news) = steps := by
  induction steps with
  | nil => rfl
  | cons step steps ih =>
    rw [flatMap_cons, ih fun step hstep => h step (mem_cons_of_mem _ hstep), detours,
      if_neg (h step mem_cons_self)]
    rfl

omit [DecidableEq ν] [DecidableEq ε] in
/-- A route keeps off what is no edge. -/
theorem ne_of_target_eq_none (hroute : Route w.Hop a steps z) (he : w.target e = none) :
    ∀ step ∈ steps, step.1 ≠ e := by
  rintro step hstep rfl
  obtain ⟨i, hop⟩ := exists_hop hroute hstep
  rw [hop.2] at he
  cases he

section Branch

variable {news : List (ν × ε)} (h : w.WellFormed) (ht : w.live t) (hn : ¬ w.live n) (he : w.target e = none)
  (hs : ((w.add n).connect t e n).SpliceableAll e n news)

include h ht hn he hs

theorem branch_iff (ha : w.live a) (hz : w.live z) :
    Route (((w.add n).connect t e n).spliceAll e n news).Hop a steps' z ↔ Route w.Hop a steps' z := by
  have hconnect := Wiring.WellFormed.connect h.add (Or.inr ht) (Or.inl rfl : (w.add n).live n) he
  have hzn : z ≠ n := fun heq => hn (heq ▸ hz)
  have htn : t ≠ n := fun heq => hn (heq ▸ ht)
  have hleaf : ∀ x k, ¬ w.Hop n x k := fun x k hop => hn (h.live_of_mem_outs hop.1)
  rw [spliceAll_iff hconnect hs (Or.inr ha) (Or.inr hz)]
  simp only [leaf_iff (fun _ _ _ => Wiring.hop_connect h.add he) htn hleaf hzn]
  constructor
  · rintro ⟨steps, hroute, rfl⟩
    rwa [flatMap_detours_eq_self (ne_of_target_eq_none hroute he)]
  · exact fun hroute => ⟨steps', hroute, (flatMap_detours_eq_self (ne_of_target_eq_none hroute he)).symm⟩

/-- Routes to the end of a new branch leave the old ones where it is attached. -/
theorem to_branch_iff (ha : w.live a) : Route (((w.add n).connect t e n).spliceAll e n news).Hop a steps' n ↔
      ∃ before, Route w.Hop a before t ∧ steps' = before ++ through e news n := by
  have hconnect := Wiring.WellFormed.connect h.add (Or.inr ht) (Or.inl rfl : (w.add n).live n) he
  have han : a ≠ n := fun heq => hn (heq ▸ ha)
  have htn : t ≠ n := fun heq => hn (heq ▸ ht)
  have hleaf : ∀ x k, ¬ w.Hop n x k := fun x k hop => hn (h.live_of_mem_outs hop.1)
  have hin : ∀ i x, ¬ w.Hop i x n := fun i x hop => hn (h.live_of_mem_ins ((h.mem_ins x n).2 hop.2))
  have hlast : detours e news (e, n) = through e news n := if_pos rfl
  rw [spliceAll_iff hconnect hs (Or.inr ha) (Or.inl rfl)]
  simp only [to_leaf_iff (fun _ _ _ => Wiring.hop_connect h.add he) htn hleaf hin han]
  constructor
  · rintro ⟨_, ⟨before, hroute, rfl⟩, rfl⟩
    refine ⟨before, hroute, ?_⟩
    rw [flatMap_append, flatMap_detours_eq_self (ne_of_target_eq_none hroute he), flatMap_singleton, hlast]
  · rintro ⟨before, hroute, rfl⟩
    refine ⟨_, ⟨before, hroute, rfl⟩, ?_⟩
    rw [flatMap_append, flatMap_detours_eq_self (ne_of_target_eq_none hroute he), flatMap_singleton, hlast]

end Branch

/-- Routes that end outside a branch keep off it. -/
theorem dropBranch_iff {top : ε} {nodes : List ν} {edges : List ε} (h : w.WellFormed)
    (hb : w.Branch t top nodes edges) (hz : z ∉ nodes) :
    Route (w.dropBranch t top nodes edges).Hop a steps z ↔ Route w.Hop a steps z := by
  constructor
  · intro hroute
    induction steps generalizing a with
    | nil => exact hroute
    | cons step steps ih => exact ⟨((Wiring.hop_dropBranch h hb).1 hroute.1).2, ih hroute.2⟩
  · -- Once on the branch, a route stays on it.
    have hstays : ∀ steps a, a ∈ nodes → ¬ Route w.Hop a steps z := by
      intro steps
      induction steps with
      | nil => exact fun a ha heq => hz (heq ▸ ha)
      | cons step steps ih =>
        intro a ha hroute
        have hedge := hb.out a ha _ hroute.1.1
        exact ih _ ((hb.mem_edges _ _ hroute.1.2).1 hedge) hroute.2
    intro hroute
    induction steps generalizing a with
    | nil => exact hroute
    | cons step steps ih =>
      refine ⟨(Wiring.hop_dropBranch h hb).2 ⟨fun hedge => ?_, hroute.1⟩, ih hroute.2⟩
      exact hstays steps _ ((hb.mem_edges _ _ hroute.1.2).1 hedge) hroute.2

omit [DecidableEq ν] [DecidableEq ε] in
/-- A chain that hangs at a node is the route to its end. -/
theorem of_dangles {last : ε × ν} (h : w.WellFormed) (hd : w.Dangles (steps ++ [last]))
    (htop : ∀ step, (steps ++ [last]).head? = some step → step.1 ∈ w.outs t) :
    Route w.Hop t (steps ++ [last]) last.2 := by
  induction steps generalizing t with
  | nil =>
    refine ⟨⟨htop last rfl, (h.mem_ins _ _).1 ?_⟩, rfl⟩
    rw [hd.ins mem_cons_self]
    exact mem_singleton_self _
  | cons step steps ih =>
    refine ⟨⟨htop step rfl, (h.mem_ins _ _).1 ?_⟩, ih hd.2.2 fun next hnext => ?_⟩
    · rw [hd.ins mem_cons_self]
      exact mem_singleton_self _
    · rw [hd.2.1, show (steps.append [last]).head? = some next from hnext]
      exact mem_singleton_self _

end Route
