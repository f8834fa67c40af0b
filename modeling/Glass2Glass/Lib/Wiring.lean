import Mathlib.Data.List.Nodup

/-!
# Wirings

A wiring of nodes by edges, kept as two tables: a node lists the edges into it and out of it, an edge names
the node it ends at. In a well-formed wiring the tables agree: every edge is listed once by the node it ends
at and once by the one node it leaves. The operations that rewire a few entries keep this, and keep the
wiring free of cycles: an edge is spliced, a node is bypassed or renamed, a leaf is attached or detached.
-/

/-- A wiring of nodes `ν` by edges `ε`. -/
structure Wiring (ν ε : Type) where
  live : ν → Prop
  /-- The edges that a node lists as ending at it. -/
  ins : ν → List ε
  /-- The edges that a node lists as leaving it. -/
  outs : ν → List ε
  /-- The node that an edge ends at. -/
  target : ε → Option ν

/-- A list that names one edge in place of another. -/
def retarget {ε : Type} [DecidableEq ε] (edges : List ε) (old new : ε) : List ε :=
  edges.map fun e => if e = old then new else e

namespace Wiring

open List
open Function (update update_apply update_eq_self update_idem update_of_ne update_comm update_self)

variable {ν ε : Type} {w : Wiring ν ε} {i n c t : ν} {e a b x : ε}

/-- The tables agree. -/
structure WellFormed (w : Wiring ν ε) : Prop where
  /-- Only nodes list edges. -/
  live_ins : ∀ i, ¬ w.live i → w.ins i = []
  live_outs : ∀ i, ¬ w.live i → w.outs i = []
  /-- An edge is listed by the node it ends at, and by no other. -/
  mem_ins : ∀ e i, e ∈ w.ins i ↔ w.target e = some i
  /-- An edge is listed as leaving a node. -/
  source : ∀ e c, w.target e = some c → ∃ i, e ∈ w.outs i
  /-- What is listed as leaving a node is an edge. -/
  edge : ∀ e i, e ∈ w.outs i → ∃ c, w.target e = some c
  /-- An edge is listed as leaving one node. -/
  unique : ∀ e i j, e ∈ w.outs i → e ∈ w.outs j → i = j
  nodup_ins : ∀ i, (w.ins i).Nodup
  nodup_outs : ∀ i, (w.outs i).Nodup

/-- An edge leads from a node to a node. -/
def Hop (w : Wiring ν ε) (i : ν) (e : ε) (c : ν) : Prop := e ∈ w.outs i ∧ w.target e = some c

/-- There is no cycle: along every edge a rank rises. -/
def Acyclic (w : Wiring ν ε) : Prop := ∃ rank : ν → Nat, ∀ i e c, w.Hop i e c → rank i < rank c

namespace WellFormed

theorem live_of_mem_ins (h : w.WellFormed) (he : e ∈ w.ins i) : w.live i := by
  by_contra hi
  rw [h.live_ins i hi] at he
  cases he

theorem live_of_mem_outs (h : w.WellFormed) (he : e ∈ w.outs i) : w.live i := by
  by_contra hi
  rw [h.live_outs i hi] at he
  cases he

theorem not_mem_ins (h : w.WellFormed) (he : w.target e = none) : e ∉ w.ins i := by
  rw [h.mem_ins, he]
  exact nofun

theorem not_mem_outs (h : w.WellFormed) (he : w.target e = none) : e ∉ w.outs i := by
  intro hmem
  obtain ⟨c, hc⟩ := h.edge e i hmem
  rw [he] at hc
  cases hc

end WellFormed

theorem mem_update {α : Type} [DecidableEq α] {f : α → List ε} {n i : α} {l : List ε} :
    x ∈ update f n l i ↔ (i = n ∧ x ∈ l) ∨ (i ≠ n ∧ x ∈ f i) := by
  rw [update_apply]
  split_ifs with hi <;> simp [hi]

theorem update_eq_some {α β : Type} [DecidableEq α] {f : α → Option β} {n i : α} {v : Option β} {y : β} :
    update f n v i = some y ↔ (i = n ∧ v = some y) ∨ (i ≠ n ∧ f i = some y) := by
  rw [update_apply]
  split_ifs with hi <;> simp [hi]

theorem nodup_update {α : Type} [DecidableEq α] {f : α → List ε} {n : α} {l : List ε} (hl : l.Nodup)
    (hf : ∀ i, (f i).Nodup) (i : α) : (update f n l i).Nodup := by
  rw [update_apply]
  split_ifs
  · exact hl
  · exact hf i

/-- What a splice needs: the edge ends at `c`, and the node and the edge are new. -/
structure Spliceable (w : Wiring ν ε) (e : ε) (c n : ν) (b : ε) : Prop where
  target : w.target e = some c
  node : ¬ w.live n
  edge : w.target b = none

/-- What a bypass needs: one edge into the node, and one out of it that does not come back. -/
structure Bypassable (w : Wiring ν ε) (a : ε) (c n : ν) (b : ε) : Prop where
  live : w.live n
  ins : w.ins n = [a]
  outs : w.outs n = [b]
  target : w.target b = some c
  ne : c ≠ n

namespace Bypassable

theorem target_in (h : w.WellFormed) (hb : w.Bypassable a c n b) : w.target a = some n := by
  rw [← h.mem_ins, hb.ins]
  exact mem_singleton_self a

theorem edges_ne (h : w.WellFormed) (hb : w.Bypassable a c n b) : a ≠ b := by
  rintro rfl
  have heq := (hb.target_in h).symm.trans hb.target
  exact hb.ne (Option.some.inj heq).symm

end Bypassable

/-! ## Changing entries -/

section Entries

variable [DecidableEq ν]

/-- A node lists other edges as ending at it. -/
def setIns (w : Wiring ν ε) (i : ν) (edges : List ε) : Wiring ν ε :=
  { w with ins := Function.update w.ins i edges }

/-- A node lists other edges as leaving it. -/
def setOuts (w : Wiring ν ε) (i : ν) (edges : List ε) : Wiring ν ε :=
  { w with outs := Function.update w.outs i edges }

def put (w : Wiring ν ε) (i : ν) (ins outs : List ε) : Wiring ν ε where
  live j := j = i ∨ w.live j
  ins := Function.update w.ins i ins
  outs := Function.update w.outs i outs
  target := w.target

omit [DecidableEq ν] in
theorem live_put (h : w.live i) : (fun j => j = i ∨ w.live j) = w.live := by
  funext j
  refine propext (or_iff_right_of_imp ?_)
  rintro rfl
  exact h

theorem put_ins {edges : List ε} (h : w.live i) : w.put i edges (w.outs i) = w.setIns i edges := by
  rw [put, live_put h, update_eq_self]
  rfl

theorem put_outs {edges : List ε} (h : w.live i) : w.put i (w.ins i) edges = w.setOuts i edges := by
  rw [put, live_put h, update_eq_self]
  rfl

/-- A node is taken out. -/
def erase (w : Wiring ν ε) (i : ν) : Wiring ν ε where
  live j := j ≠ i ∧ w.live j
  ins := Function.update w.ins i []
  outs := Function.update w.outs i []
  target := w.target

/-- An edge ends elsewhere. -/
def setTarget [DecidableEq ε] (w : Wiring ν ε) (x : ε) (dest : Option ν) : Wiring ν ε :=
  { w with target := Function.update w.target x dest }

omit [DecidableEq ν] in
theorem setTarget_setTarget [DecidableEq ε] {first second : Option ν} :
    (w.setTarget x first).setTarget x second = w.setTarget x second := by
  simp only [setTarget, update_idem]

end Entries

/-! ## Renaming a node -/

section Rename

variable [DecidableEq ν]

/-- A node in place of another. -/
def swapped (r n i : ν) : ν := if i = r then n else i

/-- The node `n` takes the place of `r`. -/
def rename (w : Wiring ν ε) (r n : ν) : Wiring ν ε where
  live i := i = n ∨ (i ≠ r ∧ w.live i)
  ins := Function.update (Function.update w.ins n (w.ins r)) r []
  outs := Function.update (Function.update w.outs n (w.outs r)) r []
  target x := (w.target x).map (swapped r n)

theorem mem_ports_rename {f : ν → List ε} {r : ν} (hn : f n = []) (hne : n ≠ r) :
    x ∈ update (update f n (f r)) r [] i ↔ ∃ j, x ∈ f j ∧ swapped r n j = i := by
  rw [mem_update, mem_update]
  unfold swapped
  constructor
  · rintro (⟨-, hx⟩ | ⟨hir, ⟨rfl, hx⟩ | ⟨-, hx⟩⟩)
    · cases hx
    · exact ⟨r, hx, if_pos rfl⟩
    · exact ⟨i, hx, if_neg hir⟩
  · rintro ⟨j, hx, rfl⟩
    split_ifs with hjr
    · exact .inr ⟨hne, .inl ⟨rfl, hjr ▸ hx⟩⟩
    · refine .inr ⟨hjr, .inr ⟨?_, hx⟩⟩
      rintro rfl
      rw [hn] at hx
      cases hx

theorem swapped_inj {r j k : ν} (hj : j ≠ n) (hk : k ≠ n) (h : swapped r n j = swapped r n k) : j = k := by
  unfold swapped at h
  grind

variable {r : ν} (h : w.WellFormed) (hr : w.live r) (hn : ¬ w.live n)

include hr in
theorem live_rename : (w.rename r n).live i ↔ ∃ j, w.live j ∧ swapped r n j = i := by
  unfold rename swapped
  constructor
  · rintro (rfl | ⟨hir, hi⟩)
    · exact ⟨r, hr, if_pos rfl⟩
    · exact ⟨i, hi, if_neg hir⟩
  · rintro ⟨j, hj, rfl⟩
    split_ifs with hjr
    · exact .inl rfl
    · exact .inr ⟨hjr, hj⟩

include h hr hn

theorem mem_outs_rename : x ∈ (w.rename r n).outs i ↔ ∃ j, x ∈ w.outs j ∧ swapped r n j = i :=
  mem_ports_rename (h.live_outs n hn) fun heq => hn (heq ▸ hr)

theorem mem_ins_rename : x ∈ (w.rename r n).ins i ↔ ∃ j, x ∈ w.ins j ∧ swapped r n j = i :=
  mem_ports_rename (h.live_ins n hn) fun heq => hn (heq ▸ hr)

theorem WellFormed.rename : (w.rename r n).WellFormed where
  live_ins i hi := by
    refine List.eq_nil_iff_forall_not_mem.2 fun x hx => hi ?_
    obtain ⟨j, hj, heq⟩ := (mem_ins_rename h hr hn).1 hx
    exact (live_rename hr).2 ⟨j, h.live_of_mem_ins hj, heq⟩
  live_outs i hi := by
    refine List.eq_nil_iff_forall_not_mem.2 fun x hx => hi ?_
    obtain ⟨j, hj, heq⟩ := (mem_outs_rename h hr hn).1 hx
    exact (live_rename hr).2 ⟨j, h.live_of_mem_outs hj, heq⟩
  mem_ins x i := by
    rw [mem_ins_rename h hr hn]
    simp only [h.mem_ins]
    exact Option.map_eq_some_iff.symm
  source x c hx := by
    obtain ⟨d, hd, -⟩ := Option.map_eq_some_iff.1 hx
    obtain ⟨j, hj⟩ := h.source x d hd
    exact ⟨_, (mem_outs_rename h hr hn).2 ⟨j, hj, rfl⟩⟩
  edge x i hx := by
    obtain ⟨j, hj, -⟩ := (mem_outs_rename h hr hn).1 hx
    obtain ⟨d, hd⟩ := h.edge x j hj
    exact ⟨_, Option.map_eq_some_iff.2 ⟨d, hd, rfl⟩⟩
  unique x i j hi hj := by
    obtain ⟨k, hk, rfl⟩ := (mem_outs_rename h hr hn).1 hi
    obtain ⟨l, hl, rfl⟩ := (mem_outs_rename h hr hn).1 hj
    rw [h.unique x k l hk hl]
  nodup_ins := nodup_update nodup_nil (nodup_update (h.nodup_ins r) h.nodup_ins)
  nodup_outs := nodup_update nodup_nil (nodup_update (h.nodup_outs r) h.nodup_outs)

theorem hop_rename {d : ν} : (w.rename r n).Hop i x d ↔ ∃ j k, w.Hop j x k ∧ swapped r n j = i ∧ swapped r n k = d := by
  unfold Hop
  rw [mem_outs_rename h hr hn]
  constructor
  · rintro ⟨⟨j, hj, hji⟩, hd⟩
    obtain ⟨k, hk, hkd⟩ := Option.map_eq_some_iff.1 hd
    exact ⟨j, k, ⟨hj, hk⟩, hji, hkd⟩
  · rintro ⟨j, k, ⟨hj, hk⟩, hji, hkd⟩
    exact ⟨⟨j, hj, hji⟩, Option.map_eq_some_iff.2 ⟨k, hk, hkd⟩⟩

theorem Acyclic.rename (hacyclic : w.Acyclic) : (w.rename r n).Acyclic := by
  obtain ⟨rank, hrank⟩ := hacyclic
  -- The new node has the rank of the old one.
  have hsame : ∀ j, w.live j → (if swapped r n j = n then rank r else rank (swapped r n j)) = rank j := by
    intro j hj
    have hjn : j ≠ n := fun heq => hn (heq ▸ hj)
    unfold swapped
    grind
  refine ⟨fun i => if i = n then rank r else rank i, fun i x d hop => ?_⟩
  obtain ⟨j, k, hjk, rfl, rfl⟩ := (hop_rename h hr hn).1 hop
  dsimp only
  rw [hsame j (h.live_of_mem_outs hjk.1), hsame k (h.live_of_mem_ins ((h.mem_ins x k).2 hjk.2))]
  exact hrank j x k hjk

end Rename

variable [DecidableEq ε]

theorem mem_retarget {edges : List ε} {old new : ε} :
    x ∈ retarget edges old new ↔ (x ≠ old ∧ x ∈ edges) ∨ (x = new ∧ old ∈ edges) := by
  unfold retarget
  rw [List.mem_map]
  constructor
  · rintro ⟨y, hy, rfl⟩
    split_ifs with heq
    · exact .inr ⟨rfl, heq ▸ hy⟩
    · exact .inl ⟨heq, hy⟩
  · rintro (⟨hne, hx⟩ | ⟨rfl, hold⟩)
    · exact ⟨x, hx, if_neg hne⟩
    · exact ⟨old, hold, if_pos rfl⟩

theorem nodup_retarget {edges : List ε} {old new : ε} (hnew : new ∉ edges) (h : edges.Nodup) :
    (retarget edges old new).Nodup := by
  refine h.map_on fun x hx y hy heq => ?_
  split_ifs at heq with h1 h2 h2
  · exact h1.trans h2.symm
  · exact absurd (heq ▸ hy) hnew
  · exact absurd (heq ▸ hx) hnew
  · exact heq

variable [DecidableEq ν]

theorem rename_sink_eq {r : ν} (h : w.WellFormed) (hn : n ≠ r) (hins : w.ins r = [e]) (houts : w.outs r = []) :
    ((w.put n [e] []).setTarget e (some n)).erase r = w.rename r n := by
  have htarget : ∀ x, w.target x = some r ↔ x = e := fun x => by
    rw [← h.mem_ins, hins, mem_singleton]
  simp only [rename, erase, setTarget, put, hins, houts]
  congr 1
  · funext i
    have hnr := hn
    grind
  · funext x
    rw [update_apply]
    split_ifs with hx
    · rw [(htarget x).2 hx]
      simp only [Option.map_some, swapped, if_pos]
    · rcases hd : w.target x with _ | d
      · rfl
      · have hdr : d ≠ r := fun heq => hx ((htarget x).1 (heq ▸ hd))
        simp only [Option.map_some, swapped, if_neg hdr]

omit [DecidableEq ε] in
/-- The changes that put a source in the place of another. -/
theorem rename_source_eq {r : ν} (h : w.WellFormed) (hn : n ≠ r) (hins : w.ins r = []) (houts : w.outs r = [e]) :
    (w.put n [] [e]).erase r = w.rename r n := by
  have htarget : ∀ x, w.target x ≠ some r := fun x heq => by
    rw [← h.mem_ins, hins] at heq
    cases heq
  simp only [rename, erase, put, hins, houts]
  congr 1
  · funext i
    have hnr := hn
    grind
  · funext x
    rcases hd : w.target x with _ | d
    · rfl
    · have hdr : d ≠ r := fun heq => htarget x (heq ▸ hd)
      simp only [Option.map_some, swapped, if_neg hdr]

/-! ## Splicing an edge -/

/-- The node `n` is put on the edge `e`, which ended at `c`; the edge `b` leads on from it. -/
def splice (w : Wiring ν ε) (e : ε) (c n : ν) (b : ε) : Wiring ν ε where
  live i := i = n ∨ w.live i
  ins := Function.update (Function.update w.ins n [e]) c (retarget (w.ins c) e b)
  outs := Function.update w.outs n [b]
  target := Function.update (Function.update w.target e (some n)) b (some c)

theorem mem_outs_splice (h : w.WellFormed) (hs : w.Spliceable e c n b) :
    x ∈ (w.splice e c n b).outs i ↔ (i = n ∧ x = b) ∨ x ∈ w.outs i := by
  have hn : w.outs n = [] := h.live_outs n hs.node
  unfold splice
  by_cases hi : i = n <;> simp [hi, hn]

theorem mem_ins_splice (h : w.WellFormed) (hs : w.Spliceable e c n b) : x ∈ (w.splice e c n b).ins i ↔
      (i = n ∧ x = e) ∨ (i = c ∧ x = b) ∨ (x ≠ e ∧ x ∈ w.ins i) := by
  have hc : e ∈ w.ins c := (h.mem_ins e c).2 hs.target
  have hcn : c ≠ n := fun heq => hs.node (heq ▸ h.live_of_mem_ins hc)
  have hn : w.ins n = [] := h.live_ins n hs.node
  have hother : i ≠ c → e ∉ w.ins i := fun hi hmem => by
    rw [h.mem_ins, hs.target] at hmem
    exact hi (Option.some.inj hmem).symm
  unfold splice
  rw [mem_update, mem_update, mem_retarget, mem_singleton]
  grind

theorem target_splice (hs : w.Spliceable e c n b) : (w.splice e c n b).target x = some i ↔
      (i = n ∧ x = e) ∨ (i = c ∧ x = b) ∨ (x ≠ e ∧ x ≠ b ∧ w.target x = some i) := by
  have hbe : b ≠ e := fun heq => by simpa [heq, hs.target] using hs.edge
  unfold splice
  grind

theorem WellFormed.splice (h : w.WellFormed) (hs : w.Spliceable e c n b) : (w.splice e c n b).WellFormed where
  live_ins i hi := by
    obtain ⟨hin, hlive⟩ := not_or.1 hi
    refine List.eq_nil_iff_forall_not_mem.2 fun x hx => ?_
    rcases (mem_ins_splice h hs).1 hx with ⟨rfl, -⟩ | ⟨rfl, -⟩ | ⟨-, hx⟩
    · exact hin rfl
    · exact hlive (h.live_of_mem_ins ((h.mem_ins e i).2 hs.target))
    · exact hlive (h.live_of_mem_ins hx)
  live_outs i hi := by
    obtain ⟨hin, hlive⟩ := not_or.1 hi
    refine List.eq_nil_iff_forall_not_mem.2 fun x hx => ?_
    rcases (mem_outs_splice h hs).1 hx with ⟨rfl, -⟩ | hx
    · exact hin rfl
    · exact hlive (h.live_of_mem_outs hx)
  mem_ins x i := by
    have hb : w.target b ≠ some i := by
      rw [hs.edge]
      exact nofun
    rw [mem_ins_splice h hs, target_splice hs, h.mem_ins]
    grind
  source x i hx := by
    simp only [mem_outs_splice h hs]
    rcases (target_splice hs).1 hx with ⟨-, rfl⟩ | ⟨-, rfl⟩ | ⟨-, -, hx⟩
    · obtain ⟨j, hj⟩ := h.source x c hs.target
      exact ⟨j, .inr hj⟩
    · exact ⟨n, .inl ⟨rfl, rfl⟩⟩
    · obtain ⟨j, hj⟩ := h.source x i hx
      exact ⟨j, .inr hj⟩
  edge x i hx := by
    simp only [target_splice hs]
    rcases (mem_outs_splice h hs).1 hx with ⟨-, rfl⟩ | hmem
    · exact ⟨c, .inr (.inl ⟨rfl, rfl⟩)⟩
    · by_cases hxe : x = e
      · exact ⟨n, .inl ⟨rfl, hxe⟩⟩
      · obtain ⟨d, hd⟩ := h.edge x i hmem
        refine ⟨d, .inr (.inr ⟨hxe, ?_, hd⟩)⟩
        rintro rfl
        exact h.not_mem_outs hs.edge hmem
  unique x i j hi hj := by
    have hb : ∀ {i}, b ∉ w.outs i := h.not_mem_outs hs.edge
    rw [mem_outs_splice h hs] at hi hj
    have hunique := h.unique x i j
    grind
  nodup_ins := by
    refine nodup_update (nodup_retarget (h.not_mem_ins hs.edge) (h.nodup_ins c)) ?_
    exact nodup_update (nodup_singleton e) h.nodup_ins
  nodup_outs := nodup_update (nodup_singleton b) h.nodup_outs

theorem hop_splice (h : w.WellFormed) (hs : w.Spliceable e c n b) {d : ν} : (w.splice e c n b).Hop i x d ↔
      (i = n ∧ x = b ∧ d = c) ∨ (x = e ∧ d = n ∧ w.Hop i e c) ∨ (x ≠ e ∧ w.Hop i x d) := by
  have htarget := hs.target
  have hb : b ∉ w.outs i := h.not_mem_outs hs.edge
  have hn : w.outs n = [] := h.live_outs n hs.node
  have hbe : b ≠ e := fun heq => by simpa [heq, hs.target] using hs.edge
  unfold Hop
  rw [mem_outs_splice h hs, target_splice hs]
  grind

/-- The new node stands between the ranks of its neighbours. -/
theorem Acyclic.splice (hacyclic : w.Acyclic) (h : w.WellFormed) (hs : w.Spliceable e c n b) :
    (w.splice e c n b).Acyclic := by
  obtain ⟨rank, hrank⟩ := hacyclic
  obtain ⟨s, hsource⟩ := h.source e c hs.target
  have hsc : rank s < rank c := hrank s e c ⟨hsource, hs.target⟩
  have hlive : ∀ i x d, w.Hop i x d → i ≠ n ∧ d ≠ n := fun i x d hop => by
    refine ⟨?_, ?_⟩ <;> rintro rfl
    · exact hs.node (h.live_of_mem_outs hop.1)
    · exact hs.node (h.live_of_mem_ins ((h.mem_ins x d).2 hop.2))
  have hc : c ≠ n := (hlive s e c ⟨hsource, hs.target⟩).2
  refine ⟨fun j => if j = n then 2 * rank s + 1 else 2 * rank j, fun i x d hop => ?_⟩
  dsimp only
  rcases (hop_splice h hs).1 hop with ⟨rfl, -, rfl⟩ | ⟨-, rfl, hie⟩ | ⟨-, hop⟩
  · rw [if_pos rfl, if_neg hc]
    omega
  · obtain rfl : i = s := h.unique e i s hie.1 hsource
    rw [if_neg (hlive i e c hie).1, if_pos rfl]
    omega
  · have hlt := hrank i x d hop
    obtain ⟨hi, hd⟩ := hlive i x d hop
    rw [if_neg hi, if_neg hd]
    omega

/-- Nodes are put on an edge one after the other, each with the edge that leads on from it. -/
def spliceAll (w : Wiring ν ε) : ε → ν → List (ν × ε) → Wiring ν ε
  | _, _, [] => w
  | e, c, (n, b) :: news => (w.splice e c n b).spliceAll b c news

def SpliceableAll (w : Wiring ν ε) : ε → ν → List (ν × ε) → Prop
  | _, _, [] => True
  | e, c, (n, b) :: news => w.Spliceable e c n b ∧ (w.splice e c n b).SpliceableAll b c news

variable {news : List (ν × ε)}

theorem WellFormed.spliceAll (h : w.WellFormed) (hs : w.SpliceableAll e c news) :
    (w.spliceAll e c news).WellFormed := by
  induction news generalizing w e with
  | nil => exact h
  | cons new news ih => exact ih (h.splice hs.1) hs.2

theorem Acyclic.spliceAll (hacyclic : w.Acyclic) (h : w.WellFormed)
    (hs : w.SpliceableAll e c news) : (w.spliceAll e c news).Acyclic := by
  induction news generalizing w e with
  | nil => exact hacyclic
  | cons new news ih => exact ih (hacyclic.splice h hs.1) (h.splice hs.1) hs.2

theorem live_spliceAll : (w.spliceAll e c news).live i ↔ i ∈ news.map Prod.fst ∨ w.live i := by
  induction news generalizing w e with
  | nil => simp [spliceAll]
  | cons new news ih =>
    obtain ⟨n, b⟩ := new
    rw [spliceAll, ih, map_cons, mem_cons]
    show _ ∨ (i = n ∨ w.live i) ↔ _
    rw [← or_assoc, or_comm (a := i ∈ _)]

/-- Different new nodes and edges can be spliced in. -/
theorem spliceableAll_of_nodup (htarget : w.target e = some c)
    (hlive : ∀ new ∈ news, ¬ w.live new.1) (hedge : ∀ new ∈ news, w.target new.2 = none)
    (hnodes : (news.map Prod.fst).Nodup) (hedges : (news.map Prod.snd).Nodup) : w.SpliceableAll e c news := by
  induction news generalizing w e with
  | nil => trivial
  | cons new news ih =>
    obtain ⟨n, b⟩ := new
    rw [map_cons, nodup_cons] at hnodes hedges
    have hs : w.Spliceable e c n b :=
      ⟨htarget, hlive (n, b) mem_cons_self, hedge (n, b) mem_cons_self⟩
    refine ⟨hs, ih ?_ (fun new hnew => ?_) (fun new hnew => ?_) hnodes.2 hedges.2⟩
    · exact (target_splice hs).2 (.inr (.inl ⟨rfl, rfl⟩))
    · have hne : new.1 ≠ n := fun heq => hnodes.1 (List.mem_map.2 ⟨new, hnew, heq⟩)
      exact not_or.2 ⟨hne, hlive new (mem_cons_of_mem _ hnew)⟩
    · have hne : new.2 ≠ b := fun heq => hedges.1 (List.mem_map.2 ⟨new, hnew, heq⟩)
      have hnone := hedge new (mem_cons_of_mem _ hnew)
      have hne' : new.2 ≠ e := fun heq => by simp [heq, htarget] at hnone
      simp only [splice]
      rw [update_of_ne hne, update_of_ne hne']
      exact hnone

/-- A node is put behind an edge, with an edge that leads on from it. -/
def grow (w : Wiring ν ε) (above : ε) (n : ν) (b : ε) (next : ν) : Wiring ν ε where
  live i := i = n ∨ w.live i
  ins := Function.update w.ins n [above]
  outs := Function.update w.outs n [b]
  target := Function.update w.target b (some next)

/-- A chain is grown behind an edge, the last node of it leading to `c`. -/
def growAll (w : Wiring ν ε) (c : ν) : ε → List (ν × ε) → Wiring ν ε
  | _, [] => w
  | above, (n, b) :: news =>
    (w.grow above n b ((news.head?.map Prod.fst).getD c)).growAll c b news

def lastEdge : ε → List (ν × ε) → ε
  | e, [] => e
  | _, (_, b) :: news => lastEdge b news

section Grow

variable {news : List (ν × ε)} {above : ε}

theorem growAll_comm (change : Wiring ν ε → Wiring ν ε)
    (h : ∀ w above next, ∀ new ∈ news, (change w).grow above new.1 new.2 next = change (w.grow above new.1 new.2 next)) :
    (change w).growAll c above news = change (w.growAll c above news) := by
  induction news generalizing w above with
  | nil => rfl
  | cons new news ih =>
    obtain ⟨n, b⟩ := new
    rw [growAll, growAll, h w above _ (n, b) mem_cons_self]
    exact ih fun w above next new hnew => h w above next new (mem_cons_of_mem _ hnew)

theorem growAll_setTarget {dest : Option ν} (hx : ∀ new ∈ news, new.2 ≠ x) :
    (w.setTarget x dest).growAll c above news = (w.growAll c above news).setTarget x dest :=
  growAll_comm (·.setTarget x dest) fun w above next new hnew => by
    simp only [grow, setTarget, update_comm (hx new hnew)]

theorem growAll_setIns {edges : List ε} (hi : ∀ new ∈ news, new.1 ≠ i) :
    (w.setIns i edges).growAll c above news = (w.growAll c above news).setIns i edges :=
  growAll_comm (·.setIns i edges) fun w above next new hnew => by
    simp only [grow, setIns, update_comm (hi new hnew)]

theorem growAll_setOuts {edges : List ε} (hi : ∀ new ∈ news, new.1 ≠ i) :
    (w.setOuts i edges).growAll c above news = (w.growAll c above news).setOuts i edges :=
  growAll_comm (·.setOuts i edges) fun w above next new hnew => by
    simp only [grow, setOuts, update_comm (hi new hnew)]

theorem growAll_put {ins outs : List ε} (hi : ∀ new ∈ news, new.1 ≠ i) :
    (w.put i ins outs).growAll c above news = (w.growAll c above news).put i ins outs :=
  growAll_comm (·.put i ins outs) fun w above next new hnew => by
    simp only [grow, put, update_comm (hi new hnew), or_left_comm]

theorem target_growAll (hx : ∀ new ∈ news, new.2 ≠ x) : (w.growAll c above news).target x = w.target x := by
  induction news generalizing w above with
  | nil => rfl
  | cons new news ih =>
    obtain ⟨n, b⟩ := new
    rw [growAll, ih fun new hnew => hx new (mem_cons_of_mem _ hnew)]
    exact update_of_ne (hx (n, b) mem_cons_self).symm _ _

theorem retarget_retarget {edges : List ε} {old mid new : ε} (hmid : mid ∉ edges) :
    retarget (retarget edges old mid) mid new = retarget edges old new := by
  unfold retarget
  rw [map_map]
  refine map_congr_left fun y hy => ?_
  have hne : y ≠ mid := fun heq => hmid (heq ▸ hy)
  by_cases hold : y = old <;> simp [hold, hne]

/-- A chain grown behind an edge is spliced in when the edge leads to its first node and its last edge is
listed in place of that edge. -/
theorem spliceAll_eq {n : ν} {b : ε} (hne : ∀ new ∈ (n, b) :: news, new.2 ≠ e)
    (hc : ∀ new ∈ (n, b) :: news, new.1 ≠ c) (hins : ∀ new ∈ (n, b) :: news, new.2 ∉ w.ins c)
    (hnodup : (((n, b) :: news).map Prod.snd).Nodup) : ((w.growAll c e ((n, b) :: news)).setTarget e (some n)).setIns c
      (retarget (w.ins c) e (lastEdge e ((n, b) :: news))) = w.spliceAll e c ((n, b) :: news) := by
  induction news generalizing w e n b with
  | nil =>
    have hbe : b ≠ e := hne (n, b) mem_cons_self
    simp only [growAll, grow, setTarget, setIns, spliceAll, splice, lastEdge, List.head?_nil, Option.map_none,
      Option.getD_none, update_comm hbe]
  | cons next news ih =>
    obtain ⟨n', b'⟩ := next
    have hbe : b ≠ e := hne (n, b) mem_cons_self
    rw [map_cons, nodup_cons] at hnodup
    have hb : ∀ new ∈ (n', b') :: news, new.2 ≠ b := fun new hnew heq =>
      hnodup.1 (List.mem_map.2 ⟨new, hnew, heq⟩)
    have hrest : ∀ new ∈ (n', b') :: news, new ∈ (n, b) :: (n', b') :: news := fun new hnew =>
      mem_cons_of_mem _ hnew
    have hw : w.splice e c n b =
        (((w.grow e n b n').setTarget b (some c)).setTarget e (some n)).setIns c (retarget (w.ins c) e b) := by
      simp only [splice, grow, setTarget, setIns, update_idem, update_comm hbe]
    have hwins : (w.splice e c n b).ins c = retarget (w.ins c) e b := by
      simp only [splice, update_self]
    have hmid : ∀ new ∈ (n', b') :: news, new.2 ∉ (w.splice e c n b).ins c := fun new hnew hmem => by
      rw [hwins, mem_retarget] at hmem
      rcases hmem with ⟨-, hmem⟩ | ⟨heq, -⟩
      · exact hins new (hrest new hnew) hmem
      · exact hb new hnew heq
    have hself : update ((w.grow e n b n').growAll c b ((n', b') :: news)).target b (some n') =
        ((w.grow e n b n').growAll c b ((n', b') :: news)).target := by
      refine Function.update_eq_self_iff.2 ?_
      rw [target_growAll hb]
      simp only [grow, update_self]
    rw [spliceAll, ← ih hb (fun new hnew => hc new (hrest new hnew)) hmid hnodup.2, hwins,
      retarget_retarget (hins (n, b) mem_cons_self), hw, growAll_setIns fun new hnew => hc new (hrest new hnew),
      growAll_setTarget fun new hnew => hne new (hrest new hnew), growAll_setTarget hb]
    simp only [growAll, setTarget, setIns, lastEdge, List.head?_cons, Option.map_some, Option.getD_some,
      update_idem] at hself ⊢
    rw [update_comm hbe.symm, update_idem, hself]

end Grow

/-! ## Bypassing a node -/

/-- The node `n` is taken out: the edge `a` that led to it ends where the edge `b` that left it did. -/
def bypass (w : Wiring ν ε) (a : ε) (c n : ν) (b : ε) : Wiring ν ε where
  live i := i ≠ n ∧ w.live i
  ins := Function.update (Function.update w.ins n []) c (retarget (w.ins c) b a)
  outs := Function.update w.outs n []
  target := Function.update (Function.update w.target b none) a (some c)

section

variable (h : w.WellFormed) (hb : w.Bypassable a c n b)

include h hb

theorem mem_outs_bypass :
    x ∈ (w.bypass a c n b).outs i ↔ x ≠ b ∧ x ∈ w.outs i := by
  have hn : b ∈ w.outs n := hb.outs ▸ mem_singleton_self b
  have hunique := h.unique b i n
  have houts := hb.outs
  unfold bypass
  grind

theorem mem_ins_bypass :
    x ∈ (w.bypass a c n b).ins i ↔ (i = c ∧ x = a) ∨ (x ≠ a ∧ x ≠ b ∧ x ∈ w.ins i) := by
  have hc : b ∈ w.ins c := (h.mem_ins b c).2 hb.target
  have ha : ∀ j, a ∈ w.ins j → j = n := fun j hj => by
    rw [h.mem_ins, hb.target_in h] at hj
    exact (Option.some.inj hj).symm
  have hbi : ∀ j, b ∈ w.ins j → j = c := fun j hj => by
    rw [h.mem_ins, hb.target] at hj
    exact (Option.some.inj hj).symm
  have hins := hb.ins
  have hne := hb.ne
  unfold bypass
  rw [mem_update, mem_update, mem_retarget]
  grind

theorem target_bypass :
    (w.bypass a c n b).target x = some i ↔ (i = c ∧ x = a) ∨ (x ≠ a ∧ x ≠ b ∧ w.target x = some i) := by
  have hab := hb.edges_ne h
  unfold bypass
  grind

theorem WellFormed.bypass : (w.bypass a c n b).WellFormed where
  live_ins i hi := by
    refine List.eq_nil_iff_forall_not_mem.2 fun x hx => hi ?_
    rcases (mem_ins_bypass h hb).1 hx with ⟨rfl, -⟩ | ⟨hxa, -, hmem⟩
    · exact ⟨hb.ne, h.live_of_mem_ins ((h.mem_ins b i).2 hb.target)⟩
    · refine ⟨?_, h.live_of_mem_ins hmem⟩
      rintro rfl
      rw [hb.ins] at hmem
      exact hxa (List.mem_singleton.1 hmem)
  live_outs i hi := by
    refine List.eq_nil_iff_forall_not_mem.2 fun x hx => hi ?_
    obtain ⟨hxb, hmem⟩ := (mem_outs_bypass h hb).1 hx
    refine ⟨?_, h.live_of_mem_outs hmem⟩
    rintro rfl
    rw [hb.outs] at hmem
    exact hxb (List.mem_singleton.1 hmem)
  mem_ins x i := by rw [mem_ins_bypass h hb, target_bypass h hb, h.mem_ins]
  source x i hx := by
    simp only [mem_outs_bypass h hb]
    rcases (target_bypass h hb).1 hx with ⟨-, rfl⟩ | ⟨-, hxb, hx⟩
    · obtain ⟨j, hj⟩ := h.source x n (hb.target_in h)
      exact ⟨j, hb.edges_ne h, hj⟩
    · obtain ⟨j, hj⟩ := h.source x i hx
      exact ⟨j, hxb, hj⟩
  edge x i hx := by
    simp only [target_bypass h hb]
    obtain ⟨hxb, hmem⟩ := (mem_outs_bypass h hb).1 hx
    by_cases hxa : x = a
    · exact ⟨c, .inl ⟨rfl, hxa⟩⟩
    · obtain ⟨d, hd⟩ := h.edge x i hmem
      exact ⟨d, .inr ⟨hxa, hxb, hd⟩⟩
  unique x i j hi hj :=
    h.unique x i j ((mem_outs_bypass h hb).1 hi).2 ((mem_outs_bypass h hb).1 hj).2
  nodup_ins := by
    have ha : a ∉ w.ins c := fun hmem => by
      rw [h.mem_ins, hb.target_in h] at hmem
      exact hb.ne (Option.some.inj hmem).symm
    refine nodup_update (nodup_retarget ha (h.nodup_ins c)) ?_
    exact nodup_update nodup_nil h.nodup_ins
  nodup_outs := nodup_update nodup_nil h.nodup_outs

theorem hop_bypass {d : ν} : (w.bypass a c n b).Hop i x d ↔
      (x = a ∧ d = c ∧ w.Hop i a n) ∨ (x ≠ a ∧ x ≠ b ∧ w.Hop i x d) := by
  have htarget := hb.target_in h
  have hab := hb.edges_ne h
  unfold Hop
  rw [mem_outs_bypass h hb, target_bypass h hb]
  grind

end

theorem Acyclic.bypass (hacyclic : w.Acyclic) (h : w.WellFormed) (hb : w.Bypassable a c n b) :
    (w.bypass a c n b).Acyclic := by
  obtain ⟨rank, hrank⟩ := hacyclic
  refine ⟨rank, fun i x d hop => ?_⟩
  rcases (hop_bypass h hb).1 hop with ⟨-, rfl, hia⟩ | ⟨-, -, hold⟩
  · have hout : b ∈ w.outs n := hb.outs ▸ mem_singleton_self b
    exact Nat.lt_trans (hrank i a n hia) (hrank n b d ⟨hout, hb.target⟩)
  · exact hrank i x d hold

theorem bypass_eq (hne : c ≠ n) (hab : a ≠ b) (dest : Option ν) :
    ((((w.setTarget a dest).setTarget b none).setTarget a (some c)).setIns c
      (retarget (w.ins c) b a)).erase n = w.bypass a c n b := by
  simp only [bypass, erase, setIns, setTarget, update_comm hne, update_comm hab, update_idem]

/-! ## Adding nodes and edges -/

/-- A node with no edges is added. -/
def add (w : Wiring ν ε) (n : ν) : Wiring ν ε := { w with live := fun i => i = n ∨ w.live i }

omit [DecidableEq ε] [DecidableEq ν] in
theorem WellFormed.add (h : w.WellFormed) : (w.add n).WellFormed :=
  { h with
    live_ins := fun i hi => h.live_ins i (not_or.1 hi).2
    live_outs := fun i hi => h.live_outs i (not_or.1 hi).2 }

omit [DecidableEq ε] [DecidableEq ν] in
theorem Acyclic.add (h : w.Acyclic) : (w.add n).Acyclic := h

/-- An edge is added from `t` to `c`. -/
def connect (w : Wiring ν ε) (t : ν) (e : ε) (c : ν) : Wiring ν ε where
  live := w.live
  ins := Function.update w.ins c (w.ins c ++ [e])
  outs := Function.update w.outs t (w.outs t ++ [e])
  target := Function.update w.target e (some c)

omit [DecidableEq ε] in
theorem mem_update_append {f : ν → List ε} : x ∈ update f n (f n ++ [e]) i ↔ (i = n ∧ x = e) ∨ x ∈ f i := by
  grind

theorem target_connect (he : w.target e = none) :
    (w.connect t e c).target x = some i ↔ (i = c ∧ x = e) ∨ w.target x = some i := by
  unfold connect
  grind

theorem WellFormed.connect (h : w.WellFormed) (ht : w.live t) (hc : w.live c) (he : w.target e = none) :
    (w.connect t e c).WellFormed where
  live_ins i hi := by
    refine List.eq_nil_iff_forall_not_mem.2 fun x hx => hi ?_
    rcases mem_update_append.1 hx with ⟨rfl, -⟩ | hx
    · exact hc
    · exact h.live_of_mem_ins hx
  live_outs i hi := by
    refine List.eq_nil_iff_forall_not_mem.2 fun x hx => hi ?_
    rcases mem_update_append.1 hx with ⟨rfl, -⟩ | hx
    · exact ht
    · exact h.live_of_mem_outs hx
  mem_ins x i := by
    rw [target_connect he, ← h.mem_ins]
    exact mem_update_append
  source x i hx := by
    rcases (target_connect he).1 hx with ⟨-, rfl⟩ | hx
    · exact ⟨t, mem_update_append.2 (.inl ⟨rfl, rfl⟩)⟩
    · obtain ⟨j, hj⟩ := h.source x i hx
      exact ⟨j, mem_update_append.2 (.inr hj)⟩
  edge x i hx := by
    rcases mem_update_append.1 hx with ⟨-, rfl⟩ | hx
    · exact ⟨c, (target_connect he).2 (.inl ⟨rfl, rfl⟩)⟩
    · obtain ⟨d, hd⟩ := h.edge x i hx
      exact ⟨d, (target_connect he).2 (.inr hd)⟩
  unique x i j hi hj := by
    have hout : ∀ {i}, e ∉ w.outs i := h.not_mem_outs he
    have hunique := h.unique x i j
    rcases mem_update_append.1 hi with ⟨rfl, rfl⟩ | hi' <;> rcases mem_update_append.1 hj with ⟨rfl, hx⟩ | hj'
    · rfl
    · exact absurd hj' hout
    · exact absurd (hx ▸ hi') hout
    · exact hunique hi' hj'
  nodup_ins := by
    refine nodup_update ?_ h.nodup_ins
    exact List.nodup_append.2 ⟨h.nodup_ins c, nodup_singleton e, by
      rintro x hx y hy rfl
      exact h.not_mem_ins he (List.mem_singleton.1 hy ▸ hx)⟩
  nodup_outs := by
    refine nodup_update ?_ h.nodup_outs
    exact List.nodup_append.2 ⟨h.nodup_outs t, nodup_singleton e, by
      rintro x hx y hy rfl
      exact h.not_mem_outs he (List.mem_singleton.1 hy ▸ hx)⟩

theorem connect_root_eq (h : w.WellFormed) (hn : ¬ w.live n) :
    ((w.setTarget e (some c)).put n [] [e]).setIns c (w.ins c ++ [e]) = (w.add n).connect n e c := by
  simp only [connect, add, put, setIns, setTarget, h.live_outs n hn, nil_append]
  congr 1
  rw [← h.live_ins n hn, update_eq_self]

theorem connect_leaf_eq (h : w.WellFormed) (hn : ¬ w.live n) :
    ((w.setTarget e (some n)).put n [e] []).setOuts t (w.outs t ++ [e]) = (w.add n).connect t e n := by
  simp only [connect, add, put, setOuts, setTarget, h.live_ins n hn, nil_append]
  congr 1
  rw [← h.live_outs n hn, update_eq_self]

/-- The changes that attach a leaf by a chain. -/
theorem branch_eq {news : List (ν × ε)} (h : w.WellFormed) (hn : ¬ w.live n)
    (hnode : ∀ new ∈ news, new.1 ≠ n ∧ new.1 ≠ t) (hedge : ∀ new ∈ news, new.2 ≠ e)
    (hnodup : (news.map Prod.snd).Nodup) :
    (((w.setTarget e (some ((news.head?.map Prod.fst).getD n))).growAll n e news).put n
        [lastEdge e news] []).setOuts t (w.outs t ++ [e]) = ((w.add n).connect t e n).spliceAll e n news := by
  rcases news with _ | ⟨⟨m, b⟩, news⟩
  · exact connect_leaf_eq h hn
  · have hins : ((w.add n).connect t e n).ins n = [e] := by
      simp only [connect, add, update_self, h.live_ins n hn, nil_append]
    have hlast : ∀ new ∈ (m, b) :: news, new.2 ∉ ((w.add n).connect t e n).ins n := fun new hnew => by
      rw [hins, mem_singleton]
      exact hedge new hnew
    rw [← spliceAll_eq hedge (fun new hnew => (hnode new hnew).1) hlast hnodup, hins, ← connect_leaf_eq h hn,
      growAll_setOuts fun new hnew => (hnode new hnew).2, growAll_put fun new hnew => (hnode new hnew).1,
      growAll_setTarget hedge, growAll_setTarget hedge]
    simp only [setTarget, setIns, setOuts, put, retarget, map_cons, map_nil, if_pos, update_idem,
      List.head?_cons, Option.map_some, Option.getD_some]

theorem hop_connect (h : w.WellFormed) (he : w.target e = none) {d : ν} :
    (w.connect t e c).Hop i x d ↔ (i = t ∧ x = e ∧ d = c) ∨ w.Hop i x d := by
  have hout : e ∉ w.outs i := h.not_mem_outs he
  have hmem : x ∈ (w.connect t e c).outs i ↔ (i = t ∧ x = e) ∨ x ∈ w.outs i := mem_update_append
  unfold Hop
  rw [hmem, target_connect he]
  grind

theorem Acyclic.connect_leaf (hacyclic : w.Acyclic) (h : w.WellFormed) (he : w.target e = none) (hne : t ≠ c)
    (hc : w.outs c = []) : (w.connect t e c).Acyclic := by
  obtain ⟨rank, hrank⟩ := hacyclic
  refine ⟨fun i => if i = c then max (rank c) (rank t + 1) else rank i, fun i x d hop => ?_⟩
  dsimp only
  rcases (hop_connect h he).1 hop with ⟨rfl, -, rfl⟩ | hold
  · rw [if_neg hne, if_pos rfl]
    omega
  · have hic : i ≠ c := by
      rintro rfl
      have hmem := hold.1
      rw [hc] at hmem
      cases hmem
    have hlt := hrank i x d hold
    rw [if_neg hic]
    split_ifs with hd
    · subst hd
      omega
    · exact hlt

theorem Acyclic.connect_root (hacyclic : w.Acyclic) (h : w.WellFormed) (he : w.target e = none) (hne : t ≠ c)
    (ht : w.ins t = []) : (w.connect t e c).Acyclic := by
  obtain ⟨rank, hrank⟩ := hacyclic
  refine ⟨fun i => if i = t then 0 else rank i + 1, fun i x d hop => ?_⟩
  dsimp only
  rcases (hop_connect h he).1 hop with ⟨rfl, -, rfl⟩ | hold
  · rw [if_pos rfl, if_neg hne.symm]
    omega
  · have hdt : d ≠ t := by
      rintro rfl
      have hmem := (h.mem_ins x d).2 hold.2
      rw [ht] at hmem
      cases hmem
    have hlt := hrank i x d hold
    split_ifs <;> omega

/-! ## Dropping a branch -/

/-- A branch: nodes and edges that only the edge `top` from `t` leads to, and that lead nowhere else. -/
structure Branch (w : Wiring ν ε) (t : ν) (top : ε) (nodes : List ν) (edges : List ε) : Prop where
  /-- The edges are those that end at its nodes. -/
  mem_edges : ∀ x i, w.target x = some i → (x ∈ edges ↔ i ∈ nodes)
  /-- What leaves its nodes stays in it. -/
  out : ∀ i ∈ nodes, ∀ x ∈ w.outs i, x ∈ edges
  one : ∀ x ∈ edges, ∀ i, i ∉ nodes → x ∈ w.outs i → x = top
  top_mem : top ∈ edges
  source : top ∈ w.outs t
  apart : t ∉ nodes

def dropBranch (w : Wiring ν ε) (t : ν) (top : ε) (nodes : List ν) (edges : List ε) : Wiring ν ε where
  live i := i ∉ nodes ∧ w.live i
  ins i := if i ∈ nodes then [] else w.ins i
  outs i := if i ∈ nodes then [] else if i = t then (w.outs t).filter (· ≠ top) else w.outs i
  target x := if x ∈ edges then none else w.target x

section Branch

variable {top : ε} {nodes : List ν} {edges : List ε}

theorem target_dropBranch : (w.dropBranch t top nodes edges).target x = some i ↔ x ∉ edges ∧ w.target x = some i := by
  unfold dropBranch
  dsimp only
  split_ifs with hx <;> simp [hx]

section

variable (h : w.WellFormed) (hb : w.Branch t top nodes edges)

include h hb

theorem mem_ins_dropBranch :
    x ∈ (w.dropBranch t top nodes edges).ins i ↔ x ∉ edges ∧ x ∈ w.ins i := by
  have hmem : x ∈ w.ins i → (x ∈ edges ↔ i ∈ nodes) := fun hx => hb.mem_edges x i ((h.mem_ins x i).1 hx)
  unfold dropBranch
  dsimp only
  split_ifs with hi
  · simp only [not_mem_nil, false_iff, not_and]
    exact fun hx hin => hx ((hmem hin).2 hi)
  · exact ⟨fun hin => ⟨fun hx => hi ((hmem hin).1 hx), hin⟩, And.right⟩

theorem mem_outs_dropBranch :
    x ∈ (w.dropBranch t top nodes edges).outs i ↔ x ∉ edges ∧ x ∈ w.outs i := by
  have hmem : x ∈ w.outs i → i ∉ nodes → x ∈ edges → x = top ∧ i = t := fun hout hi hx => by
    obtain rfl := hb.one x hx i hi hout
    exact ⟨rfl, h.unique x i t hout hb.source⟩
  unfold dropBranch
  dsimp only
  split_ifs with hi hit
  · simp only [not_mem_nil, false_iff, not_and]
    exact fun hx hout => hx (hb.out i hi x hout)
  · subst hit
    rw [List.mem_filter, decide_eq_true_iff]
    constructor
    · rintro ⟨hout, hne⟩
      exact ⟨fun hx => hne (hmem hout hi hx).1, hout⟩
    · rintro ⟨hx, hout⟩
      refine ⟨hout, ?_⟩
      rintro rfl
      exact hx hb.top_mem
  · exact ⟨fun hout => ⟨fun hx => hit (hmem hout hi hx).2, hout⟩, And.right⟩

theorem WellFormed.dropBranch :
    (w.dropBranch t top nodes edges).WellFormed where
  live_ins i hi := by
    refine List.eq_nil_iff_forall_not_mem.2 fun x hx => hi ?_
    obtain ⟨hxe, hmem⟩ := (mem_ins_dropBranch h hb).1 hx
    exact ⟨fun hin => hxe ((hb.mem_edges x i ((h.mem_ins x i).1 hmem)).2 hin), h.live_of_mem_ins hmem⟩
  live_outs i hi := by
    refine List.eq_nil_iff_forall_not_mem.2 fun x hx => hi ?_
    obtain ⟨hxe, hmem⟩ := (mem_outs_dropBranch h hb).1 hx
    exact ⟨fun hin => hxe (hb.out i hin x hmem), h.live_of_mem_outs hmem⟩
  mem_ins x i := by rw [mem_ins_dropBranch h hb, target_dropBranch, h.mem_ins]
  source x i hx := by
    obtain ⟨hxe, hx⟩ := target_dropBranch.1 hx
    obtain ⟨j, hj⟩ := h.source x i hx
    exact ⟨j, (mem_outs_dropBranch h hb).2 ⟨hxe, hj⟩⟩
  edge x i hx := by
    obtain ⟨hxe, hmem⟩ := (mem_outs_dropBranch h hb).1 hx
    obtain ⟨d, hd⟩ := h.edge x i hmem
    exact ⟨d, target_dropBranch.2 ⟨hxe, hd⟩⟩
  unique x i j hi hj :=
    h.unique x i j ((mem_outs_dropBranch h hb).1 hi).2 ((mem_outs_dropBranch h hb).1 hj).2
  nodup_ins i := by
    unfold Wiring.dropBranch
    dsimp only
    split_ifs
    · exact nodup_nil
    · exact h.nodup_ins i
  nodup_outs i := by
    unfold Wiring.dropBranch
    dsimp only
    split_ifs
    · exact nodup_nil
    · exact (h.nodup_outs t).filter _
    · exact h.nodup_outs i

theorem hop_dropBranch {d : ν} :
    (w.dropBranch t top nodes edges).Hop i x d ↔ x ∉ edges ∧ w.Hop i x d := by
  unfold Hop
  rw [mem_outs_dropBranch h hb, target_dropBranch]
  grind

end

theorem Acyclic.dropBranch (hacyclic : w.Acyclic) (h : w.WellFormed) (hb : w.Branch t top nodes edges) :
    (w.dropBranch t top nodes edges).Acyclic := by
  obtain ⟨rank, hrank⟩ := hacyclic
  exact ⟨rank, fun i x d hop => hrank i x d ((hop_dropBranch h hb).1 hop).2⟩

omit [DecidableEq ν] [DecidableEq ε] in
/-- A chain that hangs down: every node has the edge into it, and the next edge out of it. -/
def Dangles (w : Wiring ν ε) : List (ε × ν) → Prop
  | [] => True
  | (e, i) :: rest => w.ins i = [e] ∧ w.outs i = (rest.head?.map Prod.fst).toList ∧ w.Dangles rest

section Dangles

omit [DecidableEq ν] [DecidableEq ε]

variable {steps rest : List (ε × ν)}

theorem Dangles.ins (h : w.Dangles steps) {step : ε × ν} (hstep : step ∈ steps) : w.ins step.2 = [step.1] := by
  induction steps with
  | nil => cases hstep
  | cons first steps ih =>
    rcases List.mem_cons.1 hstep with rfl | hstep
    · exact h.1
    · exact ih h.2.2 hstep

theorem Dangles.outs (h : w.Dangles steps) {step : ε × ν} (hstep : step ∈ steps) (hx : x ∈ w.outs step.2) :
    x ∈ steps.tail.map Prod.fst := by
  induction steps with
  | nil => cases hstep
  | cons first steps ih =>
    rcases List.mem_cons.1 hstep with rfl | hstep
    · rw [h.2.1, Option.mem_toList] at hx
      obtain ⟨next, hnext, rfl⟩ := Option.map_eq_some_iff.1 hx
      exact List.mem_map.2 ⟨next, mem_of_head? hnext, rfl⟩
    · obtain ⟨next, hnext, rfl⟩ := List.mem_map.1 (ih h.2.2 hstep)
      exact List.mem_map.2 ⟨next, mem_of_mem_tail hnext, rfl⟩

theorem Dangles.exists_source (h : w.Dangles steps) (hx : x ∈ steps.tail.map Prod.fst) :
    ∃ step ∈ steps, x ∈ w.outs step.2 := by
  induction steps with
  | nil => cases hx
  | cons first steps ih =>
    rcases steps with _ | ⟨next, steps⟩
    · cases hx
    · rcases List.mem_cons.1 hx with rfl | hx
      · refine ⟨first, mem_cons_self, ?_⟩
        rw [h.2.1]
        exact mem_singleton_self _
      · obtain ⟨step, hstep, hout⟩ := ih h.2.2 hx
        exact ⟨step, mem_cons_of_mem _ hstep, hout⟩

theorem Dangles.rank_lt {rank : ν → Nat} (hrank : ∀ i e c, w.Hop i e c → rank i < rank c) (h : w.WellFormed)
    (hd : w.Dangles steps) (htop : ∀ step, steps.head? = some step → step.1 ∈ w.outs t) :
    ∀ step ∈ steps, rank t < rank step.2 := by
  induction steps generalizing t with
  | nil => exact nofun
  | cons first steps ih =>
    have hfirst : rank t < rank first.2 := by
      refine hrank t first.1 first.2 ⟨htop first rfl, (h.mem_ins _ _).1 ?_⟩
      rw [hd.1]
      exact mem_singleton_self _
    have hrest := ih (t := first.2) hd.2.2 fun step hstep => by
      rw [hd.2.1, hstep]
      exact mem_singleton_self _
    intro step hstep
    rcases List.mem_cons.1 hstep with rfl | hstep
    · exact hfirst
    · exact Nat.lt_trans hfirst (hrest step hstep)

theorem Dangles.nodup (hacyclic : w.Acyclic) (h : w.WellFormed) (hd : w.Dangles steps) :
    (steps.map Prod.snd).Nodup := by
  obtain ⟨rank, hrank⟩ := hacyclic
  induction steps with
  | nil => exact nodup_nil
  | cons first steps ih =>
    refine List.nodup_cons.2 ⟨fun hmem => ?_, ih hd.2.2⟩
    obtain ⟨step, hstep, heq⟩ := List.mem_map.1 hmem
    have hlt := hd.2.2.rank_lt hrank h (t := first.2) (fun step hstep => by
      rw [hd.2.1, hstep]
      exact mem_singleton_self _) step hstep
    rw [heq] at hlt
    exact Nat.lt_irrefl _ hlt

/-- A chain that hangs at a node is a branch of it. -/
theorem Dangles.branch (hacyclic : w.Acyclic) (h : w.WellFormed) (hd : w.Dangles ((e, n) :: rest))
    (htop : e ∈ w.outs t) : w.Branch t e (((e, n) :: rest).map Prod.snd) (((e, n) :: rest).map Prod.fst) where
  mem_edges x i hx := by
    have htarget : ∀ step ∈ (e, n) :: rest, w.target step.1 = some step.2 := fun step hstep => by
      rw [← h.mem_ins, hd.ins hstep]
      exact mem_singleton_self _
    constructor
    · intro hmem
      obtain ⟨step, hstep, rfl⟩ := List.mem_map.1 hmem
      rw [htarget step hstep] at hx
      exact List.mem_map.2 ⟨step, hstep, Option.some.inj hx⟩
    · intro hmem
      obtain ⟨step, hstep, rfl⟩ := List.mem_map.1 hmem
      have hin := (h.mem_ins x step.2).2 hx
      rw [hd.ins hstep, mem_singleton] at hin
      exact List.mem_map.2 ⟨step, hstep, hin.symm⟩
  out i hi x hx := by
    obtain ⟨step, hstep, rfl⟩ := List.mem_map.1 hi
    exact mem_cons_of_mem _ (hd.outs hstep hx)
  one x hx i hi hout := by
    rcases List.mem_cons.1 hx with rfl | hx
    · rfl
    · obtain ⟨step, hstep, hsource⟩ := hd.exists_source hx
      obtain rfl := h.unique x i step.2 hout hsource
      exact absurd (List.mem_map.2 ⟨step, hstep, rfl⟩) hi
  top_mem := mem_cons_self
  source := htop
  apart hmem := by
    obtain ⟨rank, hrank⟩ := hacyclic
    obtain ⟨step, hstep, rfl⟩ := List.mem_map.1 hmem
    have hlt := hd.rank_lt hrank h (fun first hfirst => by
      obtain rfl := Option.some.inj hfirst
      exact htop) step hstep
    exact Nat.lt_irrefl _ hlt

end Dangles

/-- Nodes and edges are taken out. -/
def eraseAll (w : Wiring ν ε) (nodes : List ν) (edges : List ε) : Wiring ν ε where
  live i := i ∉ nodes ∧ w.live i
  ins i := if i ∈ nodes then [] else w.ins i
  outs i := if i ∈ nodes then [] else w.outs i
  target x := if x ∈ edges then none else w.target x

theorem dropBranch_eq (ht : t ∉ nodes) : (w.eraseAll nodes edges).setOuts t ((w.outs t).filter (· ≠ top)) =
    w.dropBranch t top nodes edges := by
  simp only [dropBranch, eraseAll, setOuts]
  congr 1
  funext i
  grind

end Branch

end Wiring
