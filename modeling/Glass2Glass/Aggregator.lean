import Glass2Glass.Lib.StableMerge

/-!
# The collector of a muxer

`InputAggregator` (`g2g-core/src/aggregator.rs`): items queued for every input, and `take_earliest_by`, the merge by
a key that a muxer releases them with. What is released never depends on when the items of the inputs come in: it is
the stable merge of the inputs.
-/

namespace Glass2Glass

open List Option

open StableMerge (stableMerge)

variable {T κ : Type} [LinearOrder κ]

/-- Items queued for every input, and which inputs have ended. Without a depth the queues have no bound. -/
structure InputAggregator (T : Type) where
  queues : List (List T)
  ended : List Bool
  maxDepth : Option Nat
  dropped : Nat

namespace InputAggregator

def new (inputs : Nat) : InputAggregator T := ⟨List.replicate inputs [], List.replicate inputs false, none, 0⟩

variable (a : InputAggregator T)

def withMaxDepth (depth : Nat) : InputAggregator T := { a with maxDepth := some (max depth 1) }

def queue (input : Nat) : List T := a.queues.getD input []

def isEnded (input : Nat) : Bool := a.ended.getD input false

/-- Queue an item, and drop the oldest ones past the depth. -/
def push (input : Nat) (item : T) : InputAggregator T :=
  let q := a.queue input ++ [item]
  let excess := a.maxDepth.elim 0 fun depth => q.length - depth
  { a with queues := a.queues.set input (q.drop excess), dropped := a.dropped + excess }

def markEnded (input : Nat) : InputAggregator T := { a with ended := a.ended.set input true }

/-- The inputs that can still give an item: all but those that have ended and have none. -/
def contributors : List Nat :=
  (List.range a.queues.length).filter fun i => !(a.isEnded i && (a.queue i).isEmpty)

/-- The first one with the least key. -/
def minByKey (key : T → κ) : List (Nat × T) → Option (Nat × T)
  | [] => none
  | head :: heads => some (heads.foldl (fun best b => if key b.2 < key best.2 then b else best) head)

/-- Release the earliest item, unless an input that can still give one has none yet. -/
def takeEarliestBy (key : T → κ) (a : InputAggregator T) : Option (Nat × T) × InputAggregator T :=
  if a.contributors.isEmpty || a.contributors.any fun i => (a.queue i).isEmpty then (none, a)
  else
    match minByKey key (a.contributors.filterMap fun i => (a.queue i).head?.map fun item => (i, item)) with
    | none => (none, a)
    | some winner => (some winner, { a with queues := a.queues.set winner.1 (a.queue winner.1).tail })

def isDrained : Bool := a.ended.all id && a.queues.all List.isEmpty

/-- Release items until none is left to release. -/
def drain (key : T → κ) : Nat → InputAggregator T → List (Nat × T) × InputAggregator T
  | 0, a => ([], a)
  | fuel + 1, a =>
    match a.takeEarliestBy key with
    | (none, a) => ([], a)
    | (some item, a) => ((item :: (drain key fuel a).1), (drain key fuel a).2)

/-! ## The least of the heads -/

/-- The winner is one of the heads, those before it have greater keys, and none has a smaller one. -/
theorem minByKey_spec {key : T → κ} {heads : List (Nat × T)} {winner : Nat × T} (h : minByKey key heads = some winner) :
    ∃ front rear, heads = front ++ winner :: rear ∧ (∀ b ∈ front, key winner.2 < key b.2) ∧
      ∀ b ∈ rear, key winner.2 ≤ key b.2 := by
  have hfold : ∀ (heads front rear : List (Nat × T)) (best : Nat × T),
      (∀ b ∈ front, key best.2 < key b.2) → (∀ b ∈ rear, key best.2 ≤ key b.2) →
      ∃ front' rear', front ++ best :: rear ++ heads = front' ++
          heads.foldl (fun best b => if key b.2 < key best.2 then b else best) best :: rear' ∧
        (∀ b ∈ front', key (heads.foldl (fun best b => if key b.2 < key best.2 then b else best) best).2 < key b.2) ∧
        ∀ b ∈ rear', key (heads.foldl (fun best b => if key b.2 < key best.2 then b else best) best).2 ≤ key b.2 := by
    intro heads
    induction heads with
    | nil => exact fun front rear best hfront hrear => ⟨front, rear, append_nil _, hfront, hrear⟩
    | cons b heads ih =>
      intro front rear best hfront hrear
      rw [foldl_cons]
      by_cases hlt : key b.2 < key best.2
      · rw [if_pos hlt]
        obtain ⟨front', rear', hsplit, hfront', hrear'⟩ := ih (front ++ best :: rear) [] b (fun c hc => by
            rcases List.mem_append.1 hc with hc | hc
            · exact hlt.trans (hfront c hc)
            · rcases List.mem_cons.1 hc with rfl | hc
              · exact hlt
              · exact hlt.trans_le (hrear c hc)) nofun
        refine ⟨front', rear', ?_, hfront', hrear'⟩
        rw [← hsplit, append_assoc (front ++ best :: rear)]
        rfl
      · rw [if_neg hlt]
        obtain ⟨front', rear', hsplit, hfront', hrear'⟩ := ih front (rear ++ [b]) best hfront fun c hc => by
          rcases List.mem_append.1 hc with hc | hc
          · exact hrear c hc
          · rw [List.mem_singleton.1 hc]
            exact not_lt.1 hlt
        refine ⟨front', rear', ?_, hfront', hrear'⟩
        rw [← hsplit]
        simp only [append_assoc, cons_append, nil_append]
  cases heads with
  | nil => exact absurd h nofun
  | cons head heads =>
    obtain rfl := Option.some.inj h
    exact hfold heads [] [] head nofun nofun

end InputAggregator

/-! ## Runs -/

/-- A run: the aggregator, the items that the inputs have still to deliver, and what was released. -/
structure MergeRun (T : Type) where
  agg : InputAggregator T
  waiting : List (List T)
  released : List (Nat × T)

namespace MergeRun

/-- Every input delivers its items in their order and ends behind the last one; items are taken in between. -/
inductive Step (key : T → κ) : MergeRun T → MergeRun T → Prop
  | push {r : MergeRun T} {i : Nat} {item : T} {items : List T} (h : r.waiting[i]? = some (item :: items)) :
      Step key r ⟨r.agg.push i item, r.waiting.set i items, r.released⟩
  | markEnded {r : MergeRun T} {i : Nat} (h : r.waiting[i]? = some []) : Step key r { r with agg := r.agg.markEnded i }
  | take (r : MergeRun T) :
      Step key r ⟨(r.agg.takeEarliestBy key).2, r.waiting, r.released ++ (r.agg.takeEarliestBy key).1.toList⟩

def start (inputs : List (List T)) : MergeRun T := ⟨.new inputs.length, inputs, []⟩

/-- What an input has still to give: what is queued, and what it has still to deliver. -/
def left (r : MergeRun T) (i : Nat) : List T := r.agg.queue i ++ r.waiting.getD i []

def lefts (r : MergeRun T) : List (List T) := (List.range r.agg.queues.length).map r.left

/-- What holds in a run over inputs whose keys do not go down. -/
structure Inv (key : T → κ) (inputs : List (List T)) (r : MergeRun T) : Prop where
  queues : r.agg.queues.length = inputs.length
  ended : r.agg.ended.length = inputs.length
  unbounded : r.agg.maxDepth = none
  /-- An input that has ended has nothing more to deliver. -/
  delivered : ∀ i, r.agg.isEnded i = true → r.waiting.getD i [] = []
  waiting : r.waiting.length = inputs.length
  sorted : ∀ i, (r.left i).Pairwise fun a b => key a ≤ key b
  merged : r.released ++ stableMerge key r.lefts = stableMerge key inputs

variable {key : T → κ} {inputs : List (List T)} {r r' : MergeRun T} {i : Nat}

theorem getD_set_self {α : Type} {l : List α} {a d : α} (h : i < l.length) : (l.set i a).getD i d = a := by
  rw [getD_eq_getElem?_getD, List.getElem?_set_self h]
  rfl

theorem getD_set_ne {α : Type} {l : List α} {j : Nat} {a d : α} (h : i ≠ j) : (l.set i a).getD j d = l.getD j d := by
  rw [getD_eq_getElem?_getD, List.getElem?_set_ne h, getD_eq_getElem?_getD]

/-! ### Deliveries and ends -/

section Delivery

variable {a : InputAggregator T} {waiting : List (List T)} {item : T} {items : List T}

/-- An input that delivers an item has as much left as before. -/
theorem queue_push (hunbounded : a.maxDepth = none) (hlength : waiting.length = a.queues.length)
    (hwaiting : waiting[i]? = some (item :: items)) (j : Nat) :
    (a.push i item).queue j ++ (waiting.set i items).getD j [] = a.queue j ++ waiting.getD j [] := by
  have hi : i < waiting.length := (List.getElem?_eq_some_iff.1 hwaiting).1
  unfold InputAggregator.push InputAggregator.queue
  dsimp only
  rw [hunbounded, elim_none, drop_zero]
  by_cases hij : i = j
  · subst hij
    rw [getD_set_self (hlength ▸ hi), getD_set_self hi, append_assoc, @getD_eq_getElem?_getD _ waiting, hwaiting]
    rfl
  · rw [getD_set_ne hij, getD_set_ne hij]

theorem delivered_push (hdelivered : ∀ j, a.isEnded j = true → waiting.getD j [] = [])
    (hwaiting : waiting[i]? = some (item :: items)) (j : Nat) (hj : (a.push i item).isEnded j = true) :
    (waiting.set i items).getD j [] = [] := by
  have hnil := hdelivered j hj
  by_cases hij : i = j
  · rw [← hij, getD_eq_getElem?_getD, hwaiting] at hnil
    exact absurd hnil (cons_ne_nil _ _)
  · rw [getD_set_ne hij]
    exact hnil

theorem delivered_markEnded (hdelivered : ∀ j, a.isEnded j = true → waiting.getD j [] = [])
    (hwaiting : waiting[i]? = some []) (j : Nat) (hj : (a.markEnded i).isEnded j = true) : waiting.getD j [] = [] := by
  by_cases hij : i = j
  · rw [← hij, getD_eq_getElem?_getD, hwaiting]
    rfl
  · refine hdelivered j ?_
    unfold InputAggregator.isEnded InputAggregator.markEnded at hj
    rw [getD_set_ne hij] at hj
    exact hj

theorem isEnded_new (inputs : Nat) : InputAggregator.isEnded (.new inputs : InputAggregator T) i = false := by
  unfold InputAggregator.isEnded InputAggregator.new
  rw [getD_eq_getElem?_getD, List.getElem?_replicate]
  split_ifs <;> rfl

theorem queue_new (inputs : Nat) : InputAggregator.queue (.new inputs : InputAggregator T) i = [] := by
  unfold InputAggregator.queue InputAggregator.new
  rw [getD_eq_getElem?_getD, List.getElem?_replicate]
  split_ifs <;> rfl

end Delivery

theorem inv_start (hsorted : ∀ q ∈ inputs, q.Pairwise fun a b => key a ≤ key b) : Inv key inputs (start inputs) := by
  have hleft : ∀ i, (start inputs).left i = inputs.getD i [] := fun i => by
    unfold left start
    rw [queue_new, nil_append]
  refine ⟨length_replicate, length_replicate, rfl, fun i h => absurd ((isEnded_new _).symm.trans h) nofun, rfl,
    fun i => ?_, ?_⟩
  · rw [hleft, getD_eq_getElem?_getD]
    rcases h : inputs[i]? with _ | q
    · exact List.Pairwise.nil
    · exact hsorted q (mem_of_getElem? h)
  · have hlefts : (start inputs).lefts = inputs := by
      refine ext_getElem? fun i => ?_
      unfold lefts
      rw [List.getElem?_map, start, InputAggregator.new, length_replicate]
      rcases Nat.lt_or_ge i inputs.length with hi | hi
      · rw [List.getElem?_range hi, List.getElem?_eq_getElem hi]
        refine congrArg some ((hleft i).trans ?_)
        rw [getD_eq_getElem?_getD, List.getElem?_eq_getElem hi]
        rfl
      · rw [List.getElem?_eq_none hi, List.getElem?_eq_none (by rw [length_range]; exact hi)]
        rfl
    rw [hlefts]
    rfl

theorem getElem?_lefts (r : MergeRun T) (i : Nat) :
    r.lefts[i]? = if i < r.agg.queues.length then some (r.left i) else none := by
  unfold lefts
  rw [List.getElem?_map]
  split_ifs with hi
  · rw [List.getElem?_range hi]
    rfl
  · rw [List.getElem?_eq_none (by rw [length_range]; omega)]
    rfl

variable {item : T}

theorem Inv.push {items : List T} (h : r.Inv key inputs) (hwaiting : r.waiting[i]? = some (item :: items)) :
    Inv key inputs ⟨r.agg.push i item, r.waiting.set i items, r.released⟩ := by
  have hleft : ∀ j, left ⟨r.agg.push i item, r.waiting.set i items, r.released⟩ j = r.left j :=
    queue_push h.unbounded (h.waiting.trans h.queues.symm) hwaiting
  have hlength : (r.agg.push i item).queues.length = r.agg.queues.length := length_set
  refine ⟨hlength.trans h.queues, h.ended, h.unbounded, delivered_push h.delivered hwaiting,
    length_set.trans h.waiting, fun j => ?_, ?_⟩
  · rw [hleft]
    exact h.sorted j
  · have hlefts : lefts ⟨r.agg.push i item, r.waiting.set i items, r.released⟩ = r.lefts := by
      unfold lefts
      rw [hlength]
      exact map_congr_left fun j _ => hleft j
    rw [hlefts]
    exact h.merged

theorem Inv.markEnded (h : r.Inv key inputs) (hwaiting : r.waiting[i]? = some []) :
    Inv key inputs { r with agg := r.agg.markEnded i } :=
  ⟨h.queues, List.length_set.trans h.ended, h.unbounded, delivered_markEnded h.delivered hwaiting, h.waiting, h.sorted,
    h.merged⟩

/-! ### Taking -/

/-- The heads of the inputs that can still give an item. -/
def heads (a : InputAggregator T) : List (Nat × T) :=
  a.contributors.filterMap fun i => (a.queue i).head?.map fun item => (i, item)

theorem mem_contributors {a : InputAggregator T} :
    i ∈ a.contributors ↔ i < a.queues.length ∧ ¬(a.isEnded i = true ∧ a.queue i = []) := by
  unfold InputAggregator.contributors
  rw [List.mem_filter, mem_range, Bool.not_eq_true', Bool.and_eq_false_iff, not_and_or, isEmpty_eq_false_iff,
    Bool.not_eq_true]

theorem mem_contributors_of_left (h : r.Inv key inputs) (hi : i < r.agg.queues.length) (hleft : r.left i ≠ []) :
    i ∈ r.agg.contributors := by
  refine mem_contributors.2 ⟨hi, fun hended => hleft ?_⟩
  unfold left
  rw [hended.2, h.delivered i hended.1]
  rfl

theorem mem_heads {a : InputAggregator T} :
    (i, item) ∈ heads a ↔ i ∈ a.contributors ∧ (a.queue i).head? = some item := by
  unfold heads
  rw [mem_filterMap]
  constructor
  · rintro ⟨j, hj, heq⟩
    obtain ⟨item', hitem, hpair⟩ := Option.map_eq_some_iff.1 heq
    obtain ⟨rfl, rfl⟩ := Prod.mk.inj hpair
    exact ⟨hj, hitem⟩
  · rintro ⟨hi, hitem⟩
    exact ⟨i, hi, by rw [hitem]; rfl⟩

theorem pairwise_heads (a : InputAggregator T) : (heads a).Pairwise fun x y => x.1 < y.1 := by
  refine List.pairwise_filterMap.2 ((List.pairwise_lt_range.filter _).imp fun hij => ?_)
  intro x hx y hy
  obtain ⟨_, -, rfl⟩ := Option.map_eq_some_iff.1 hx
  obtain ⟨_, -, rfl⟩ := Option.map_eq_some_iff.1 hy
  exact hij

theorem of_mem_left {b : T} (h : r.Inv key inputs) (hhead : (r.agg.queue i).head? = some item)
    (hb : b ∈ r.left i) : key item ≤ key b := by
  obtain ⟨rest, hqueue⟩ := List.head?_eq_some_iff.1 hhead
  have hsorted := h.sorted i
  unfold left at hsorted hb
  rw [hqueue, cons_append] at hsorted hb
  rcases List.mem_cons.1 hb with rfl | hb
  · exact le_refl _
  · exact (List.pairwise_cons.1 hsorted).1 b hb

/-- What is released is the first of its queue; no other input has anything left that comes before it. -/
theorem takeEarliestBy_some {a' : InputAggregator T} (h : r.Inv key inputs)
    (htake : r.agg.takeEarliestBy key = (some (i, item), a')) :
    i < r.agg.queues.length ∧ ∃ rest, r.agg.queue i = item :: rest ∧
      a' = { r.agg with queues := r.agg.queues.set i rest } ∧
      (∀ j < i, ∀ b ∈ r.left j, key item < key b) ∧ ∀ j < r.agg.queues.length, ∀ b ∈ r.left j, key item ≤ key b := by
  unfold InputAggregator.takeEarliestBy at htake
  split_ifs at htake with hwait
  · exact absurd (congrArg Prod.fst htake) nofun
  split at htake
  · exact absurd (congrArg Prod.fst htake) nofun
  · rename_i winner hwinner
    obtain rfl : winner = (i, item) := Option.some.inj (congrArg Prod.fst htake)
    have hready : ∀ j ∈ r.agg.contributors, (r.agg.queue j).head? ≠ none := fun j hj hnone => hwait (by
      rw [Bool.or_eq_true_iff]
      exact Or.inr (List.any_eq_true.2 ⟨j, hj, List.isEmpty_iff.2 (List.head?_eq_none_iff.1 hnone)⟩))
    obtain ⟨front, rear, hheads, hfront, hrear⟩ := InputAggregator.minByKey_spec hwinner
    have horder : (front ++ (i, item) :: rear).Pairwise fun x y => x.1 < y.1 := hheads ▸ pairwise_heads r.agg
    have hmem : (i, item) ∈ heads r.agg := by
      unfold heads
      rw [hheads]
      exact mem_append_right _ mem_cons_self
    obtain ⟨hcontributes, hhead⟩ := mem_heads.1 hmem
    obtain ⟨rest, hqueue⟩ := List.head?_eq_some_iff.1 hhead
    -- every other input with something left has its head among the heads
    have hother : ∀ j < r.agg.queues.length, ∀ b ∈ r.left j,
        ∃ first, (j, first) ∈ front ++ (i, item) :: rear ∧ key first ≤ key b := fun j hj b hb => by
      have hj := mem_contributors_of_left h hj (ne_nil_of_mem hb)
      obtain ⟨first, hfirst⟩ := Option.ne_none_iff_exists'.1 (hready j hj)
      refine ⟨first, ?_, of_mem_left h hfirst hb⟩
      rw [← hheads]
      exact mem_heads.2 ⟨hj, hfirst⟩
    obtain ⟨-, hrest, hbefore⟩ := List.pairwise_append.1 horder
    have hi : i < r.agg.queues.length := (mem_contributors.1 hcontributes).1
    refine ⟨hi, rest, hqueue, ?_, fun j hj b hb => ?_, fun j hj b hb => ?_⟩
    · have ha' := (congrArg Prod.snd htake).symm
      rw [hqueue, tail_cons] at ha'
      exact ha'
    · obtain ⟨first, hfirst, hle⟩ := hother j (hj.trans hi) b hb
      rcases List.mem_append.1 hfirst with hfirst | hfirst
      · exact (hfront _ hfirst).trans_le hle
      · rcases List.mem_cons.1 hfirst with heq | hfirst
        · exact absurd (congrArg Prod.fst heq) hj.ne
        · exact absurd ((List.pairwise_cons.1 hrest).1 _ hfirst) hj.le.not_gt
    · obtain ⟨first, hfirst, hle⟩ := hother j hj b hb
      rcases List.mem_append.1 hfirst with hfirst | hfirst
      · exact (hfront _ hfirst).le.trans hle
      · rcases List.mem_cons.1 hfirst with heq | hfirst
        · rw [← (Prod.mk.inj heq).2]
          exact hle
        · exact (hrear _ hfirst).trans hle

/-- A step of the merge: what is released is the next entry of the stable merge. -/
theorem Inv.take (h : r.Inv key inputs) :
    Inv key inputs ⟨(r.agg.takeEarliestBy key).2, r.waiting, r.released ++ (r.agg.takeEarliestBy key).1.toList⟩ := by
  rcases htake : r.agg.takeEarliestBy key with ⟨_ | ⟨i, item⟩, a'⟩
  · have ha' : a' = r.agg := by
      unfold InputAggregator.takeEarliestBy at htake
      split_ifs at htake
      · exact (congrArg Prod.snd htake).symm
      · split at htake
        · exact (congrArg Prod.snd htake).symm
        · exact absurd (congrArg Prod.fst htake) nofun
    subst ha'
    exact { h with merged := by rw [toList_none, append_nil]; exact h.merged }
  · obtain ⟨hi, rest, hqueue, rfl, hearlier, hleast⟩ := takeEarliestBy_some h htake
    have hleft : ∀ j, left ⟨{ r.agg with queues := r.agg.queues.set i rest }, r.waiting,
        r.released ++ [(i, item)]⟩ j = if i = j then rest ++ r.waiting.getD i [] else r.left j := fun j => by
      unfold left InputAggregator.queue
      split_ifs with hij
      · rw [← hij, getD_set_self hi]
      · rw [getD_set_ne hij]
    have hlefti : r.left i = item :: (rest ++ r.waiting.getD i []) := by
      unfold left
      rw [hqueue]
      rfl
    refine ⟨List.length_set.trans h.queues, h.ended, h.unbounded, h.delivered, h.waiting, fun j => ?_, ?_⟩
    · rw [toList_some, hleft]
      split_ifs
      · have hsorted := h.sorted i
        rw [hlefti] at hsorted
        exact (List.pairwise_cons.1 hsorted).2
      · exact h.sorted j
    · have hget : ∀ (j : Nat) (q : List T), r.lefts[j]? = some q → j < r.agg.queues.length ∧ q = r.left j :=
        fun j q hq => by
          rw [getElem?_lefts] at hq
          split_ifs at hq with hlt
          exact ⟨hlt, (Option.some.inj hq).symm⟩
      have hpop : stableMerge key r.lefts =
          (i, item) :: stableMerge key (r.lefts.set i (rest ++ r.waiting.getD i [])) := by
        refine StableMerge.stableMerge_pop ?_ (fun j q hj hq b hb => ?_) fun j q hq b hb => ?_
        · rw [getElem?_lefts, if_pos hi, hlefti]
        · exact hearlier j hj b ((hget j q hq).2 ▸ hb)
        · exact hleast j (hget j q hq).1 b ((hget j q hq).2 ▸ hb)
      have hlefts : lefts ⟨{ r.agg with queues := r.agg.queues.set i rest }, r.waiting, r.released ++ [(i, item)]⟩ =
          r.lefts.set i (rest ++ r.waiting.getD i []) := by
        refine ext_getElem? fun j => ?_
        rw [getElem?_lefts, List.getElem?_set, getElem?_lefts, hleft]
        rw [length_set]
        by_cases hij : i = j
        · rw [if_pos hij, if_pos hij, ← hij, if_pos hi, if_pos (by rw [lefts, length_map, length_range]; exact hi)]
        · rw [if_neg hij, if_neg hij]
      rw [toList_some, hlefts, append_assoc, ← h.merged, hpop]
      rfl

/-! ### The end of a run -/

theorem left_of_takeEarliestBy_none (h : r.Inv key inputs) (hended : ∀ i < inputs.length, r.agg.isEnded i = true)
    (htake : (r.agg.takeEarliestBy key).1 = none) : ∀ i < inputs.length, r.left i = [] := by
  intro i hi
  refine Classical.byContradiction fun hleft => ?_
  have hcontributes : i ∈ r.agg.contributors := mem_contributors_of_left h (h.queues.symm ▸ hi) hleft
  have hready : ∀ j ∈ r.agg.contributors, r.agg.queue j ≠ [] := fun j hj hnil => by
    obtain ⟨hlt, hnot⟩ := mem_contributors.1 hj
    exact hnot ⟨hended j (h.queues ▸ hlt), hnil⟩
  unfold InputAggregator.takeEarliestBy at htake
  split_ifs at htake with hwait
  · rcases Bool.or_eq_true_iff.1 hwait with hempty | hany
    · rw [List.isEmpty_iff.1 hempty] at hcontributes
      exact absurd hcontributes not_mem_nil
    · obtain ⟨j, hj, hnil⟩ := List.any_eq_true.1 hany
      exact hready j hj (List.isEmpty_iff.1 hnil)
  · split at htake
    · rename_i hwinner
      obtain ⟨item, hitem⟩ := Option.ne_none_iff_exists'.1 fun hnone =>
        hready i hcontributes (List.head?_eq_none_iff.1 hnone)
      have hmem : (i, item) ∈ heads r.agg := mem_heads.2 ⟨hcontributes, hitem⟩
      unfold heads at hmem
      cases hheads : r.agg.contributors.filterMap fun i => (r.agg.queue i).head?.map fun item => (i, item) with
      | nil =>
        rw [hheads] at hmem
        exact absurd hmem not_mem_nil
      | cons head heads =>
        rw [hheads] at hwinner
        exact absurd hwinner nofun
    · exact absurd htake nofun

theorem complete_of_none (h : r.Inv key inputs) (hended : ∀ i < inputs.length, r.agg.isEnded i = true)
    (htake : (r.agg.takeEarliestBy key).1 = none) : r.released = stableMerge key inputs ∧ r.agg.isDrained = true := by
  have hleft := left_of_takeEarliestBy_none h hended htake
  have hlefts : ∀ q ∈ r.lefts, q = [] := fun q hq => by
    obtain ⟨i, hi, rfl⟩ := List.mem_map.1 hq
    exact hleft i (h.queues ▸ List.mem_range.1 hi)
  constructor
  · rw [← h.merged, StableMerge.stableMerge_nil hlefts, append_nil]
  · refine Bool.and_eq_true_iff.2 ⟨List.all_eq_true.2 fun e he => ?_, List.all_eq_true.2 fun q hq => ?_⟩
    · obtain ⟨i, hi, rfl⟩ := getElem_of_mem he
      have hend := hended i (h.ended ▸ hi)
      unfold InputAggregator.isEnded at hend
      rw [getD_eq_getElem?_getD, List.getElem?_eq_getElem hi] at hend
      exact hend
    · obtain ⟨i, hi, rfl⟩ := getElem_of_mem hq
      have hnil := (List.append_eq_nil_iff.1 (hleft i (h.queues ▸ hi))).1
      unfold InputAggregator.queue at hnil
      rw [getD_eq_getElem?_getD, List.getElem?_eq_getElem hi] at hnil
      exact List.isEmpty_iff.2 hnil

theorem inv_of_run (hsorted : ∀ q ∈ inputs, q.Pairwise fun a b => key a ≤ key b)
    (hrun : Relation.ReflTransGen (Step key) (start inputs) r) : r.Inv key inputs := by
  induction hrun with
  | refl => exact inv_start hsorted
  | tail _ hstep ih =>
    cases hstep with
    | push h => exact ih.push h
    | markEnded h => exact ih.markEnded h
    | take => exact ih.take

theorem drain_spec {fuel : Nat} (h : r.Inv key inputs) (hended : ∀ i < inputs.length, r.agg.isEnded i = true)
    (hfuel : (stableMerge key inputs).length < r.released.length + fuel) :
    r.released ++ (r.agg.drain key fuel).1 = stableMerge key inputs ∧ (r.agg.drain key fuel).2.isDrained = true ∧
      ((r.agg.drain key fuel).2.takeEarliestBy key).1 = none := by
  induction fuel generalizing r with
  | zero =>
    have hlength := congrArg List.length h.merged
    rw [length_append] at hlength
    omega
  | succ fuel ih =>
    have hnext := h.take
    unfold InputAggregator.drain
    rcases htake : r.agg.takeEarliestBy key with ⟨_ | item, a'⟩
    · have ha' : a' = r.agg := by
        unfold InputAggregator.takeEarliestBy at htake
        split_ifs at htake
        · exact (congrArg Prod.snd htake).symm
        · split at htake
          · exact (congrArg Prod.snd htake).symm
          · exact absurd (congrArg Prod.fst htake) nofun
      subst ha'
      obtain ⟨hreleased, hdrained⟩ := complete_of_none h hended (congrArg Prod.fst htake)
      rw [append_nil]
      exact ⟨hreleased, hdrained, congrArg Prod.fst htake⟩
    · rw [htake] at hnext
      have hended' : ∀ i < inputs.length, a'.isEnded i = true := fun i hi => by
        obtain ⟨i', item'⟩ := item
        obtain ⟨-, rest, -, rfl, -⟩ := takeEarliestBy_some h htake
        exact hended i hi
      obtain ⟨hreleased, hdrained, hnone⟩ := ih hnext hended' (by
        rw [toList_some, length_append, length_singleton]
        omega)
      rw [toList_some, append_assoc] at hreleased
      exact ⟨hreleased, hdrained, hnone⟩

end MergeRun

open MergeRun in
/-- However deliveries, ends and takes follow each other, what was released is a first part of the stable merge of
the inputs. When all inputs have ended, taking releases all the rest of it, and nothing else withholds any. -/
theorem released_stableMerge (key : T → κ) (inputs : List (List T))
    (hsorted : ∀ q ∈ inputs, q.Pairwise fun a b => key a ≤ key b) (r : MergeRun T)
    (hrun : Relation.ReflTransGen (Step key) (start inputs) r) : r.released <+: stableMerge key inputs ∧
      ((∀ i < inputs.length, r.agg.isEnded i = true) →
        (r.released ++ (r.agg.drain key ((stableMerge key inputs).length + 1)).1 = stableMerge key inputs ∧
          (r.agg.drain key ((stableMerge key inputs).length + 1)).2.isDrained = true ∧
          ((r.agg.drain key ((stableMerge key inputs).length + 1)).2.takeEarliestBy key).1 = none) ∧
        ((r.agg.takeEarliestBy key).1 = none → r.released = stableMerge key inputs ∧ r.agg.isDrained = true)) := by
  have h := inv_of_run hsorted hrun
  exact ⟨⟨_, h.merged⟩, fun hended => ⟨drain_spec h hended (by omega), complete_of_none h hended⟩⟩

/-- Two inputs, the second of which delivers and ends first. -/
theorem released_stableMerge_two : [] ++ (InputAggregator.drain id ((stableMerge id [[10, 30], [20]]).length + 1)
      ⟨[[10, 30], [20]], [true, true], none, 0⟩).1 = stableMerge id [[10, 30], [20]] :=
  have hrun : Relation.ReflTransGen (MergeRun.Step id) (MergeRun.start [[10, 30], [20]])
      ⟨⟨[[10, 30], [20]], [true, true], none, 0⟩, [[], []], []⟩ :=
    ((((Relation.ReflTransGen.refl.tail (MergeRun.Step.push (i := 1) rfl)).tail
      (MergeRun.Step.markEnded (i := 1) rfl)).tail (MergeRun.Step.push (i := 0) rfl)).tail
      (MergeRun.Step.push (i := 0) rfl)).tail (MergeRun.Step.markEnded (i := 0) rfl)
  ((released_stableMerge id [[10, 30], [20]] (by decide) _ hrun).2 (by decide)).1.1

end Glass2Glass
