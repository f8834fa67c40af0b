import Glass2Glass.Aggregator

/-!
# Rounds

`take_round` (`g2g-core/src/aggregator.rs`), for a compositor or a batcher: one item of every input that can still give
one. However the items come in, and whenever a round is asked for, the rounds are the columns of the inputs.
-/

namespace Glass2Glass

open List Option

variable {T : Type}

/-- Release one item of every input that can still give one, unless one of them has none yet. -/
def InputAggregator.takeRound (a : InputAggregator T) : Option (List (Nat × T)) × InputAggregator T :=
  if a.contributors.isEmpty || a.contributors.any fun i => (a.queue i).isEmpty then (none, a)
  else
    (some (a.contributors.filterMap fun i => (a.queue i).head?.map fun item => (i, item)),
      { a with queues := a.queues.mapIdx fun i q => if i ∈ a.contributors then q.tail else q })

/-- The items at one place of the inputs that are long enough. -/
def column (inputs : List (List T)) (n : Nat) : List (Nat × T) :=
  (List.range inputs.length).filterMap fun i => ((inputs.getD i [])[n]?).map fun item => (i, item)

/-- A run: the aggregator, the items that the inputs have still to deliver, and the rounds so far. -/
structure RoundRun (T : Type) where
  agg : InputAggregator T
  waiting : List (List T)
  rounds : List (List (Nat × T))

namespace RoundRun

open MergeRun (queue_push delivered_push delivered_markEnded isEnded_new queue_new mem_contributors heads mem_heads)

/-- Every input delivers its items in their order and ends behind the last one; rounds are asked for in between. -/
inductive Step : RoundRun T → RoundRun T → Prop
  | push {r : RoundRun T} {i : Nat} {item : T} {items : List T} (h : r.waiting[i]? = some (item :: items)) :
      Step r ⟨r.agg.push i item, r.waiting.set i items, r.rounds⟩
  | markEnded {r : RoundRun T} {i : Nat} (h : r.waiting[i]? = some []) : Step r { r with agg := r.agg.markEnded i }
  | take (r : RoundRun T) : Step r ⟨r.agg.takeRound.2, r.waiting, r.rounds ++ r.agg.takeRound.1.toList⟩

def start (inputs : List (List T)) : RoundRun T := ⟨.new inputs.length, inputs, []⟩

/-- What an input has still to give: what is queued, and what it has still to deliver. -/
def left (r : RoundRun T) (i : Nat) : List T := r.agg.queue i ++ r.waiting.getD i []

/-- Every input has given one item to every round, as long as it had one. -/
structure Inv (inputs : List (List T)) (r : RoundRun T) : Prop where
  queues : r.agg.queues.length = inputs.length
  ended : r.agg.ended.length = inputs.length
  unbounded : r.agg.maxDepth = none
  /-- An input that has ended has nothing more to deliver. -/
  delivered : ∀ i, r.agg.isEnded i = true → r.waiting.getD i [] = []
  waiting : r.waiting.length = inputs.length
  left : ∀ i, r.left i = (inputs.getD i []).drop r.rounds.length
  columns : r.rounds = (List.range r.rounds.length).map (column inputs)
  nonempty : ∀ round ∈ r.rounds, round ≠ []

variable {inputs : List (List T)} {r : RoundRun T} {i : Nat} {item : T}

theorem inv_start : Inv inputs (start inputs) where
  queues := length_replicate
  ended := length_replicate
  unbounded := rfl
  delivered := fun i h => absurd ((isEnded_new _).symm.trans h) nofun
  waiting := rfl
  left := fun i => by
    unfold left start
    rw [queue_new]
    rfl
  columns := rfl
  nonempty := nofun

theorem Inv.push {items : List T} (h : r.Inv inputs) (hwaiting : r.waiting[i]? = some (item :: items)) :
    Inv inputs ⟨r.agg.push i item, r.waiting.set i items, r.rounds⟩ :=
  { h with
    queues := length_set.trans h.queues
    delivered := delivered_push h.delivered hwaiting
    waiting := length_set.trans h.waiting
    left := fun j => (queue_push h.unbounded (h.waiting.trans h.queues.symm) hwaiting j).trans (h.left j) }

theorem Inv.markEnded (h : r.Inv inputs) (hwaiting : r.waiting[i]? = some []) :
    Inv inputs { r with agg := r.agg.markEnded i } :=
  { h with
    ended := length_set.trans h.ended
    delivered := delivered_markEnded h.delivered hwaiting
    left := h.left }

/-! ## Taking -/

/-- An input that can give no item any more has nothing left. -/
theorem left_of_not_contributes (h : r.Inv inputs) (hi : i < inputs.length) (hnot : i ∉ r.agg.contributors) :
    r.left i = [] := by
  obtain ⟨hended, hqueue⟩ := not_not.1 fun hopen => hnot (mem_contributors.2 ⟨h.queues.symm ▸ hi, hopen⟩)
  unfold left
  rw [hqueue, h.delivered i hended]
  rfl

/-- When every input that can still give an item has one, these are the next column. -/
theorem heads_eq_column (h : r.Inv inputs) (hready : ∀ j ∈ r.agg.contributors, r.agg.queue j ≠ []) :
    heads r.agg = column inputs r.rounds.length := by
  unfold heads InputAggregator.contributors column
  rw [filterMap_filter, h.queues]
  refine filterMap_congr fun j hj => ?_
  have hj := mem_range.1 hj
  rw [← List.head?_drop, ← h.left j]
  -- Whoever contributes gives the head of its queue; whoever does not has no item at this place.
  by_cases hcontributes : j ∈ r.agg.contributors
  · rw [if_pos (List.mem_filter.1 hcontributes).2]
    obtain ⟨first, rest, hqueue⟩ := List.exists_cons_of_ne_nil (hready j hcontributes)
    unfold left
    rw [hqueue]
    rfl
  · rw [if_neg fun hp => hcontributes (List.mem_filter.2 ⟨mem_range.2 (h.queues.symm ▸ hj), hp⟩),
      left_of_not_contributes h hj hcontributes]
    rfl

theorem queue_mapIdx (a : InputAggregator T) (j : Nat) :
    InputAggregator.queue { a with queues := a.queues.mapIdx fun i q => if i ∈ a.contributors then q.tail else q } j =
      if j ∈ a.contributors then (a.queue j).tail else a.queue j := by
  unfold InputAggregator.queue
  rw [getD_eq_getElem?_getD, getD_eq_getElem?_getD, List.getElem?_mapIdx]
  rcases a.queues[j]? with _ | q
  · exact (ite_self _).symm
  · rfl

/-- A round takes the next column, and what the inputs have left goes down by one item each. -/
theorem Inv.take (h : r.Inv inputs) :
    Inv inputs ⟨r.agg.takeRound.2, r.waiting, r.rounds ++ r.agg.takeRound.1.toList⟩ := by
  unfold InputAggregator.takeRound
  split_ifs with hwait
  · rw [toList_none, append_nil]
    exact h
  rw [Bool.or_eq_true_iff, not_or] at hwait
  have hready : ∀ j ∈ r.agg.contributors, r.agg.queue j ≠ [] := fun j hj hnil =>
    hwait.2 (List.any_eq_true.2 ⟨j, hj, List.isEmpty_iff.2 hnil⟩)
  have hround := heads_eq_column h hready
  have hlength : (r.rounds ++ [heads r.agg]).length = r.rounds.length + 1 := length_append
  refine ⟨length_mapIdx.trans h.queues, h.ended, h.unbounded, h.delivered, h.waiting, fun j => ?_, ?_, ?_⟩
  · show _ = (inputs.getD j []).drop (r.rounds ++ [heads r.agg]).length
    rw [hlength, ← List.tail_drop, ← h.left j]
    unfold RoundRun.left
    dsimp only
    rw [queue_mapIdx]
    -- Who gives no item to this round has none left, so nothing is lost by counting it in.
    split_ifs with hcontributes
    · obtain ⟨first, rest, hqueue⟩ := List.exists_cons_of_ne_nil (hready j hcontributes)
      rw [hqueue]
      rfl
    · rcases Nat.lt_or_ge j inputs.length with hj | hj
      · have hnil := left_of_not_contributes h hj hcontributes
        unfold RoundRun.left at hnil
        rw [hnil]
        rfl
      · have hnil := h.left j
        rw [getD_eq_getElem?_getD, List.getElem?_eq_none hj, getD_none, drop_nil] at hnil
        unfold RoundRun.left at hnil
        rw [hnil]
        rfl
  · show r.rounds ++ [heads r.agg] = (List.range (r.rounds ++ [heads r.agg]).length).map (column inputs)
    rw [hlength, range_succ, map_append, ← h.columns, hround]
    rfl
  · -- A round is only released when somebody contributes to it.
    intro round hmem
    rcases List.mem_append.1 hmem with hmem | hmem
    · exact h.nonempty round hmem
    · obtain rfl : round = heads r.agg := List.mem_singleton.1 hmem
      obtain ⟨j, hj⟩ := List.exists_mem_of_ne_nil r.agg.contributors fun hnil => hwait.1 (List.isEmpty_iff.2 hnil)
      obtain ⟨first, rest, hqueue⟩ := List.exists_cons_of_ne_nil (hready j hj)
      exact ne_nil_of_mem (mem_heads.2 ⟨hj, congrArg head? hqueue⟩)

theorem inv_of_run (hrun : Relation.ReflTransGen Step (start inputs) r) : r.Inv inputs := by
  induction hrun with
  | refl => exact inv_start
  | tail _ hstep ih =>
    cases hstep with
    | push h => exact ih.push h
    | markEnded h => exact ih.markEnded h
    | take => exact ih.take

/-! ## The end of a run -/

/-- When all inputs have ended and no round comes, nothing is left. -/
theorem left_of_takeRound_none (h : r.Inv inputs) (hended : ∀ i < inputs.length, r.agg.isEnded i = true)
    (htake : r.agg.takeRound.1 = none) (hi : i < inputs.length) : r.left i = [] := by
  refine left_of_not_contributes h hi fun hcontributes => ?_
  unfold InputAggregator.takeRound at htake
  split_ifs at htake with hwait
  -- What withholds the round is an input that contributes and has no item, but all inputs have ended.
  rcases Bool.or_eq_true_iff.1 hwait with hempty | hany
  · rw [List.isEmpty_iff.1 hempty] at hcontributes
    exact absurd hcontributes not_mem_nil
  · obtain ⟨j, hj, hnil⟩ := List.any_eq_true.1 hany
    obtain ⟨hlt, hopen⟩ := mem_contributors.1 hj
    exact hopen ⟨hended j (h.queues ▸ hlt), List.isEmpty_iff.1 hnil⟩

theorem lt_length_rounds_iff (h : r.Inv inputs) (hleft : ∀ i < inputs.length, r.left i = []) (n : Nat) :
    n < r.rounds.length ↔ ∃ q ∈ inputs, n < q.length := by
  constructor
  · intro hn
    have hmem : column inputs n ∈ r.rounds := by
      rw [h.columns]
      exact List.mem_map_of_mem (mem_range.2 hn)
    obtain ⟨entry, hentry⟩ := List.exists_mem_of_ne_nil _ (h.nonempty _ hmem)
    obtain ⟨i, hi, hget⟩ := List.mem_filterMap.1 hentry
    obtain ⟨item, hitem, -⟩ := Option.map_eq_some_iff.1 hget
    rw [getD_eq_getElem?_getD, List.getElem?_eq_getElem (mem_range.1 hi), getD_some] at hitem
    exact ⟨_, getElem_mem _, (List.getElem?_eq_some_iff.1 hitem).1⟩
  · rintro ⟨q, hq, hn⟩
    obtain ⟨i, hi, rfl⟩ := getElem_of_mem hq
    have hdrop := (h.left i).symm.trans (hleft i hi)
    rw [getD_eq_getElem?_getD, List.getElem?_eq_getElem hi, getD_some] at hdrop
    exact hn.trans_le (drop_eq_nil_iff.1 hdrop)

end RoundRun

open RoundRun in
/-- However deliveries, ends and rounds follow each other, the rounds are the first columns of the inputs. When all
inputs have ended and no round comes any more, these are all of their columns, and nothing is queued. -/
theorem rounds_columns (inputs : List (List T)) (r : RoundRun T)
    (hrun : Relation.ReflTransGen Step (start inputs) r) :
    r.rounds = (List.range r.rounds.length).map (column inputs) ∧
      ((∀ i < inputs.length, r.agg.isEnded i = true) → r.agg.takeRound.1 = none →
        (∀ n, n < r.rounds.length ↔ ∃ q ∈ inputs, n < q.length) ∧ ∀ i < inputs.length, r.agg.queue i = []) := by
  have h := inv_of_run hrun
  refine ⟨h.columns, fun hended htake => ?_⟩
  have hleft : ∀ i < inputs.length, r.left i = [] := fun i => left_of_takeRound_none h hended htake
  exact ⟨lt_length_rounds_iff h hleft, fun i hi => (List.append_eq_nil_iff.1 (hleft i hi)).1⟩

/-- Two inputs, the second of which is the shorter one. -/
theorem rounds_columns_two : [[(0, 10), (1, 20)], [(0, 30)]] = (List.range 2).map (column [[10, 30], [20]]) :=
  have hqueued : Relation.ReflTransGen RoundRun.Step (RoundRun.start [[10, 30], [20]])
      ⟨⟨[[10], [20]], [false, true], none, 0⟩, [[30], []], []⟩ :=
    ((Relation.ReflTransGen.refl.tail (RoundRun.Step.push (i := 1) rfl)).tail (RoundRun.Step.markEnded (i := 1) rfl)).tail
      (RoundRun.Step.push (i := 0) rfl)
  have htaken : RoundRun.Step ⟨⟨[[10], [20]], [false, true], none, 0⟩, [[30], []], []⟩
      ⟨⟨[[], []], [false, true], none, 0⟩, [[30], []], [[(0, 10), (1, 20)]]⟩ := RoundRun.Step.take _
  have hended : Relation.ReflTransGen RoundRun.Step (RoundRun.start [[10, 30], [20]])
      ⟨⟨[[30], []], [true, true], none, 0⟩, [[], []], [[(0, 10), (1, 20)]]⟩ :=
    ((hqueued.tail htaken).tail (RoundRun.Step.push (i := 0) rfl)).tail (RoundRun.Step.markEnded (i := 0) rfl)
  have hlast : RoundRun.Step ⟨⟨[[30], []], [true, true], none, 0⟩, [[], []], [[(0, 10), (1, 20)]]⟩
      ⟨⟨[[], []], [true, true], none, 0⟩, [[], []], [[(0, 10), (1, 20)], [(0, 30)]]⟩ := RoundRun.Step.take _
  (rounds_columns [[10, 30], [20]] _ (hended.tail hlast)).1

end Glass2Glass
