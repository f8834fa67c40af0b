import Mathlib.Data.List.Basic

/-!
# Slots

A table whose entries keep their index: a removed entry leaves a slot free, and a new one takes the lowest
free slot. What a table means is the partial function from indices to entries (`get?`); every operation
updates it at one index. An access to a free slot, or a fill of a taken one, has no result.
-/

/-- A table with free slots. -/
structure Slots (α : Type) where
  entries : List (Option α)
  deriving DecidableEq

namespace Slots

open List Function

variable {α : Type} {s s' : Slots α} {i j : Nat} {value : α}

def get? (s : Slots α) (i : Nat) : Option α := s.entries[i]?.join

/-- A table with every slot taken. -/
def new (values : List α) : Slots α := ⟨values.map some⟩

def free (s : Slots α) : List Nat :=
  (List.range s.entries.length).filter fun i => (s.get? i).isNone

/-- The slots that the next entries take, lowest first. -/
def vacant (s : Slots α) (count : Nat) : List Nat :=
  (s.free ++ List.range' s.entries.length count).take count

/-- Put an entry into a free slot. -/
def fill (s : Slots α) (i : Nat) (value : α) : Option (Slots α) :=
  if i = s.entries.length then some ⟨s.entries ++ [some value]⟩
  else
    match s.entries[i]? with
    | some none => some ⟨s.entries.set i (some value)⟩
    | _ => none

/-- Put an entry into the lowest free slot. -/
def insert (s : Slots α) (value : α) : Option (Nat × Slots α) :=
  let i := (s.entries.findIdx? Option.isNone).getD s.entries.length
  (s.fill i value).map fun s => (i, s)

/-- Take an entry out. -/
def remove (s : Slots α) (i : Nat) : Option (α × Slots α) :=
  (s.get? i).map fun value => (value, ⟨s.entries.set i none⟩)

/-- Change an entry. -/
def modify (s : Slots α) (i : Nat) (f : α → α) : Option (Slots α) :=
  (s.get? i).map fun value => ⟨s.entries.set i (some (f value))⟩

/-- The entries with their indices. -/
def iter (s : Slots α) : List (Nat × α) :=
  (List.range s.entries.length).filterMap fun i => (s.get? i).map fun value => (i, value)

/-! ## What an operation means -/

theorem get?_eq_some_iff : s.get? i = some value ↔ s.entries[i]? = some (some value) := by
  unfold get?
  rw [Option.join_eq_some_iff]

theorem lt_length_of_get? (h : s.get? i = some value) : i < s.entries.length :=
  (List.getElem?_eq_some_iff.1 (get?_eq_some_iff.1 h)).1

theorem get?_set (x : Option α) (hi : i < s.entries.length) :
    (⟨s.entries.set i x⟩ : Slots α).get? = Function.update s.get? i x := by
  funext j
  unfold get?
  rw [List.getElem?_set, update_apply]
  by_cases hj : i = j
  · rw [if_pos hj, if_pos hj.symm, if_pos hi]
    rfl
  · rw [if_neg hj, if_neg (Ne.symm hj)]

theorem get?_append : (⟨s.entries ++ [some value]⟩ : Slots α).get? =
    Function.update s.get? s.entries.length (some value) := by
  funext j
  unfold get?
  rw [update_apply]
  split_ifs with hj
  · rw [hj, List.getElem?_append_right (Nat.le_refl _), Nat.sub_self]
    rfl
  · rcases Nat.lt_or_ge j s.entries.length with hlt | hge
    · rw [List.getElem?_append_left hlt]
    · rw [List.getElem?_eq_none hge, List.getElem?_eq_none]
      rw [length_append, length_singleton]
      omega

theorem get?_new (values : List α) : (new values).get? = (values[·]?) := by
  funext i
  unfold get? new
  rw [List.getElem?_map]
  rcases values[i]? with _ | value <;> rfl

theorem fill_eq_some (h : s.fill i value = some s') :
    s.get? i = none ∧ s'.get? = Function.update s.get? i (some value) := by
  unfold fill at h
  split at h
  · next hlen =>
    obtain rfl := Option.some.inj h
    rw [hlen]
    refine ⟨?_, get?_append⟩
    unfold get?
    rw [List.getElem?_eq_none (Nat.le_refl _)]
    rfl
  · split at h
    · next hnone =>
      obtain rfl := Option.some.inj h
      refine ⟨?_, get?_set _ (List.getElem?_eq_some_iff.1 hnone).1⟩
      unfold get?
      rw [hnone]
      rfl
    · cases h

theorem remove_eq_some {s' : Slots α} (h : s.remove i = some (value, s')) :
    s.get? i = some value ∧ s'.get? = Function.update s.get? i none := by
  obtain ⟨v, hv, heq⟩ := Option.map_eq_some_iff.1 h
  obtain ⟨rfl, rfl⟩ := Prod.mk.inj heq
  exact ⟨hv, get?_set _ (lt_length_of_get? hv)⟩

theorem modify_eq_some {f : α → α} (h : s.modify i f = some s') :
    ∃ value, s.get? i = some value ∧ s'.get? = Function.update s.get? i (some (f value)) := by
  obtain ⟨v, hv, rfl⟩ := Option.map_eq_some_iff.1 h
  exact ⟨v, hv, get?_set _ (lt_length_of_get? hv)⟩

theorem mem_iter : (i, value) ∈ s.iter ↔ s.get? i = some value := by
  unfold iter
  rw [mem_filterMap]
  constructor
  · rintro ⟨j, -, hj⟩
    obtain ⟨v, hv, heq⟩ := Option.map_eq_some_iff.1 hj
    obtain ⟨rfl, rfl⟩ := Prod.mk.inj heq
    exact hv
  · intro h
    refine ⟨i, List.mem_range.2 (lt_length_of_get? h), ?_⟩
    rw [h]
    rfl

/-! ## Free slots -/

theorem mem_free : i ∈ s.free ↔ i < s.entries.length ∧ s.get? i = none := by
  unfold free
  rw [List.mem_filter, mem_range, Option.isNone_iff_eq_none]

theorem get?_of_mem_vacant {count : Nat} (h : i ∈ s.vacant count) : s.get? i = none := by
  rcases List.mem_append.1 (mem_of_mem_take h) with hi | hi
  · exact (mem_free.1 hi).2
  · unfold get?
    rw [List.getElem?_eq_none (List.mem_range'_1.1 hi).1]
    rfl

theorem length_vacant {count : Nat} : (s.vacant count).length = count := by
  unfold vacant
  rw [length_take, length_append, length_range']
  omega

theorem exists_vacant (s : Slots α) : ∃ i, s.vacant 1 = [i] := List.length_eq_one_iff.1 length_vacant

theorem fill_of_mem_free (h : i ∈ s.free) (value : α) : s.fill i value = some ⟨s.entries.set i (some value)⟩ := by
  obtain ⟨hlt, hnone⟩ := mem_free.1 h
  unfold fill
  rw [if_neg (Nat.ne_of_lt hlt)]
  unfold get? at hnone
  rw [List.getElem?_eq_getElem hlt] at hnone ⊢
  rw [show s.entries[i] = none from hnone]

theorem free_set (h : i < s.entries.length) :
    (⟨s.entries.set i (some value)⟩ : Slots α).free = s.free.filter (· ≠ i) := by
  unfold free
  rw [filter_filter, get?_set _ h, length_set]
  refine filter_congr fun j _ => ?_
  by_cases hj : j = i <;> simp [hj]

theorem free_append : (⟨s.entries ++ [some value]⟩ : Slots α).free = s.free := by
  unfold free
  rw [get?_append, length_append, length_singleton, range_succ, filter_append]
  have hlast : [s.entries.length].filter
      (fun i => (Function.update s.get? s.entries.length (some value) i).isNone) = [] := by
    simp
  rw [hlast, append_nil]
  refine filter_congr fun j hj => ?_
  rw [update_of_ne (Nat.ne_of_lt (List.mem_range.1 hj))]

/-- The slots for several entries can be filled in their order. -/
theorem fill_vacant {count : Nat} {rest : List Nat} (h : s.vacant (count + 1) = i :: rest) (value : α) :
    ∃ s', s.fill i value = some s' ∧ s'.vacant count = rest := by
  unfold vacant at h
  rcases hfree : s.free with _ | ⟨k, free⟩
  · -- The table grows.
    rw [hfree, nil_append, List.range'_succ, take_succ_cons] at h
    obtain ⟨rfl, rfl⟩ := List.cons.inj h
    refine ⟨_, if_pos rfl, ?_⟩
    unfold vacant
    rw [free_append, hfree, nil_append, length_append, length_singleton]
  · rw [hfree, cons_append, take_succ_cons] at h
    obtain ⟨rfl, rfl⟩ := List.cons.inj h
    have hmem : k ∈ s.free := hfree ▸ mem_cons_self
    refine ⟨_, fill_of_mem_free hmem value, ?_⟩
    have hnodup : (k :: free).Nodup := hfree ▸ List.nodup_range.filter _
    have hrest : (k :: free).filter (· ≠ k) = free := by
      rw [filter_cons_of_neg (by simp)]
      refine List.filter_eq_self.2 fun j hj => ?_
      simpa using fun heq : j = k => (List.nodup_cons.1 hnodup).1 (heq ▸ hj)
    unfold vacant
    rw [free_set (mem_free.1 hmem).1, hfree, hrest, length_set]
    -- One more slot beyond the table makes no difference to the first ones.
    have hlen : count ≤ (free ++ List.range' s.entries.length count).length := by
      rw [length_append, length_range']
      exact Nat.le_add_left _ _
    rw [List.range'_concat, ← append_assoc, take_append_of_le_length hlen]

theorem insert_eq_some (s : Slots α) (value : α) : ∃ i s', s.insert value = some (i, s') ∧ s.get? i = none ∧
      s'.get? = Function.update s.get? i (some value) := by
  have hfill : ∃ s', s.fill ((s.entries.findIdx? Option.isNone).getD s.entries.length) value = some s' := by
    rcases hidx : s.entries.findIdx? Option.isNone with _ | i
    · exact ⟨_, if_pos rfl⟩
    · obtain ⟨hlt, hnone, -⟩ := List.findIdx?_eq_some_iff_getElem.1 hidx
      refine ⟨_, fill_of_mem_free (mem_free.2 ⟨hlt, ?_⟩) value⟩
      unfold get?
      rw [List.getElem?_eq_getElem hlt, Option.isNone_iff_eq_none.1 hnone]
      rfl
  obtain ⟨s', hs'⟩ := hfill
  refine ⟨_, s', ?_, fill_eq_some hs'⟩
  unfold insert
  dsimp only
  rw [hs']
  rfl

end Slots
