import Mathlib.Algebra.BigOperators.Group.List.Basic
import Mathlib.Algebra.Ring.Nat
import Mathlib.Order.Lattice

/-!
# Maps in the order of their keys

A finite map as the list of its entries by strictly increasing key. An entry of the map is determined by its
key (`get?_eq_some`), the operations are specified by the entries of their result (`mem_insert`, `mem_erase`),
and the first entry is the one with the least key (`le_of_first?`).
-/

variable {κ β : Type} [LinearOrder κ]

/-- The entries of a map, by increasing key. -/
structure SortedMap (κ β : Type) [LinearOrder κ] where
  entries : List (κ × β)
  sorted : entries.Pairwise fun a b => a.1 < b.1

namespace SortedMap

open List

def empty : SortedMap κ β := ⟨[], List.Pairwise.nil⟩

variable (m : SortedMap κ β)

def size : Nat := m.entries.length

def get? (k : κ) : Option β := (m.entries.find? fun e => e.1 = k).map Prod.snd

def contains (k : κ) : Bool := m.entries.any fun e => e.1 = k

/-- The entry with the least key. -/
def first? : Option (κ × β) := m.entries.head?

/-- The entry with the greatest key. -/
def last? : Option (κ × β) := m.entries.getLast?

/-- The first entry with a key above `k`. -/
def above? (k : κ) : Option (κ × β) := m.entries.find? fun e => k < e.1

/-- Put an entry in its place, instead of the one that has its key. -/
def insertEntry (k : κ) (v : β) : List (κ × β) → List (κ × β)
  | [] => [(k, v)]
  | e :: rest =>
    if k < e.1 then (k, v) :: e :: rest
    else if k = e.1 then (k, v) :: rest
    else e :: insertEntry k v rest

variable {l : List (κ × β)}

theorem mem_insertEntry {k : κ} {v : β} (h : l.Pairwise fun a b => a.1 < b.1) {e : κ × β} :
    e ∈ insertEntry k v l ↔ e = (k, v) ∨ e.1 ≠ k ∧ e ∈ l := by
  induction l with
  | nil => simp [insertEntry]
  | cons x rest ih =>
    obtain ⟨hx, hrest⟩ := List.pairwise_cons.1 h
    unfold insertEntry
    split_ifs with hlt heq
    · -- The new entry comes first, and every other key is above it.
      have hne : ∀ e ∈ x :: rest, e.1 ≠ k := by
        intro e he
        rcases List.mem_cons.1 he with rfl | he
        · exact hlt.ne'
        · exact (hlt.trans (hx e he)).ne'
      rw [mem_cons]
      exact or_congr_right ⟨fun he => ⟨hne e he, he⟩, And.right⟩
    · subst heq
      rw [mem_cons, mem_cons]
      refine or_congr_right ⟨fun he => ⟨(hx e he).ne', .inr he⟩, fun he => ?_⟩
      rcases he.2 with rfl | hmem
      · exact absurd rfl he.1
      · exact hmem
    · rw [mem_cons, ih hrest, mem_cons]
      constructor
      · rintro (rfl | rfl | ⟨hne, hmem⟩)
        · exact .inr ⟨Ne.symm heq, .inl rfl⟩
        · exact .inl rfl
        · exact .inr ⟨hne, .inr hmem⟩
      · rintro (rfl | ⟨hne, rfl | hmem⟩)
        · exact .inr (.inl rfl)
        · exact .inl rfl
        · exact .inr (.inr ⟨hne, hmem⟩)

theorem sorted_insertEntry {k : κ} {v : β} (h : l.Pairwise fun a b => a.1 < b.1) :
    (insertEntry k v l).Pairwise fun a b => a.1 < b.1 := by
  induction l with
  | nil => exact pairwise_singleton _ _
  | cons x rest ih =>
    obtain ⟨hx, hrest⟩ := List.pairwise_cons.1 h
    unfold insertEntry
    split_ifs with hlt heq
    · refine List.pairwise_cons.2 ⟨fun e he => ?_, h⟩
      rcases List.mem_cons.1 he with rfl | he
      · exact hlt
      · exact hlt.trans (hx e he)
    · exact List.pairwise_cons.2 ⟨fun e he => heq ▸ hx e he, hrest⟩
    · refine List.pairwise_cons.2 ⟨fun e he => ?_, ih hrest⟩
      rcases (mem_insertEntry hrest).1 he with rfl | ⟨-, he⟩
      · exact lt_of_le_of_ne (not_lt.1 hlt) (Ne.symm heq)
      · exact hx e he

def insert (k : κ) (v : β) : SortedMap κ β :=
  ⟨insertEntry k v m.entries, sorted_insertEntry m.sorted⟩

def erase (k : κ) : SortedMap κ β :=
  ⟨m.entries.filter fun e => e.1 ≠ k, m.sorted.filter _⟩

def eraseFirst : SortedMap κ β := ⟨m.entries.tail, m.sorted.tail⟩

/-- Other values for the same keys. -/
def map {γ : Type} (m : SortedMap κ β) (f : β → γ) : SortedMap κ γ :=
  ⟨m.entries.map fun e => (e.1, f e.2), List.pairwise_map.2 m.sorted⟩

/-- The entries with some keys. -/
def filter (p : κ → Bool) : SortedMap κ β := ⟨m.entries.filter fun e => p e.1, m.sorted.filter _⟩

variable {m : SortedMap κ β} {k k' : κ} {v : β} {e : κ × β}

/-! ## Entries -/

theorem mem_insert : e ∈ (m.insert k v).entries ↔ e = (k, v) ∨ e.1 ≠ k ∧ e ∈ m.entries := mem_insertEntry m.sorted

theorem mem_erase : e ∈ (m.erase k).entries ↔ e.1 ≠ k ∧ e ∈ m.entries := by
  unfold erase
  rw [List.mem_filter, decide_eq_true_iff, and_comm]

theorem mem_filter {p : κ → Bool} : e ∈ (m.filter p).entries ↔ p e.1 = true ∧ e ∈ m.entries := by
  unfold filter
  rw [List.mem_filter, and_comm]

variable {e' : κ × β}

theorem eq_of_key_eq (he : e ∈ m.entries) (he' : e' ∈ m.entries) (h : e.1 = e'.1) : e = e' := by
  by_contra hne
  rcases List.pairwise_iff_getElem.1 m.sorted with hsorted
  obtain ⟨i, hi, rfl⟩ := List.mem_iff_getElem.1 he
  obtain ⟨j, hj, rfl⟩ := List.mem_iff_getElem.1 he'
  rcases Nat.lt_trichotomy i j with hij | rfl | hij
  · exact (hsorted i j hi hj hij).ne h
  · exact hne rfl
  · exact (hsorted j i hj hi hij).ne' h

theorem get?_eq_some : m.get? k = some v ↔ (k, v) ∈ m.entries := by
  unfold get?
  rw [Option.map_eq_some_iff]
  constructor
  · rintro ⟨e, he, rfl⟩
    have hkey : e.1 = k := by simpa using List.find?_some he
    rw [← hkey]
    exact List.mem_of_find?_eq_some he
  · intro hmem
    rcases hfind : m.entries.find? (fun e => e.1 = k) with _ | e
    · simpa using List.find?_eq_none.1 hfind (k, v) hmem
    · have hkey : e.1 = k := by simpa using List.find?_some hfind
      have heq := eq_of_key_eq (List.mem_of_find?_eq_some hfind) hmem hkey
      exact ⟨e, hfind, congrArg Prod.snd heq⟩

theorem get?_eq_none : m.get? k = none ↔ ∀ v, (k, v) ∉ m.entries := by
  rw [Option.eq_none_iff_forall_ne_some]
  exact forall_congr' fun v => not_congr get?_eq_some

theorem get?_insert : (m.insert k v).get? k' = if k' = k then some v else m.get? k' := by
  ext w
  rw [get?_eq_some, mem_insert]
  split_ifs with h
  · subst h
    simp [eq_comm]
  · rw [get?_eq_some]
    simp [h]

theorem get?_erase : (m.erase k).get? k' = if k' = k then none else m.get? k' := by
  ext w
  rw [get?_eq_some, mem_erase]
  split_ifs with h
  · simp [h]
  · rw [get?_eq_some]
    exact and_iff_right h

theorem contains_iff : m.contains k = true ↔ ∃ v, (k, v) ∈ m.entries := by
  unfold contains
  rw [any_eq_true]
  constructor
  · rintro ⟨e, he, hkey⟩
    rw [decide_eq_true_iff] at hkey
    exact ⟨e.2, hkey ▸ he⟩
  · rintro ⟨v, hmem⟩
    exact ⟨(k, v), hmem, decide_eq_true rfl⟩

theorem perm_insertEntry (h : ∀ e ∈ l, e.1 ≠ k) : (insertEntry k v l).Perm ((k, v) :: l) := by
  induction l with
  | nil => exact .refl _
  | cons x rest ih =>
    unfold insertEntry
    rw [if_neg (h x mem_cons_self).symm]
    split_ifs
    · exact .refl _
    · refine ((ih fun e he => h e (mem_cons_of_mem _ he)).cons x).trans ?_
      exact .swap _ _ _

theorem insert_perm (h : m.contains k = false) : (m.insert k v).entries.Perm ((k, v) :: m.entries) := by
  refine perm_insertEntry fun e he hkey => ?_
  rw [contains_iff.2 ⟨e.2, hkey ▸ he⟩] at h
  cases h

theorem perm_erase (h : m.get? k = some v) : m.entries.Perm ((k, v) :: (m.erase k).entries) := by
  obtain ⟨front, back, hentries⟩ := append_of_mem (get?_eq_some.1 h)
  have hsorted := m.sorted
  rw [hentries, pairwise_append, pairwise_cons] at hsorted
  have hfront : ∀ e ∈ front, decide (e.1 ≠ k) = true :=
    fun e he => decide_eq_true (hsorted.2.2 e he (k, v) mem_cons_self).ne
  have hback : ∀ e ∈ back, decide (e.1 ≠ k) = true := fun e he => decide_eq_true (hsorted.2.1.1 e he).ne'
  have herase : (m.erase k).entries = front ++ back := by
    show m.entries.filter _ = _
    rw [hentries, filter_append, filter_cons_of_neg (by simp), List.filter_eq_self.2 hfront,
      List.filter_eq_self.2 hback]
  rw [herase, hentries]
  exact perm_middle

theorem insert_perm_erase : (m.insert k v).entries.Perm ((k, v) :: (m.erase k).entries) := by
  have hget : (m.insert k v).get? k = some v := by rw [get?_insert, if_pos rfl]
  have hsame : ((m.insert k v).erase k).entries.Perm (m.erase k).entries := by
    refine (perm_ext_iff_of_nodup ?_ ?_).2 fun e => ?_
    · exact ((m.insert k v).erase k).sorted.imp fun h heq => h.ne (congrArg Prod.fst heq)
    · exact (m.erase k).sorted.imp fun h heq => h.ne (congrArg Prod.fst heq)
    · rw [mem_erase, mem_erase, mem_insert]
      refine and_congr_right fun hne => ⟨?_, fun he => .inr ⟨hne, he⟩⟩
      rintro (rfl | ⟨-, he⟩)
      · exact absurd rfl hne
      · exact he
  exact (perm_erase hget).trans (hsame.cons _)

theorem erase_of_get?_eq_none (h : m.get? k = none) : (m.erase k).entries = m.entries :=
  List.filter_eq_self.2 fun e he => decide_eq_true fun heq => get?_eq_none.1 h e.2 (heq ▸ he)

/-! ## Sums over the values -/

/-- The sum of a number of every value. -/
def total (f : β → Nat) (m : SortedMap κ β) : Nat := (m.entries.map fun e => f e.2).sum

theorem total_erase (f : β → Nat) (h : m.get? k = some v) : m.total f = f v + (m.erase k).total f :=
  ((perm_erase h).map _).sum_eq

theorem total_insert (f : β → Nat) : (m.insert k v).total f = f v + (m.erase k).total f :=
  (insert_perm_erase.map _).sum_eq

theorem total_erase_of_none (f : β → Nat) (h : m.get? k = none) : (m.erase k).total f = m.total f := by
  unfold total
  rw [erase_of_get?_eq_none h]

variable {γ : Type}

theorem mem_map {f : β → γ} {e' : κ × γ} : e' ∈ (m.map f).entries ↔ ∃ e ∈ m.entries, (e.1, f e.2) = e' := List.mem_map

theorem total_map {g : β → γ} (f : γ → Nat) : (m.map g).total f = m.total fun v => f (g v) := by
  unfold total map
  rw [map_map]
  rfl

theorem get?_map {f : β → γ} : (m.map f).get? k = (m.get? k).map f := by
  ext w
  rw [get?_eq_some, mem_map, Option.map_eq_some_iff]
  constructor
  · rintro ⟨e, he, heq⟩
    obtain ⟨rfl, rfl⟩ := Prod.mk.inj heq
    exact ⟨e.2, get?_eq_some.2 he, rfl⟩
  · rintro ⟨v, hv, rfl⟩
    exact ⟨(k, v), get?_eq_some.1 hv, rfl⟩

theorem size_erase (h : m.get? k = some v) : m.size = (m.erase k).size + 1 := (perm_erase h).length_eq

theorem filter_not_contains : m.entries.filter (fun e => !m.contains e.1) = [] := by
  refine List.filter_eq_nil_iff.2 fun e he => ?_
  rw [contains_iff.2 ⟨e.2, he⟩]
  exact Bool.false_ne_true

theorem filter_insert (h : m.contains k = false) :
    (m.insert k v).entries.filter (fun e => !m.contains e.1) = [(k, v)] := by
  have hperm := (insert_perm (v := v) h).filter fun e => !m.contains e.1
  rw [filter_cons_of_pos (by rw [h]; rfl), filter_not_contains] at hperm
  exact List.perm_singleton.1 hperm

/-! ## The ends -/

theorem first?_eq_none : m.first? = none ↔ m.entries = [] := List.head?_eq_none_iff

theorem mem_of_first? (h : m.first? = some e) : e ∈ m.entries := mem_of_head? h

theorem le_of_first? (h : m.first? = some (k, v)) {e : κ × β} (he : e ∈ m.entries) : k ≤ e.1 := by
  have hsorted := m.sorted
  unfold first? at h
  rcases hentries : m.entries with _ | ⟨x, rest⟩ <;> rw [hentries] at h he hsorted <;> cases h
  rcases List.mem_cons.1 he with rfl | he
  · exact le_rfl
  · exact ((List.pairwise_cons.1 hsorted).1 e he).le

theorem entries_eq_of_first? (h : m.first? = some (k, v)) : m.entries = (k, v) :: (m.erase k).entries := by
  have hsorted := m.sorted
  have herase : (m.erase k).entries = m.entries.filter fun e => e.1 ≠ k := rfl
  unfold first? at h
  rw [herase]
  rcases hentries : m.entries with _ | ⟨x, rest⟩ <;> rw [hentries] at h hsorted <;> cases h
  have hkeys : ∀ e ∈ rest, decide (e.1 ≠ k) = true :=
    fun e he => decide_eq_true ((List.pairwise_cons.1 hsorted).1 e he).ne'
  rw [filter_cons_of_neg (by simp), List.filter_eq_self.2 hkeys]

theorem mem_of_last? (h : m.last? = some e) : e ∈ m.entries := mem_of_getLast? h

theorem above?_eq_none (h : m.above? k = none) {e : κ × β} (he : e ∈ m.entries) : e.1 ≤ k := by
  simpa using List.find?_eq_none.1 h e he

theorem mem_of_above? (h : m.above? k = some e) : e ∈ m.entries := List.mem_of_find?_eq_some h

theorem lt_of_above? (h : m.above? k = some e) : k < e.1 := by simpa using List.find?_some h

theorem le_of_find? {p : κ × β → Bool} (h : m.entries.find? p = some e) (he' : e' ∈ m.entries)
    (hp : p e' = true) : e.1 ≤ e'.1 := by
  obtain ⟨-, front, back, hentries, hfront⟩ := List.find?_eq_some_iff_append.1 h
  have hsorted := m.sorted
  rw [hentries] at he' hsorted
  rcases List.mem_append.1 he' with hmem | hmem
  · exact absurd hp (by simpa using hfront e' hmem)
  · rcases List.mem_cons.1 hmem with rfl | hmem
    · exact le_rfl
    · exact ((List.pairwise_cons.1 (List.pairwise_append.1 hsorted).2.1).1 e' hmem).le

theorem le_of_above? (h : m.above? k = some e) (he' : e' ∈ m.entries) (hk : k < e'.1) : e.1 ≤ e'.1 :=
  le_of_find? h he' (decide_eq_true hk)

end SortedMap
