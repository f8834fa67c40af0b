import Mathlib.Order.Lattice
import Mathlib.Data.List.Nodup

/-!
# Partial meets

A partial meet is a function `meet : α → α → Option α` that returns the overlap of two descriptions,
or `none` when they have nothing in common. The laws are stated at one element (`LawsAt meet a`: all
three laws with `a` in the first place), so that the laws of a list or of a nested description follow
by induction from the laws of its parts. From the laws alone, "being contained in" is compatible with
the meet: `p` is contained in `a ∧ b` exactly when it is contained in both.

The constructions are those from which record-like descriptions are built: a flat order with a
wildcard, equality, inclusive intervals, products, pointwise lists, a retract, and one kind of a
tagged union. The last section lifts a meet to preference-ordered lists of alternatives.
-/

namespace PartialMeet

open List
open Option (bind_some bind_none bind_map map_eq_some_iff)

variable {α β γ κ : Type*}

/-! ## The laws -/

/-- The laws of a partial meet, with `a` as the first argument. -/
structure LawsAt (meet : α → α → Option α) (a : α) : Prop where
  comm : ∀ b, meet a b = meet b a
  /-- The meet is associative, and an empty overlap absorbs. -/
  assoc : ∀ b c, (meet a b).bind (meet · c) = (meet b c).bind (meet a)
  /-- The overlap is below the first argument. -/
  absorb : ∀ {b c}, meet a b = some c → meet a c = some c

/-- A partial meet is lawful when the laws hold at every element. -/
def Lawful (meet : α → α → Option α) : Prop := ∀ a, LawsAt meet a

/-- `a` contains `p`: the overlap of `a` with `p` is `p` itself. -/
def Contains (meet : α → α → Option α) (a p : α) : Prop := meet a p = some p

/-- `p` is a single point: whatever overlaps it overlaps it whole. -/
def IsPoint (meet : α → α → Option α) (p : α) : Prop := ∀ a c, meet a p = some c → c = p

section Laws

variable {meet : α → α → Option α} {a b c p : α}

theorem contains_meet_iff (h : Lawful meet) (hab : meet a b = some c) :
    Contains meet c p ↔ Contains meet a p ∧ Contains meet b p := by
  have hac : meet a c = some c := (h a).absorb hab
  have hbc : meet b c = some c := (h b).absorb (((h b).comm a).trans hab)
  constructor
  · intro hp
    have below : ∀ d, meet d c = some c → meet d p = some p := by
      intro d hd
      have := (h d).assoc c p
      rw [hd, hp] at this
      exact this.symm.trans hp
    exact ⟨below a hac, below b hbc⟩
  · rintro ⟨ha, hb⟩
    have := (h a).assoc b p
    rw [hab, hb] at this
    exact this.trans ha

theorem not_contains_of_meet_eq_none (h : Lawful meet) (hab : meet a b = none) :
    ¬ (Contains meet a p ∧ Contains meet b p) := by
  rintro ⟨ha, hb⟩
  have := (h a).assoc b p
  rw [hab, hb] at this
  exact Option.some_ne_none p (ha.symm.trans this.symm)

theorem Contains.trans (h : Lawful meet) (hab : Contains meet a b) (hbp : Contains meet b p) : Contains meet a p := by
  have := (h a).assoc b p
  rw [hab, hbp] at this
  exact this.symm.trans hbp

theorem exists_meet_of_contains (h : Lawful meet) (ha : Contains meet a p)
    (hb : Contains meet b p) : ∃ c, meet a b = some c ∧ Contains meet c p := by
  rcases hab : meet a b with _ | c
  · exact absurd ⟨ha, hb⟩ (not_contains_of_meet_eq_none h hab)
  · exact ⟨c, rfl, (contains_meet_iff h hab).2 ⟨ha, hb⟩⟩

theorem IsPoint.contains (hp : IsPoint meet p) (h : meet a p = some c) : Contains meet a p := by
  obtain rfl := hp a c h
  exact h

end Laws

/-! ## Equality and wildcards -/

/-- The meet of a flat order with the wildcard `top`: the wildcard is the identity, equal values
agree, and distinct values have no overlap. -/
def flat [DecidableEq α] (top a b : α) : Option α :=
  if a = top then some b else if b = top ∨ a = b then some a else none

/-- The meet of values that carry no wildcard. -/
def discrete [DecidableEq α] (a b : α) : Option α := if a = b then some a else none

theorem flat_lawful [DecidableEq α] (top : α) : Lawful (flat top) := by
  intro a
  refine ⟨fun b => ?_, fun b c => ?_, fun {b c} h => ?_⟩
  · unfold flat
    split_ifs <;> grind
  · have top_left : ∀ x, flat top top x = some x := fun x => by simp [flat]
    have top_right : ∀ x, flat top x top = some x := fun x => by
      by_cases hx : x = top <;> simp [flat, hx]
    by_cases ha : a = top
    · have hfun : flat top top = some := funext top_left
      rw [ha, top_left, bind_some, hfun, Option.bind_fun_some]
    · by_cases hb : b = top
      · rw [hb, top_left, top_right, bind_some, bind_some]
      · by_cases hc : c = top
        · simp only [hc, top_right, Option.bind_fun_some, bind_some]
        · by_cases hab : a = b <;> by_cases hbc : b = c <;> simp_all [flat]
  · unfold flat at h ⊢
    split_ifs at h ⊢ <;> grind

theorem flat_self [DecidableEq α] (top a : α) : flat top a a = some a := by
  by_cases h : a = top <;> simp [flat, h]

theorem flat_contains_top [DecidableEq α] (top a : α) : Contains (flat top) top a := by
  simp [Contains, flat]

theorem flat_isPoint [DecidableEq α] {top p : α} (hp : p ≠ top) : IsPoint (flat top) p := by
  intro a c h
  unfold flat at h
  split_ifs at h <;> grind

theorem discrete_lawful [DecidableEq α] : Lawful (discrete (α := α)) := by
  intro a
  refine ⟨fun b => ?_, fun b c => ?_, fun {b c} h => ?_⟩
  · by_cases h : a = b <;> simp_all [discrete, eq_comm]
  · by_cases hab : a = b <;> by_cases hbc : b = c <;> simp_all [discrete]
  · unfold discrete at h ⊢
    split_ifs at h ⊢ <;> grind

theorem discrete_isPoint [DecidableEq α] (p : α) : IsPoint discrete p := by
  intro a c h
  unfold discrete at h
  split_ifs at h
  grind

/-! ## Inclusive intervals -/

/-- The overlap of two inclusive intervals, `none` when they are disjoint or one is inverted. -/
def interval [LinearOrder α] (a b : α × α) : Option (α × α) :=
  if max a.1 b.1 ≤ min a.2 b.2 then some (max a.1 b.1, min a.2 b.2) else none

/-- The interval meet is lawful, inverted intervals included. -/
theorem interval_lawful [LinearOrder α] : Lawful (interval (α := α)) := by
  intro a
  refine ⟨fun b => ?_, fun b c => ?_, fun {b c} h => ?_⟩
  · unfold interval
    rw [max_comm, min_comm]
  · -- Both sides are the triple overlap; an empty pairwise overlap makes it empty.
    have left : (interval a b).bind (interval · c) =
        if max (max a.1 b.1) c.1 ≤ min (min a.2 b.2) c.2 then
          some (max (max a.1 b.1) c.1, min (min a.2 b.2) c.2) else none := by
      unfold interval
      by_cases h : max a.1 b.1 ≤ min a.2 b.2
      · simp only [h, if_true, bind_some]
      · rw [if_neg h, bind_none, if_neg]
        exact fun h' => h (le_trans (le_max_left _ _) (h'.trans (min_le_left _ _)))
    have right : (interval b c).bind (interval a) =
        if max a.1 (max b.1 c.1) ≤ min a.2 (min b.2 c.2) then
          some (max a.1 (max b.1 c.1), min a.2 (min b.2 c.2)) else none := by
      unfold interval
      by_cases h : max b.1 c.1 ≤ min b.2 c.2
      · simp only [h, if_true, bind_some]
      · rw [if_neg h, bind_none, if_neg]
        exact fun h' => h (le_trans (le_max_right _ _) (h'.trans (min_le_right _ _)))
    rw [left, right, max_assoc, min_assoc]
  · unfold interval at h
    split_ifs at h with hle
    obtain rfl := Option.some.inj h
    simp only [interval, max_eq_right (le_max_left a.1 b.1), min_eq_right (min_le_left a.2 b.2),
      hle, if_true]

theorem interval_isPoint [LinearOrder α] (v : α) : IsPoint interval (v, v) := by
  intro a c h
  unfold interval at h
  split_ifs at h with hle
  obtain rfl := Option.some.inj h
  have hlo : max a.1 v = v := le_antisymm (hle.trans (min_le_right _ _)) (le_max_right _ _)
  have hhi : min a.2 v = v := le_antisymm (min_le_right _ _) ((le_max_right _ _).trans hle)
  rw [hlo, hhi]

/-! ## Products, lists, retracts and kinds -/

/-- The componentwise meet of pairs. -/
def prodMeet (m : α → α → Option α) (n : β → β → Option β) (a b : α × β) : Option (α × β) :=
  (m a.1 b.1).bind fun c => (n a.2 b.2).map fun d => (c, d)

theorem prodMeet_eq_some {m : α → α → Option α} {n : β → β → Option β} {a b c : α × β} :
    prodMeet m n a b = some c ↔ m a.1 b.1 = some c.1 ∧ n a.2 b.2 = some c.2 := by
  unfold prodMeet
  rcases m a.1 b.1 with _ | x <;> rcases n a.2 b.2 with _ | y <;> simp [Prod.ext_iff]

theorem LawsAt.prod {m : α → α → Option α} {n : β → β → Option β} {a : α × β}
    (hm : LawsAt m a.1) (hn : LawsAt n a.2) : LawsAt (prodMeet m n) a := by
  refine ⟨fun b => ?_, fun b c => ?_, fun {b c} h => ?_⟩
  · unfold prodMeet
    rw [hm.comm, hn.comm]
  · have h1 := hm.assoc b.1 c.1
    have h2 := hn.assoc b.2 c.2
    apply Option.ext
    intro d
    have e1 := congrArg (· = some d.1) h1
    have e2 := congrArg (· = some d.2) h2
    simp only [Option.bind_eq_some_iff, eq_iff_iff] at e1 e2
    simp only [Option.bind_eq_some_iff, prodMeet_eq_some, Prod.exists]
    constructor
    · rintro ⟨x, y, ⟨hx, hy⟩, hx', hy'⟩
      obtain ⟨x', h3, h4⟩ := e1.1 ⟨x, hx, hx'⟩
      obtain ⟨y', h5, h6⟩ := e2.1 ⟨y, hy, hy'⟩
      exact ⟨x', y', ⟨h3, h5⟩, h4, h6⟩
    · rintro ⟨x, y, ⟨hx, hy⟩, hx', hy'⟩
      obtain ⟨x', h3, h4⟩ := e1.2 ⟨x, hx, hx'⟩
      obtain ⟨y', h5, h6⟩ := e2.2 ⟨y, hy, hy'⟩
      exact ⟨x', y', ⟨h3, h5⟩, h4, h6⟩
  · obtain ⟨h1, h2⟩ := prodMeet_eq_some.1 h
    exact prodMeet_eq_some.2 ⟨hm.absorb h1, hn.absorb h2⟩

theorem IsPoint.prod {m : α → α → Option α} {n : β → β → Option β} {p : α × β}
    (hm : IsPoint m p.1) (hn : IsPoint n p.2) : IsPoint (prodMeet m n) p := by
  intro a c h
  obtain ⟨h1, h2⟩ := prodMeet_eq_some.1 h
  exact Prod.ext (hm _ _ h1) (hn _ _ h2)

/-- The pointwise meet of two lists of one length. -/
def listMeet (m : α → α → Option α) : List α → List α → Option (List α)
  | [], [] => some []
  | a :: as, b :: bs => (m a b).bind fun c => (listMeet m as bs).map fun cs => c :: cs
  | _, _ => none

theorem listMeet_cons_cons (m : α → α → Option α) (a b : α) (as bs : List α) : listMeet m (a :: as) (b :: bs) =
      (prodMeet m (listMeet m) (a, as) (b, bs)).map fun c => c.1 :: c.2 := by
  simp only [listMeet, prodMeet]
  rcases m a b with _ | c <;> rcases listMeet m as bs with _ | cs <;> rfl

/-- The laws at a list of elements at which the laws hold. -/
theorem LawsAt.list {m : α → α → Option α} {as : List α} (h : ∀ a ∈ as, LawsAt m a) : LawsAt (listMeet m) as := by
  induction as with
  | nil =>
    refine ⟨fun b => ?_, fun b c => ?_, fun {b c} h => ?_⟩
    · cases b <;> rfl
    · cases b with
      | nil => cases c <;> rfl
      | cons b bs =>
        cases c with
        | nil => rfl
        | cons c cs =>
          rw [listMeet_cons_cons]
          rcases prodMeet m (listMeet m) (b, bs) (c, cs) with _ | x <;> rfl
    · cases b <;> simp_all [listMeet]
  | cons a as ih =>
    have hprod : LawsAt (prodMeet m (listMeet m)) (a, as) :=
      LawsAt.prod (h a mem_cons_self) (ih fun x hx => h x (mem_cons_of_mem a hx))
    refine ⟨fun b => ?_, fun b c => ?_, fun {b c} h => ?_⟩
    · cases b with
      | nil => rfl
      | cons b bs => rw [listMeet_cons_cons, listMeet_cons_cons, hprod.comm]
    · cases b with
      | nil => cases c <;> rfl
      | cons b bs =>
        cases c with
        | nil =>
          rw [listMeet_cons_cons]
          rcases prodMeet m (listMeet m) (a, as) (b, bs) with _ | x <;> simp [listMeet]
        | cons c cs =>
          have hassoc := congrArg (Option.map fun d => d.1 :: d.2) (hprod.assoc (b, bs) (c, cs))
          simp only [Option.map_bind, Function.comp_def] at hassoc
          simp only [listMeet_cons_cons, bind_map, Function.comp_def]
          exact hassoc
    · cases b with
      | nil => simp [listMeet] at h
      | cons b bs =>
        rw [listMeet_cons_cons, map_eq_some_iff] at h
        obtain ⟨d, hd, rfl⟩ := h
        rw [listMeet_cons_cons, hprod.absorb hd]
        rfl

theorem IsPoint.list {m : α → α → Option α} {ps : List α} (h : ∀ p ∈ ps, IsPoint m p) : IsPoint (listMeet m) ps := by
  induction ps with
  | nil =>
    intro a c hc
    cases a <;> simp_all [listMeet]
  | cons p ps ih =>
    intro a c hc
    cases a with
    | nil => simp [listMeet] at hc
    | cons a as =>
      rw [listMeet_cons_cons, map_eq_some_iff] at hc
      obtain ⟨d, hd, rfl⟩ := hc
      have hp := IsPoint.prod (p := (p, ps)) (h p mem_cons_self)
        (ih fun x hx => h x (mem_cons_of_mem p hx)) _ _ hd
      rw [hp]

/-- The laws transfer along a retract: `meet` computes on views, and an overlap of views is the view
of the element made from it. -/
theorem LawsAt.retract {meet : α → α → Option α} {m : β → β → Option β} (view : α → β)
    (ofView : β → α) (hmeet : ∀ a b, meet a b = (m (view a) (view b)).map ofView)
    (hview : ∀ x y z, m x y = some z → view (ofView z) = z) {a : α} (h : LawsAt m (view a)) : LawsAt meet a := by
  refine ⟨fun b => ?_, fun b c => ?_, fun {b c} hb => ?_⟩
  · rw [hmeet, hmeet, h.comm]
  · have hassoc := congrArg (Option.map ofView) (h.assoc (view b) (view c))
    rw [Option.map_bind, Option.map_bind] at hassoc
    rw [hmeet a b, hmeet b c, bind_map, bind_map]
    calc (m (view a) (view b)).bind ((fun x => meet x c) ∘ ofView)
        = (m (view a) (view b)).bind (Option.map ofView ∘ fun x => m x (view c)) :=
          Option.bind_congr fun z hz => by simp [hmeet, hview _ _ _ hz]
      _ = (m (view b) (view c)).bind (Option.map ofView ∘ m (view a)) := hassoc
      _ = (m (view b) (view c)).bind (meet a ∘ ofView) :=
          Option.bind_congr fun z hz => by simp [hmeet, hview _ _ _ hz]
  · rw [hmeet, map_eq_some_iff] at hb
    obtain ⟨z, hz, rfl⟩ := hb
    rw [hmeet, hview _ _ _ hz, h.absorb hz]
    rfl

theorem IsPoint.retract {meet : α → α → Option α} {m : β → β → Option β} (view : α → β)
    (ofView : β → α) (hmeet : ∀ a b, meet a b = (m (view a) (view b)).map ofView) {p : α}
    (h : IsPoint m (view p)) (hp : ofView (view p) = p) : IsPoint meet p := by
  intro a c hc
  rw [hmeet, map_eq_some_iff] at hc
  obtain ⟨z, hz, rfl⟩ := hc
  rw [h _ _ hz, hp]

section Kind

variable {meet : α → α → Option α} {kind : α → κ} {mk : β → α} {m : β → β → Option β}

/-- The laws at an element of one kind of a tagged union. Only elements of one kind overlap, and the
elements of this kind, made by `mk`, overlap as their payloads do. -/
theorem LawsAt.ofKind (hkind : ∀ a b c, meet a b = some c → kind a = kind b ∧ kind c = kind a)
    (hmk : ∀ x b, kind (mk x) = kind b → ∃ y, b = mk y)
    (hmeet : ∀ x y, meet (mk x) (mk y) = (m x y).map mk) {x : β} (h : LawsAt m x) : LawsAt meet (mk x) := by
  have none_of_ne : ∀ a b, kind a ≠ kind b → meet a b = none := by
    intro a b hab
    rcases hc : meet a b with _ | c
    · rfl
    · exact absurd (hkind a b c hc).1 hab
  refine ⟨fun b => ?_, fun b c => ?_, fun {b c} hb => ?_⟩
  · by_cases hb : kind (mk x) = kind b
    · obtain ⟨y, rfl⟩ := hmk x b hb
      rw [hmeet, hmeet, h.comm]
    · rw [none_of_ne _ _ hb, none_of_ne _ _ (Ne.symm hb)]
  · by_cases hb : kind (mk x) = kind b
    · obtain ⟨y, rfl⟩ := hmk x b hb
      by_cases hc : kind (mk y) = kind c
      · obtain ⟨z, rfl⟩ := hmk y c hc
        have hassoc := congrArg (Option.map mk) (h.assoc y z)
        simp only [Option.map_bind, Function.comp_def] at hassoc
        simp only [hmeet, bind_map, Function.comp_def]
        exact hassoc
      · rw [none_of_ne _ _ hc, bind_none, hmeet, bind_map]
        -- The overlap of `mk x` and `mk y` keeps their kind, so it misses `c` as well.
        apply Option.bind_eq_none_iff.2
        intro z hz
        apply none_of_ne
        have hk := (hkind (mk x) (mk y) (mk z) (by rw [hmeet, hz]; rfl)).2
        rw [hk, hb]
        exact hc
    · rw [none_of_ne _ _ hb, bind_none]
      symm
      apply Option.bind_eq_none_iff.2
      intro d hd
      apply none_of_ne
      rw [(hkind b c d hd).2]
      exact hb
  · have hk := (hkind _ _ _ hb)
    obtain ⟨y, rfl⟩ := hmk x b hk.1
    rw [hmeet, map_eq_some_iff] at hb
    obtain ⟨z, hz, rfl⟩ := hb
    rw [hmeet, h.absorb hz]
    rfl

theorem IsPoint.ofKind (hkind : ∀ a b c, meet a b = some c → kind a = kind b ∧ kind c = kind a)
    (hmk : ∀ x b, kind (mk x) = kind b → ∃ y, b = mk y)
    (hmeet : ∀ x y, meet (mk x) (mk y) = (m x y).map mk) {x : β} (h : IsPoint m x) : IsPoint meet (mk x) := by
  intro a c hc
  obtain ⟨y, rfl⟩ := hmk x a (hkind _ _ _ hc).1.symm
  rw [hmeet, map_eq_some_iff] at hc
  obtain ⟨z, hz, rfl⟩ := hc
  rw [h _ _ hz]

end Kind

/-! ## Preference-ordered alternatives

A list of alternatives stands for the union of what its members contain, with the preferred
alternative first. -/

/-- The overlaps of all pairs of alternatives, row by row. -/
def overlaps (m : α → α → Option α) (s t : List α) : List α :=
  s.flatMap fun a => t.filterMap (m a)

theorem exists_overlaps_contains_iff {m : α → α → Option α} (h : Lawful m) {s t : List α} {p : α} :
    (∃ c ∈ overlaps m s t, Contains m c p) ↔ (∃ a ∈ s, Contains m a p) ∧ ∃ b ∈ t, Contains m b p := by
  simp only [overlaps, mem_flatMap, mem_filterMap]
  constructor
  · rintro ⟨c, ⟨a, ha, b, hb, hab⟩, hp⟩
    obtain ⟨hap, hbp⟩ := (contains_meet_iff h hab).1 hp
    exact ⟨⟨a, ha, hap⟩, b, hb, hbp⟩
  · rintro ⟨⟨a, ha, hap⟩, b, hb, hbp⟩
    obtain ⟨c, hab, hcp⟩ := exists_meet_of_contains h hap hbp
    exact ⟨c, ⟨a, ha, b, hb, hab⟩, hcp⟩

section PushNew

variable [DecidableEq α]

/-- Append `c` unless it is already there. -/
def pushNew (out : List α) (c : α) : List α := if c ∈ out then out else out ++ [c]

theorem mem_pushNew {out : List α} {c d : α} : d ∈ pushNew out c ↔ d ∈ out ∨ d = c := by
  unfold pushNew
  split_ifs with hc
  · constructor
    · exact Or.inl
    · rintro (h | rfl)
      · exact h
      · exact hc
  · rw [mem_append, mem_singleton]

theorem nodup_pushNew {out : List α} (h : out.Nodup) (c : α) : (pushNew out c).Nodup := by
  unfold pushNew
  split_ifs with hc
  · exact h
  · exact List.nodup_append.2 ⟨h, nodup_singleton c, by grind⟩

theorem mem_foldl_pushNew_ite (l : List β) (keep : β → Bool) (value : β → α) (out : List α) (d : α) :
    d ∈ l.foldl (fun out s => if keep s then pushNew out (value s) else out) out ↔
      d ∈ out ∨ ∃ s ∈ l, keep s ∧ d = value s := by
  induction l generalizing out with
  | nil => simp
  | cons s l ih =>
    rw [foldl_cons, ih]
    by_cases hs : keep s = true
    · simp only [hs, if_true, mem_pushNew, mem_cons, exists_eq_or_imp, true_and, or_assoc]
    · simp [hs]

theorem foldl_pushNew (l out : List α) : l.foldl pushNew out = out ++ (l.removeAll out).eraseDups := by
  induction l generalizing out with
  | nil => simp
  | cons c l ih =>
    rw [foldl_cons, ih]
    unfold pushNew
    by_cases hc : c ∈ out
    · simp [hc, List.removeAll]
    · rw [if_neg hc, append_assoc]
      congr 1
      have hrem : (c :: l).removeAll out = c :: l.removeAll out := by simp [List.removeAll, hc]
      rw [hrem, eraseDups_cons, singleton_append]
      congr 2
      simp only [List.removeAll, filter_filter]
      apply filter_congr
      intro x _
      by_cases hx : x = c <;> by_cases hxo : x ∈ out <;> simp [hx, hxo]

theorem foldl_pushNew_nil (l : List α) : l.foldl pushNew [] = l.eraseDups := by
  rw [foldl_pushNew]
  simp [List.removeAll]

theorem mem_foldl_pushNew {l out : List α} {d : α} : d ∈ l.foldl pushNew out ↔ d ∈ out ∨ d ∈ l := by
  rw [foldl_pushNew, mem_append, mem_eraseDups, List.removeAll, List.mem_filter]
  by_cases hd : d ∈ out <;> simp [hd]

theorem nodup_eraseDups (l : List α) : l.eraseDups.Nodup := by
  rw [← foldl_pushNew_nil]
  exact List.foldlRecOn _ _ nodup_nil fun out hout c _ => nodup_pushNew hout c

end PushNew

end PartialMeet
