import Glass2Glass.Runtime.Reroute

/-!
# Names across live edits

An edit asks `unique_name_among` for names and `retire_node` takes nodes out of the table; what else it does leaves
the floors alone. A name can be read as a category and a number in several ways, and the floors move past the
readings whose category has a floor. No name is handed out twice as long as every category gets its floor before a
name that reads with it leaves (`names_not_reused`).
-/

namespace Glass2Glass.Runtime

open List Function

namespace MutationService

/-- The service, with the names of the nodes that it has retired. -/
structure Naming where
  service : MutationService
  retired : List InstanceName

/-- What an edit does with names, step by step. -/
inductive NamingStep
  | name (category : InstanceName) (taken : List InstanceName)
  | retire (i : Nat)
  /-- Nodes are added and changed. -/
  | other (f : MutationService → MutationService) (kept : ∀ s, (f s).nameFloors = s.nameFloors)

def Naming.step (s : Naming) : NamingStep → Option Naming
  | .name category taken =>
    match (uniqueNameAmong category taken : Op Empty InstanceName) s.service with
    | (.ok _, service) => some { s with service }
    | _ => none
  | .retire i =>
    match s.service.nodes.get? i, (retireNode i : Op Empty Unit) s.service with
    | some n, (.ok _, service) => some ⟨service, n.name :: s.retired⟩
    | _, _ => none
  | .other f _ => some { s with service := f s.service }

/-- A name read as a category and a number that a `usize` holds. -/
def Reads (name category : InstanceName) (number : Nat) : Prop :=
  name = category ++ Nat.toDigits 10 number ∧ number < 2 ^ 64

/-- A category gets its floor before a name that reads with it leaves. -/
def Naming.Opens (s : Naming) (category : InstanceName) : Prop :=
  s.service.nameFloors category = none → ∀ name ∈ s.retired, ∀ number, ¬ Reads name category number

/-- What a step may ask for: a category that has not lost a reading and has a free number below the last one, or to
retire a node after whose readings a number is left. -/
def Naming.Good (s : Naming) : NamingStep → Prop
  | .name category taken => s.Opens category ∧
      ∃ m, (s.service.nameFloors category).getD 0 ≤ m ∧ m + 1 < 2 ^ 64 ∧ category ++ Nat.toDigits 10 m ∉ taken ∧
        ∀ entry ∈ s.service.nodes.iter, entry.2.name ≠ category ++ Nat.toDigits 10 m
  | .retire i => ∀ n, s.service.nodes.get? i = some n → ∀ category number, Reads n.name category number →
      (n.namedAtStartup = true ∨ (s.service.nameFloors category).isSome) → number + 1 < 2 ^ 64 ∧ s.Opens category
  | .other _ _ => True

variable {s : MutationService} {category name : InstanceName} {taken : List InstanceName}

/-! ## The search -/

/-- The number that is found is the first free one. -/
theorem searchName_number {fuel k floor floor' : Nat}
    (h : s.searchName category taken fuel k floor = some (name, floor')) (hfloor : floor ≤ k) :
    ∃ number, name = category ++ Nat.toDigits 10 number ∧ k ≤ number ∧ floor ≤ floor' ∧ floor' ≤ number ∧
      ∀ m, k ≤ m → category ++ Nat.toDigits 10 m ∉ taken →
        (∀ entry ∈ s.nodes.iter, entry.2.name ≠ category ++ Nat.toDigits 10 m) → number ≤ m := by
  induction fuel generalizing k floor with
  | zero => cases h
  | succ fuel ih =>
    unfold searchName at h
    dsimp only at h
    split at h
    · next hfree =>
      rw [Bool.and_eq_true, Bool.not_eq_true'] at hfree
      rw [hfree.1, Bool.false_and, if_neg Bool.false_ne_true] at h
      obtain ⟨rfl, rfl⟩ := Prod.mk.inj (Option.some.inj h)
      exact ⟨k, rfl, Nat.le_refl _, Nat.le_refl _, hfloor, fun m hm _ _ => hm⟩
    · next hused =>
      have hbounds : ∀ c : Bool, floor ≤ (if c then k + 1 else floor) ∧ (if c then k + 1 else floor) ≤ k + 1 := by
        intro c
        split_ifs <;> omega
      obtain ⟨number, hname, hk, hle, hnumber, hfirst⟩ := ih h (hbounds _).2
      refine ⟨number, hname, Nat.le_of_succ_le hk, Nat.le_trans (hbounds _).1 hle, hnumber,
        fun m hm htaken hgraph => ?_⟩
      rcases Nat.eq_or_lt_of_le hm with rfl | hm
      · refine absurd ?_ hused
        rw [Bool.and_eq_true, Bool.not_eq_true', Bool.not_eq_true', any_eq_false]
        exact ⟨fun entry hentry heq => hgraph entry hentry (beq_iff_eq.1 heq), by simpa using htaken⟩
      · exact hfirst m hm htaken hgraph

/-! ## The floors -/

/-- The floors move past one reading. -/
def raised (name : InstanceName) (namedAtStartup : Bool) (floors : InstanceName → Option Nat) (split : Nat) :
    InstanceName → Option Nat :=
  match Text.parseBelow 10 (2 ^ 64) (name.drop split) with
  | some n =>
    if Nat.toDigits 10 n = name.drop split ∧ (namedAtStartup ∨ (floors (name.take split)).isSome) then
      update floors (name.take split) (some (max ((floors (name.take split)).getD 0) (n + 1)))
    else floors
  | none => floors

variable {floors : InstanceName → Option Nat} {namedAtStartup : Bool} {number : Nat}

theorem foldl_raised {splits : List Nat} (h : ∀ split ∈ splits, ∀ g : InstanceName → Option Nat,
    g category = floors category → raised name namedAtStartup g split category = floors category) :
    splits.foldl (raised name namedAtStartup) floors category = floors category := by
  induction splits generalizing floors with
  | nil => rfl
  | cons split splits ih =>
    have hhere := h split mem_cons_self floors rfl
    rw [foldl_cons, ← hhere]
    exact ih fun other hother g hg => (h other (mem_cons_of_mem _ hother) g (hg.trans hhere)).trans hhere.symm

theorem raised_of_ne {split : Nat} (h : category ≠ name.take split) (floors : InstanceName → Option Nat) :
    raised name namedAtStartup floors split category = floors category := by
  unfold raised
  rcases Text.parseBelow 10 (2 ^ 64) (name.drop split) with _ | n
  · rfl
  · dsimp only
    split_ifs
    · exact update_of_ne h _ _
    · rfl

/-- Where the name is read, the floor moves past the number. -/
theorem retireName_reads (hreads : Reads name category number)
    (hfloor : namedAtStartup = true ∨ (floors category).isSome) :
    retireName floors name namedAtStartup category = some (max ((floors category).getD 0) (number + 1)) := by
  obtain ⟨rfl, hnumber⟩ := hreads
  have hlt : category.length < (category ++ Nat.toDigits 10 number).length := by
    rw [length_append]
    exact Nat.lt_add_of_pos_right (length_pos_iff.2 Nat.toDigits_ne_nil)
  obtain ⟨before, after, hrange⟩ := append_of_mem (List.mem_range.2 hlt)
  have hnodup := nodup_middle.1 (hrange ▸ nodup_range)
  -- The category is cut out of the name at one place only.
  have hother : ∀ split ∈ before ++ after, category ≠ (category ++ Nat.toDigits 10 number).take split := by
    intro split hsplit heq
    have hmem : split ∈ List.range (category ++ Nat.toDigits 10 number).length := by
      rw [hrange]
      exact perm_middle.symm.subset (mem_cons_of_mem _ hsplit)
    have hlen := congrArg length heq
    rw [length_take, Nat.min_eq_left (Nat.le_of_lt (List.mem_range.1 hmem))] at hlen
    exact (nodup_cons.1 hnodup).1 (hlen ▸ hsplit)
  have hparse := Text.parseBelow_toDigits (by decide : 1 < 10) (by decide) 0 hnumber
  rw [replicate_zero, nil_append] at hparse
  show (List.range _).foldl (raised _ namedAtStartup) floors category = _
  rw [hrange, foldl_append, foldl_cons, foldl_raised fun split hsplit g hg =>
    (raised_of_ne (hother split (mem_append_right _ hsplit)) g).trans hg]
  have hbefore : before.foldl (raised (category ++ Nat.toDigits 10 number) namedAtStartup) floors category =
      floors category :=
    foldl_raised fun split hsplit g hg => (raised_of_ne (hother split (mem_append_left _ hsplit)) g).trans hg
  generalize before.foldl (raised _ namedAtStartup) floors = mid at hbefore ⊢
  unfold raised
  rw [drop_left, hparse]
  dsimp only
  rw [take_left, hbefore, if_pos ⟨rfl, hfloor⟩, update_self]

/-- Elsewhere the floors stay. -/
theorem retireName_other (h : ∀ number, Reads name category number →
    ¬ (namedAtStartup = true ∨ (floors category).isSome)) :
    retireName floors name namedAtStartup category = floors category := by
  refine foldl_raised fun split _ g hg => ?_
  by_cases heq : category = name.take split
  · subst heq
    unfold raised
    rcases hparse : Text.parseBelow 10 (2 ^ 64) (name.drop split) with _ | n
    · exact hg
    · dsimp only
      rw [if_neg fun hread => h n ⟨by rw [hread.1, take_append_drop],
        of_decide_eq_true (Option.filter_eq_some_iff.1 hparse).2⟩ (hg ▸ hread.2)]
      exact hg
  · exact (raised_of_ne heq g).trans hg

/-! ## The run -/

/-- The floors are `usize`s and stand above the readings of the names that have left. -/
def Naming.Above (s : Naming) : Prop :=
  ∀ category f, s.service.nameFloors category = some f →
    f < 2 ^ 64 ∧ ∀ name ∈ s.retired, ∀ number, Reads name category number → number < f

/-- A name that no node has or has had, with a number that the count reaches within a `usize`. -/
structure Naming.New (s : Naming) (category : InstanceName) (taken : List InstanceName) (name : InstanceName) :
    Prop where
  live : ∀ i n, s.service.topology.nodes i = some n → n.name ≠ name
  taken : name ∉ taken
  retired : name ∉ s.retired
  counted : ∃ number, name = category ++ Nat.toDigits 10 number ∧ number + 1 < 2 ^ 64

namespace Naming

variable {s s' : Naming}

theorem Above.floor (h : s.Above) (hopens : s.Opens category) : (s.service.nameFloors category).getD 0 < 2 ^ 64 ∧
    ∀ name ∈ s.retired, ∀ number, Reads name category number → number < (s.service.nameFloors category).getD 0 := by
  rcases hf : s.service.nameFloors category with _ | f
  · exact ⟨Nat.two_pow_pos 64, fun name hname number hreads => absurd hreads (hopens hf name hname number)⟩
  · exact h category f hf

/-- A name that is handed out is new, and its category has a floor that has not fallen. -/
theorem Above.exists_new (h : s.Above) (hgood : s.Good (.name category taken)) : ∃ name floor,
    (uniqueNameAmong category taken : Op Empty InstanceName) s.service =
        (.ok name, { s.service with nameFloors := update s.service.nameFloors category (some floor) }) ∧
      s.New category taken name ∧ (s.service.nameFloors category).getD 0 ≤ floor ∧ floor < 2 ^ 64 := by
  obtain ⟨hopens, m, hm, hlast, htaken, hgraph⟩ := hgood
  have hfound : s.service.searchName category taken (s.service.nodes.entries.length + taken.length + 1)
      ((s.service.nameFloors category).getD 0) ((s.service.nameFloors category).getD 0) ≠ none :=
    searchName_ne_none _ _ (Nat.lt_add_one _)
  obtain ⟨⟨name, floor⟩, hsearch⟩ := Option.ne_none_iff_exists'.1 hfound
  obtain ⟨hlive, hout, -⟩ := searchName_eq_some hsearch
  obtain ⟨number, hname, hnumber, hle, hfloor, hfirst⟩ := searchName_number hsearch (Nat.le_refl _)
  have hsmall := hfirst m hm htaken hgraph
  refine ⟨name, floor, ?_, ⟨hlive, hout, fun hretired => ?_, number, hname, by omega⟩, hle, by omega⟩
  · unfold uniqueNameAmong
    dsimp only
    rw [hsearch]
  · exact absurd ((h.floor hopens).2 name hretired number ⟨hname, by omega⟩) (Nat.not_lt.2 hnumber)

theorem above_step {a : NamingStep} (h : s.Above) (hgood : s.Good a) (hstep : s.step a = some s') : s'.Above := by
  cases a with
  | name category taken =>
    obtain ⟨name, floor, heq, -, hle, hfloor⟩ := h.exists_new hgood
    unfold Naming.step at hstep
    dsimp only at hstep
    rw [heq] at hstep
    obtain rfl := Option.some.inj hstep
    intro other f hf
    by_cases hother : other = category
    · subst hother
      obtain rfl := Option.some.inj ((update_self other _ _).symm.trans hf)
      exact ⟨hfloor, fun old hold number hreads =>
        Nat.lt_of_lt_of_le ((h.floor hgood.1).2 old hold number hreads) hle⟩
    · exact h other f ((update_of_ne hother _ _).symm.trans hf)
  | retire i =>
    rcases hn : s.service.nodes.get? i with _ | n <;>
      simp only [Naming.step, retireNode, Slots.remove, hn, Option.map_some, Option.map_none] at hstep
    · cases hstep
    obtain rfl := Option.some.inj hstep
    have hgood := hgood n hn
    intro category f (hf : retireName s.service.nameFloors n.name n.namedAtStartup category = some f)
    by_cases hread : ∃ number, Reads n.name category number ∧
        (n.namedAtStartup = true ∨ (s.service.nameFloors category).isSome)
    · obtain ⟨number, hreads, hfrom⟩ := hread
      obtain ⟨hnumber, hopens⟩ := hgood category number hreads hfrom
      obtain ⟨hsmall, habove⟩ := h.floor hopens
      have hmoved : ∀ number, Reads n.name category number →
          f = max ((s.service.nameFloors category).getD 0) (number + 1) :=
        fun number hreads => Option.some.inj (hf.symm.trans (retireName_reads hreads hfrom))
      refine ⟨hmoved number hreads ▸ Nat.max_lt.2 ⟨hsmall, hnumber⟩, fun old hold number' hreads' => ?_⟩
      rcases List.mem_cons.1 hold with rfl | hold
      · exact hmoved number' hreads' ▸ Nat.lt_of_lt_of_le (Nat.lt_succ_self number') (Nat.le_max_right _ _)
      · exact hmoved number hreads ▸ Nat.lt_of_lt_of_le (habove old hold number' hreads') (Nat.le_max_left _ _)
    · rw [retireName_other fun number hreads hfrom => hread ⟨number, hreads, hfrom⟩] at hf
      refine ⟨(h category f hf).1, fun old hold number hreads => ?_⟩
      rcases List.mem_cons.1 hold with rfl | hold
      · exact absurd ⟨number, hreads, Or.inr (Option.isSome_of_eq_some hf)⟩ hread
      · exact (h category f hf).2 old hold number hreads
  | other f kept =>
    obtain rfl := Option.some.inj hstep
    intro category g hg
    exact h category g (by rwa [kept] at hg)

/-- In every run in which each category gets its floor before a name that reads with it leaves, and no number runs
out, the names that are handed out are new and the floors stay within a `usize`. -/
theorem names_not_reused {start : MutationService} (hstart : start.nameFloors = fun _ => none)
    {steps : List NamingStep} (hrun : Machine.run Naming.step ⟨start, []⟩ steps = some s)
    (halong : Machine.Along Naming.step Good ⟨start, []⟩ steps) (hgood : s.Good (.name category taken)) :
    (∀ category f, s.service.nameFloors category = some f → f < 2 ^ 64) ∧
      ∃ name service, (uniqueNameAmong category taken : Op Empty InstanceName) s.service = (.ok name, service) ∧
        s.New category taken name := by
  have habove : s.Above := by
    refine Machine.run_keeps_along (P := Above) (fun s a s' h hgood => above_step h hgood) hrun halong ?_
    intro category f hf
    rw [hstart] at hf
    cases hf
  obtain ⟨name, floor, heq, hnew, -⟩ := habove.exists_new hgood
  exact ⟨fun category f hf => (habove category f hf).1, name, _, heq, hnew⟩

end Naming

end MutationService

open MutationService

/-- Captions cross every edge. -/
def captioned : MutationService :=
  { twoBranchesService (letters ['s', 't', 'x', 'a', 'y', 'b']) with
    endpoints := fun e => (ProducerEndpoint.new (.into e)).setCaps (.closedCaption .cea708Cdp) }

theorem not_reads_x (category : InstanceName) (number : Nat) : ¬ Reads ['x'] category number := by
  rintro ⟨hname, -⟩
  rcases List.singleton_eq_append_iff.1 hname with ⟨-, hdigits⟩ | ⟨-, hdigits⟩
  · have hparse := Text.parseDigits_toDigits (by decide : 1 < 10) (by decide) number
    rw [hdigits] at hparse
    cases hparse
  · exact Nat.toDigits_ne_nil hdigits

/-- A transform named at startup has left. -/
theorem names_not_reused_x : ∃ s : Naming, Machine.run Naming.step ⟨captioned, []⟩ [.retire 2] = some s ∧
    ∃ name service, (uniqueNameAmong ['q'] [] : Op Empty InstanceName) s.service = (.ok name, service) ∧
      s.New ['q'] [] name := by
  have hx : (captioned.nodes.get? 2).map LiveNode.name = some ['x'] := by decide +kernel
  obtain ⟨s, hs⟩ := Option.isSome_iff_exists.1
    (show (Machine.run Naming.step ⟨captioned, []⟩ [.retire 2]).isSome by decide +kernel)
  have hmid : (Machine.run Naming.step ⟨captioned, []⟩ [.retire 2]).map (fun s => decide (s.retired = [['x']] ∧
      s.service.nameFloors ['q'] = none ∧ ∀ entry ∈ s.service.nodes.iter, entry.2.name ≠ ['q', '0'])) = some true := by
    decide +kernel
  rw [hs, Option.map_some] at hmid
  obtain ⟨hretired, hfloor, hnodes⟩ := of_decide_eq_true (Option.some.inj hmid)
  refine ⟨s, hs, (Naming.names_not_reused rfl hs (Machine.Along.cons ?_ fun _ _ => Machine.along_nil) ?_).2⟩
  · intro n hn category number hreads
    rw [hn] at hx
    rw [Option.some.inj hx] at hreads
    exact absurd hreads (not_reads_x category number)
  · refine ⟨fun _ name hname number => ?_, 0, ?_, by decide, nofun, hnodes⟩
    · rw [hretired, List.mem_singleton] at hname
      exact hname ▸ not_reads_x _ number
    · rw [hfloor]
      exact Nat.le_refl 0

/-- Elements that pass captions on. -/
def passing (category : InstanceName) : Element Unit := ⟨category, .ok (.closedCaption .cea708Cdp), .ok ()⟩

/-- An element of category `a1` comes and goes, then eleven elements of category `a` come. -/
def comeAndGo : Op Unit (List InstanceName × List InstanceName) := do
  let (first, _) ← serve (.insert ['s'] .below [passing ['a', '1']] none) (promptly 0)
  let _ ← serve (.remove ['a', '1', '0']) (promptly 0)
  let (second, _) ← serve (.insert ['s'] .below (List.replicate 11 (passing ['a'])) none) (promptly 0)
  return (first, second)

/-- Two elements are named `a10`, one after the other. -/
theorem a10_comes_back : ∃ first second, (comeAndGo captioned).1.toOption = some (first, second) ∧
    ['a', '1', '0'] ∈ first ∧ ['a', '1', '0'] ∈ second :=
  ⟨[['a', '1', '0']], (List.range 11).map fun n => 'a' :: Nat.toDigits 10 n, by decide +kernel, by decide, by decide⟩

end Glass2Glass.Runtime
