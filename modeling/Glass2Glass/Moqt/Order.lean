import Glass2Glass.Moqt.Reassembly

/-!
# The order of what a track gives out

Whatever streams open and close and in whichever order their objects arrive, the reassembler gives payloads out in
the order of their ids, holds no more than its bounds and always stops (`Reassembler.in_order`).
-/

namespace Glass2Glass.Moqt

open Rounds List SortedMap Option

variable {fuel : Nat}

/-- The order of group and object ids. -/
def Before (a b : Nat × Nat) : Prop := a.1 < b.1 ∨ a.1 = b.1 ∧ a.2 < b.2

variable (pushed : List ReceivedObject)

/-- An object among those that were pushed. -/
def Pushed (groupId objectId : Nat) (payload : List UInt8) : Prop :=
  ∃ o ∈ pushed, o.groupId = groupId ∧ o.objectId = objectId ∧ o.payload = payload

/-- A group of pushed objects and the number of their bytes. -/
structure PendingGroup.Holds (id : Nat) (g : PendingGroup) : Prop where
  bytes : g.bytes = g.objects.total List.length
  objects : ∀ o ∈ g.objects.entries, o.1 < 2 ^ 64 - 1 ∧ Pushed pushed id o.1 o.2

/-- What is buffered: groups from the floor on, where the cursor stands, and nothing below the cursor. -/
structure Holds (groups : SortedMap Nat PendingGroup) (cursor : Option Cursor) (floor bytes : Nat) : Prop where
  floor_le : ∀ e ∈ groups.entries, floor ≤ e.1 ∧ e.1 < 2 ^ 64 - 1
  cursor_eq : ∀ c, cursor = some c → c.group = floor
  next_le : ∀ c g, cursor = some c → (c.group, g) ∈ groups.entries → ∀ o ∈ g.objects.entries, c.nextObject ≤ o.1
  group : ∀ e ∈ groups.entries, e.2.Holds pushed e.1
  bytes : bytes = groups.total PendingGroup.bytes

/-- What was given out: pushed payloads in the order of their ids, all below the cursor. -/
structure Emitted (cursor : Option Cursor) (emitted : List ((Nat × Nat) × List UInt8)) : Prop where
  sorted : emitted.Pairwise fun a b => Before a.1 b.1
  below : ∀ e ∈ emitted, ∃ c, cursor = some c ∧ Before e.1 (c.group, c.nextObject)
  pushed : ∀ e ∈ emitted, e.2 ≠ [] ∧ Pushed pushed e.1.1 e.1.2 e.2

/-- The state of a reassembler after it gave out some payloads. -/
def Reassembler.Inv (r : Reassembler) (out : List (List UInt8)) : Prop :=
  Holds pushed r.groups r.cursor r.floor r.bufferedBytes ∧
    ∃ emitted, emitted.map Prod.snd = out ∧ Emitted pushed r.cursor emitted

theorem Pushed.mono {pushed later : List ReceivedObject} {groupId objectId : Nat} {payload : List UInt8}
    (h : Pushed pushed groupId objectId payload) (hsub : pushed ⊆ later) : Pushed later groupId objectId payload := by
  obtain ⟨o, ho, hsame⟩ := h
  exact ⟨o, hsub ho, hsame⟩

theorem Before.trans_next {a : Nat × Nat} {c : Cursor} {c' : Nat × Nat} (h : Before a (c.group, c.nextObject))
    (hle : c.group < c'.1 ∨ c.group = c'.1 ∧ c.nextObject ≤ c'.2) : Before a c' := by
  unfold Before at h ⊢
  omega

/-! ## The groups -/

theorem PendingGroup.holds_default (id : Nat) : PendingGroup.default.Holds pushed id :=
  ⟨rfl, fun o ho => by cases ho⟩

namespace Holds

variable {pushed later : List ReceivedObject} {groups : SortedMap Nat PendingGroup} {cursor : Option Cursor}
  {floor bytes id : Nat} {g : PendingGroup}

section

variable (h : Holds pushed groups cursor floor bytes)

include h

theorem mono (hsub : pushed ⊆ later) :
    Holds later groups cursor floor bytes :=
  { h with
    group := fun e he =>
      ⟨(h.group e he).bytes, fun o ho => ((h.group e he).objects o ho).imp_right fun hp => hp.mono hsub⟩ }

theorem erase (hg : groups.get? id = some g) :
    Holds pushed (groups.erase id) cursor floor (bytes - g.bytes) where
  floor_le e he := h.floor_le e (SortedMap.mem_erase.1 he).2
  cursor_eq := h.cursor_eq
  next_le c g hc hmem := h.next_le c g hc (SortedMap.mem_erase.1 hmem).2
  group e he := h.group e (SortedMap.mem_erase.1 he).2
  bytes := by
    have htotal := total_erase PendingGroup.bytes hg
    rw [h.bytes, htotal, Nat.add_sub_cancel_left]

theorem insert (hid : floor ≤ id ∧ id < 2 ^ 64 - 1)
    (hg : g.Holds pushed id)
    (hnext : ∀ c, cursor = some c → c.group = id → ∀ o ∈ g.objects.entries, c.nextObject ≤ o.1) (bytes' : Nat)
    (hbytes : bytes' + (groups.get? id).elim 0 PendingGroup.bytes = bytes + g.bytes) :
    Holds pushed (groups.insert id g) cursor floor bytes' where
  floor_le e he := by
    rcases SortedMap.mem_insert.1 he with rfl | ⟨-, he⟩
    · exact hid
    · exact h.floor_le e he
  cursor_eq := h.cursor_eq
  next_le c g' hc hmem := by
    rcases SortedMap.mem_insert.1 hmem with heq | ⟨-, hmem⟩
    · obtain ⟨hgroup, rfl⟩ := Prod.mk.inj heq
      exact hnext c hc hgroup
    · exact h.next_le c g' hc hmem
  group e he := by
    rcases SortedMap.mem_insert.1 he with rfl | ⟨-, he⟩
    · exact hg
    · exact h.group e he
  bytes := by
    rw [total_insert]
    have hsum := h.bytes
    rcases hget : groups.get? id with _ | old
    · rw [hget, elim_none] at hbytes
      have herase := total_erase_of_none PendingGroup.bytes hget
      omega
    · rw [hget, elim_some] at hbytes
      have herase := total_erase PendingGroup.bytes hget
      omega

theorem moveTo {c : Cursor} (hfloor : ∀ e ∈ groups.entries, c.group ≤ e.1)
    (hnext : ∀ g, (c.group, g) ∈ groups.entries → ∀ o ∈ g.objects.entries, c.nextObject ≤ o.1) :
    Holds pushed groups (some c) c.group bytes where
  floor_le e he := ⟨hfloor e he, (h.floor_le e he).2⟩
  cursor_eq c' hc' := by rw [Option.some.inj hc']
  next_le c' g hc' hmem := by
    obtain rfl := Option.some.inj hc'
    exact hnext g hmem
  group := h.group
  bytes := h.bytes

theorem getD (id : Nat) :
    ((groups.get? id).getD .default).Holds pushed id ∧ ∀ c, cursor = some c → c.group = id →
        ∀ o ∈ ((groups.get? id).getD .default).objects.entries, c.nextObject ≤ o.1 := by
  rcases hget : groups.get? id with _ | g
  · exact ⟨PendingGroup.holds_default _ _, fun c _ _ o ho => by cases ho⟩
  · have hmem := SortedMap.get?_eq_some.1 hget
    refine ⟨h.group _ hmem, fun c hc hid => h.next_le c g hc ?_⟩
    rw [hid]
    exact hmem

end

end Holds

namespace Reassembler

def weight (r : Reassembler) : Nat := r.groups.total fun g => g.objects.size + 1

/-- The same reassembler without some of its groups. -/
structure Without (gone : Nat → Prop) (r r' : Reassembler) : Prop where
  cursor : r'.cursor = r.cursor
  floor : r'.floor = r.floor
  maxGroups : r'.maxGroups = r.maxGroups
  maxBytes : r'.maxBytes = r.maxBytes
  entries : ∀ e, e ∈ r'.groups.entries ↔ ¬gone e.1 ∧ e ∈ r.groups.entries
  weight : r'.weight ≤ r.weight
  holds : ∀ pushed, Holds pushed r.groups r.cursor r.floor r.bufferedBytes →
    Holds pushed r'.groups r.cursor r.floor r'.bufferedBytes

theorem Without.trans {gone gone' : Nat → Prop} {a b c : Reassembler} (h : Without gone a b) (h' : Without gone' b c) :
    Without (fun id => gone id ∨ gone' id) a c where
  cursor := h'.cursor.trans h.cursor
  floor := h'.floor.trans h.floor
  maxGroups := h'.maxGroups.trans h.maxGroups
  maxBytes := h'.maxBytes.trans h.maxBytes
  entries e := by
    rw [h'.entries, h.entries, ← and_assoc, not_or, and_comm (a := ¬gone' e.1)]
  weight := h'.weight.trans h.weight
  holds pushed hr := by
    have hb := h.holds pushed hr
    rw [← h.cursor, ← h.floor] at hb
    have hc := h'.holds pushed hb
    rwa [h.cursor, h.floor] at hc

theorem without_removeGroup (r : Reassembler) (id : Nat) : Without (· = id) r (r.removeGroup id) := by
  unfold removeGroup
  rcases hget : r.groups.get? id with _ | dead
  · have hentries : ∀ e, e ∈ r.groups.entries ↔ ¬e.1 = id ∧ e ∈ r.groups.entries := by
      intro e
      refine ⟨fun he => ⟨fun heq => ?_, he⟩, And.right⟩
      exact SortedMap.get?_eq_none.1 hget e.2 (heq ▸ he)
    exact ⟨rfl, rfl, rfl, rfl, hentries, le_rfl, fun _ h => h⟩
  · refine ⟨rfl, rfl, rfl, rfl, fun e => mem_erase, ?_, fun _ h => h.erase hget⟩
    have htotal := total_erase (fun g : PendingGroup => g.objects.size + 1) hget
    show (r.groups.erase id).total _ ≤ r.groups.total _
    omega

theorem without_dropBelow (r : Reassembler) (id : Nat) :
    ∃ d, Without (· < id) r d ∧ r.dropBelow id = { d with floor := max d.floor id } := by
  -- One group after another is removed.
  have hfold : ∀ (ids : List Nat) (r : Reassembler),
      Without (· ∈ ids) r (ids.foldl (fun r id => { r with stats := r.stats.dropGroup }.removeGroup id) r) := by
    intro ids
    induction ids with
    | nil => exact fun r => ⟨rfl, rfl, rfl, rfl, fun e => by simp, le_rfl, fun _ h => h⟩
    | cons id ids ih =>
      intro r
      have hfirst : Without (· = id) r ({ r with stats := r.stats.dropGroup }.removeGroup id) := by
        have hremove := without_removeGroup { r with stats := r.stats.dropGroup } id
        exact ⟨hremove.cursor, hremove.floor, hremove.maxGroups, hremove.maxBytes, hremove.entries, hremove.weight,
          hremove.holds⟩
      have hall := hfirst.trans (ih _)
      have hgone : (fun i => i = id ∨ i ∈ ids) = (· ∈ id :: ids) := by
        funext i
        rw [mem_cons]
      rwa [hgone] at hall
  have hstale := hfold ((r.groups.entries.map Prod.fst).filter (· < id)) r
  refine ⟨_, { hstale with entries := fun e => ?_ }, rfl⟩
  rw [hstale.entries, List.mem_filter, decide_eq_true_iff]
  refine and_congr_left fun he => not_congr (and_iff_right ?_)
  exact mem_map_of_mem he

/-! ## The steps -/

variable {pushed : List ReceivedObject} {r r' : Reassembler} {out new : List (List UInt8)}

theorem Inv.moveTo (h : r.Inv pushed out) {d : Reassembler} {gone : Nat → Prop} (hd : Without gone r d) {c : Cursor}
    (hcursor : ∀ c', r.cursor = some c' → c'.group < c.group ∨ c'.group = c.group ∧ c'.nextObject ≤ c.nextObject)
    (hfloor : ∀ e ∈ d.groups.entries, c.group ≤ e.1)
    (hnext : ∀ g, (c.group, g) ∈ d.groups.entries → ∀ o ∈ g.objects.entries, c.nextObject ≤ o.1) {floor : Nat}
    (hgroup : floor = c.group) (stats : ReassemblyStats) :
    Inv pushed { d with cursor := some c, floor := floor, stats := stats } out := by
  obtain ⟨hholds, emitted, hout, hemitted⟩ := h
  subst hgroup
  refine ⟨(hd.holds pushed hholds).moveTo hfloor hnext, emitted, hout, hemitted.sorted, fun e he => ?_, hemitted.pushed⟩
  obtain ⟨c', hc', hbelow⟩ := hemitted.below e he
  exact ⟨c, rfl, hbelow.trans_next (hcursor c' hc')⟩

theorem Without.refl (r : Reassembler) : Without (fun _ => False) r r :=
  ⟨rfl, rfl, rfl, rfl, fun e => by simp, le_rfl, fun _ h => h⟩

theorem Inv.closeGroup (h : r.Inv pushed out) {id : Nat} (hlowest : ∀ e ∈ r.groups.entries, id ≤ e.1)
    (hid : id < 2 ^ 64 - 1) (hfloor : r.floor ≤ id) : Inv pushed (r.closeGroup id) out := by
  have hnextId : nextId id = id + 1 := Nat.min_eq_left (by omega)
  have hremove := without_removeGroup r id
  have habove : ∀ e ∈ (r.removeGroup id).groups.entries, nextId id ≤ e.1 := by
    intro e he
    obtain ⟨hne, he⟩ := (hremove.entries e).1 he
    have hle := hlowest e he
    omega
  refine h.moveTo hremove (fun c hc => Or.inl ?_) habove (fun g _ o _ => Nat.zero_le _) rfl _
  have hcursor := h.1.cursor_eq c hc
  show c.group < nextId id
  omega

/-- The object at the cursor is given out. -/
theorem Inv.emit (h : r.Inv pushed out) {c : Cursor} {g : PendingGroup} {payload : List UInt8}
    (hc : r.cursor = some c) (hg : r.groups.get? c.group = some g) (hpayload : g.objects.get? c.nextObject = some payload) :
    Inv pushed (r.emit c g payload).1 (out ++ (r.emit c g payload).2) := by
  obtain ⟨hholds, emitted, hout, hemitted⟩ := h
  have hmem := SortedMap.get?_eq_some.1 hg
  have hobject := SortedMap.get?_eq_some.1 hpayload
  have hgroup := hholds.group _ hmem
  obtain ⟨hlt, hpushed⟩ := hgroup.objects _ hobject
  have hnextId : nextId c.nextObject = c.nextObject + 1 := Nat.min_eq_left (by omega)
  have htotal := total_erase List.length hpayload
  have hsum := total_erase PendingGroup.bytes hg
  have hbytes := hholds.bytes
  have hgbytes : g.bytes = g.objects.total List.length := hgroup.bytes
  -- The objects that are left come after the one that is given out.
  have habove : ∀ o ∈ (g.objects.erase c.nextObject).entries, c.nextObject + 1 ≤ o.1 := by
    intro o ho
    obtain ⟨hne, ho⟩ := SortedMap.mem_erase.1 ho
    have hle := hholds.next_le c g hc hmem o ho
    omega
  have hrest : PendingGroup.Holds pushed c.group
      { g with objects := g.objects.erase c.nextObject, bytes := g.bytes - payload.length } := by
    refine ⟨?_, fun o ho => hgroup.objects o (SortedMap.mem_erase.1 ho).2⟩
    show g.bytes - payload.length = (g.objects.erase c.nextObject).total List.length
    omega
  have hinsert := hholds.insert (hholds.floor_le _ hmem) hrest (fun c' hc' _ o ho => by
      obtain rfl := Option.some.inj (hc.symm.trans hc')
      have hle := habove o ho
      omega)
    (r.bufferedBytes - payload.length) (by
      rw [hg, elim_some]
      show r.bufferedBytes - payload.length + g.bytes = r.bufferedBytes + (g.bytes - payload.length)
      omega)
  have hfloor := hholds.cursor_eq c hc
  have hmoved := hinsert.moveTo (c := { c with nextObject := nextId c.nextObject })
    (fun e he => by
      have hle := (hinsert.floor_le e he).1
      show c.group ≤ e.1
      omega)
    (fun g' hg' o ho => by
      rw [hnextId]
      rcases SortedMap.mem_insert.1 hg' with heq | ⟨hne, -⟩
      · obtain rfl := (Prod.mk.inj heq).2
        exact habove o ho
      · exact absurd rfl hne)
  have hraise : ∀ e ∈ emitted, Before e.1 (c.group, c.nextObject) := by
    intro e he
    obtain ⟨c', hc', hbelow⟩ := hemitted.below e he
    obtain rfl := Option.some.inj (hc.symm.trans hc')
    exact hbelow
  have hold : ∀ e ∈ emitted, ∃ c', some { c with nextObject := nextId c.nextObject } = some c' ∧
      Before e.1 (c'.group, c'.nextObject) := by
    intro e he
    refine ⟨_, rfl, (hraise e he).trans_next (Or.inr ⟨rfl, ?_⟩)⟩
    show c.nextObject ≤ nextId c.nextObject
    omega
  refine ⟨hfloor ▸ hmoved, ?_⟩
  unfold Reassembler.emit
  dsimp only
  by_cases hempty : payload.isEmpty = true
  · rw [if_pos hempty, append_nil]
    exact ⟨emitted, hout, hemitted.sorted, hold, hemitted.pushed⟩
  · rw [if_neg hempty]
    refine ⟨emitted ++ [((c.group, c.nextObject), payload)], by rw [map_append, hout]; rfl, ?_, ?_, ?_⟩
    · refine List.pairwise_append.2 ⟨hemitted.sorted, pairwise_singleton _ _, fun e he e' he' => ?_⟩
      rw [List.mem_singleton.1 he']
      exact hraise e he
    · intro e he
      rcases List.mem_append.1 he with he | he
      · exact hold e he
      · rw [List.mem_singleton.1 he]
        refine ⟨_, rfl, Or.inr ⟨rfl, ?_⟩⟩
        show c.nextObject < nextId c.nextObject
        omega
    · intro e he
      rcases List.mem_append.1 he with he | he
      · exact hemitted.pushed e he
      · rw [List.mem_singleton.1 he]
        exact ⟨fun hnil => hempty (List.isEmpty_iff.2 hnil), hpushed⟩

/-- What one round of `emitReady` can do. -/
inductive EmitStep (r : Reassembler) : Reassembler → List (List UInt8) → Prop where
  | start {id : Nat} {g : PendingGroup} (cursor : r.cursor = none) (group : (id, g) ∈ r.groups.entries)
    (first : g.objects.contains 0 = true) :
    EmitStep r { r.dropBelow id with cursor := some { group := id, nextObject := 0 } } []
  | object {c : Cursor} {g : PendingGroup} {payload : List UInt8} (cursor : r.cursor = some c)
    (group : r.groups.get? c.group = some g) (object : g.objects.get? c.nextObject = some payload) :
    EmitStep r (r.emit c g payload).1 (r.emit c g payload).2
  | hole {c : Cursor} {g : PendingGroup} {next : Nat} {payload : List UInt8} (cursor : r.cursor = some c)
    (group : r.groups.get? c.group = some g) (missing : g.objects.get? c.nextObject = none)
    (lowest : g.objects.first? = some (next, payload)) :
    EmitStep r { r with
      cursor := some { c with nextObject := next }, stats := r.stats.dropObjects (next - c.nextObject) } []
  | close {c : Cursor} {g : PendingGroup} (cursor : r.cursor = some c) (group : r.groups.get? c.group = some g)
    (empty : g.objects.first? = none) : EmitStep r (r.closeGroup c.group) []

theorem emitStep_cases (h : r.emitStep = some (r', new)) : EmitStep r r' new := by
  unfold emitStep at h
  rcases hcursor : r.cursor with _ | c
  · rw [hcursor] at h
    obtain ⟨e, he, heq⟩ := Option.map_eq_some_iff.1 h
    obtain ⟨rfl, rfl⟩ := Prod.mk.inj heq
    have hfirst : e.2.objects.contains 0 = true := by
      have hfound := List.find?_some he
      exact hfound
    exact .start hcursor (List.mem_of_find?_eq_some he) hfirst
  · rw [hcursor] at h
    dsimp only at h
    rcases hgroup : r.groups.get? c.group with _ | g
    · rw [hgroup] at h
      cases h
    · rw [hgroup] at h
      dsimp only at h
      rcases hobject : g.objects.get? c.nextObject with _ | payload
      · rw [hobject] at h
        split_ifs at h
        rcases hfirst : g.objects.first? with _ | object
        · rw [hfirst] at h
          obtain ⟨rfl, rfl⟩ := Prod.mk.inj (Option.some.inj h)
          exact .close hcursor hgroup hfirst
        · rw [hfirst] at h
          obtain ⟨rfl, rfl⟩ := Prod.mk.inj (Option.some.inj h)
          exact .hole hcursor hgroup hobject hfirst
      · rw [hobject] at h
        have heq : r.emit c g payload = (r', new) := Option.some.inj h
        have hemit := EmitStep.object hcursor hgroup hobject
        rwa [heq] at hemit

section

variable (h : r.Inv pushed out)

include h

theorem Inv.emitStep (hstep : r.emitStep = some (r', new)) : Inv pushed r' (out ++ new) := by
  cases emitStep_cases hstep with
  | @start id g cursor group first =>
    obtain ⟨d, hd, hdrop⟩ := without_dropBelow r id
    have hfloor := (h.1.floor_le _ group).1
    rw [hdrop, append_nil]
    refine h.moveTo hd (fun c' hc' => ?_) (fun e he => ?_) (fun g' _ o _ => Nat.zero_le _) ?_ _
    · rw [cursor] at hc'
      cases hc'
    · have habove := ((hd.entries e).1 he).1
      show id ≤ e.1
      omega
    · show max d.floor id = id
      rw [hd.floor]
      omega
  | object cursor group object => exact h.emit cursor group object
  | @hole c g next payload cursor group missing lowest =>
    have hmem := SortedMap.get?_eq_some.1 group
    have hle := h.1.next_le c g cursor hmem _ (mem_of_first? lowest)
    rw [append_nil]
    refine h.moveTo (.refl r) (fun c' hc' => ?_) (fun e he => ?_) (fun g' hg' o ho => ?_) ?_ _
    · obtain rfl := Option.some.inj (cursor.symm.trans hc')
      exact Or.inr ⟨rfl, hle⟩
    · have hfloor := (h.1.floor_le e he).1
      have hcursor := h.1.cursor_eq c cursor
      show c.group ≤ e.1
      omega
    · have hsame := Option.some.inj (group.symm.trans (SortedMap.get?_eq_some.2 hg'))
      subst hsame
      exact le_of_first? lowest ho
    · exact (h.1.cursor_eq c cursor).symm
  | @close c g cursor group empty =>
    have hfloor := h.1.cursor_eq c cursor
    rw [append_nil]
    refine h.closeGroup (fun e he => ?_) (h.1.floor_le _ (SortedMap.get?_eq_some.1 group)).2 hfloor.ge
    have hle := (h.1.floor_le e he).1
    omega

theorem Inv.stats (stats : ReassemblyStats) : Inv pushed { r with stats := stats } out := h

theorem Inv.dropBelow_lowest {lowest : Nat × PendingGroup}
    (hlowest : r.groups.first? = some lowest) {next : Nat}
    (hcursor : ∀ c, r.cursor = some c → c.group < lowest.1 ∨ c.group = lowest.1 ∧ c.nextObject ≤ next)
    (hnext : ∀ o ∈ lowest.2.objects.entries, next ≤ o.1) :
    Inv pushed { r.dropBelow lowest.1 with cursor := some { group := lowest.1, nextObject := next } } out := by
  obtain ⟨d, hd, hdrop⟩ := without_dropBelow r lowest.1
  have hfloor := (h.1.floor_le _ (mem_of_first? hlowest)).1
  rw [hdrop]
  refine h.moveTo hd hcursor (fun e he => ?_) (fun g hg o ho => ?_) ?_ _
  · exact le_of_first? hlowest ((hd.entries e).1 he).2
  · have hg := ((hd.entries _).1 hg).2
    have hsame := eq_of_key_eq hg (mem_of_first? hlowest) rfl
    have hobjects : g = lowest.2 := congrArg Prod.snd hsame
    subst hobjects
    exact hnext o ho
  · show max d.floor lowest.1 = lowest.1
    rw [hd.floor]
    omega

theorem Inv.enforceBounds (hbounds : r.enforceBounds = some r') : Inv pushed r' out := by
  unfold Reassembler.enforceBounds at hbounds
  split_ifs at hbounds with hwithin
  obtain ⟨lowest, hlowest, hstep⟩ := Option.map_eq_some_iff.1 hbounds
  split_ifs at hstep with hparked
  · subst hstep
    refine (h.stats r.stats.dropGroup).dropBelow_lowest hlowest (fun c hc => Or.inl ?_) fun o _ => Nat.zero_le _
    have hc : r.cursor = some c := hc
    rw [hc, any_some, decide_eq_true_iff] at hparked
    exact hparked
  · subst hstep
    have hmem := mem_of_first? hlowest
    have hfloor := h.1.floor_le _ hmem
    exact (h.stats r.stats.dropGroup).closeGroup (fun e he => le_of_first? hlowest he) hfloor.2 hfloor.1

theorem Inv.skipToLowest (hparked : ∀ c, r.cursor = some c → r.groups.get? c.group = none)
    (hskip : r.skipToLowest = some r') : Inv pushed r' out := by
  obtain ⟨lowest, hlowest, rfl⟩ := Option.map_eq_some_iff.1 hskip
  have hmem := mem_of_first? hlowest
  refine h.dropBelow_lowest hlowest (fun c hc => Or.inl ?_) fun o ho => ?_
  · have hfloor := (h.1.floor_le _ hmem).1
    have hcursor := h.1.cursor_eq c hc
    have hne : c.group ≠ lowest.1 := fun heq =>
      SortedMap.get?_eq_none.1 (hparked c hc) lowest.2 (heq ▸ hmem)
    omega
  · rcases hfirst : lowest.2.objects.first? with _ | object
    · exact Nat.zero_le _
    · exact le_of_first? hfirst ho

/-! ## The calls -/

theorem Inv.emitReady (hemit : r.emitReady fuel = some (r', new)) : Inv pushed r' (out ++ new) :=
  (loop_keeps (P := Inv pushed) out (fun _ _ _ _ hs hstep => hs.emitStep hstep) hemit h).1

theorem Inv.drain (hdrain : r.drain fuel = some (r', new)) :
    Inv pushed r' (out ++ new) ∧ r'.enforceBounds = none :=
  rounds_keeps (P := Inv pushed) (Q := Inv pushed) out (fun _ _ _ _ hs hemit => hs.emitReady hemit)
    (fun _ _ _ hs hbounds => hs.enforceBounds hbounds) hdrain h

end

/-- Nothing more will arrive for any group. -/
def AllEnded (r : Reassembler) : Prop := ∀ e ∈ r.groups.entries, e.2.ended = true

theorem AllEnded.without {gone : Nat → Prop} (h : r.AllEnded) (hd : Without gone r r') : r'.AllEnded :=
  fun e he => h e ((hd.entries e).1 he).2

theorem AllEnded.emitStep (h : r.AllEnded) (hstep : r.emitStep = some (r', new)) : r'.AllEnded := by
  cases emitStep_cases hstep with
  | @start id g cursor group first =>
    obtain ⟨d, hd, hdrop⟩ := without_dropBelow r id
    rw [hdrop]
    have hended := h.without hd
    exact hended
  | @object c g payload cursor group object =>
    intro e he
    rcases SortedMap.mem_insert.1 he with rfl | ⟨-, he⟩
    · have hended : g.ended = true := h _ (SortedMap.get?_eq_some.1 group)
      exact hended
    · exact h e he
  | hole cursor group missing lowest => exact h
  | @close c g cursor group empty =>
    have hended := h.without (without_removeGroup r c.group)
    exact hended

theorem AllEnded.parked (h : r.AllEnded) (hstop : r.emitStep = none) :
    ∀ c, r.cursor = some c → r.groups.get? c.group = none := by
  intro c hc
  by_contra hsome
  obtain ⟨g, hg⟩ := Option.ne_none_iff_exists'.1 hsome
  have hcomplete : g.complete = true := by
    unfold PendingGroup.complete
    rw [h _ (SortedMap.get?_eq_some.1 hg), Bool.true_or]
  unfold Reassembler.emitStep at hstop
  rw [hc] at hstop
  dsimp only at hstop
  rw [hg] at hstop
  dsimp only at hstop
  rcases hobject : g.objects.get? c.nextObject with _ | payload
  · rw [hobject, if_pos hcomplete] at hstop
    rcases hfirst : g.objects.first? with _ | object <;> rw [hfirst] at hstop <;> cases hstop
  · rw [hobject] at hstop
    cases hstop

theorem AllEnded.skipToLowest (h : r.AllEnded) (hskip : r.skipToLowest = some r') : r'.AllEnded := by
  obtain ⟨lowest, hlowest, rfl⟩ := Option.map_eq_some_iff.1 hskip
  obtain ⟨d, hd, hdrop⟩ := without_dropBelow r lowest.1
  rw [hdrop]
  have hended := h.without hd
  exact hended

theorem allEnded_endAll (r : Reassembler) : r.endAll.AllEnded := by
  intro e he
  obtain ⟨e', he', rfl⟩ := SortedMap.mem_map.1 he
  rfl

section

variable (h : r.Inv pushed out)

include h

theorem Inv.endAll : Inv pushed r.endAll out := by
  obtain ⟨hholds, hemitted⟩ := h
  refine ⟨⟨fun e he => ?_, hholds.cursor_eq, fun c g hc hmem => ?_, fun e he => ?_, ?_⟩, hemitted⟩
  · obtain ⟨e', he', rfl⟩ := SortedMap.mem_map.1 he
    exact hholds.floor_le e' he'
  · obtain ⟨e', he', heq⟩ := SortedMap.mem_map.1 hmem
    obtain ⟨hgroup, rfl⟩ := Prod.mk.inj heq
    exact hholds.next_le c e'.2 hc (hgroup ▸ he')
  · obtain ⟨e', he', rfl⟩ := SortedMap.mem_map.1 he
    exact ⟨(hholds.group e' he').bytes, (hholds.group e' he').objects⟩
  · show r.bufferedBytes = (r.groups.map _).total _
    rw [total_map]
    exact hholds.bytes

theorem Inv.flush (hflush : r.flush fuel = some (r', new)) :
    Inv pushed r' (out ++ new) ∧ r'.groups.entries = [] := by
  have hrounds := rounds_keeps
    (P := fun r out => Inv pushed r out ∧ r.AllEnded)
    (Q := fun r out => Inv pushed r out ∧ r.AllEnded ∧ r.emitStep = none) out
    (fun s out s' new hs hemit => by
      have hkeeps := loop_keeps (P := fun r out => Inv pushed r out ∧ r.AllEnded) out
        (fun s out s' new hs hstep => ⟨hs.1.emitStep hstep, hs.2.emitStep hstep⟩) hemit hs
      exact ⟨hkeeps.1.1, hkeeps.1.2, hkeeps.2⟩)
    (fun s out s' hs hskip => ⟨hs.1.skipToLowest (hs.2.1.parked hs.2.2) hskip, hs.2.1.skipToLowest hskip⟩)
    hflush ⟨h.endAll, allEnded_endAll r⟩
  exact ⟨hrounds.1.1, SortedMap.first?_eq_none.1 (Option.map_eq_none_iff.1 hrounds.2)⟩

theorem Inv.setGroup {id : Nat} {g : PendingGroup} (hfloor : r.floor ≤ id)
    (hid : id < 2 ^ 64 - 1) (hg : g.Holds pushed id)
    (hnext : ∀ c, r.cursor = some c → c.group = id → ∀ o ∈ g.objects.entries, c.nextObject ≤ o.1) (bytes : Nat)
    (hbytes : bytes + (r.groupOf id).bytes = r.bufferedBytes + g.bytes) (stats : ReassemblyStats) :
    Inv pushed { r.setGroup id g with bufferedBytes := bytes, stats := stats } out := by
  refine ⟨h.1.insert ⟨hfloor, hid⟩ hg hnext bytes ?_, h.2⟩
  unfold groupOf at hbytes
  rcases hget : r.groups.get? id with _ | old
  · rw [hget] at hbytes
    exact hbytes
  · rw [hget] at hbytes
    exact hbytes

theorem Inv.mono {later : List ReceivedObject} (hsub : pushed ⊆ later) : Inv later r out := by
  obtain ⟨hholds, emitted, hout, hemitted⟩ := h
  refine ⟨hholds.mono hsub, emitted, hout, hemitted.sorted, hemitted.below, fun e he => ?_⟩
  exact ⟨(hemitted.pushed e he).1, (hemitted.pushed e he).2.mono hsub⟩

theorem Inv.streamOpened {id : Nat} (hid : id < 2 ^ 64 - 1) :
    Inv pushed (r.streamOpened id) out := by
  unfold Reassembler.streamOpened
  split_ifs with hlate
  · exact h
  · obtain ⟨hg, hnext⟩ := h.1.getD id
    exact h.setGroup (g := { r.groupOf id with streamsOpened := ((r.groupOf id).streamsOpened + 1) % 2 ^ 32 })
      (Nat.le_of_not_lt hlate) hid ⟨hg.bytes, hg.objects⟩ hnext r.bufferedBytes rfl r.stats

theorem Inv.streamClosed {id : Nat} (hid : id < 2 ^ 64 - 1) :
    Inv pushed (r.streamClosed id) out := by
  unfold Reassembler.streamClosed
  rcases hget : r.groups.get? id with _ | g
  · exact h
  · obtain ⟨hg, hnext⟩ := h.1.getD id
    have hfloor := (h.1.floor_le _ (SortedMap.get?_eq_some.1 hget)).1
    rw [hget] at hg hnext
    have hsame : r.groupOf id = g := by
      unfold groupOf
      rw [hget, getD_some]
    exact h.setGroup (g := { g with streamsClosed := min (g.streamsClosed + 1) (2 ^ 32 - 1) }) hfloor hid
      ⟨hg.bytes, hg.objects⟩ hnext r.bufferedBytes (by rw [hsame]) r.stats

theorem Inv.push {o : ReceivedObject} (hgroup : o.groupId < 2 ^ 64 - 1)
    (hobject : o.objectId < 2 ^ 64 - 1) : Inv (pushed ++ [o]) (r.push o) out := by
  have hsub : pushed ⊆ pushed ++ [o] := subset_append_left _ _
  unfold Reassembler.push
  split_ifs with hlate hduplicate
  · exact (h.mono hsub).stats _
  · rw [Bool.or_eq_true, not_or, decide_eq_true_iff] at hlate
    obtain ⟨hg, hnext⟩ := (h.mono hsub).1.getD o.groupId
    exact (h.mono hsub).setGroup (Nat.le_of_not_lt hlate.1) hgroup hg hnext r.bufferedBytes rfl _
  · rw [Bool.or_eq_true, not_or, decide_eq_true_iff] at hlate
    obtain ⟨hg, hnext⟩ := (h.mono hsub).1.getD o.groupId
    have hnew : (r.groupOf o.groupId).objects.get? o.objectId = none := by
      refine SortedMap.get?_eq_none.2 fun v hv => hduplicate ?_
      exact SortedMap.contains_iff.2 ⟨v, hv⟩
    have hinserted : ∀ p ∈ (buffer (r.groupOf o.groupId) o).objects.entries,
        p = (o.objectId, o.payload) ∨ p ∈ (r.groupOf o.groupId).objects.entries :=
      fun p hp => (SortedMap.mem_insert.1 hp).imp_right And.right
    refine (h.mono hsub).setGroup (Nat.le_of_not_lt hlate.1) hgroup ⟨?_, fun p hp => ?_⟩ (fun c hc hid p hp => ?_)
      (r.bufferedBytes + o.payload.length) ?_ r.stats
    · have herase := total_erase_of_none List.length hnew
      have hinsert : (buffer (r.groupOf o.groupId) o).objects.total List.length =
          o.payload.length + ((r.groupOf o.groupId).objects.erase o.objectId).total List.length :=
        total_insert _
      have hbytes : (r.groupOf o.groupId).bytes = (r.groupOf o.groupId).objects.total List.length := hg.bytes
      show (r.groupOf o.groupId).bytes + o.payload.length = _
      omega
    · rcases hinserted p hp with rfl | hp
      · exact ⟨hobject, o, mem_append_right _ mem_cons_self, rfl, rfl, rfl⟩
      · exact hg.objects p hp
    · rcases hinserted p hp with rfl | hp
      · by_contra hbelow
        refine hlate.2 ?_
        unfold passed
        rw [hc, any_some, hid, beq_self_eq_true, Bool.true_and, decide_eq_true_iff]
        exact Nat.lt_of_not_le hbelow
      · exact hnext c hc hid p hp
    · show r.bufferedBytes + o.payload.length + (r.groupOf o.groupId).bytes =
        r.bufferedBytes + ((r.groupOf o.groupId).bytes + o.payload.length)
      omega

end

/-! ## The loops stop -/

/-- How far a cursor is from an object: its group is not there, its object is not there, or it is. -/
def parked (cursor : Option Cursor) (groups : SortedMap Nat PendingGroup) : Nat :=
  (cursor.bind fun c => (groups.get? c.group).map fun g => if g.objects.contains c.nextObject then 0 else 1).getD 3

/-- What the rounds of all loops lower. -/
def measure (r : Reassembler) : Nat := 4 * r.weight + parked r.cursor r.groups

theorem parked_le (cursor : Option Cursor) (groups : SortedMap Nat PendingGroup) : parked cursor groups ≤ 3 := by
  unfold parked
  rcases cursor with _ | c
  · exact le_rfl
  · rw [bind_some]
    rcases groups.get? c.group with _ | g
    · exact le_rfl
    · rw [map_some, getD_some]
      split_ifs <;> omega

theorem parked_of_none {cursor : Option Cursor} {groups : SortedMap Nat PendingGroup}
    (h : ∀ c, cursor = some c → groups.get? c.group = none) : parked cursor groups = 3 := by
  unfold parked
  rcases cursor with _ | c
  · rfl
  · rw [bind_some, h c rfl]
    rfl

variable {g : PendingGroup}

theorem parked_of_some {groups : SortedMap Nat PendingGroup} {c : Cursor}
    (hg : groups.get? c.group = some g) :
    parked (some c) groups = if g.objects.contains c.nextObject then 0 else 1 := by
  unfold parked
  rw [bind_some, hg, map_some, getD_some]

theorem weight_removeGroup {r : Reassembler} {id : Nat} (hg : r.groups.get? id = some g) :
    (r.removeGroup id).weight + 1 ≤ r.weight := by
  have htotal := total_erase (fun g : PendingGroup => g.objects.size + 1) hg
  have hremoved : (r.removeGroup id).weight = (r.groups.erase id).total fun g => g.objects.size + 1 := by
    unfold removeGroup
    rw [hg]
    rfl
  have hweight : r.weight = r.groups.total fun g => g.objects.size + 1 := rfl
  omega

theorem measure_dropBelow {r : Reassembler} {id next : Nat} (hg : (id, g) ∈ r.groups.entries)
    (hparked : parked r.cursor r.groups = 3) :
    measure { r.dropBelow id with cursor := some { group := id, nextObject := next } } < measure r := by
  obtain ⟨d, hd, hdrop⟩ := without_dropBelow r id
  have hget : d.groups.get? id = some g := SortedMap.get?_eq_some.2 ((hd.entries _).2 ⟨Nat.lt_irrefl id, hg⟩)
  have hle : parked (some { group := id, nextObject := next }) (r.dropBelow id).groups ≤ 1 := by
    rw [hdrop]
    rw [parked_of_some hget]
    split_ifs <;> omega
  have hweight : (r.dropBelow id).weight ≤ r.weight := by
    rw [hdrop]
    exact hd.weight
  show 4 * (r.dropBelow id).weight + parked (some { group := id, nextObject := next }) (r.dropBelow id).groups <
    4 * r.weight + parked r.cursor r.groups
  omega

theorem measure_closeGroup {r : Reassembler} {id : Nat} (hg : r.groups.get? id = some g) :
    (r.closeGroup id).measure < r.measure := by
  have hweight : (r.closeGroup id).weight + 1 ≤ r.weight := weight_removeGroup hg
  have hparked := parked_le (r.closeGroup id).cursor (r.closeGroup id).groups
  unfold measure
  omega

theorem measure_emitStep (h : r.emitStep = some (r', new)) : r'.measure < r.measure := by
  cases emitStep_cases h with
  | start cursor group first =>
    refine measure_dropBelow group (parked_of_none fun c hc => ?_)
    rw [cursor] at hc
    cases hc
  | @object c g payload cursor group object =>
    have hsize := size_erase object
    have htotal := total_erase (fun g : PendingGroup => g.objects.size + 1) group
    have hweight : (r.emit c g payload).1.weight = ((g.objects.erase c.nextObject).size + 1) +
        (r.groups.erase c.group).total fun g => g.objects.size + 1 := total_insert _
    have hbefore : r.weight = r.groups.total fun g => g.objects.size + 1 := rfl
    have hparked := parked_le (r.emit c g payload).1.cursor (r.emit c g payload).1.groups
    unfold measure
    omega
  | @hole c g next payload cursor group missing lowest =>
    have hcontains : g.objects.contains next = true :=
      SortedMap.contains_iff.2 ⟨payload, mem_of_first? lowest⟩
    have hmissing : g.objects.contains c.nextObject = false := by
      rw [Bool.eq_false_iff]
      intro hin
      obtain ⟨v, hv⟩ := SortedMap.contains_iff.1 hin
      exact SortedMap.get?_eq_none.1 missing v hv
    have hbefore : parked r.cursor r.groups = 1 := by
      rw [cursor, parked_of_some group, hmissing]
      rfl
    have hafter : parked (some { c with nextObject := next }) r.groups = 0 := by
      rw [parked_of_some (c := { c with nextObject := next }) group, hcontains]
      rfl
    show 4 * r.weight + parked (some { c with nextObject := next }) r.groups < 4 * r.weight + parked r.cursor r.groups
    omega
  | close cursor group empty => exact measure_closeGroup group

theorem measure_enforceBounds (h : r.enforceBounds = some r') : r'.measure < r.measure := by
  unfold Reassembler.enforceBounds at h
  split_ifs at h
  obtain ⟨lowest, hlowest, hstep⟩ := Option.map_eq_some_iff.1 h
  have hmem := mem_of_first? hlowest
  split_ifs at hstep with hparked
  · subst hstep
    refine measure_dropBelow (r := { r with stats := r.stats.dropGroup }) hmem (parked_of_none fun c hc => ?_)
    have hc : r.cursor = some c := hc
    rw [hc, any_some, decide_eq_true_iff] at hparked
    refine SortedMap.get?_eq_none.2 fun g hg => ?_
    have hle := le_of_first? hlowest hg
    omega
  · subst hstep
    exact measure_closeGroup (r := { r with stats := r.stats.dropGroup }) (SortedMap.get?_eq_some.2 hmem)

theorem emitReady_stops (r : Reassembler) (hfuel : r.measure < fuel) :
    ∃ r' new, r.emitReady fuel = some (r', new) ∧ r'.measure ≤ r.measure := by
  obtain ⟨r', new, hloop, -, hle⟩ := loop_stops (I := fun _ => True) (s := r)
    (fun s s' new _ hstep => ⟨trivial, measure_emitStep hstep⟩) trivial hfuel
  exact ⟨r', new, hloop, hle⟩

theorem drain_stops (r : Reassembler) (hfuel : r.measure < fuel) :
    ∃ r' new, r.drain fuel = some (r', new) ∧ r'.measure ≤ r.measure := by
  obtain ⟨r', new, hrounds, -, hle⟩ := rounds_stops (I := fun _ => True) (s := r) (fun s _ hs => by
      obtain ⟨s', new, hemit, hle⟩ := s.emitReady_stops hs
      exact ⟨s', new, hemit, trivial, hle⟩)
    (fun s s' new mid _ _ hbounds => ⟨trivial, measure_enforceBounds hbounds⟩) trivial hfuel hfuel
  exact ⟨r', new, hrounds, hle⟩

theorem measure_endAll (r : Reassembler) : r.endAll.measure = r.measure := by
  have hweight : r.endAll.weight = r.weight := total_map (fun g : PendingGroup => g.objects.size + 1)
  have hparked : parked r.endAll.cursor r.endAll.groups = parked r.cursor r.groups := by
    unfold parked endAll
    rcases r.cursor with _ | c
    · rfl
    · rw [bind_some, bind_some, SortedMap.get?_map, Option.map_map]
      rfl
  unfold measure
  rw [hweight, hparked]

theorem flush_stops (r : Reassembler) (hfuel : r.measure < fuel) :
    ∃ r' new, r.flush fuel = some (r', new) ∧ r'.measure ≤ r.measure := by
  rw [← measure_endAll] at hfuel
  obtain ⟨r', new, hrounds, -, hle⟩ := rounds_stops (I := AllEnded) (s := r.endAll)
    (fun s hs hlt => loop_stops (fun s s' new hs hstep => ⟨hs.emitStep hstep, measure_emitStep hstep⟩) hs hlt)
    (fun s s' new mid hs hemit hskip => by
      obtain ⟨hended, hstop⟩ := loop_keeps (P := fun r _ => r.AllEnded) []
        (fun s out s' new hs hstep => hs.emitStep hstep) hemit hs
      obtain ⟨lowest, hlowest, rfl⟩ := Option.map_eq_some_iff.1 hskip
      refine ⟨hended.skipToLowest hskip, ?_⟩
      exact measure_dropBelow (mem_of_first? hlowest) (parked_of_none (hended.parked hstop)))
    (allEnded_endAll r) hfuel hfuel
  rw [measure_endAll] at hle
  exact ⟨r', new, hrounds, hle⟩

theorem measure_setGroup (r : Reassembler) (id : Nat) (g : PendingGroup)
    (hsize : g.objects.size ≤ (r.groupOf id).objects.size + 1) (bytes : Nat) (stats : ReassemblyStats) :
    measure { r.setGroup id g with bufferedBytes := bytes, stats := stats } ≤ r.measure + 11 := by
  have hparked := parked_le r.cursor (r.groups.insert id g)
  have hweight : weight { r.setGroup id g with bufferedBytes := bytes, stats := stats } =
      (g.objects.size + 1) + (r.groups.erase id).total fun g => g.objects.size + 1 := total_insert _
  have hbefore : r.weight = r.groups.total fun g => g.objects.size + 1 := rfl
  have hold : (r.groups.erase id).total (fun g => g.objects.size + 1) + (r.groupOf id).objects.size ≤ r.weight := by
    unfold groupOf
    rcases hget : r.groups.get? id with _ | old
    · rw [total_erase_of_none _ hget]
      exact le_rfl
    · have htotal := total_erase (fun g : PendingGroup => g.objects.size + 1) hget
      rw [getD_some]
      omega
  show 4 * weight _ + parked r.cursor (r.groups.insert id g) ≤ 4 * r.weight + parked r.cursor r.groups + 11
  omega

theorem call_stops (r : Reassembler) (c : Call) (hfuel : r.measure < fuel) :
    ∃ r' new, r.call fuel c = some (r', new) ∧ r'.measure ≤ r.measure + 11 := by
  cases c with
  | streamOpened id =>
    refine ⟨_, _, rfl, ?_⟩
    unfold Reassembler.streamOpened
    split_ifs
    · omega
    · exact r.measure_setGroup id { r.groupOf id with streamsOpened := ((r.groupOf id).streamsOpened + 1) % 2 ^ 32 }
        (Nat.le_succ _) r.bufferedBytes r.stats
  | streamClosed id =>
    refine ⟨_, _, rfl, ?_⟩
    unfold Reassembler.streamClosed
    rcases hget : r.groups.get? id with _ | g
    · exact Nat.le_add_right _ _
    · refine r.measure_setGroup id { g with streamsClosed := min (g.streamsClosed + 1) (2 ^ 32 - 1) } ?_
        r.bufferedBytes r.stats
      unfold groupOf
      rw [hget]
      exact Nat.le_succ _
  | push o =>
    refine ⟨_, _, rfl, ?_⟩
    unfold Reassembler.push
    split_ifs with hlate hduplicate
    · exact Nat.le_add_right _ _
    · exact r.measure_setGroup o.groupId _ (Nat.le_succ _) r.bufferedBytes _
    · refine r.measure_setGroup o.groupId _ ?_ _ r.stats
      have hnew : (r.groupOf o.groupId).objects.contains o.objectId = false := Bool.eq_false_iff.2 hduplicate
      exact (insert_perm hnew).length_eq.le
  | drain =>
    obtain ⟨r', new, hdrain, hle⟩ := r.drain_stops hfuel
    exact ⟨r', new, hdrain, by omega⟩
  | flush =>
    obtain ⟨r', new, hflush, hle⟩ := r.flush_stops hfuel
    exact ⟨r', new, hflush, by omega⟩

theorem calls_stop (cs : List Call) (r : Reassembler) (hfuel : r.measure + 11 * cs.length < fuel) :
    ∃ r' new, r.calls fuel cs = some (r', new) := by
  induction cs generalizing r with
  | nil => exact ⟨r, [], rfl⟩
  | cons c cs ih =>
    rw [length_cons] at hfuel
    have hfirst : r.measure < fuel := by omega
    obtain ⟨mid, new, hcall, hle⟩ := r.call_stops c hfirst
    obtain ⟨r', later, hcalls⟩ := ih mid (by omega)
    refine ⟨r', new ++ later, ?_⟩
    rw [calls, hcall, bind_some, hcalls]
    rfl

/-! ## Runs -/

def pushes (cs : List Call) : List ReceivedObject :=
  cs.filterMap fun
    | .push o => some o
    | _ => none

/-- The ids that a call names have a next one. -/
def Call.InRange : Call → Prop
  | .streamOpened id | .streamClosed id => id < 2 ^ 64 - 1
  | .push o => o.groupId < 2 ^ 64 - 1 ∧ o.objectId < 2 ^ 64 - 1
  | .drain | .flush => True

theorem Inv.call {c : Call} (h : r.Inv pushed out) (hrange : c.InRange)
    (hcall : r.call fuel c = some (r', new)) : Inv (pushed ++ pushes [c]) r' (out ++ new) := by
  have hsub : pushed ⊆ pushed ++ pushes [c] := subset_append_left _ _
  cases c with
  | streamOpened id =>
    obtain ⟨rfl, rfl⟩ := Prod.mk.inj (Option.some.inj hcall)
    rw [append_nil out]
    exact (h.streamOpened hrange).mono hsub
  | streamClosed id =>
    obtain ⟨rfl, rfl⟩ := Prod.mk.inj (Option.some.inj hcall)
    rw [append_nil out]
    exact (h.streamClosed hrange).mono hsub
  | push o =>
    obtain ⟨rfl, rfl⟩ := Prod.mk.inj (Option.some.inj hcall)
    rw [append_nil out]
    exact h.push hrange.1 hrange.2
  | drain => exact (h.drain hcall).1.mono hsub
  | flush => exact (h.flush hcall).1.mono hsub

theorem Inv.calls {cs : List Call} (h : r.Inv pushed out) (hrange : ∀ c ∈ cs, c.InRange)
    (hcalls : r.calls fuel cs = some (r', new)) : Inv (pushed ++ pushes cs) r' (out ++ new) := by
  induction cs generalizing r pushed out new with
  | nil =>
    obtain ⟨rfl, rfl⟩ := Prod.mk.inj (Option.some.inj hcalls)
    rw [append_nil out]
    exact h.mono (subset_append_left _ _)
  | cons c cs ih =>
    obtain ⟨done, hcall, hcalls⟩ := Option.bind_eq_some_iff.1 hcalls
    obtain ⟨later, hlater, heq⟩ := Option.map_eq_some_iff.1 hcalls
    obtain ⟨rfl, rfl⟩ := Prod.mk.inj heq
    have hcall : r.call fuel c = some (done.1, done.2) := hcall
    have hmid := h.call (hrange c mem_cons_self) hcall
    have hrest := ih hmid (fun c hc => hrange c (mem_cons_of_mem _ hc)) hlater
    have hpushes : pushes (c :: cs) = pushes [c] ++ pushes cs := by
      rw [← singleton_append]
      exact filterMap_append
    rwa [hpushes, ← append_assoc, ← append_assoc]

/-- The bounds stay what they were. -/
def SameBounds (r r' : Reassembler) : Prop := r'.maxGroups = r.maxGroups ∧ r'.maxBytes = r.maxBytes

theorem SameBounds.trans {a b c : Reassembler} (h : SameBounds a b) (h' : SameBounds b c) : SameBounds a c :=
  ⟨h'.1.trans h.1, h'.2.trans h.2⟩

theorem sameBounds_dropBelow (r : Reassembler) (id : Nat) : SameBounds r (r.dropBelow id) := by
  obtain ⟨d, hd, hdrop⟩ := without_dropBelow r id
  rw [hdrop]
  exact ⟨hd.maxGroups, hd.maxBytes⟩

theorem sameBounds_closeGroup (r : Reassembler) (id : Nat) : SameBounds r (r.closeGroup id) :=
  ⟨(without_removeGroup r id).maxGroups, (without_removeGroup r id).maxBytes⟩

theorem sameBounds_emitStep (h : r.emitStep = some (r', new)) : SameBounds r r' := by
  cases emitStep_cases h with
  | start cursor group first => exact sameBounds_dropBelow r _
  | object cursor group object | hole cursor group missing lowest => exact ⟨rfl, rfl⟩
  | close cursor group empty => exact sameBounds_closeGroup r _

theorem sameBounds_emitReady (h : r.emitReady fuel = some (r', new)) : SameBounds r r' :=
  (loop_keeps (P := fun s _ => SameBounds r s) []
    (fun _ _ _ _ hs hstep => hs.trans (sameBounds_emitStep hstep)) h ⟨rfl, rfl⟩).1

theorem sameBounds_enforceBounds (h : r.enforceBounds = some r') : SameBounds r r' := by
  unfold Reassembler.enforceBounds at h
  split_ifs at h
  obtain ⟨lowest, -, hstep⟩ := Option.map_eq_some_iff.1 h
  split_ifs at hstep
  · subst hstep
    exact sameBounds_dropBelow { r with stats := r.stats.dropGroup } lowest.1
  · subst hstep
    exact sameBounds_closeGroup { r with stats := r.stats.dropGroup } lowest.1

theorem sameBounds_skipToLowest (h : r.skipToLowest = some r') : SameBounds r r' := by
  obtain ⟨lowest, -, rfl⟩ := Option.map_eq_some_iff.1 h
  exact sameBounds_dropBelow r lowest.1

theorem sameBounds_call {c : Call} (h : r.call fuel c = some (r', new)) : SameBounds r r' := by
  have hrounds : ∀ {next : Reassembler → Option Reassembler} {s s' : Reassembler} {new : List (List UInt8)},
      (∀ s s', next s = some s' → SameBounds s s') →
        rounds (Reassembler.emitReady fuel) next fuel s = some (s', new) → SameBounds s s' := by
    intro next s s' new hnext hrun
    exact (rounds_keeps (P := fun t _ => SameBounds s t) (Q := fun t _ => SameBounds s t) []
      (fun _ _ _ _ hs hemit => hs.trans (sameBounds_emitReady hemit))
      (fun _ _ _ hs hskip => hs.trans (hnext _ _ hskip)) hrun ⟨rfl, rfl⟩).1
  cases c with
  | streamOpened id =>
    obtain ⟨rfl, rfl⟩ := Prod.mk.inj (Option.some.inj h)
    unfold Reassembler.streamOpened
    split_ifs <;> exact ⟨rfl, rfl⟩
  | streamClosed id =>
    obtain ⟨rfl, rfl⟩ := Prod.mk.inj (Option.some.inj h)
    unfold Reassembler.streamClosed
    split <;> exact ⟨rfl, rfl⟩
  | push o =>
    obtain ⟨rfl, rfl⟩ := Prod.mk.inj (Option.some.inj h)
    unfold Reassembler.push
    split_ifs <;> exact ⟨rfl, rfl⟩
  | drain => exact hrounds (fun _ _ hbounds => sameBounds_enforceBounds hbounds) h
  | flush =>
    have hflush := hrounds (s := r.endAll) (fun _ _ hskip => sameBounds_skipToLowest hskip) h
    exact hflush

theorem sameBounds_calls {cs : List Call} (h : r.calls fuel cs = some (r', new)) : SameBounds r r' := by
  induction cs generalizing r new with
  | nil =>
    obtain ⟨rfl, -⟩ := Prod.mk.inj (Option.some.inj h)
    exact ⟨rfl, rfl⟩
  | cons c cs ih =>
    obtain ⟨done, hcall, h⟩ := Option.bind_eq_some_iff.1 h
    obtain ⟨later, hlater, heq⟩ := Option.map_eq_some_iff.1 h
    obtain ⟨rfl, -⟩ := Prod.mk.inj heq
    have hcall : r.call fuel c = some (done.1, done.2) := hcall
    exact (sameBounds_call hcall).trans (ih hlater)

theorem calls_concat {cs : List Call} {c : Call} (h : r.calls fuel (cs ++ [c]) = some (r', new)) :
    ∃ mid out last, r.calls fuel cs = some (mid, out) ∧ mid.call fuel c = some (r', last) := by
  induction cs generalizing r new with
  | nil =>
    obtain ⟨done, hcall, h⟩ := Option.bind_eq_some_iff.1 h
    obtain ⟨rfl, -⟩ := Prod.mk.inj (Option.some.inj h)
    exact ⟨r, [], done.2, rfl, hcall⟩
  | cons first cs ih =>
    obtain ⟨done, hcall, h⟩ := Option.bind_eq_some_iff.1 h
    obtain ⟨later, hlater, heq⟩ := Option.map_eq_some_iff.1 h
    obtain ⟨rfl, -⟩ := Prod.mk.inj heq
    obtain ⟨mid, out, last, hcalls, hlast⟩ := ih hlater
    refine ⟨mid, done.2 ++ out, last, ?_, hlast⟩
    rw [calls, hcall, bind_some, hcalls]
    rfl

theorem inv_new (maxGroups maxBytes : Nat) : Inv [] (Reassembler.new maxGroups maxBytes) [] := by
  refine ⟨⟨?_, ?_, ?_, ?_, rfl⟩, [], rfl, ⟨List.Pairwise.nil, ?_, ?_⟩⟩
  · exact fun e he => by cases he
  · exact fun c hc => by cases hc
  · exact fun c g hc => by cases hc
  · exact fun e he => by cases he
  · exact fun e he => by cases he
  · exact fun e he => by cases he

/-- Every run of calls stops. What was given out are pushed payloads of some bytes, by increasing ids; the number of
buffered bytes is right, and no buffered group is below the floor or the cursor. A drain leaves no more than the
bounds allow, a flush leaves nothing. -/
theorem in_order (maxGroups maxBytes : Nat) (cs : List Call) (hrange : ∀ c ∈ cs, c.InRange) :
    (∃ n, ∀ fuel ≥ n, ∃ r out, (Reassembler.new maxGroups maxBytes).calls fuel cs = some (r, out)) ∧
    ∀ fuel r out, (Reassembler.new maxGroups maxBytes).calls fuel cs = some (r, out) →
      (∃ emitted : List ((Nat × Nat) × List UInt8), emitted.map Prod.snd = out ∧
        (emitted.Pairwise fun a b => Before a.1 b.1) ∧ ∀ e ∈ emitted, e.2 ≠ [] ∧ Pushed (pushes cs) e.1.1 e.1.2 e.2) ∧
      r.bufferedBytes = (r.groups.entries.map fun e => (e.2.objects.entries.map fun o => o.2.length).sum).sum ∧
      (∀ e ∈ r.groups.entries, r.floor ≤ e.1 ∧ ∀ c, r.cursor = some c → c.group ≤ e.1) ∧
      (∀ before, cs = before ++ [.drain] → r.groups.size ≤ max maxGroups 1 ∧ r.bufferedBytes ≤ max maxBytes 1) ∧
      (∀ before, cs = before ++ [.flush] → r.groups.entries = [] ∧ r.bufferedBytes = 0) := by
  refine ⟨⟨(Reassembler.new maxGroups maxBytes).measure + 11 * cs.length + 1, fun fuel hfuel => ?_⟩, ?_⟩
  · exact calls_stop cs _ (by omega)
  intro fuel r out hcalls
  have hinv := (inv_new maxGroups maxBytes).calls hrange hcalls
  rw [nil_append, nil_append] at hinv
  obtain ⟨hholds, emitted, hout, hemitted⟩ := hinv
  have hempty : r.groups.entries = [] → r.bufferedBytes = 0 := by
    intro hnil
    rw [hholds.bytes, SortedMap.total, hnil]
    rfl
  refine ⟨⟨emitted, hout, hemitted.sorted, hemitted.pushed⟩, ?_, fun e he => ?_, ?_, ?_⟩
  · rw [hholds.bytes]
    exact congrArg List.sum (map_congr_left fun e he => (hholds.group e he).bytes)
  · have hfloor := (hholds.floor_le e he).1
    exact ⟨hfloor, fun c hc => (hholds.cursor_eq c hc).le.trans hfloor⟩
  · rintro before rfl
    obtain ⟨hgroups, hbytes⟩ := sameBounds_calls hcalls
    obtain ⟨mid, o, last, hbefore, hdrain⟩ := calls_concat hcalls
    have hmid := (inv_new maxGroups maxBytes).calls (fun c hc => hrange c (mem_append_left _ hc)) hbefore
    have hbounds := (hmid.drain hdrain).2
    have hgroups : r.maxGroups = max maxGroups 1 := hgroups
    have hbytes : r.maxBytes = max maxBytes 1 := hbytes
    rw [← hgroups, ← hbytes]
    unfold Reassembler.enforceBounds at hbounds
    split_ifs at hbounds with hwithin
    · exact hwithin
    · -- A bound can be exceeded only if there is a group to drop.
      have hnil := SortedMap.first?_eq_none.1 (Option.map_eq_none_iff.1 hbounds)
      refine ⟨?_, (hempty hnil).le.trans (Nat.zero_le _)⟩
      rw [SortedMap.size, hnil]
      exact Nat.zero_le _
  · rintro before rfl
    obtain ⟨mid, o, last, hbefore, hflush⟩ := calls_concat hcalls
    have hmid := (inv_new maxGroups maxBytes).calls (fun c hc => hrange c (mem_append_left _ hc)) hbefore
    have hnil := (hmid.flush hflush).2
    exact ⟨hnil, hempty hnil⟩

/-- Two groups that arrive the other way round. -/
theorem in_order_two_groups : ∃ r, (Reassembler.new 4 100).calls 30
      [.push { groupId := 1, objectId := 0, status := .normal, payload := [2] },
        .push { groupId := 0, objectId := 0, status := .endOfGroup, payload := [1] }, .drain] = some (r, [[1], [2]]) ∧
      r.groups.size ≤ max 4 1 ∧ r.bufferedBytes ≤ max 100 1 := by
  have hrun : ∃ r, (Reassembler.new 4 100).calls 30
      [.push { groupId := 1, objectId := 0, status := .normal, payload := [2] },
        .push { groupId := 0, objectId := 0, status := .endOfGroup, payload := [1] }, .drain] =
      some (r, [[1], [2]]) := ⟨_, rfl⟩
  obtain ⟨r, hcalls⟩ := hrun
  refine ⟨r, hcalls, ((in_order 4 100 _ fun c hc => ?_).2 30 r _ hcalls).2.2.2.1 [_, _] rfl⟩
  simp only [mem_cons, not_mem_nil, or_false] at hc
  rcases hc with rfl | rfl | rfl
  · exact ⟨by decide, by decide⟩
  · exact ⟨by decide, by decide⟩
  · exact trivial

/-- With a bound of zero, a group stays. -/
theorem zero_bound_keeps_group :
    ¬∀ (maxGroups maxBytes : Nat) (cs : List Call), (∀ c ∈ cs, c.InRange) → ∀ fuel r out before,
      (Reassembler.new maxGroups maxBytes).calls fuel cs = some (r, out) → cs = before ++ [.drain] →
        r.groups.size ≤ maxGroups := by
  intro h
  have hrun : ∃ r out, (Reassembler.new 0 1).calls 3 [.streamOpened 0, .drain] = some (r, out) ∧ r.groups.size = 1 :=
    ⟨_, _, rfl, rfl⟩
  obtain ⟨r, out, hcalls, hsize⟩ := hrun
  have hrange : ∀ c ∈ [Call.streamOpened 0, Call.drain], c.InRange := by
    intro c hc
    simp only [mem_cons, not_mem_nil, or_false] at hc
    rcases hc with rfl | rfl
    · exact Nat.zero_lt_of_lt (show 0 < 2 ^ 64 - 1 by decide)
    · exact trivial
  have hle := h 0 1 _ hrange 3 r out [.streamOpened 0] hcalls rfl
  omega

end Reassembler

end Glass2Glass.Moqt
