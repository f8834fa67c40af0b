import Mathlib.Tactic.Common

/-!
# In-order channels

Two parties that answer each other's packets over two channels, which deliver every packet once and in the order in
which it was sent. The deliveries of the two channels may interleave in any way.

A party follows a script (`Script.Follows`) when it can tell what to send from how many packets it has received. If each
party sends what the script of the other expects, then every run keeps to the scripts (`Run.conforms`): how far the
parties have come depends on nothing but the numbers of deliveries.
-/

namespace Channel

open List

variable {σ π : Type}

/-- Two parties, and what is on its way to each of them. -/
structure Link (σ π : Type) where
  left : σ
  right : σ
  toLeft : List π
  toRight : List π

variable (receive : σ → π → σ × Option π)

/-- A channel delivers its next packet, and the answer is sent. -/
inductive Delivers : Link σ π → Link σ π → Prop
  | left (left right : σ) (p : π) (toLeft toRight : List π) :
      Delivers ⟨left, right, p :: toLeft, toRight⟩
        ⟨(receive left p).1, right, toLeft, toRight ++ (receive left p).2.toList⟩
  | right (left right : σ) (p : π) (toLeft toRight : List π) :
      Delivers ⟨left, right, toLeft, p :: toRight⟩
        ⟨left, (receive right p).1, toLeft ++ (receive right p).2.toList, toRight⟩

/-- A number of deliveries. -/
inductive Run (link : Link σ π) : Nat → Link σ π → Prop
  | nil : Run link 0 link
  | snoc {n : Nat} {mid last : Link σ π} (h : Run link n mid) (hstep : Delivers receive mid last) :
      Run link (n + 1) last

/-- What a party is like and how many packets it has sent once it has received so many, and what it sends. -/
structure Script (σ π : Type) where
  phase : Nat → σ → Prop
  sent : Nat → Nat
  sends : Nat → π → Prop

/-- A party that does what its script says, as long as it receives what is expected. -/
structure Script.Follows (script : Script σ π) (expects : Nat → π → Prop) : Prop where
  phase : ∀ n s p, script.phase n s → expects n p → script.phase (n + 1) (receive s p).1
  sent : ∀ n s p, script.phase n s → expects n p → script.sent (n + 1) = script.sent n + (receive s p).2.toList.length
  sends : ∀ n s p q, script.phase n s → expects n p → (receive s p).2 = some q → script.sends (script.sent n) q

/-- The packets under way after the first `n` of them. -/
def Pending (sends : Nat → π → Prop) (n : Nat) (packets : List π) : Prop :=
  ∀ (m : Nat) (p : π), packets[m]? = some p → sends (n + m) p

variable {receive}

variable {packets : List π} {n : Nat} {sends : Nat → π → Prop}

theorem Pending.head {p : π} (h : Pending sends n (p :: packets)) : sends n p := h 0 p rfl

theorem Pending.tail {p : π} (h : Pending sends n (p :: packets)) : Pending sends (n + 1) packets := by
  intro m q hq
  have hnext := h (m + 1) q hq
  rwa [Nat.add_comm m 1, ← Nat.add_assoc] at hnext

theorem Pending.append {answer : Option π}
    (h : Pending sends n packets) (hanswer : ∀ q, answer = some q → sends (n + packets.length) q) :
    Pending sends n (packets ++ answer.toList) := by
  intro m q hq
  rcases Nat.lt_or_ge m packets.length with hm | hm
  · rw [List.getElem?_append_left hm] at hq
    exact h m q hq
  · rw [List.getElem?_append_right hm] at hq
    obtain ⟨hlt, hq⟩ := List.getElem?_eq_some_iff.1 hq
    cases answer with
    | none => exact absurd hlt (Nat.not_lt_zero _)
    | some reply =>
      have hlast : m = packets.length := by
        rw [Option.toList_some, length_singleton] at hlt
        omega
      subst hlast
      simp only [Option.toList_some, Nat.sub_self, getElem_cons_zero] at hq
      exact hanswer q (congrArg some hq)

/-- Two parties that have kept to their scripts, after `i` packets to the left one and `j` to the right one. -/
structure Conforms (left right : Script σ π) (i j : Nat) (link : Link σ π) : Prop where
  phaseLeft : left.phase i link.left
  phaseRight : right.phase j link.right
  toRight : j + link.toRight.length = left.sent i
  toLeft : i + link.toLeft.length = right.sent j
  pendingRight : Pending left.sends j link.toRight
  pendingLeft : Pending right.sends i link.toLeft

variable {left right : Script σ π} {link : Link σ π}

/-- A delivery keeps to the scripts. -/
theorem Conforms.delivers {i j : Nat} {link' : Link σ π} (hleft : left.Follows receive right.sends)
    (hright : right.Follows receive left.sends) (h : Conforms left right i j link) (hstep : Delivers receive link link') :
    Conforms left right (i + 1) j link' ∨ Conforms left right i (j + 1) link' := by
  cases hstep with
  | left s t p toLeft toRight =>
    have hp := h.pendingLeft.head
    have hsent := hleft.sent i s p h.phaseLeft hp
    have hcount := h.toLeft
    have hcount' := h.toRight
    refine Or.inl ⟨hleft.phase i s p h.phaseLeft hp, h.phaseRight, ?_, ?_, ?_, h.pendingLeft.tail⟩
    · rw [length_append, ← Nat.add_assoc, hcount', hsent]
    · rw [← hcount, length_cons, Nat.add_assoc, Nat.add_comm 1]
    · refine h.pendingRight.append fun q hq => ?_
      rw [hcount']
      exact hleft.sends i s p q h.phaseLeft hp hq
  | right s t p toLeft toRight =>
    have hp := h.pendingRight.head
    have hsent := hright.sent j t p h.phaseRight hp
    have hcount := h.toRight
    have hcount' := h.toLeft
    refine Or.inr ⟨h.phaseLeft, hright.phase j t p h.phaseRight hp, ?_, ?_, h.pendingRight.tail, ?_⟩
    · rw [← hcount, length_cons, Nat.add_assoc, Nat.add_comm 1]
    · rw [length_append, ← Nat.add_assoc, hcount', hsent]
    · refine h.pendingLeft.append fun q hq => ?_
      rw [hcount']
      exact hright.sends j t p q h.phaseRight hp hq

theorem Run.conforms {last : Link σ π} (hleft : left.Follows receive right.sends)
    (hright : right.Follows receive left.sends) (hlink : Conforms left right 0 0 link) (h : Run receive link n last) :
    ∃ i j, i + j = n ∧ Conforms left right i j last := by
  induction h with
  | nil => exact ⟨0, 0, rfl, hlink⟩
  | snoc _ hstep ih =>
    obtain ⟨i, j, hn, hconforms⟩ := ih
    rcases hconforms.delivers hleft hright hstep with hnext | hnext
    · exact ⟨i + 1, j, by omega, hnext⟩
    · exact ⟨i, j + 1, by omega, hnext⟩

theorem exists_delivers (h : link.toLeft ≠ [] ∨ link.toRight ≠ []) : ∃ next, Delivers receive link next := by
  obtain ⟨s, t, toLeft, toRight⟩ := link
  rcases h with h | h
  · obtain ⟨p, rest, rfl⟩ := exists_cons_of_ne_nil h
    exact ⟨_, .left s t p rest toRight⟩
  · obtain ⟨p, rest, rfl⟩ := exists_cons_of_ne_nil h
    exact ⟨_, .right s t p toLeft rest⟩

theorem exists_quiet {bound : Nat} (h : ∀ n last, Run receive link n last → n ≤ bound) :
    ∃ n last, Run receive link n last ∧ last.toLeft = [] ∧ last.toRight = [] := by
  by_contra hnever
  have hlong (n : Nat) : ∃ last, Run receive link n last := by
    induction n with
    | zero => exact ⟨link, .nil⟩
    | succ n ih =>
      obtain ⟨last, hrun⟩ := ih
      have hbusy : last.toLeft ≠ [] ∨ last.toRight ≠ [] := by
        by_contra hquiet
        rw [not_or, not_ne_iff, not_ne_iff] at hquiet
        exact hnever ⟨n, last, hrun, hquiet⟩
      obtain ⟨next, hstep⟩ := exists_delivers hbusy
      exact ⟨next, hrun.snoc hstep⟩
  obtain ⟨last, hrun⟩ := hlong (bound + 1)
  exact absurd (h _ _ hrun) (Nat.not_succ_le_self bound)

theorem Run.invariant {P : Link σ π → Prop} (hP : ∀ a b, P a → Delivers receive a b → P b) {last : Link σ π}
    (hlink : P link) (h : Run receive link n last) : P last := by
  induction h with
  | nil => exact hlink
  | snoc _ hstep ih => exact hP _ _ ih hstep

end Channel
