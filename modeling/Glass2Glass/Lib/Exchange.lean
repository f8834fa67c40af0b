import Mathlib.Logic.Relation
import Mathlib.Tactic.Common

/-!
# Exchanges

Two parties that send each other packets over a network that loses, duplicates and reorders them: what was sent
arrives any number of times, at any later time, or never. The network may also carry foreign packets, which neither
party has sent.

A party keeps an invariant as long as it can rely on what arrives, and guarantees something of what it sends
(`Contract`). Where the guarantees of each party are what the other relies on, both invariants hold in every state
that is reached (`Reaches.contracts`).
-/

namespace Exchange

variable {σ π : Type}

/-- A party with all that it has sent and received. -/
structure Endpoint (σ π : Type) where
  state : σ
  sent : List π
  received : List π

/-- A party before the exchange. -/
def Endpoint.fresh (state : σ) : Endpoint σ π where
  state
  sent := []
  received := []

/-- The party sends what it sends on its own, if there is something. -/
def Endpoint.opens (e : Endpoint σ π) (opening : σ → Option π) : Endpoint σ π :=
  { e with sent := e.sent ++ (opening e.state).toList }

/-- A packet arrives, and is answered or not. -/
def Endpoint.takes (e : Endpoint σ π) (receive : σ → π → σ × Option π) (p : π) : Endpoint σ π where
  state := (receive e.state p).1
  sent := e.sent ++ (receive e.state p).2.toList
  received := e.received ++ [p]

variable (opening : σ → Option π) (receive : σ → π → σ × Option π)

/-- What a party does when only some packets can arrive. -/
inductive Moves (arrives : π → Prop) (e : Endpoint σ π) : Endpoint σ π → Prop
  | opens : Moves arrives e (e.opens opening)
  | takes (p : π) (hp : arrives p) : Moves arrives e (e.takes receive p)

variable (foreign : π → Prop)

/-- One of two parties moves. What the other has sent can arrive, and so can foreign packets. -/
inductive Step : Endpoint σ π × Endpoint σ π → Endpoint σ π × Endpoint σ π → Prop
  | left {a a' b : Endpoint σ π} (h : Moves opening receive (fun p => p ∈ b.sent ∨ foreign p) a a') :
      Step (a, b) (a', b)
  | right {a b b' : Endpoint σ π} (h : Moves opening receive (fun p => p ∈ a.sent ∨ foreign p) b b') :
      Step (a, b) (a, b')

/-- Two parties that start fresh reach a pair of endpoints. -/
def Reaches (s t : σ) (pair : Endpoint σ π × Endpoint σ π) : Prop :=
  Relation.ReflTransGen (Step opening receive foreign) (.fresh s, .fresh t) pair

/-- A party that can rely on what arrives keeps an invariant of its state and of what it has received, and guarantees
something of what it sends. -/
structure Contract (relies guarantees : π → Prop) (Inv : σ → List π → Prop) : Prop where
  opening : ∀ s got p, Inv s got → opening s = some p → guarantees p
  kept : ∀ s got p, Inv s got → relies p → Inv (receive s p).1 (got ++ [p])
  answer : ∀ s got p q, Inv s got → relies p → (receive s p).2 = some q → guarantees q

/-- A party that has kept its contract so far. -/
structure Endpoint.Keeps (e : Endpoint σ π) (guarantees : π → Prop) (Inv : σ → List π → Prop) : Prop where
  inv : Inv e.state e.received
  sent : ∀ p ∈ e.sent, guarantees p

section

variable {opening receive foreign} {s t : σ} {a b : Endpoint σ π} {p : π}

theorem Reaches.opensLeft (h : Reaches opening receive foreign s t (a, b)) :
    Reaches opening receive foreign s t (a.opens opening, b) := h.tail (.left .opens)

theorem Reaches.takesLeft (h : Reaches opening receive foreign s t (a, b)) (hp : p ∈ b.sent ∨ foreign p) :
    Reaches opening receive foreign s t (a.takes receive p, b) := h.tail (.left (.takes p hp))

theorem Reaches.takesRight (h : Reaches opening receive foreign s t (a, b)) (hp : p ∈ a.sent ∨ foreign p) :
    Reaches opening receive foreign s t (a, b.takes receive p) := h.tail (.right (.takes p hp))

theorem Endpoint.mem_sent_takes {reply : π} (h : (receive a.state p).2 = some reply) :
    reply ∈ (a.takes receive p).sent := by
  unfold Endpoint.takes
  rw [h]
  exact List.mem_append_right _ List.mem_cons_self

end

variable {opening receive foreign} {guarantees relies : π → Prop} {Inv : σ → List π → Prop}

theorem Endpoint.keeps_fresh {s : σ} (h : Inv s []) : (Endpoint.fresh s).Keeps guarantees Inv where
  inv := h
  sent := fun _ hp => absurd hp List.not_mem_nil

theorem Contract.moves {arrives : π → Prop} (h : Contract opening receive relies guarantees Inv)
    (harrives : ∀ p, arrives p → relies p) {e e' : Endpoint σ π} (he : e.Keeps guarantees Inv)
    (hmove : Moves opening receive arrives e e') : e'.Keeps guarantees Inv := by
  cases hmove with
  | opens =>
    refine ⟨he.inv, fun p hp => ?_⟩
    rcases List.mem_append.1 hp with hp | hp
    · exact he.sent p hp
    · exact h.opening e.state e.received p he.inv (Option.mem_toList.1 hp)
  | takes p hp =>
    refine ⟨h.kept e.state e.received p he.inv (harrives p hp), fun q hq => ?_⟩
    rcases List.mem_append.1 hq with hq | hq
    · exact he.sent q hq
    · exact h.answer e.state e.received p q he.inv (harrives p hp) (Option.mem_toList.1 hq)

variable {guaranteesLeft guaranteesRight : π → Prop} {InvLeft InvRight : σ → List π → Prop}

theorem Reaches.contracts
    (hleft : Contract opening receive (fun p => guaranteesRight p ∨ foreign p) guaranteesLeft InvLeft)
    (hright : Contract opening receive (fun p => guaranteesLeft p ∨ foreign p) guaranteesRight InvRight)
    {s t : σ} (hs : InvLeft s []) (ht : InvRight t []) {pair : Endpoint σ π × Endpoint σ π}
    (h : Reaches opening receive foreign s t pair) :
    pair.1.Keeps guaranteesLeft InvLeft ∧ pair.2.Keeps guaranteesRight InvRight := by
  induction h with
  | refl => exact ⟨Endpoint.keeps_fresh hs, Endpoint.keeps_fresh ht⟩
  | tail _ hstep ih =>
    obtain ⟨ha, hb⟩ := ih
    cases hstep with
    | left hmove => exact ⟨hleft.moves (fun p hp => hp.imp_left (hb.sent p)) ha hmove, hb⟩
    | right hmove => exact ⟨ha, hright.moves (fun p hp => hp.imp_left (ha.sent p)) hb hmove⟩

end Exchange
