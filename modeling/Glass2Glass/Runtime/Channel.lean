import Glass2Glass.Wire.Packet

/-!
# Channels

`bounded`, `Sender` and `Receiver` (`g2g-core/src/runtime/channel.rs`). Each function here is what one
lock section does. Wakers are left out: they decide when a task polls again, and the parties of
`Runtime/Push.lean` may poll at any time.
-/

namespace Glass2Glass.Runtime

/-- A bounded queue between senders and receivers. -/
structure Channel (α : Type) where
  queue : List α
  capacity : Nat
  receivers : Nat

/-- Why a value was not sent. -/
inductive SendError where
  | closed
  | full

variable {α : Type}

namespace Channel

def bounded (capacity : Nat) : Channel α := { queue := [], capacity, receivers := 1 }

def trySend (c : Channel α) (value : α) : Except SendError (Channel α) :=
  if c.receivers = 0 then .error .closed
  else if c.queue.length ≥ c.capacity then .error .full
  else .ok { c with queue := c.queue ++ [value] }

/-- Send a value, or wait for room. -/
def pollSend (c : Channel α) (value : α) : Option (Except SendError (Channel α)) :=
  if c.receivers = 0 then some (.error .closed)
  else if c.queue.length < c.capacity then some (.ok { c with queue := c.queue ++ [value] })
  else none

/-- Remove the first queued value that matches. -/
def evictFrontMatching (c : Channel α) (pred : α → Bool) : Option (α × Channel α) :=
  (c.queue.find? pred).map fun value => (value, { c with queue := c.queue.eraseP pred })

/-- Remove the first queued value. -/
def tryRecv (c : Channel α) : Option (α × Channel α) :=
  match c.queue with
  | [] => none
  | value :: rest => some (value, { c with queue := rest })

variable {c : Channel α}

theorem trySend_cases (h : 0 < c.receivers) (value : α) :
    (c.queue.length < c.capacity ∧ c.trySend value = .ok { c with queue := c.queue ++ [value] }) ∨
      (c.capacity ≤ c.queue.length ∧ c.trySend value = .error .full) := by
  unfold trySend
  rw [if_neg (by omega)]
  split_ifs with hfull
  · exact Or.inr ⟨hfull, rfl⟩
  · exact Or.inl ⟨by omega, rfl⟩

theorem pollSend_cases (h : 0 < c.receivers) (value : α) : (c.queue.length < c.capacity ∧
        c.pollSend value = some (.ok { c with queue := c.queue ++ [value] })) ∨
      (c.capacity ≤ c.queue.length ∧ c.pollSend value = none) := by
  unfold pollSend
  rw [if_neg (by omega)]
  split_ifs with hroom
  · exact Or.inl ⟨hroom, rfl⟩
  · exact Or.inr ⟨by omega, rfl⟩

end Channel

end Glass2Glass.Runtime
