import Glass2Glass.Lib.Ledger
import Glass2Glass.Lib.Machine
import Glass2Glass.Runtime.Channel

/-!
# Pushing through a link

`SenderSink::poll_push` (`g2g-core/src/runtime/channel.rs`) as a machine: the producer begins a push,
polls it, and may cancel it; the consumer receives. Every step holds the channel's lock at most once, so
between two lock sections of one poll the consumer may have taken packets. The link has no interceptor,
no signal comes back, and the times and sizes that instrumentation records are left out.

The history of a link says what became of every packet pushed. The queue and the packets received are read
off it (`Inv`), and `link_conserves` says what holds of it in every run.
-/

namespace Glass2Glass.Runtime

open Machine Ledger List

/-- What a link does when it is full. -/
inductive LinkPolicy where
  | block
  | dropOldest
  | dropNewest
  deriving DecidableEq

/-- Whether a packet carries a frame of data; all others are control packets. -/
def isData : PipelinePacket → Bool
  | .dataFrame _ => true
  | _ => false

/-- Where a push is, between two lock sections. -/
inductive Phase where
  /-- No push is under way. -/
  | idle
  /-- The push has begun: the next poll runs its first steps. -/
  | begun (packet : PipelinePacket)
  /-- The link was full, and the oldest frame is to be evicted. -/
  | evicting (packet : PipelinePacket)
  /-- A frame was evicted, and the packet is to be sent. -/
  | evicted (packet : PipelinePacket)
  /-- The push waits for room. -/
  | sending (packet : PipelinePacket)
  /-- A branch marked unreachable was reached. -/
  | panicked

/-- What became of a packet. -/
inductive Fate where
  | queued
  | received
  /-- Dropped by the link, with so many packets queued. -/
  | dropped (queued : Nat)
  /-- Its push was cancelled. -/
  | cancelled
  /-- Its push failed, the consumer being gone. -/
  | shutdown
  deriving DecidableEq

/-- One packet of a link's history. -/
structure Entry where
  packet : PipelinePacket
  fate : Fate

namespace Entry

def isQueued (e : Entry) : Bool := e.fate == .queued

/-- The consumer has the packet. -/
def isReceived (e : Entry) : Bool := e.fate == .received

/-- The link dropped the packet. -/
def isDropped (e : Entry) : Bool :=
  match e.fate with
  | .dropped _ => true
  | _ => false

/-- The push of the packet was accepted: it was sent, or dropped by the link. -/
def isAccepted (e : Entry) : Bool := e.isQueued || e.isReceived || e.isDropped

def isData (e : Entry) : Bool := Runtime.isData e.packet

/-- The packet comes to a fate. -/
def settle (fate : Fate) (e : Entry) : Entry := { e with fate }

end Entry

/-- A link, its producer, and its history. -/
structure Link where
  policy : LinkPolicy
  data : Channel PipelinePacket
  /-- The drops recorded, a 64-bit counter. -/
  drops : Nat
  eosForwarded : Bool
  phase : Phase
  pushed : List PipelinePacket
  /-- The packets the consumer received, in order. -/
  received : List PipelinePacket
  /-- What became of every packet whose push is over, in the order of the pushes. -/
  log : List Entry

namespace Link

def new (capacity : Nat) (policy : LinkPolicy) : Link :=
  { policy, data := .bounded capacity, drops := 0, eosForwarded := false, phase := .idle, pushed := [],
    received := [], log := [] }

variable (s : Link) (packet : PipelinePacket)

/-- The push is over. -/
def finish (fate : Fate) : Link :=
  { s with phase := .idle, log := s.log ++ [⟨packet, fate⟩] }

def accept (s : Link) (data : Channel PipelinePacket) (packet : PipelinePacket) : Link :=
  { s with data }.finish packet .queued

def recordDrop (s : Link) : Link := { s with drops := (s.drops + 1) % 2 ^ 64 }

/-- The blocking send: queue the packet, or wait for room. -/
def pollBlockingSend : Link :=
  match s.data.pollSend packet with
  | none => { s with phase := .sending packet }
  | some (.ok data) => s.accept data packet
  | some (.error .closed) => s.finish packet .shutdown
  | some (.error .full) => { s with phase := .panicked }

/-- Past the first steps the packet is committed to the link. -/
def commit : Link :=
  match packet with
  | .eos => { s with eosForwarded := true }
  | .flush => { s with eosForwarded := false }
  | _ => s

def pollBegun : Link :=
  if isData packet && s.policy != .block then
    match s.policy, s.data.trySend packet with
    | _, .ok data => s.accept data packet
    | _, .error .closed => s.finish packet .shutdown
    | .dropNewest, .error .full => s.recordDrop.finish packet (.dropped s.data.queue.length)
    | .dropOldest, .error .full => { s with phase := .evicting packet }
    | .block, .error .full => { s with phase := .panicked }
  else s.pollBlockingSend packet

/-- Evict the oldest frame queued; with none, wait for room. -/
def evict : Link :=
  match s.data.evictFrontMatching isData with
  | none => { s with phase := .sending packet }
  | some (_, data) =>
    { s.recordDrop with
      data
      phase := .evicted packet
      log := updateFirst (fun e => e.isQueued && e.isData) (Entry.settle (.dropped s.data.queue.length)) s.log }

/-- Send in the room that an eviction made. -/
def pollEvicted : Link :=
  match s.data.trySend packet with
  | .ok data => s.accept data packet
  | .error .closed => s.finish packet .shutdown
  | .error .full => { s with phase := .panicked }

/-- One lock section of a poll. -/
def poll (s : Link) : Option Link :=
  match s.phase with
  | .idle => none
  | .begun packet => some ((s.commit packet).pollBegun packet)
  | .evicting packet => some (s.evict packet)
  | .evicted packet => some (s.pollEvicted packet)
  | .sending packet => some (s.pollBlockingSend packet)
  | .panicked => none

/-- Drop a push that is under way. -/
def cancel (s : Link) : Option Link :=
  match s.phase with
  | .begun packet | .sending packet => some (s.finish packet .cancelled)
  | _ => none

/-- The consumer takes the first packet queued, if there is one. -/
def recv (s : Link) : Link :=
  match s.data.tryRecv with
  | none => s
  | some (packet, data) =>
    { s with
      data
      received := s.received ++ [packet]
      log := updateFirst Entry.isQueued (Entry.settle .received) s.log }

/-- The steps of the two parties. -/
inductive Action where
  | push (packet : PipelinePacket)
  | poll
  | cancel
  | recv

def step (s : Link) : Action → Option Link
  | .push packet =>
    match s.phase with
    | .idle => some { s with phase := .begun packet, pushed := s.pushed ++ [packet] }
    | _ => none
  | .poll => s.poll
  | .cancel => s.cancel
  | .recv => some s.recv

/-- The packet of a push under way. -/
def inFlight (s : Link) : List PipelinePacket :=
  match s.phase with
  | .begun packet | .evicting packet | .evicted packet | .sending packet => [packet]
  | _ => []

end Link

/-! ## The invariant -/

/-- What a push has made sure of, with so many packets queued. -/
def Phase.Sure (c : Nat) (pol : LinkPolicy) (queued : Nat) : Phase → Prop
  | .evicting packet => isData packet = true ∧ pol = .dropOldest
  | .evicted packet => isData packet = true ∧ pol = .dropOldest ∧ queued < c
  | .panicked => False
  | _ => True

/-- What a link's history says about its queue, its consumer and its producer. -/
structure Inv (c : Nat) (pol : LinkPolicy) (s : Link) : Prop where
  capacity : s.data.capacity = c
  policy : s.policy = pol
  receivers : 0 < s.data.receivers
  bound : s.data.queue.length ≤ c
  pushed : s.pushed = s.log.map Entry.packet ++ s.inFlight
  queue : s.data.queue = (s.log.filter Entry.isQueued).map Entry.packet
  received : s.received = (s.log.filter Entry.isReceived).map Entry.packet
  /-- A packet is received after those queued before it. -/
  inOrder : s.log.Pairwise fun a b => b.isReceived = true → a.isQueued = false
  /-- A frame is evicted after the frames queued before it. -/
  oldest : pol = .dropOldest → s.log.Pairwise fun a b => b.isDropped = true → (a.isQueued && a.isData) = false
  /-- Only frames are dropped, and never by a link that blocks. -/
  dropped : ∀ e ∈ s.log, ∀ n, e.fate = .dropped n → e.isData = true ∧ pol ≠ .block ∧ (pol = .dropNewest → n = c)
  drops : s.drops = s.log.countP Entry.isDropped % 2 ^ 64
  alive : ∀ e ∈ s.log, e.fate ≠ .shutdown
  phase : s.phase.Sure c pol s.data.queue.length

variable {c : Nat} {pol : LinkPolicy} {s s' : Link} {packet : PipelinePacket}

theorem inFlight_eq {phase : Phase} (h : s.phase = phase) : s.inFlight = { s with phase }.inFlight := by
  unfold Link.inFlight
  rw [h]

theorem inFlight_commit : (s.commit packet).inFlight = s.inFlight := by
  unfold Link.commit
  split <;> rfl

theorem inv_new (c : Nat) (pol : LinkPolicy) : Inv c pol (.new c pol) where
  capacity := rfl
  policy := rfl
  receivers := Nat.one_pos
  bound := Nat.zero_le _
  pushed := rfl
  queue := rfl
  received := rfl
  inOrder := List.Pairwise.nil
  oldest _ := List.Pairwise.nil
  dropped _ he := absurd he not_mem_nil
  drops := rfl
  alive _ he := absurd he not_mem_nil
  phase := trivial

/-- A push that is over, with a fate that is neither received nor shut down, and no drop under a policy
that evicts. -/
theorem Inv.finish (h : Inv c pol s) (hflight : s.inFlight = [packet]) {fate : Fate}
    {data : Channel PipelinePacket} {drops : Nat} (hreceived : fate ≠ .received)
    (hshutdown : fate ≠ .shutdown)
    (hdropped : ∀ n, fate = .dropped n → isData packet = true ∧ pol = .dropNewest ∧ n = c)
    (hcap : data.capacity = c) (hrecv : 0 < data.receivers) (hbound : data.queue.length ≤ c)
    (hqueue : data.queue = s.data.queue ++ if fate = .queued then [packet] else [])
    (hdrops : drops = (s.log.countP Entry.isDropped +
      if (⟨packet, fate⟩ : Entry).isDropped then 1 else 0) % 2 ^ 64) :
    Inv c pol ({ s with data, drops }.finish packet fate) := by
  -- The new entry stands after all others.
  have hnot : (⟨packet, fate⟩ : Entry).isReceived = false := by
    unfold Entry.isReceived
    simpa using hreceived
  have hlast : ∀ {R : Entry → Entry → Prop}, s.log.Pairwise R → (∀ a, R a ⟨packet, fate⟩) →
      (s.log ++ [(⟨packet, fate⟩ : Entry)]).Pairwise R := by
    intro R hlog hnew
    refine List.pairwise_append.2 ⟨hlog, pairwise_singleton _ _, fun a _ b hb => ?_⟩
    rw [List.mem_singleton.1 hb]
    exact hnew a
  refine ⟨hcap, h.policy, hrecv, hbound, ?_, ?_, ?_, ?_, ?_, ?_, ?_, ?_, trivial⟩
  · show s.pushed = (s.log ++ [_]).map _ ++ []
    rw [h.pushed, hflight, map_append, append_nil, map_singleton]
  · show data.queue = ((s.log ++ [_]).filter _).map _
    rw [hqueue, h.queue, filter_append, map_append]
    by_cases hq : fate = .queued <;> simp [Entry.isQueued, hq]
  · show s.received = ((s.log ++ [_]).filter _).map _
    rw [h.received, filter_append, filter_singleton, hnot]
    simp
  · refine hlast h.inOrder fun a hb => ?_
    rw [hnot] at hb
    cases hb
  · intro hpol
    refine hlast (h.oldest hpol) fun a hb => ?_
    unfold Entry.isDropped at hb
    split at hb
    · next n hn =>
      obtain ⟨-, hnewest, -⟩ := hdropped n hn
      rw [hpol] at hnewest
      cases hnewest
    · cases hb
  · intro e he n hn
    rcases List.mem_append.1 he with he | he
    · exact h.dropped e he n hn
    · rw [List.mem_singleton.1 he] at hn ⊢
      obtain ⟨hdata, hnewest, hfull⟩ := hdropped n hn
      refine ⟨hdata, ?_, fun _ => hfull⟩
      rw [hnewest]
      decide
  · show drops = (s.log ++ [_]).countP _ % 2 ^ 64
    rw [hdrops, countP_append, countP_singleton]
  · intro e he
    rcases List.mem_append.1 he with he | he
    · exact h.alive e he
    · rw [List.mem_singleton.1 he]
      exact hshutdown

theorem Inv.accept (h : Inv c pol s) (hflight : s.inFlight = [packet]) (hroom : s.data.queue.length < s.data.capacity) :
    Inv c pol (s.accept { s.data with queue := s.data.queue ++ [packet] } packet) := by
  rw [h.capacity] at hroom
  refine h.finish hflight (by decide) (by decide) (fun n hn => by cases hn) h.capacity h.receivers ?_
    rfl h.drops
  rw [length_append, length_singleton]
  exact hroom

theorem Inv.cancel (h : Inv c pol s) (hstep : s.cancel = some s') : Inv c pol s' := by
  unfold Link.cancel at hstep
  have hcancelled : ∀ packet, s.inFlight = [packet] → Inv c pol (s.finish packet .cancelled) :=
    fun packet hflight => h.finish hflight (by decide) (by decide) (fun n hn => by cases hn) h.capacity
      h.receivers h.bound (by simp) h.drops
  split at hstep
  · next packet hphase =>
    obtain rfl := Option.some.inj hstep
    exact hcancelled packet (inFlight_eq hphase)
  · next packet hphase =>
    obtain rfl := Option.some.inj hstep
    exact hcancelled packet (inFlight_eq hphase)
  · cases hstep

theorem Inv.moveTo (h : Inv c pol s) {phase : Phase} (hflight : s.inFlight = { s with phase }.inFlight)
    (hphase : phase.Sure c pol s.data.queue.length) : Inv c pol { s with phase } :=
  { h with pushed := by rw [← hflight]; exact h.pushed, phase := hphase }

theorem Inv.pollBlockingSend (h : Inv c pol s) (hflight : s.inFlight = [packet]) :
    Inv c pol (s.pollBlockingSend packet) := by
  unfold Link.pollBlockingSend
  rcases Channel.pollSend_cases h.receivers packet with ⟨hroom, heq⟩ | ⟨-, heq⟩
  · rw [heq]
    exact h.accept hflight hroom
  · rw [heq]
    exact h.moveTo hflight trivial

theorem Inv.pollBegun (h : Inv c pol s) (hflight : s.inFlight = [packet]) : Inv c pol (s.pollBegun packet) := by
  unfold Link.pollBegun
  split_ifs with hleaky
  · rw [Bool.and_eq_true] at hleaky
    rcases Channel.trySend_cases h.receivers packet with ⟨hroom, heq⟩ | ⟨hfull, heq⟩
    · rw [heq]
      exact h.accept hflight hroom
    · rw [heq]
      have hlen : s.data.queue.length = c := Nat.le_antisymm h.bound (by rw [← h.capacity]; exact hfull)
      split
      · next heq => cases heq
      · next heq => cases heq
      · next hpol _ =>
        -- The packet itself is dropped.
        refine h.finish hflight nofun nofun ?_ h.capacity h.receivers h.bound (by simp) ?_
        · intro n hn
          obtain rfl := Fate.dropped.inj hn
          exact ⟨hleaky.1, h.policy.symm.trans hpol, hlen⟩
        · show (s.drops + 1) % 2 ^ 64 = (_ + 1) % 2 ^ 64
          rw [h.drops, Nat.mod_add_mod]
      · next hpol _ => exact h.moveTo hflight ⟨hleaky.1, h.policy.symm.trans hpol⟩
      · next hpol _ =>
        rw [hpol] at hleaky
        exact absurd hleaky.2 (by decide)
  · exact h.pollBlockingSend hflight

theorem map_packet_settle {p : Entry → Bool} {fate : Fate} {log : List Entry} :
    (updateFirst p (Entry.settle fate) log).map Entry.packet = log.map Entry.packet :=
  map_updateFirst fun _ => rfl

theorem Entry.isReceived_of_isQueued {e : Entry} (h : e.isQueued = true) : e.isReceived = false := by
  unfold Entry.isReceived
  rw [beq_iff_eq.1 h]
  rfl

theorem Entry.isDropped_of_isQueued {e : Entry} (h : e.isQueued = true) : e.isDropped = false := by
  unfold Entry.isDropped
  rw [beq_iff_eq.1 h]

theorem Inv.find? (h : Inv c pol s) (pred : PipelinePacket → Bool) {value : PipelinePacket}
    (hfind : s.data.queue.find? pred = some value) :
    ∃ e, s.log.find? (fun e => e.isQueued && pred e.packet) = some e ∧ e.packet = value := by
  rw [h.queue, List.find?_map, List.find?_filter] at hfind
  obtain ⟨e, he, heq⟩ := Option.map_eq_some_iff.1 hfind
  refine ⟨e, ?_, heq⟩
  rw [← he]
  congr 1
  funext e
  simp

/-- Evicting a frame takes the oldest one queued. -/
theorem Inv.evict (h : Inv c pol s) (hphase : s.phase = .evicting packet) : Inv c pol (s.evict packet) := by
  have hflight : s.inFlight = [packet] := inFlight_eq hphase
  obtain ⟨hdata, hpol⟩ : (Phase.evicting packet).Sure c pol s.data.queue.length := by
    rw [← hphase]
    exact h.phase
  unfold Link.evict Channel.evictFrontMatching
  rcases hfind : s.data.queue.find? isData with _ | value
  · exact h.moveTo hflight trivial
  · obtain ⟨e, he, -⟩ : ∃ e, s.log.find? (fun e => e.isQueued && e.isData) = some e ∧ e.packet = value :=
      h.find? isData hfind
    have hmem := List.mem_of_find?_eq_some hfind
    have hlen := length_eraseP_of_mem hmem (List.find?_some hfind)
    have hbound := h.bound
    have hpos : 0 < s.data.queue.length := length_pos_of_mem hmem
    rw [Option.map_some]
    refine ⟨h.capacity, h.policy, h.receivers, ?_, ?_, ?_, ?_, ?_, ?_, ?_, ?_, ?_, ?_⟩ <;> dsimp only
    · omega
    · rw [map_packet_settle]
      exact h.pushed.trans (by rw [hflight]; rfl)
    · rw [filter_updateFirst fun _ => rfl, h.queue, eraseP_map]
      rfl
    · rw [filter_updateFirst_of_not fun _ => rfl]
      · exact h.received
      · exact fun e he => Entry.isReceived_of_isQueued (Bool.and_eq_true_iff.1 he).1
    · exact pairwise_updateFirst h.inOrder (fun _ _ _ _ _ hb => nomatch hb) fun _ _ _ _ _ => rfl
    · exact fun _ => pairwise_updateFirst (h.oldest hpol) (fun _ _ _ ha _ _ => ha) fun _ _ _ _ _ => rfl
    · refine forall_updateFirst h.dropped fun e he _ n _ => ⟨(Bool.and_eq_true_iff.1 he).2, ?_, ?_⟩
      all_goals
        rw [hpol]
        exact nofun
    · rw [countP_updateFirst he (fun _ => rfl)
        fun e he => Entry.isDropped_of_isQueued (Bool.and_eq_true_iff.1 he).1, ← Nat.mod_add_mod, ← h.drops]
      rfl
    · exact forall_updateFirst h.alive fun _ _ _ => nofun
    · exact ⟨hdata, hpol, by omega⟩

theorem Inv.pollEvicted (h : Inv c pol s) (hphase : s.phase = .evicted packet) : Inv c pol (s.pollEvicted packet) := by
  have hflight : s.inFlight = [packet] := inFlight_eq hphase
  obtain ⟨-, -, hlt⟩ : (Phase.evicted packet).Sure c pol s.data.queue.length := by
    rw [← hphase]
    exact h.phase
  unfold Link.pollEvicted
  rcases Channel.trySend_cases h.receivers packet with ⟨hroom, heq⟩ | ⟨hfull, -⟩
  · rw [heq]
    exact h.accept hflight hroom
  · rw [h.capacity] at hfull
    omega

theorem Phase.Sure.mono {phase : Phase} {m n : Nat} (h : phase.Sure c pol n) (hle : m ≤ n) : phase.Sure c pol m := by
  unfold Phase.Sure at h ⊢
  split at h <;> simp_all
  omega

theorem Inv.recv (h : Inv c pol s) : Inv c pol s.recv := by
  unfold Link.recv Channel.tryRecv
  rcases hqueue : s.data.queue with _ | ⟨value, rest⟩
  · exact h
  · have hbound := h.bound
    have hphase := h.phase
    rw [hqueue, length_cons] at hbound hphase
    obtain ⟨e, he, heq⟩ : ∃ e, s.log.find? (fun e => e.isQueued && true) = some e ∧ e.packet = value :=
      h.find? (fun _ => true) (by rw [hqueue]; rfl)
    simp only [Bool.and_true] at he
    refine ⟨h.capacity, h.policy, h.receivers, ?_, ?_, ?_, ?_, ?_, ?_, ?_, ?_, ?_, ?_⟩ <;> dsimp only
    · omega
    · rw [map_packet_settle]
      exact h.pushed
    · rw [filter_updateFirst_self fun _ => rfl, map_tail, ← h.queue, hqueue, tail_cons]
    · rw [filter_updateFirst_append he (fun _ => rfl) (fun _ => Entry.isReceived_of_isQueued) h.inOrder,
        map_append, h.received, map_singleton, ← heq]
      rfl
    · exact pairwise_updateFirst h.inOrder (fun _ _ _ ha _ _ => ha) fun _ _ _ _ _ => rfl
    · exact fun hpol => pairwise_updateFirst (h.oldest hpol) (fun _ _ _ _ _ hb => nomatch hb)
        fun _ _ _ _ _ => rfl
    · exact forall_updateFirst h.dropped fun e _ _ n hn => nomatch hn
    · rw [countP_eq_length_filter, filter_updateFirst_of_not (fun _ => rfl)
        (fun _ => Entry.isDropped_of_isQueued), ← countP_eq_length_filter]
      exact h.drops
    · exact forall_updateFirst h.alive fun _ _ _ => nofun
    · exact hphase.mono (Nat.le_succ _)

theorem Inv.commit (h : Inv c pol s) : Inv c pol (s.commit packet) := by
  unfold Link.commit
  split <;> exact { h with }

theorem inv_step {action : Link.Action} (h : Inv c pol s) (hstep : s.step action = some s') : Inv c pol s' := by
  unfold Link.step at hstep
  split at hstep
  · -- A push begins.
    split at hstep
    · next packet _ hphase =>
      obtain rfl := Option.some.inj hstep
      have hnone : s.inFlight = [] := inFlight_eq hphase
      refine { h with pushed := ?_, phase := trivial }
      show s.pushed ++ [_] = _ ++ [_]
      rw [h.pushed, hnone, append_nil]
    · cases hstep
  · unfold Link.poll at hstep
    split at hstep
    · cases hstep
    · next packet hphase =>
      obtain rfl := Option.some.inj hstep
      exact h.commit.pollBegun (inFlight_commit.trans (inFlight_eq hphase))
    · next packet hphase =>
      obtain rfl := Option.some.inj hstep
      exact h.evict hphase
    · next packet hphase =>
      obtain rfl := Option.some.inj hstep
      exact h.pollEvicted hphase
    · next packet hphase =>
      obtain rfl := Option.some.inj hstep
      exact h.pollBlockingSend (inFlight_eq hphase)
    · cases hstep
  · exact h.cancel hstep
  · obtain rfl := Option.some.inj hstep
    exact h.recv

/-! ## Conservation -/

theorem countP_accepted {log : List Entry} (h : ∀ e ∈ log, e.isDropped = true → e.isData = true) :
    log.countP (fun e => e.isData && e.isAccepted) = ((log.filter Entry.isReceived).map Entry.packet).countP isData +
        ((log.filter Entry.isQueued).map Entry.packet).countP isData + log.countP Entry.isDropped := by
  simp only [countP_map, countP_filter]
  induction log with
  | nil => rfl
  | cons e log ih =>
    rw [forall_mem_cons] at h
    simp only [countP_cons, ih h.2]
    have hdata : (isData ∘ Entry.packet) e = e.isData := rfl
    have hdropped := h.1
    unfold Entry.isAccepted Entry.isReceived Entry.isQueued Entry.isDropped at *
    cases he : e.fate <;> cases hd : e.isData <;> simp_all <;> omega

/-- Every run of a link. The consumer receives packets in the order of
their pushes. A control packet whose push is over and was not cancelled is received or queued, and so is
every packet on a link that blocks. The frames accepted are those received, queued and recorded as dropped.
The queue stays within its capacity. A link that drops the newest frame drops it with the queue full, one
that drops the oldest drops a frame when all frames before it have left the queue, and no branch marked
unreachable is reached. -/
theorem link_conserves {actions : List Link.Action} (hrun : run Link.step (.new c pol) actions = some s) :
    s.received.Sublist s.pushed ∧ s.pushed = s.log.map Entry.packet ++ s.inFlight ∧
    s.data.queue = (s.log.filter Entry.isQueued).map Entry.packet ∧
    s.received = (s.log.filter Entry.isReceived).map Entry.packet ∧ (∀ e ∈ s.log, e.isData = false ∨ pol = .block →
      e.fate = .queued ∨ e.fate = .received ∨ e.fate = .cancelled) ∧ s.log.countP (fun e => e.isData && e.isAccepted) =
      s.received.countP isData + s.data.queue.countP isData + s.log.countP Entry.isDropped ∧
    s.drops = s.log.countP Entry.isDropped % 2 ^ 64 ∧ s.data.queue.length ≤ c ∧
    (pol = .dropNewest → ∀ e ∈ s.log, ∀ n, e.fate = .dropped n → n = c) ∧
    (pol = .dropOldest → ∀ before e after, s.log = before ++ e :: after → e.isDropped = true →
      ∀ a ∈ before, a.isData = true → a.fate ≠ .queued) ∧ s.phase ≠ .panicked := by
  have h : Inv c pol s := run_keeps (fun _ _ _ _ h hstep => inv_step h hstep) hrun (inv_new c pol)
  refine ⟨?_, h.pushed, h.queue, h.received, ?_, ?_, h.drops, h.bound, ?_, ?_, ?_⟩
  · rw [h.received, h.pushed]
    exact ((List.filter_sublist.map _).trans (sublist_append_left _ _))
  · intro e he hkept
    have hdropped := h.dropped e he
    have halive := h.alive e he
    cases hfate : e.fate with
    | queued => exact Or.inl rfl
    | received => exact Or.inr (Or.inl rfl)
    | cancelled => exact Or.inr (Or.inr rfl)
    | shutdown => exact absurd hfate halive
    | dropped n =>
      obtain ⟨hdata, hblock, -⟩ := hdropped n hfate
      rcases hkept with hkept | hkept
      · rw [hdata] at hkept
        cases hkept
      · exact absurd hkept hblock
  · rw [h.received, h.queue]
    refine countP_accepted fun e he hdropped => ?_
    unfold Entry.isDropped at hdropped
    split at hdropped
    · next n hn => exact (h.dropped e he n hn).1
    · cases hdropped
  · exact fun hpol e he n hn => (h.dropped e he n hn).2.2 hpol
  · intro hpol before e after hlog hdropped a ha hdata hqueued
    have hpair := h.oldest hpol
    rw [hlog, pairwise_append] at hpair
    have hnot := hpair.2.2 a ha e mem_cons_self hdropped
    unfold Entry.isQueued at hnot
    rw [hqueued, hdata] at hnot
    cases hnot
  · intro hpanic
    have hphase := h.phase
    rw [hpanic] at hphase
    exact hphase

/-- A frame that carries nothing but its number. -/
def numberedFrame (sequence : UInt64) : PipelinePacket :=
  .dataFrame ⟨.device, ⟨0, 0, 0, 0, 0, false⟩, sequence, .new⟩

/-- Two frames, and then the end of the stream. -/
def twoFrames : List Link.Action :=
  [.push (numberedFrame 0), .poll, .push (numberedFrame 1), .poll, .poll, .poll, .push .eos, .poll, .recv, .poll]

/-- A link of one packet drops the first of two frames, and then makes a control packet wait. -/
theorem link_conserves_evicting : ∃ s, run Link.step (.new 1 .dropOldest) twoFrames = some s ∧
      (s.received = [numberedFrame 1] ∧ s.data.queue = [.eos] ∧ s.drops = 1) ∧ s.received.Sublist s.pushed := by
  obtain ⟨s, hrun, hend⟩ : ∃ s, run Link.step (.new 1 .dropOldest) twoFrames = some s ∧
      (s.received = [numberedFrame 1] ∧ s.data.queue = [.eos] ∧ s.drops = 1) := ⟨_, rfl, rfl, rfl, rfl⟩
  exact ⟨s, hrun, hend, (link_conserves hrun).1⟩

end Glass2Glass.Runtime
