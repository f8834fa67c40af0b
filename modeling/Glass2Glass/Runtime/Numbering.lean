import Glass2Glass.Lib.Machine
import Mathlib.Algebra.Group.Nat.Defs
import Mathlib.Data.List.Basic

/-!
# Frame numbers across live edits

The endpoint of an edge (`ProducerEndpoint` in `g2g-core/src/runtime/channel.rs`) renumbers the frames that
cross it, so that a producer that takes the edge over goes on above the last number its consumer saw. An edit
of the graph copies that number from one endpoint to the next: `insert` to the endpoint of the last element
that it splices in, `remove` to that of the producer above, and `replace_source` hands the endpoint on to the
new source (`g2g-core/src/runtime/mutate.rs`).

`Line` is one consumer with the producers above it, nearest first. An edit that is refused leaves the numbers
alone and is left out.

The numbers rise over every run in which no edit copies the number of an endpoint that is itself still to
carry its first frame above a higher one (`sequence_runs`). An element that is spliced in and taken out again
before a frame crosses it shows what happens otherwise (`unused_splice_renumbers`).
-/

namespace Glass2Glass.Runtime

open List

structure EndpointNumbers where
  /-- The last number that the consumer below saw on this edge. -/
  lastSequence : Option Nat
  /-- A producer that just took over the edge must number its first frame above this. -/
  continueAfter : Option Nat
  sequenceShift : Nat

namespace EndpointNumbers

/-- A new endpoint has carried nothing. -/
def new : EndpointNumbers := { lastSequence := none, continueAfter := none, sequenceShift := 0 }

variable (n : EndpointNumbers)

/-- A frame crosses the edge. Returns the number it gets. -/
def observe (sequence : Nat) : Nat × EndpointNumbers :=
  let shift :=
    match n.continueAfter with
    | some last => if sequence ≤ last then (last + 1 - sequence) % 2 ^ 64 else 0
    | none => n.sequenceShift
  -- The addition saturates.
  let number := min (sequence + shift) (2 ^ 64 - 1)
  (number, { lastSequence := some number, continueAfter := none, sequenceShift := shift })

def continueSequenceAfter (last : Option Nat) : EndpointNumbers :=
  { n with continueAfter := last, sequenceShift := 0 }

/-- The endpoint is handed to another producer. -/
def rehome : EndpointNumbers := n.continueSequenceAfter n.lastSequence

/-- The last number that crossed is not behind the one to go on after. -/
def Current : Prop :=
  ∀ last, n.continueAfter = some last → ∃ l, n.lastSequence = some l ∧ last ≤ l

/-- The numbers stay below a bound, which a takeover moves by `M`. -/
structure Within (M t : Nat) (n : EndpointNumbers) : Prop where
  last : ∀ l, n.lastSequence = some l → l < (t + 1) * M
  after : ∀ l, n.continueAfter = some l → l < (t + 1) * M
  shift : n.sequenceShift ≤ t * M

variable {M t sequence : Nat} {n : EndpointNumbers}

theorem within_new : new.Within M t := ⟨nofun, nofun, Nat.zero_le _⟩

theorem Within.mono (h : n.Within M t) : n.Within M (t + 1) := by
  have hle : (t + 1) * M ≤ (t + 1 + 1) * M := Nat.mul_le_mul_right M (Nat.le_succ _)
  have hshift : t * M ≤ (t + 1) * M := Nat.mul_le_mul_right M (Nat.le_succ _)
  exact ⟨fun l hl => Nat.lt_of_lt_of_le (h.last l hl) hle, fun l hl => Nat.lt_of_lt_of_le (h.after l hl) hle,
    Nat.le_trans h.shift hshift⟩

theorem Within.continueSequenceAfter {other : EndpointNumbers} (h : n.Within M t) (hother : other.Within M t) :
    (n.continueSequenceAfter other.lastSequence).Within M t :=
  ⟨h.last, hother.last, Nat.zero_le _⟩

/-- What a frame is numbered when nothing saturates: above the number to go on after, or as the frames
before it. -/
theorem observe_spec (h : n.Within M t) (hseq : sequence < M) (hfar : (t + 2) * M ≤ 2 ^ 64) :
    ∃ shift, n.observe sequence = (sequence + shift,
        { lastSequence := some (sequence + shift), continueAfter := none, sequenceShift := shift }) ∧
      (∀ last, n.continueAfter = some last → last < sequence + shift) ∧
      (n.continueAfter = none → shift = n.sequenceShift) ∧
      shift ≤ (t + 1) * M ∧ sequence + shift < (t + 2) * M := by
  have hafter := h.after
  have hshift := h.shift
  simp only [Nat.add_mul] at hafter hfar ⊢
  unfold observe
  rcases hcontinue : n.continueAfter with _ | last
  · refine ⟨n.sequenceShift, ?_, nofun, fun _ => rfl, ?_, ?_⟩
    · dsimp only
      rw [Nat.min_eq_left (by omega)]
    · omega
    · omega
  · have hlast := hafter last hcontinue
    by_cases hle : sequence ≤ last
    · -- The first frame after a takeover goes directly above.
      refine ⟨last + 1 - sequence, ?_, ?_, nofun, ?_, ?_⟩
      · dsimp only
        rw [if_pos hle, Nat.mod_eq_of_lt (by omega), Nat.min_eq_left (by omega)]
      · intro l hl
        obtain rfl := Option.some.inj hl
        omega
      · omega
      · omega
    · refine ⟨0, ?_, ?_, nofun, ?_, ?_⟩
      · dsimp only
        rw [if_neg hle, Nat.min_eq_left (by omega)]
      · intro l hl
        obtain rfl := Option.some.inj hl
        omega
      · omega
      · omega

end EndpointNumbers

/-- A producer above the consumer. -/
structure Producer where
  numbers : EndpointNumbers
  /-- The number of the last frame it made. -/
  made : Option Nat

namespace Producer

def new : Producer := { numbers := .new, made := none }

variable (p : Producer) (sequence : Nat)

/-- Its own frames are numbered upwards. -/
def MakesNext : Prop := ∀ last ∈ p.made, last < sequence

instance instDecidableMakesNext : Decidable (p.MakesNext sequence) :=
  inferInstanceAs (Decidable (∀ last ∈ p.made, last < sequence))

/-- It hands a frame to its endpoint. Returns the number the frame gets. -/
def make : Nat × Producer :=
  let observed := p.numbers.observe sequence
  (observed.1, { numbers := observed.2, made := some sequence })

/-- Another producer takes its place. A frame that the old one was about to send is numbered and lost. -/
def replaced (p : Producer) : Option Nat → Producer
  | none => { numbers := p.numbers.rehome, made := none }
  | some sequence => { numbers := (p.make sequence).2.numbers.rehome, made := none }

end Producer

/-- A consumer and the producers above it. -/
structure Line where
  /-- Nearest first. -/
  producers : List Producer
  /-- The numbers of the frames on the link into the consumer. -/
  queue : List Nat
  /-- The numbers of the frames that the consumer received, or those before it in its place. -/
  received : List Nat

namespace Line

/-- What happens along the line. -/
inductive Event where
  /-- A producer makes a frame; a leaky link need not take it. -/
  | frame (k sequence : Nat) (taken : Bool)
  /-- The consumer receives a frame. -/
  | recv
  /-- A leaky link drops its first frame. -/
  | evict
  /-- Elements are spliced onto the edge below a producer: one, and some more above it. -/
  | insert (k more : Nat)
  /-- A producer is removed, and the one above it feeds its consumer. -/
  | remove (k : Nat)
  | replaceSink
  /-- The source is replaced. It may hold a frame that it has not sent. -/
  | replaceSource (held : Option Nat)

/-- A source with transforms below it, before the first frame. -/
def new (transforms : Nat) : Line :=
  { producers := List.replicate (transforms + 1) .new, queue := [], received := [] }

def step (s : Line) : Event → Option Line
  | .frame k sequence taken => do
    let p ← s.producers[k]?
    if p.MakesNext sequence then
      let made := p.make sequence
      return { s with
        producers := s.producers.set k made.2
        queue := if k = 0 ∧ taken then s.queue ++ [made.1] else s.queue }
    else none
  | .recv =>
    match s.queue with
    | [] => none
    | number :: queue => some { s with queue, received := s.received ++ [number] }
  | .evict => some { s with queue := s.queue.tail }
  | .insert k more => do
    let p ← s.producers[k]?
    let last := { Producer.new with numbers := .continueSequenceAfter .new p.numbers.lastSequence }
    return { s with
      producers := s.producers.take k ++ last :: List.replicate more .new ++ s.producers.drop k }
  | .remove k => do
    let own ← s.producers[k]?
    let up ← s.producers[k + 1]?
    let up := { up with numbers := up.numbers.continueSequenceAfter own.numbers.lastSequence }
    return { s with producers := s.producers.take k ++ up :: s.producers.drop (k + 2) }
  | .replaceSink => some { s with queue := [] }
  | .replaceSource held => do
    let source ← s.producers.getLast?
    if ∀ sequence ∈ held, source.MakesNext sequence then
      return { s with producers := s.producers.dropLast ++ [source.replaced held] }
    else none

/-- The number of a frame that is made. -/
def Event.sequence? : Event → Option Nat
  | .frame _ sequence _ => some sequence
  | .replaceSource held => held
  | _ => none

/-- An edit of the edge into the consumer copies a number that is not behind. -/
def Settled (s : Line) : Event → Prop
  | .insert 0 _ | .remove 0 => ∀ p ∈ s.producers.head?, p.numbers.Current
  | .replaceSource none => ∀ p, s.producers = [p] → p.numbers.Current
  | _ => True

/-! ## Rising numbers -/

end Line

namespace Producer

variable {M t sequence number : Nat} {p : Producer}

/-- What the producer sends next gets a number above `number`, and its endpoint knows of it. -/
def Above (p : Producer) (number : Nat) : Prop :=
  match p.numbers.continueAfter with
  | some last => number ≤ last
  | none => ∃ last, p.made = some last ∧ p.numbers.lastSequence = some (last + p.numbers.sequenceShift) ∧
      number ≤ last + p.numbers.sequenceShift

theorem Above.mono {lower : Nat} (h : p.Above number) (hle : lower ≤ number) : p.Above lower := by
  unfold Above at *
  split at h
  · exact Nat.le_trans hle h
  · obtain ⟨last, hmade, hlast, hnumber⟩ := h
    exact ⟨last, hmade, hlast, Nat.le_trans hle hnumber⟩

theorem Above.exists_last (h : p.Above number) (hcurrent : p.numbers.Current) :
    ∃ l, p.numbers.lastSequence = some l ∧ number ≤ l := by
  unfold Above at h
  rcases hcontinue : p.numbers.continueAfter with _ | last
  · rw [hcontinue] at h
    obtain ⟨last, -, hlast, hle⟩ := h
    exact ⟨_, hlast, hle⟩
  · rw [hcontinue] at h
    obtain ⟨l, hl, hle⟩ := hcurrent last hcontinue
    exact ⟨l, hl, Nat.le_trans h hle⟩

theorem above_continue {own : Producer} (h : own.Above number) (hcurrent : own.numbers.Current) :
    ({ p with numbers := p.numbers.continueSequenceAfter own.numbers.lastSequence } : Producer).Above number := by
  obtain ⟨l, hl, hle⟩ := h.exists_last hcurrent
  rw [hl]
  exact hle

theorem make_spec (h : p.numbers.Within M t) (hseq : sequence < M) (hfar : (t + 2) * M ≤ 2 ^ 64)
    (hnext : p.MakesNext sequence) : (p.make sequence).2.numbers.Within M (t + 1) ∧
      (p.make sequence).2.numbers.Current ∧ (p.make sequence).2.Above (p.make sequence).1 ∧
      ∀ number, p.Above number → number < (p.make sequence).1 := by
  obtain ⟨shift, hobserve, hafter, hsame, hshift, hlt⟩ := EndpointNumbers.observe_spec h hseq hfar
  unfold make
  rw [hobserve]
  refine ⟨⟨?_, nofun, hshift⟩, nofun, ⟨sequence, rfl, rfl, Nat.le_refl _⟩, fun number habove => ?_⟩
  · intro l hl
    obtain rfl := Option.some.inj hl
    exact hlt
  · unfold Above at habove
    rcases hcontinue : p.numbers.continueAfter with _ | last
    · -- The same shift as for the frame before, which had a lower number of its own.
      rw [hcontinue] at habove
      obtain ⟨last, hmade, -, hle⟩ := habove
      have hrise := hnext last hmade
      rw [hsame hcontinue]
      dsimp only
      omega
    · rw [hcontinue] at habove
      exact Nat.lt_of_le_of_lt habove (hafter last hcontinue)

theorem replaced_spec {held : Option Nat} (h : p.numbers.Within M t) (hfar : (t + 2) * M ≤ 2 ^ 64)
    (hseq : ∀ sequence ∈ held, sequence < M ∧ p.MakesNext sequence) : (p.replaced held).numbers.Within M (t + 1) ∧
      ((held = none → p.numbers.Current) → ∀ number, p.Above number → (p.replaced held).Above number) := by
  rcases held with _ | sequence
  · refine ⟨(h.continueSequenceAfter h).mono, fun hcurrent number habove => ?_⟩
    exact above_continue (p := ⟨p.numbers, none⟩) habove (hcurrent rfl)
  · obtain ⟨hlt, hnext⟩ := hseq sequence rfl
    obtain ⟨hwithin, hcurrent, hown, hrise⟩ := make_spec h hlt hfar hnext
    refine ⟨hwithin.continueSequenceAfter hwithin, fun _ number habove => ?_⟩
    have hmade : (p.make sequence).2.Above number := hown.mono (Nat.le_of_lt (hrise number habove))
    exact above_continue (p := ⟨(p.make sequence).2.numbers, none⟩) hmade hcurrent

end Producer

namespace Line

variable {M t : Nat} {s s' : Line} {event : Event}

/-- The numbers on their way to the consumer. -/
def numbers (s : Line) : List Nat := s.received ++ s.queue

/-- The numbers rise, and the nearest producer goes on above them. -/
structure Rising (s : Line) : Prop where
  rising : s.numbers.Pairwise (· < ·)
  nearest : ∀ p ∈ s.producers.head?, ∀ number ∈ s.numbers, p.Above number

/-- Every endpoint stays below the bound. -/
def Within (M t : Nat) (s : Line) : Prop := ∀ p ∈ s.producers, p.numbers.Within M t

theorem rising_new (transforms : Nat) : (new transforms).Rising := ⟨List.Pairwise.nil, nofun⟩

theorem within_new (transforms : Nat) : (new transforms).Within M t := by
  intro p hp
  rw [eq_of_mem_replicate hp]
  exact EndpointNumbers.within_new

theorem Rising.sublist {queue received : List Nat} (h : s.Rising) (hsub : (received ++ queue).Sublist s.numbers) :
    ({ s with queue, received } : Line).Rising :=
  ⟨h.rising.sublist hsub, fun p hp number hnumber => h.nearest p hp number (hsub.subset hnumber)⟩

theorem Rising.setProducers {producers : List Producer} (h : s.Rising)
    (hnearest : ∀ p ∈ producers.head?, ∀ number ∈ s.numbers, p.Above number) :
    ({ s with producers } : Line).Rising := ⟨h.rising, hnearest⟩

theorem mem_head?_take_append {k : Nat} {p : Producer} {rest : List Producer} (hk : k ≠ 0)
    (hp : p ∈ (s.producers.take k ++ rest).head?) (hlt : s.producers ≠ []) : p ∈ s.producers.head? := by
  rcases hs : s.producers with _ | ⟨first, more⟩
  · exact absurd hs hlt
  · obtain ⟨j, rfl⟩ := Nat.exists_eq_succ_of_ne_zero hk
    rw [hs] at hp
    exact hp

/-- A producer makes a frame. -/
theorem rising_frame {k sequence : Nat} {taken : Bool} {p : Producer} (h : s.Rising) (hw : s.Within M t)
    (hp : s.producers[k]? = some p) (hseq : sequence < M) (hnext : p.MakesNext sequence)
    (hfar : (t + 2) * M ≤ 2 ^ 64) : Rising { s with
        producers := s.producers.set k (p.make sequence).2
        queue := if k = 0 ∧ taken then s.queue ++ [(p.make sequence).1] else s.queue } := by
  obtain ⟨-, -, hown, hrise⟩ := Producer.make_spec (hw p (mem_of_getElem? hp)) hseq hfar hnext
  rcases hs : s.producers with _ | ⟨first, rest⟩
  · rw [hs] at hp
    cases hp
  rcases k with _ | k
  · -- The nearest producer: the frame is on its way to the consumer.
    obtain rfl : first = p := by simpa [hs] using hp
    have hbelow : ∀ number ∈ s.numbers, number < (first.make sequence).1 := fun number hnumber =>
      hrise number (h.nearest first (by rw [hs]; rfl) number hnumber)
    have hall : ∀ number ∈ s.numbers ++ [(first.make sequence).1], (first.make sequence).2.Above number := by
      intro number hnumber
      refine hown.mono ?_
      rcases List.mem_append.1 hnumber with hnumber | hnumber
      · exact Nat.le_of_lt (hbelow number hnumber)
      · exact Nat.le_of_eq (List.mem_singleton.1 hnumber)
    have hsub : (numbers { s with
        producers := (first :: rest).set 0 (first.make sequence).2
        queue := if 0 = 0 ∧ taken then s.queue ++ [(first.make sequence).1] else s.queue }).Sublist
          (s.numbers ++ [(first.make sequence).1]) := by
      unfold numbers
      split_ifs
      · rw [append_assoc]
      · exact sublist_append_left _ _
    refine ⟨List.Pairwise.sublist hsub ?_, fun q hq number hnumber => ?_⟩
    · rw [pairwise_append]
      refine ⟨h.rising, pairwise_singleton _ _, fun number hnumber made hmade => ?_⟩
      rw [List.mem_singleton.1 hmade]
      exact hbelow number hnumber
    · obtain rfl : (first.make sequence).2 = q := Option.some.inj hq
      exact hall number (hsub.subset hnumber)
  · refine ⟨h.rising, fun q hq => h.nearest q ?_⟩
    rw [hs]
    exact hq

theorem rising_insert {k more : Nat} {p : Producer} (h : s.Rising) (hp : s.producers[k]? = some p)
    (hsettled : s.Settled (.insert k more)) : Rising { s with
      producers := s.producers.take k ++
        { Producer.new with numbers := .continueSequenceAfter .new p.numbers.lastSequence } ::
          List.replicate more .new ++ s.producers.drop k } := by
  refine h.setProducers fun q hq number hnumber => ?_
  rcases k with _ | k
  · obtain rfl := Option.some.inj hq
    have hhead : p ∈ s.producers.head? := by rw [List.head?_eq_getElem?, hp]; rfl
    exact Producer.above_continue (p := Producer.new) (h.nearest p hhead number hnumber) (hsettled p hhead)
  · rw [append_assoc] at hq
    refine h.nearest q (mem_head?_take_append (Nat.succ_ne_zero k) hq ?_) number hnumber
    rintro hnil
    rw [hnil] at hp
    cases hp

theorem rising_remove {k : Nat} {own up : Producer} (h : s.Rising) (hown : s.producers[k]? = some own)
    (hsettled : s.Settled (.remove k)) : Rising { s with
      producers := s.producers.take k ++
        { up with numbers := up.numbers.continueSequenceAfter own.numbers.lastSequence } ::
          s.producers.drop (k + 2) } := by
  refine h.setProducers fun q hq number hnumber => ?_
  rcases k with _ | k
  · obtain rfl := Option.some.inj hq
    have hhead : own ∈ s.producers.head? := by rw [List.head?_eq_getElem?, hown]; rfl
    exact Producer.above_continue (h.nearest own hhead number hnumber) (hsettled own hhead)
  · refine h.nearest q (mem_head?_take_append (Nat.succ_ne_zero k) hq ?_) number hnumber
    rintro hnil
    rw [hnil] at hown
    cases hown

theorem rising_replaceSource {held : Option Nat} {source : Producer} (h : s.Rising)
    (hsource : s.producers.getLast? = some source)
    (habove : (s.producers = [source]) → ∀ number, source.Above number → (source.replaced held).Above number) :
    Rising { s with producers := s.producers.dropLast ++ [source.replaced held] } := by
  refine h.setProducers fun q hq number hnumber => ?_
  obtain ⟨above, hs⟩ := List.getLast?_eq_some_iff.1 hsource
  rw [hs, dropLast_concat] at hq
  rcases above with _ | ⟨first, rest⟩
  · obtain rfl := Option.some.inj hq
    refine habove hs number (h.nearest source ?_ number hnumber)
    rw [hs]
    rfl
  · refine h.nearest q ?_ number hnumber
    rw [hs]
    exact hq

/-- A step keeps the numbers rising, when the frame it makes is far below and nothing is copied from an
endpoint that is behind. -/
theorem rising_step (h : s.Rising) (hw : s.Within M t) (hseq : ∀ sequence ∈ event.sequence?, sequence < M)
    (hfar : (t + 2) * M ≤ 2 ^ 64) (hsettled : s.Settled event) (hstep : s.step event = some s') :
    s'.Rising ∧ s'.Within M (t + 1) := by
  have hmono : ∀ p ∈ s.producers, p.numbers.Within M (t + 1) := fun p hp => (hw p hp).mono
  cases event with
  | frame k sequence taken =>
    obtain ⟨p, hp, hstep⟩ := Option.bind_eq_some_iff.1 hstep
    by_cases hnext : p.MakesNext sequence
    · rw [if_pos hnext] at hstep
      obtain rfl := Option.some.inj hstep
      refine ⟨rising_frame h hw hp (hseq sequence rfl) hnext hfar, fun q hq => ?_⟩
      rcases mem_or_eq_of_mem_set hq with hq | rfl
      · exact hmono q hq
      · exact (Producer.make_spec (hw p (mem_of_getElem? hp)) (hseq sequence rfl) hfar hnext).1
    · rw [if_neg hnext] at hstep
      cases hstep
  | recv =>
    rcases hqueue : s.queue with _ | ⟨number, queue⟩
    · simp [step, hqueue] at hstep
    · obtain rfl : { s with queue, received := s.received ++ [number] } = s' := by
        simpa [step, hqueue] using hstep
      refine ⟨h.sublist ?_, hmono⟩
      unfold numbers
      rw [hqueue, append_assoc, singleton_append]
  | evict =>
    obtain rfl := Option.some.inj hstep
    exact ⟨h.sublist (s.queue.tail_sublist.append_left s.received), hmono⟩
  | replaceSink =>
    obtain rfl := Option.some.inj hstep
    exact ⟨h.sublist ((nil_sublist s.queue).append_left s.received), hmono⟩
  | insert k more =>
    obtain ⟨p, hp, hstep⟩ := Option.bind_eq_some_iff.1 hstep
    obtain rfl := Option.some.inj hstep
    refine ⟨rising_insert h hp hsettled, fun q hq => ?_⟩
    rcases List.mem_append.1 hq with hq | hq
    · rcases List.mem_append.1 hq with hq | hq
      · exact hmono q (mem_of_mem_take hq)
      · rcases List.mem_cons.1 hq with rfl | hq
        · exact EndpointNumbers.within_new.continueSequenceAfter (hmono p (mem_of_getElem? hp))
        · rw [eq_of_mem_replicate hq]
          exact EndpointNumbers.within_new
    · exact hmono q (mem_of_mem_drop hq)
  | remove k =>
    obtain ⟨own, hown, hstep⟩ := Option.bind_eq_some_iff.1 hstep
    obtain ⟨up, hup, hstep⟩ := Option.bind_eq_some_iff.1 hstep
    obtain rfl := Option.some.inj hstep
    refine ⟨rising_remove h hown hsettled, fun q hq => ?_⟩
    rcases List.mem_append.1 hq with hq | hq
    · exact hmono q (mem_of_mem_take hq)
    · rcases List.mem_cons.1 hq with rfl | hq
      · exact (hmono up (mem_of_getElem? hup)).continueSequenceAfter (hmono own (mem_of_getElem? hown))
      · exact hmono q (mem_of_mem_drop hq)
  | replaceSource held =>
    obtain ⟨source, hsource, hstep⟩ := Option.bind_eq_some_iff.1 hstep
    by_cases hnext : ∀ sequence ∈ held, source.MakesNext sequence
    · rw [if_pos hnext] at hstep
      obtain rfl := Option.some.inj hstep
      have hwithin := hw source (mem_of_getLast? hsource)
      have hheld : ∀ sequence ∈ held, sequence < M ∧ source.MakesNext sequence := fun sequence hmem =>
        ⟨hseq sequence hmem, hnext sequence hmem⟩
      obtain ⟨hreplaced, habove⟩ := Producer.replaced_spec hwithin hfar hheld
      refine ⟨rising_replaceSource h hsource fun hs => habove fun hnone => ?_, fun q hq => ?_⟩
      · subst hnone
        exact hsettled source hs
      · rcases List.mem_append.1 hq with hq | hq
        · exact hmono q (s.producers.dropLast_sublist.subset hq)
        · rw [List.mem_singleton.1 hq]
          exact hreplaced
    · rw [if_neg hnext] at hstep
      cases hstep

theorem rising_run {events : List Event} (h : s.Rising) (hw : s.Within M t)
    (hseq : ∀ event ∈ events, ∀ sequence ∈ event.sequence?, sequence < M)
    (hfar : (t + events.length + 1) * M ≤ 2 ^ 64) (hsettled : Machine.Along step Settled s events)
    (hrun : Machine.run step s events = some s') : s'.Rising := by
  induction events generalizing s t with
  | nil =>
    obtain rfl := Option.some.inj hrun
    exact h
  | cons event events ih =>
    obtain ⟨mid, hmid, hrun⟩ := Machine.run_cons_eq_some.1 hrun
    obtain ⟨hfirst, hrest⟩ := Machine.along_cons hsettled hmid
    rw [length_cons] at hfar
    have hnow : (t + 2) * M ≤ 2 ^ 64 := Nat.le_trans (Nat.mul_le_mul_right M (by omega)) hfar
    obtain ⟨hrising, hwithin⟩ := rising_step h hw (hseq event mem_cons_self) hnow hfirst hmid
    refine ih hrising hwithin (fun e he => hseq e (mem_cons_of_mem event he)) ?_ hrest hrun
    rwa [show t + 1 + events.length + 1 = t + (events.length + 1) + 1 by omega]

/-- The consumer receives rising frame numbers over every run of frames and edits, when the producers number
their own frames far below `2 ^ 64` and no edit of its edge copies a number that is behind. -/
theorem sequence_runs {transforms : Nat} {events : List Event}
    (hrun : Machine.run step (new transforms) events = some s')
    (hseq : ∀ event ∈ events, ∀ sequence ∈ event.sequence?, sequence < M)
    (hfar : (events.length + 1) * M ≤ 2 ^ 64)
    (hsettled : Machine.Along step Settled (new transforms) events) : s'.received.Pairwise (· < ·) := by
  have hrising : s'.Rising := by
    refine rising_run (t := 0) (rising_new transforms) (within_new transforms) hseq ?_ hsettled hrun
    rwa [Nat.zero_add]
  exact hrising.rising.sublist (sublist_append_left s'.received s'.queue)

/-- Two frames, a splice, and a frame of the spliced element, which counts from zero. -/
theorem sequence_runs_splice : ∃ s', Machine.run step (new 0)
      [.frame 0 4 true, .frame 0 5 true, .insert 0 0, .frame 0 0 true, .recv, .recv, .recv] = some s' ∧
    s'.received = [4, 5, 6] ∧ s'.received.Pairwise (· < ·) := by
  have hsettled : Machine.Along step Settled (new 0)
      [.frame 0 4 true, .frame 0 5 true, .insert 0 0, .frame 0 0 true, .recv, .recv, .recv] := by
    refine Machine.Along.cons trivial fun s1 h1 => Machine.Along.cons trivial fun s2 h2 => ?_
    obtain rfl := Option.some.inj h1
    obtain rfl := Option.some.inj h2
    refine Machine.Along.cons ?_ fun s3 _ => ?_
    · intro p hp
      obtain rfl := Option.some.inj hp
      exact nofun
    · refine Machine.Along.cons trivial fun s4 _ => Machine.Along.cons trivial fun s5 _ => ?_
      exact Machine.Along.cons trivial fun s6 _ => Machine.Along.cons trivial fun s7 _ => Machine.along_nil
  exact ⟨_, rfl, rfl, sequence_runs (M := 6) rfl (by decide) (by decide) hsettled⟩

/-- A source is replaced, and the new one sends a frame. An element that is spliced in and taken out again
before a frame crosses it then makes the numbers go back. -/
theorem unused_splice_renumbers : ∃ s', Machine.run step (new 0)
      [.frame 0 0 true, .frame 0 1 true, .replaceSource none, .frame 0 0 true, .insert 0 0, .remove 0,
        .frame 0 1 true, .recv, .recv, .recv, .recv] = some s' ∧
    s'.received = [0, 1, 2, 1] ∧ ¬ s'.received.Pairwise (· < ·) :=
  ⟨_, rfl, rfl, by decide⟩

end Line

end Glass2Glass.Runtime
