import Glass2Glass.Lib.Cyclic
import Glass2Glass.Lib.Machine
import Mathlib.Data.List.Basic

/-!
# The capture ring

`SpscFrameRing` (`spsc.rs`): a ring of `N` slots between one producer, which fills a slot and publishes
it by storing `tail`, and one consumer, which borrows the oldest published slot and frees it by storing
`head`. Every load and store is an action of its own, so a cursor may be stale when it is used. The
consumer releases each borrow before the next. `ring_fifo` says, for every interleaving: frames arrive
in order, each once; no published or lent slot is overwritten; and a call fails only on a full ring.

The state carries, besides the ring and the two calls in progress, a record of what happened: the
frames published, the frames borrowed, and for each failed call how many frames were published when it
read `head`.
-/

namespace Glass2Glass.Spsc

open Machine

variable {α : Type}

inductive Producer (α : Type) where
  | idle
  | loadHead (fill : α → α) (tail : Nat)
  /-- The ring was full, with `seen` frames published; the counter is next. -/
  | loadOverruns (seen : Nat)
  /-- The counter is loaded, to be stored one higher. -/
  | storeOverruns (seen : Nat) (overruns : UInt32)
  /-- The slot was free; it is filled next. -/
  | fillSlot (fill : α → α) (tail next : Nat)
  /-- The slot holds the frame; it is published next. -/
  | storeTail (frame : α) (next : Nat)

inductive Consumer where
  /-- Not in a call, nothing borrowed. -/
  | idle
  /-- In `borrow`: `head` is loaded, `tail` is next. -/
  | borrowTail (head : Nat)
  /-- In `borrow`: the ring was not empty, the slot is lent next. -/
  | lend (head : Nat)
  /-- Not in a call, a slot is borrowed. -/
  | lent (slot : Nat)
  /-- In `release`: `head` is loaded, `tail` is next. -/
  | releaseTail (slot head : Nat)
  /-- In `release`: `head` is stored next. -/
  | storeHead (slot head : Nat)

/-- The ring, the calls in progress and the record. -/
structure State (α : Type) where
  slots : Nat → α
  /-- The oldest published slot. -/
  head : Nat
  /-- The slot to fill next. -/
  tail : Nat
  /-- Failed calls, as the ring counts them. -/
  overruns : UInt32
  producer : Producer α
  consumer : Consumer
  /-- The frames published so far. -/
  produced : List α
  /-- The frames borrowed so far. -/
  borrowed : List α
  /-- For each failed call, the frames published when it read `head`. -/
  failures : List Nat

/-- An empty ring. -/
def init (slots : Nat → α) : State α :=
  { slots, head := 0, tail := 0, overruns := 0, producer := .idle, consumer := .idle,
    produced := [], borrowed := [], failures := [] }

/-- The next index, back to zero at `N`. -/
def wrap (N i : Nat) : Nat := if i + 1 ≥ N then 0 else i + 1

variable (N : Nat) (s : State α)

/-- Number of published frames. -/
def State.published : Nat := (s.tail + N - s.head) % N

/-- The next load or store of the producer's call. -/
def producerStep : Option (State α) :=
  match s.producer with
  | .idle => none
  | .loadHead fill tail =>
    let next := wrap N tail
    if next = s.head then some { s with producer := .loadOverruns (s.published N) }
    else if tail < N then some { s with producer := .fillSlot fill tail next }
    -- A slot index out of range also fails, uncounted.
    else some { s with producer := .idle, failures := s.failures ++ [s.published N] }
  | .loadOverruns seen => some { s with producer := .storeOverruns seen s.overruns }
  | .storeOverruns seen overruns =>
    some { s with producer := .idle, overruns := overruns + 1, failures := s.failures ++ [seen] }
  | .fillSlot fill tail next =>
    let frame := fill (s.slots tail)
    some { s with slots := Function.update s.slots tail frame, producer := .storeTail frame next }
  | .storeTail frame next =>
    some { s with tail := next, producer := .idle, produced := s.produced ++ [frame] }

/-- The next load or store of the consumer's call. -/
def consumerStep : Option (State α) :=
  match s.consumer with
  | .idle | .lent _ => none
  | .borrowTail head =>
    if head = s.tail then some { s with consumer := .idle }
    else if head < N then some { s with consumer := .lend head }
    else some { s with consumer := .idle }
  | .lend head => some { s with consumer := .lent head, borrowed := s.borrowed ++ [s.slots head] }
  | .releaseTail slot head =>
    if head ≠ s.tail then some { s with consumer := .storeHead slot head }
    else some { s with consumer := .idle }
  | .storeHead _ head => some { s with head := wrap N head, consumer := .idle }

/-- An atomic action of one of the parties. -/
inductive Action (α : Type) where
  /-- The producer calls `produce` and loads `tail`. -/
  | produce (fill : α → α)
  /-- The producer goes on with its call. -/
  | producer
  /-- The consumer calls `borrow` and loads `head`. -/
  | borrow
  /-- The consumer calls `release` and loads `head`. -/
  | release
  /-- The consumer goes on with its call. -/
  | consumer

/-- One action; calls start only between calls, and the consumer releases what it borrowed before it
borrows again. -/
def step : Action α → Option (State α)
  | .produce fill =>
    match s.producer with
    | .idle => some { s with producer := .loadHead fill s.tail }
    | _ => none
  | .producer => producerStep N s
  | .borrow =>
    match s.consumer with
    | .idle => some { s with consumer := .borrowTail s.head }
    | _ => none
  | .release =>
    match s.consumer with
    | .lent slot => some { s with consumer := .releaseTail slot s.head }
    | _ => none
  | .consumer => consumerStep N s

/-! ## What the parties hold -/

def Consumer.slot? : Consumer → Option Nat
  | .idle | .borrowTail _ | .lend _ => none
  | .lent slot | .releaseTail slot _ | .storeHead slot _ => some slot

def Consumer.lentCount (c : Consumer) : Nat := c.slot?.toList.length

def Producer.slot? : Producer α → Option Nat
  | .fillSlot _ tail _ => some tail
  | _ => none

/-- The published slots, oldest first. -/
def State.publishedSlots : List Nat :=
  (List.range (s.published N)).map fun i => (s.head + i) % N

/-! ## The invariant -/

/-- What the producer knows in the middle of a call. -/
def ProducerOk (free : Prop) : Producer α → Prop
  | .idle => True
  | .loadHead _ tail => tail = s.tail
  | .loadOverruns seen => seen = N - 1
  | .storeOverruns seen overruns => seen = N - 1 ∧ overruns = s.overruns
  | .fillSlot _ tail next => tail = s.tail ∧ next = wrap N tail ∧ free
  | .storeTail frame next => frame = s.slots s.tail ∧ next = wrap N s.tail ∧ free

/-- What the consumer knows in the middle of a call. -/
def ConsumerOk (s : State α) (nonempty : Prop) : Consumer → Prop
  | .idle => True
  | .borrowTail head => head = s.head
  | .lend head => head = s.head ∧ nonempty
  | .lent slot => slot = s.head ∧ nonempty
  | .releaseTail slot head | .storeHead slot head => slot = s.head ∧ head = s.head ∧ nonempty

theorem consumerOk_mono {s s' : State α} {p q : Prop} {c : Consumer} (hpq : p → q)
    (hhead : s'.head = s.head) (h : ConsumerOk s p c) : ConsumerOk s' q c := by
  unfold ConsumerOk at h ⊢
  rw [hhead]
  cases c with
  | idle | borrowTail => exact h
  | lend | lent => exact ⟨h.1, hpq h.2⟩
  | releaseTail | storeHead => exact ⟨h.1, h.2.1, hpq h.2.2⟩

/-- Of the frames published, the first `released` are consumed, and the others stand in the slots from
`head` on. -/
structure Inv (released : Nat) : Prop where
  head : s.head = released % N
  tail : s.tail = s.produced.length % N
  le : released ≤ s.produced.length
  room : s.produced.length < released + N
  slots : ∀ k, released ≤ k → k < s.produced.length → s.produced[k]? = some (s.slots (k % N))
  borrowed : s.borrowed = s.produced.take (released + s.consumer.lentCount)
  lent : released + s.consumer.lentCount ≤ s.produced.length
  failures : ∀ seen ∈ s.failures, seen = N - 1
  overruns : s.overruns.toNat = s.failures.length % 2 ^ 32
  producer : ProducerOk N s (s.produced.length + 1 < released + N) s.producer
  consumer : ConsumerOk s (released < s.produced.length) s.consumer

variable {N released : Nat} {s s' : State α}

theorem inv_init (hN : 2 ≤ N) (slots : Nat → α) : Inv N (init slots) 0 where
  head := (Nat.zero_mod N).symm
  tail := (Nat.zero_mod N).symm
  le := le_rfl
  room := by
    show 0 < 0 + N
    omega
  slots _ _ h := absurd h (Nat.not_lt_zero _)
  borrowed := rfl
  lent := le_rfl
  failures _ h := absurd h List.not_mem_nil
  overruns := rfl
  producer := trivial
  consumer := trivial

theorem wrap_mod (hN : 2 ≤ N) (k : Nat) : wrap N (k % N) = (k + 1) % N := by
  have hlt := Nat.mod_lt k (by omega : 0 < N)
  have hadd : (k % N + 1) % N = (k + 1) % N := Nat.mod_add_mod k N 1
  unfold wrap
  split_ifs with hge
  · have heq : k % N + 1 = N := by omega
    rw [← hadd, heq, Nat.mod_self]
  · have hlt' : k % N + 1 < N := by omega
    rw [← hadd, Nat.mod_eq_of_lt hlt']

theorem Inv.published_eq (h : Inv N s released) : s.published N = s.produced.length - released := by
  unfold State.published
  rw [h.head, h.tail]
  exact Cyclic.sub_eq_of_mod h.le h.room

theorem Inv.wrap_eq_head_iff (h : Inv N s released) (hN : 2 ≤ N) :
    wrap N s.tail = s.head ↔ s.produced.length + 1 = released + N := by
  have hle := h.le
  have hroom := h.room
  rw [h.tail, wrap_mod hN, h.head]
  constructor
  · intro hmod
    by_contra hne
    have := Cyclic.eq_of_mod_eq (c := released) (by omega) (by omega) le_rfl (by omega) hmod
    omega
  · intro heq
    rw [heq, Nat.add_mod_right]

theorem Inv.tail_ne (h : Inv N s released) {k : Nat} (hk : released ≤ k)
    (hk' : k < s.produced.length) : k % N ≠ s.tail := by
  have hroom := h.room
  rw [h.tail]
  intro hmod
  have := Cyclic.eq_of_mod_eq (c := released) hk (by omega) h.le hroom hmod
  omega

/-- The producer's loads and stores keep the invariant. -/
theorem inv_producerStep (hN : 2 ≤ N) (h : Inv N s released) (hstep : producerStep N s = some s') :
    Inv N s' released := by
  have hp := h.producer
  unfold producerStep at hstep
  split at hstep
  · cases hstep
  · next fill tail heq =>
    rw [heq] at hp
    obtain rfl : tail = s.tail := hp
    have hfull := h.wrap_eq_head_iff hN
    have hlt : s.tail < N := by
      rw [h.tail]
      exact Nat.mod_lt _ (by omega)
    simp only [hlt, if_true] at hstep
    split_ifs at hstep with hnext
    · obtain rfl := Option.some.inj hstep
      refine { h with producer := ?_ }
      have := hfull.1 hnext
      show s.published N = N - 1
      rw [h.published_eq]
      omega
    · obtain rfl := Option.some.inj hstep
      have hroom := h.room
      have hfree : s.produced.length + 1 < released + N := by
        have := mt hfull.2 hnext
        omega
      exact { h with producer := ⟨rfl, rfl, hfree⟩ }
  · next seen heq =>
    rw [heq] at hp
    obtain rfl := Option.some.inj hstep
    exact { h with producer := ⟨hp, rfl⟩ }
  · next seen overruns heq =>
    rw [heq] at hp
    obtain ⟨hseen, rfl⟩ := hp
    obtain rfl := Option.some.inj hstep
    refine { h with producer := trivial, failures := ?_, overruns := ?_ }
    · intro n hn
      rcases List.mem_append.1 hn with hn | hn
      · exact h.failures n hn
      · rw [List.mem_singleton.1 hn, hseen]
    · rw [UInt32.toNat_add, h.overruns, List.length_append, Nat.mod_add_mod]
      rfl
  · next fill tail next heq =>
    rw [heq] at hp
    obtain ⟨rfl, rfl, hfree⟩ := hp
    obtain rfl := Option.some.inj hstep
    refine { h with producer := ⟨?_, rfl, hfree⟩, slots := ?_ }
    · intro k hk hk'
      dsimp only
      rw [Function.update_of_ne (h.tail_ne hk hk')]
      exact h.slots k hk hk'
    · exact (Function.update_self s.tail (fill (s.slots s.tail)) s.slots).symm
  · next frame next heq =>
    rw [heq] at hp
    obtain ⟨rfl, rfl, hfree⟩ := hp
    obtain rfl := Option.some.inj hstep
    have hle := h.le
    have hlent := h.lent
    refine { h with tail := ?_, le := ?_, room := ?_, slots := ?_, borrowed := ?_, lent := ?_,
                    producer := trivial, consumer := ?_ } <;> dsimp only
    · rw [h.tail, wrap_mod hN, List.length_append]
      rfl
    · rw [List.length_append]
      omega
    · rw [List.length_append, List.length_singleton]
      omega
    · intro k hk hk'
      rw [List.length_append, List.length_singleton] at hk'
      rcases Nat.lt_succ_iff_lt_or_eq.1 hk' with hk' | rfl
      · rw [List.getElem?_append_left hk']
        exact h.slots k hk hk'
      · rw [List.getElem?_concat_length, ← h.tail]
    · rw [List.take_append_of_le_length hlent]
      exact h.borrowed
    · rw [List.length_append]
      omega
    · have hmore : released < s.produced.length → released < (s.produced ++ [s.slots s.tail]).length := by
        rw [List.length_append]
        omega
      exact consumerOk_mono hmore rfl h.consumer

theorem producerOk_mono {s s' : State α} {p q : Prop} {c : Producer α} (hpq : p → q)
    (htail : s'.tail = s.tail) (hslots : s'.slots = s.slots) (hover : s'.overruns = s.overruns)
    (h : ProducerOk N s p c) : ProducerOk N s' q c := by
  unfold ProducerOk at h ⊢
  rw [htail, hslots, hover]
  cases c with
  | idle | loadHead | loadOverruns | storeOverruns => exact h
  | fillSlot | storeTail => exact ⟨h.1, h.2.1, hpq h.2.2⟩

theorem Inv.setConsumer (h : Inv N s released) {c : Consumer} (hcount : c.lentCount = s.consumer.lentCount)
    (hc : ConsumerOk s (released < s.produced.length) c) : Inv N { s with consumer := c } released :=
  { h with
    borrowed := by
      rw [hcount]
      exact h.borrowed
    lent := by
      rw [hcount]
      exact h.lent
    consumer := consumerOk_mono id rfl hc }

/-- The consumer's loads and stores keep the invariant. -/
theorem inv_consumerStep (hN : 2 ≤ N) (h : Inv N s released) (hstep : consumerStep N s = some s') :
    ∃ released', Inv N s' released' := by
  have hc := h.consumer
  unfold consumerStep at hstep
  split at hstep
  · cases hstep
  · cases hstep
  · next head heq =>
    rw [heq] at hc
    obtain rfl : head = s.head := hc
    have hlt : s.head < N := by
      rw [h.head]
      exact Nat.mod_lt _ (by omega)
    have hcount : s.consumer.lentCount = 0 := by
      rw [heq]
      rfl
    split_ifs at hstep with hempty
    · obtain rfl := Option.some.inj hstep
      exact ⟨released, h.setConsumer hcount.symm trivial⟩
    · obtain rfl := Option.some.inj hstep
      refine ⟨released, h.setConsumer hcount.symm ⟨rfl, lt_of_le_of_ne h.le ?_⟩⟩
      -- With nothing published, `head` and `tail` would agree.
      intro hall
      rw [h.head, h.tail, hall] at hempty
      exact hempty rfl
  · next head heq =>
    rw [heq] at hc
    obtain ⟨rfl, hne⟩ := hc
    obtain rfl := Option.some.inj hstep
    have hcount : s.consumer.lentCount = 0 := by
      rw [heq]
      rfl
    have hfirst := h.slots released le_rfl hne
    have hborrowed := h.borrowed
    rw [hcount, Nat.add_zero] at hborrowed
    refine ⟨released, { h with borrowed := ?_, lent := hne, consumer := ⟨rfl, hne⟩ }⟩
    show s.borrowed ++ [s.slots s.head] = s.produced.take (released + 1)
    rw [List.take_add_one, hfirst, hborrowed, h.head]
    rfl
  · next slot head heq =>
    rw [heq] at hc
    obtain ⟨rfl, rfl, hne⟩ := hc
    have hcount : s.consumer.lentCount = 1 := by
      rw [heq]
      rfl
    have htail : s.head ≠ s.tail := by
      rw [h.head]
      exact h.tail_ne le_rfl hne
    rw [if_pos htail] at hstep
    obtain rfl := Option.some.inj hstep
    exact ⟨released, h.setConsumer hcount.symm ⟨rfl, rfl, hne⟩⟩
  · next slot head heq =>
    rw [heq] at hc
    obtain ⟨rfl, rfl, hne⟩ := hc
    have hcount : s.consumer.lentCount = 1 := by
      rw [heq]
      rfl
    obtain rfl := Option.some.inj hstep
    have hroom := h.room
    have hborrowed := h.borrowed
    rw [hcount] at hborrowed
    refine ⟨released + 1, { h with head := ?_, le := hne, room := ?_, slots := ?_,
                                   borrowed := hborrowed, lent := hne, producer := ?_,
                                   consumer := trivial }⟩
    · show wrap N s.head = (released + 1) % N
      rw [h.head, wrap_mod hN]
    · dsimp only
      omega
    · intro k hk hk'
      exact h.slots k (by omega) hk'
    · refine producerOk_mono ?_ rfl rfl rfl h.producer
      intro hfree
      dsimp only
      omega

theorem inv_step (hN : 2 ≤ N) {a : Action α} (h : Inv N s released) (hstep : step N s a = some s') :
    ∃ released', Inv N s' released' := by
  cases a with
  | produce fill =>
    simp only [step] at hstep
    split at hstep
    · obtain rfl := Option.some.inj hstep
      exact ⟨released, { h with producer := rfl }⟩
    · cases hstep
  | producer => exact ⟨released, inv_producerStep hN h hstep⟩
  | borrow =>
    simp only [step] at hstep
    split at hstep
    · next heq =>
      obtain rfl := Option.some.inj hstep
      refine ⟨released, h.setConsumer ?_ rfl⟩
      rw [heq]
      rfl
    · cases hstep
  | release =>
    have hc := h.consumer
    simp only [step] at hstep
    split at hstep
    · next slot heq =>
      rw [heq] at hc
      obtain rfl := Option.some.inj hstep
      refine ⟨released, h.setConsumer ?_ ⟨hc.1, rfl, hc.2⟩⟩
      rw [heq]
      rfl
    · cases hstep
  | consumer => exact inv_consumerStep hN h hstep

theorem Inv.map_publishedSlots (h : Inv N s released) :
    (s.publishedSlots N).map s.slots = s.produced.drop released := by
  have hle := h.le
  unfold State.publishedSlots
  rw [h.published_eq]
  refine List.ext_getElem? fun i => ?_
  rw [List.getElem?_drop, List.map_map, List.getElem?_map]
  rcases Nat.lt_or_ge i (s.produced.length - released) with hi | hi
  · rw [List.getElem?_range hi, h.slots _ (by omega) (by omega), h.head]
    simp
  · rw [List.getElem?_eq_none (by simpa using hi), List.getElem?_eq_none (by omega)]
    rfl

theorem Inv.mem_publishedSlots (h : Inv N s released) {slot : Nat} :
    slot ∈ s.publishedSlots N ↔ ∃ k, released ≤ k ∧ k < s.produced.length ∧ k % N = slot := by
  have hle := h.le
  unfold State.publishedSlots
  rw [h.published_eq, h.head]
  simp only [List.mem_map, List.mem_range, Nat.mod_add_mod]
  constructor
  · rintro ⟨i, hi, rfl⟩
    exact ⟨released + i, by omega, by omega, rfl⟩
  · rintro ⟨k, hk, hk', rfl⟩
    exact ⟨k - released, by omega, by rw [Nat.add_sub_cancel' hk]⟩

theorem Inv.lent_slot (h : Inv N s released) {slot : Nat} (hslot : s.consumer.slot? = some slot) :
    slot = released % N ∧ released < s.produced.length ∧ s.consumer.lentCount = 1 := by
  have hc := h.consumer
  rw [← h.head]
  rcases hcons : s.consumer with _ | _ | _ | _ | _ | _ <;> rw [hcons] at hslot hc <;>
    simp only [Consumer.slot?, Option.some.injEq, reduceCtorEq] at hslot
  · exact ⟨hslot.symm.trans hc.1, hc.2, rfl⟩
  · exact ⟨hslot.symm.trans hc.1, hc.2.2, rfl⟩
  · exact ⟨hslot.symm.trans hc.1, hc.2.2, rfl⟩

theorem Inv.fill_slot (h : Inv N s released) {slot : Nat} (hslot : s.producer.slot? = some slot) : slot = s.tail := by
  have hp := h.producer
  rcases hprod : s.producer with _ | _ | _ | _ | _ | _ <;> rw [hprod] at hslot hp <;>
    simp only [Producer.slot?, Option.some.injEq, reduceCtorEq] at hslot
  exact hslot.symm.trans hp.1

/-- Every interleaving of the producer with a consumer that releases each borrow before the next. The
frames borrowed are the frames published, in order, each once, up to those still published and not
lent; the slot being filled is neither published nor lent, and what is lent stays as it was borrowed;
the cursors stay in range with at most `N - 1` frames published; every failed call found the ring full,
and the counter counts them modulo `2 ^ 32`. -/
theorem ring_fifo (hN : 2 ≤ N) (slots : Nat → α) {actions : List (Action α)}
    (hrun : run (step N) (init slots) actions = some s) :
    s.produced = s.borrowed ++ ((s.publishedSlots N).map s.slots).drop s.consumer.lentCount ∧
    (∀ slot, s.producer.slot? = some slot → slot ∉ s.publishedSlots N ∧ s.consumer.slot? ≠ some slot) ∧
    (∀ slot, s.consumer.slot? = some slot → slot ∈ s.publishedSlots N ∧ s.borrowed.getLast? = some (s.slots slot)) ∧
    s.head < N ∧ s.tail < N ∧ s.published N ≤ N - 1 ∧
    (∀ seen ∈ s.failures, seen = N - 1) ∧ s.overruns.toNat = s.failures.length % 2 ^ 32 := by
  have hinv : ∃ released, Inv N s released :=
    run_keeps (P := fun s => ∃ released, Inv N s released)
      (fun _ _ _ _ ⟨_, h⟩ hstep => inv_step hN h hstep) hrun ⟨0, inv_init hN slots⟩
  obtain ⟨released, h⟩ := hinv
  have hpos : 0 < N := by omega
  have hroom := h.room
  refine ⟨?_, fun slot hslot => ?_, fun slot hslot => ?_, ?_, ?_, ?_, h.failures, h.overruns⟩
  · rw [h.map_publishedSlots, List.drop_drop, h.borrowed, List.take_append_drop]
  · rw [h.fill_slot hslot]
    refine ⟨fun hmem => ?_, fun hlent => ?_⟩
    · obtain ⟨k, hk, hk', hmod⟩ := h.mem_publishedSlots.1 hmem
      exact h.tail_ne hk hk' hmod
    · obtain ⟨htail, hne, -⟩ := h.lent_slot hlent
      exact h.tail_ne le_rfl hne htail.symm
  · obtain ⟨rfl, hne, hcount⟩ := h.lent_slot hslot
    refine ⟨h.mem_publishedSlots.2 ⟨released, le_rfl, hne, rfl⟩, ?_⟩
    -- The last frame borrowed is the first one not released.
    rw [h.borrowed, hcount, List.take_add_one, h.slots released le_rfl hne, Option.toList_some,
      List.getLast?_concat]
  · rw [h.head]
    exact Nat.mod_lt _ hpos
  · rw [h.tail]
    exact Nat.mod_lt _ hpos
  · rw [h.published_eq]
    omega

/-- Three calls on a ring of two slots, the second while the first frame is lent. -/
def twoSlotRun : List (Action Nat) :=
  [.produce fun _ => 7, .producer, .producer, .producer, .borrow, .consumer, .consumer,
    .produce fun _ => 8, .producer, .producer, .producer, .release, .consumer, .consumer,
    .produce fun _ => 9, .producer, .producer, .producer]

/-- The second call fails, the third frame is still to be borrowed. -/
theorem ring_fifo_two : ∃ s, run (step 2) (init fun _ => 0) twoSlotRun = some s ∧ s.borrowed = [7] ∧ s.failures = [1] ∧
      s.produced = s.borrowed ++ ((s.publishedSlots 2).map s.slots).drop s.consumer.lentCount := by
  obtain ⟨s, hs⟩ : ∃ s, run (step 2) (init fun _ => 0) twoSlotRun = some s := ⟨_, rfl⟩
  have hrecord : (run (step 2) (init fun _ => 0) twoSlotRun).map
      (fun s => (s.borrowed, s.failures)) = some ([7], [1]) := rfl
  rw [hs, Option.map_some, Option.some.injEq, Prod.mk.injEq] at hrecord
  exact ⟨s, hs, hrecord.1, hrecord.2, (ring_fifo (le_refl 2) (fun _ => 0) hs).1⟩

end Glass2Glass.Spsc
