import Glass2Glass.Srt.Delivery

/-!
# The schedule of deliveries is exact

Timestamps wrap after 32 bits, and the anchor of the schedule moves to every packet that is taken, so that times since
the first packet are not to be read off. What stays is the difference of an anchor's two times, up to whole periods.
With it, the delivery time is the one of its class that is nearest to the local time (`deliveryAt_spec`), and so the
true one whenever that is less than half a period away (`Clock.schedule_exact`). Times are whole microseconds, without
the bounds of 64-bit integers, which local times do not reach.
-/

namespace Glass2Glass.Srt

open List

theorem asSigned_emod (v : Nat) : asSigned 32 v % 2 ^ 32 = v % 2 ^ 32 := by
  unfold asSigned
  split_ifs <;> omega

theorem TsbpdAnchor.deliveryAt_spec (a : TsbpdAnchor) {timestamp : Nat} (ha : a.timestamp < 2 ^ 32)
    (htimestamp : timestamp < 2 ^ 32) (nowUs : Int) :
    (a.deliveryAt timestamp nowUs - timestamp) % 2 ^ 32 = (a.deliveryUs - a.timestamp) % 2 ^ 32 ∧
      -2 ^ 31 ≤ nowUs - a.deliveryAt timestamp nowUs ∧ nowUs - a.deliveryAt timestamp nowUs < 2 ^ 31 := by
  have hwrapped := asSigned_emod (timestamp + 2 ^ 32 - a.timestamp)
  unfold deliveryAt
  dsimp only
  generalize asSigned 32 (timestamp + 2 ^ 32 - a.timestamp) = wrappedUs at *
  omega

namespace SrtReceiver

variable {r r' : SrtReceiver} {pkt : DataPacket} {seq timestamp : Nat} {origin : TsbpdAnchor}

/-! ## What arrives does not move the schedule -/

structure SameSchedule (r r' : SrtReceiver) : Prop where
  anchor : r'.tsbpdAnchor = r.tsbpdAnchor
  drift : r'.tsbpdDrift = r.tsbpdDrift

theorem SameSchedule.refl (r : SrtReceiver) : SameSchedule r r := ⟨rfl, rfl⟩

theorem SameSchedule.trans {r'' : SrtReceiver} (h : SameSchedule r r') (h' : SameSchedule r' r'') : SameSchedule r r'' :=
  ⟨h'.anchor.trans h.anchor, h'.drift.trans h.drift⟩

theorem sameSchedule_withBase (r : SrtReceiver) (seq : Nat) : SameSchedule r (r.withBase seq) := by
  unfold withBase
  split_ifs
  · exact .refl r
  · exact ⟨rfl, rfl⟩

theorem sameSchedule_noteArrival (r : SrtReceiver) (pkt : DataPacket) : SameSchedule r (r.noteArrival pkt) := by
  have hraised : SameSchedule r (r.raiseTolerance pkt.seq pkt.retransmit) := by
    unfold raiseTolerance
    split_ifs
    · exact ⟨rfl, rfl⟩
    · exact .refl r
  have hcounted (q : SrtReceiver) (raised : Bool) (left : Option Nat) : SameSchedule q (q.countReordered raised left) := by
    unfold countReordered
    dsimp only
    split_ifs <;> exact ⟨rfl, rfl⟩
  unfold noteArrival onLatePacket
  dsimp only
  split_ifs
  · exact ⟨rfl, rfl⟩
  · exact hraised
  · exact hraised.trans ⟨rfl, rfl⟩
  · refine SameSchedule.trans ?_ (hcounted _ _ _)
    exact hraised.trans ⟨rfl, rfl⟩

theorem sameSchedule_reportGap (r : SrtReceiver) (tolerance : Nat) (gap : Option (Nat × Nat)) :
    SameSchedule r (r.reportGap tolerance gap).1 := by
  cases gap with
  | none => exact .refl r
  | some gap =>
    unfold reportGap
    split_ifs
    · exact .refl r
    · exact ⟨rfl, rfl⟩

theorem sameSchedule_reportHeld (r : SrtReceiver) (tolerance : Nat) : SameSchedule r (r.reportHeld tolerance).1 := by
  unfold reportHeld
  split_ifs
  · exact ⟨rfl, rfl⟩
  · exact .refl r

theorem sameSchedule_countOrderedPacket (r : SrtReceiver) : SameSchedule r r.countOrderedPacket := by
  unfold countOrderedPacket
  split_ifs <;> exact ⟨rfl, rfl⟩

theorem sameSchedule_store (r : SrtReceiver) (pkt : DataPacket) : SameSchedule r (r.store pkt) := ⟨rfl, rfl⟩

theorem sameSchedule_onData (r : SrtReceiver) (pkt : DataPacket) : SameSchedule r (r.onData pkt).1 := by
  have hbase := sameSchedule_withBase r pkt.seq
  have hnoted := hbase.trans (sameSchedule_noteArrival _ pkt)
  rcases onData_cases rfl with ⟨-, hdata⟩ | ⟨-, -, -, hdata⟩ | ⟨-, -, reported, held, rfl, rfl, hstate, -⟩
  · exact hdata ▸ hbase
  · exact hdata ▸ hnoted
  · have hstored := hnoted.trans (sameSchedule_store _ pkt)
    have hreported := hstored.trans (sameSchedule_reportGap _ (r.withBase pkt.seq).reorderTolerance
      ((r.withBase pkt.seq).gapBefore pkt.seq))
    have hheld := hreported.trans (sameSchedule_reportHeld _ (r.withBase pkt.seq).reorderTolerance)
    rcases hstate with hstate | hstate
    · exact hstate ▸ hheld
    · exact hstate ▸ hheld.trans (sameSchedule_countOrderedPacket _)

/-! ## The packets that are considered -/

/-- A packet that is looked at for delivery, with the delivery time that is used. -/
structure Considered where
  seq : Nat
  timestamp : Nat
  deliveryUs : Int

/-- The packets that `takeDue` looks at: the ones that it takes, and the one at which it stops. -/
def considered (latency : Nat) (nowUs : Int) : Nat → SrtReceiver → List Considered
  | 0, _ => []
  | fuel + 1, r =>
    match r.firstPending with
    | none => []
    | some (seq, _, timestamp) =>
      let anchor := r.tsbpdAnchor.getD { timestamp, deliveryUs := nowUs + latency }
      let deliveryUs := anchor.deliveryAt timestamp nowUs
      let rest := if nowUs < deliveryUs + r.tsbpdDrift.driftUs then [] else
        considered latency nowUs fuel { r with
            pending := r.pending.erase seq
            nextDeliver := seqNext seq
            tsbpdAnchor := some { timestamp, deliveryUs } }
      { seq, timestamp, deliveryUs } :: rest

/-- The packets that a call looks at. -/
def consideredAt (r : SrtReceiver) (nowUs : Nat) : List Considered :=
  match r.tsbpdLatencyUs with
  | none => []
  | some latency => considered latency (asSigned 64 nowUs) (r.pending.size + 1) r

/-- The anchor that a call sets if there is none. -/
def anchorFor (r : SrtReceiver) (nowUs : Nat) : Option TsbpdAnchor :=
  match r.tsbpdLatencyUs, r.firstPending with
  | some latency, some (_, _, timestamp) => some { timestamp, deliveryUs := asSigned 64 nowUs + latency }
  | _, _ => none

theorem mem_of_firstPending {e : Nat × List UInt8 × Nat} (h : r.firstPending = some e) : e ∈ r.pending.entries := by
  unfold firstPending at h
  cases hfind : r.pending.entries.find? (fun e => r.nextDeliver ≤ e.1) with
  | none =>
    rw [hfind] at h
    exact SortedMap.mem_of_first? h
  | some found =>
    rw [hfind] at h
    cases h
    exact List.mem_of_find?_eq_some hfind

/-- The delivery time of a timestamp, as the packet that set the anchor has it, up to whole periods. -/
def OnSchedule (origin : TsbpdAnchor) (timestamp : Nat) (deliveryUs : Int) : Prop :=
  timestamp < 2 ^ 32 ∧ (deliveryUs - timestamp) % 2 ^ 32 = (origin.deliveryUs - origin.timestamp) % 2 ^ 32

/-- A receiver whose anchor is on the schedule of the packet that set it, and whose clocks did not drift. -/
structure Anchored (origin : TsbpdAnchor) (r : SrtReceiver) : Prop where
  drift : r.tsbpdDrift.driftUs = 0
  anchor : ∃ a, r.tsbpdAnchor = some a ∧ OnSchedule origin a.timestamp a.deliveryUs
  pending : ∀ e ∈ r.pending.entries, e.2.2 < 2 ^ 32

variable {latency fuel : Nat} {nowUs : Int}

theorem anchored_round (h : Anchored origin r) {payload : List UInt8}
    (hfirst : r.firstPending = some (seq, payload, timestamp)) (nowUs : Int) :
    ∃ a deliveryUs, r.tsbpdAnchor = some a ∧ a.deliveryAt timestamp nowUs = deliveryUs ∧
      OnSchedule origin timestamp deliveryUs ∧ (-2 ^ 31 ≤ nowUs - deliveryUs ∧ nowUs - deliveryUs < 2 ^ 31) ∧
      Anchored origin { r with
        pending := r.pending.erase seq, nextDeliver := seqNext seq, tsbpdAnchor := some { timestamp, deliveryUs } } := by
  obtain ⟨a, hanchor, ha, hschedule⟩ := h.anchor
  have htimestamp : timestamp < 2 ^ 32 := h.pending _ (mem_of_firstPending hfirst)
  obtain ⟨hsame, hnear⟩ := a.deliveryAt_spec ha htimestamp nowUs
  have hon : OnSchedule origin timestamp (a.deliveryAt timestamp nowUs) := ⟨htimestamp, hsame.trans hschedule⟩
  exact ⟨a, _, hanchor, rfl, hon, hnear, h.drift, ⟨_, rfl, hon⟩, fun e he => h.pending e (SortedMap.mem_erase.1 he).2⟩

theorem anchored_takeDue (h : Anchored origin r) : Anchored origin (takeDue latency nowUs fuel r).1 := by
  induction fuel generalizing r with
  | zero => exact h
  | succ fuel ih =>
    unfold takeDue
    cases hfirst : r.firstPending with
    | none => exact h
    | some e =>
      obtain ⟨seq, payload, timestamp⟩ := e
      obtain ⟨a, deliveryUs, hanchor, hdelivery, -, -, hnext⟩ := anchored_round h hfirst nowUs
      dsimp only
      rw [hanchor, Option.getD_some, hdelivery]
      split_ifs
      · exact ⟨h.drift, ⟨a, rfl, (hanchor ▸ h.anchor).elim fun b hb => Option.some.inj hb.1 ▸ hb.2⟩, h.pending⟩
      · exact ih hnext

theorem onSchedule_considered (h : Anchored origin r) {e : Considered} (he : e ∈ considered latency nowUs fuel r) :
    OnSchedule origin e.timestamp e.deliveryUs ∧ -2 ^ 31 ≤ nowUs - e.deliveryUs ∧ nowUs - e.deliveryUs < 2 ^ 31 := by
  induction fuel generalizing r with
  | zero => cases he
  | succ fuel ih =>
    unfold considered at he
    cases hfirst : r.firstPending with
    | none =>
      rw [hfirst] at he
      cases he
    | some first =>
      obtain ⟨seq, payload, timestamp⟩ := first
      obtain ⟨a, deliveryUs, hanchor, hdelivery, hon, hnear, hnext⟩ := anchored_round h hfirst nowUs
      rw [hfirst] at he
      dsimp only at he
      rw [hanchor, Option.getD_some, hdelivery] at he
      rcases List.mem_cons.1 he with rfl | he
      · exact ⟨hon, hnear⟩
      · split_ifs at he
        · cases he
        · exact ih hnext he

theorem exists_considered {payload : List UInt8} (h : Anchored origin r)
    (htaken : (seq, payload) ∈ (takeDue latency nowUs fuel r).2) : ∃ e ∈ considered latency nowUs fuel r,
      e.deliveryUs ≤ nowUs ∧ (seq, payload, e.timestamp) ∈ r.pending.entries := by
  induction fuel generalizing r with
  | zero => cases htaken
  | succ fuel ih =>
    unfold takeDue at htaken
    unfold considered
    cases hfirst : r.firstPending with
    | none =>
      rw [hfirst] at htaken
      cases htaken
    | some first =>
      obtain ⟨firstSeq, firstPayload, timestamp⟩ := first
      obtain ⟨a, deliveryUs, hanchor, hdelivery, -, -, hnext⟩ := anchored_round h hfirst nowUs
      rw [hfirst] at htaken
      dsimp only at htaken ⊢
      rw [hanchor, Option.getD_some, hdelivery] at htaken ⊢
      rw [h.drift, Int.add_zero] at htaken ⊢
      split_ifs at htaken with hwait
      · cases htaken
      · rw [if_neg hwait]
        rcases List.mem_cons.1 htaken with heq | hrest
        · obtain ⟨rfl, rfl⟩ := Prod.mk.inj heq
          exact ⟨_, mem_cons_self, Int.not_lt.1 hwait, mem_of_firstPending hfirst⟩
        · obtain ⟨e, he, hdue, hmem⟩ := ih hnext hrest
          exact ⟨e, mem_cons_of_mem _ he, hdue, (SortedMap.mem_erase.1 hmem).2⟩

theorem takeDue_unanchored (hnone : r.tsbpdAnchor = none) {payload : List UInt8}
    (hfirst : r.firstPending = some (seq, payload, timestamp)) : takeDue latency nowUs (fuel + 1) r =
        takeDue latency nowUs (fuel + 1) { r with tsbpdAnchor := some { timestamp, deliveryUs := nowUs + latency } } ∧
      considered latency nowUs (fuel + 1) r = considered latency nowUs (fuel + 1)
          { r with tsbpdAnchor := some { timestamp, deliveryUs := nowUs + latency } } := by
  have hsame : firstPending { r with tsbpdAnchor := some { timestamp, deliveryUs := nowUs + latency } } =
      some (seq, payload, timestamp) := hfirst
  constructor
  · rw [takeDue, takeDue, hfirst, hsame, hnone]
    rfl
  · rw [considered, considered, hfirst, hsame, hnone]
    rfl

theorem anchor_takeInOrder (fuel : Nat) (r : SrtReceiver) : (takeInOrder fuel r).1.tsbpdAnchor = r.tsbpdAnchor := by
  induction fuel generalizing r with
  | zero => rfl
  | succ fuel ih =>
    unfold takeInOrder
    cases r.pending.get? r.nextDeliver with
    | none => rfl
    | some entry => exact ih _

theorem anchor_onDropRequest (first last : Nat) : (r.onDropRequest first last).tsbpdAnchor = r.tsbpdAnchor := by
  unfold onDropRequest
  split_ifs <;> rfl

/-! ## Runs -/

/-- A receiver, and the anchor as the first packet that was scheduled set it. -/
structure Clock where
  receiver : SrtReceiver
  origin : Option TsbpdAnchor

namespace Clock

def start (r : SrtReceiver) : Clock := { receiver := r, origin := none }

def step (c : Clock) : Event → Clock
  | .data pkt => { c with receiver := (c.receiver.onData pkt).1 }
  | .dropRequest first last _ _ => { c with receiver := c.receiver.onDropRequest first last }
  | .takeReady => { c with receiver := c.receiver.takeReadySeqs.1 }
  | .takeReadyAt nowUs =>
    { receiver := (c.receiver.takeReadyAtSeqs nowUs).1
      origin := c.origin.orElse fun _ => c.receiver.anchorFor nowUs }

def run (c : Clock) (events : List Event) : Clock := events.foldl step c

/-- What holds along a run. -/
structure Inv (latency : Nat) (c : Clock) : Prop where
  latency : c.receiver.tsbpdLatencyUs = some latency
  drift : c.receiver.tsbpdDrift.driftUs = 0
  idle : c.origin = none → c.receiver.tsbpdAnchor = none
  anchored : ∀ origin, c.origin = some origin → Anchored origin c.receiver
  pending : ∀ e ∈ c.receiver.pending.entries, e.2.2 < 2 ^ 32

variable {c : Clock}

theorem inv_start (lossMaxTtl latency : Nat) (cryptoEven cryptoOdd : Option (Nat → List UInt8 → List UInt8)) :
    (start (configured lossMaxTtl (some latency) cryptoEven cryptoOdd)).Inv latency where
  latency := rfl
  drift := rfl
  idle := fun _ => rfl
  anchored := by
    intro origin h
    cases h
  pending := forall_mem_nil _

/-- A call takes and considers what it would if its anchor was set before. -/
theorem exists_anchored (h : c.Inv latency) {nowUs : Nat}
    (horigin : (c.step (.takeReadyAt nowUs)).origin = some origin) :
    ∃ r, Anchored origin r ∧ r.pending = c.receiver.pending ∧ r.firstPending = c.receiver.firstPending ∧
      c.receiver.takeReadyAtSeqs nowUs = takeDue latency (asSigned 64 nowUs) (r.pending.size + 1) r ∧
      c.receiver.consideredAt nowUs = considered latency (asSigned 64 nowUs) (r.pending.size + 1) r := by
  have htake : c.receiver.takeReadyAtSeqs nowUs =
      takeDue latency (asSigned 64 nowUs) (c.receiver.pending.size + 1) c.receiver := by
    unfold takeReadyAtSeqs
    rw [h.latency]
  have hconsidered : c.receiver.consideredAt nowUs =
      considered latency (asSigned 64 nowUs) (c.receiver.pending.size + 1) c.receiver := by
    unfold consideredAt
    rw [h.latency]
  change (c.origin.orElse fun _ => c.receiver.anchorFor nowUs) = some origin at horigin
  cases hset : c.origin with
  | some first =>
    rw [hset] at horigin
    cases horigin
    exact ⟨c.receiver, h.anchored _ hset, rfl, rfl, htake, hconsidered⟩
  | none =>
    rw [hset] at horigin
    unfold anchorFor at horigin
    rw [h.latency] at horigin
    cases hfirst : c.receiver.firstPending with
    | none =>
      rw [hfirst] at horigin
      cases horigin
    | some e =>
      obtain ⟨seq, payload, timestamp⟩ := e
      rw [hfirst] at horigin
      obtain rfl := Option.some.inj horigin
      obtain ⟨htakeAnchored, hconsideredAnchored⟩ := takeDue_unanchored (h.idle hset) hfirst
      have htimestamp : timestamp < 2 ^ 32 := h.pending _ (mem_of_firstPending hfirst)
      refine ⟨{ c.receiver with tsbpdAnchor := some { timestamp, deliveryUs := asSigned 64 nowUs + latency } },
        ⟨h.drift, ⟨_, rfl, htimestamp, rfl⟩, h.pending⟩, rfl, hfirst.symm ▸ hfirst, ?_, ?_⟩
      · exact htake.trans htakeAnchored
      · exact hconsidered.trans hconsideredAnchored

theorem inv_passes (h : c.Inv latency) (hpasses : c.receiver.Passes r) (hanchor : r.tsbpdAnchor = c.receiver.tsbpdAnchor) :
    Inv latency { c with receiver := r } where
  latency := hpasses.latency.trans h.latency
  drift := hpasses.drift ▸ h.drift
  idle := fun hnone => hanchor.trans (h.idle hnone)
  anchored := by
    intro origin horigin
    obtain ⟨hdrift, hset, hpending⟩ := h.anchored origin horigin
    exact ⟨hpasses.drift ▸ hdrift, hanchor ▸ hset, fun e he => hpending e (hpasses.pending e he)⟩
  pending := fun e he => h.pending e (hpasses.pending e he)

theorem inv_data (h : c.Inv latency) (htimestamp : pkt.timestamp < 2 ^ 32) : (c.step (.data pkt)).Inv latency := by
  obtain ⟨hcursor, hstored⟩ := onData_stored c.receiver pkt
  have hschedule := sameSchedule_onData c.receiver pkt
  have hlatency : (c.receiver.withBase pkt.seq).tsbpdLatencyUs = c.receiver.tsbpdLatencyUs := by
    unfold withBase
    split_ifs <;> rfl
  have hpending : ∀ e ∈ (c.receiver.onData pkt).1.pending.entries, e.2.2 < 2 ^ 32 := by
    rw [hstored]
    split_ifs
    · intro e he
      rcases SortedMap.mem_insert.1 he with rfl | ⟨-, hold⟩
      · exact htimestamp
      · exact h.pending e hold
    · exact h.pending
  refine ⟨hcursor.latency.trans (hlatency.trans h.latency), ?_, fun hnone => ?_, fun origin horigin => ?_, hpending⟩
  · exact (congrArg TsbpdDrift.driftUs hschedule.drift).trans h.drift
  · exact hschedule.anchor.trans (h.idle hnone)
  · obtain ⟨hdrift, hset, -⟩ := h.anchored origin horigin
    refine ⟨(congrArg TsbpdDrift.driftUs hschedule.drift).trans hdrift, ?_, hpending⟩
    obtain ⟨a, ha, hon⟩ := hset
    exact ⟨a, hschedule.anchor.trans ha, hon⟩

theorem inv_takeReadyAt (h : c.Inv latency) (nowUs : Nat) : (c.step (.takeReadyAt nowUs)).Inv latency := by
  have hpasses : c.receiver.Passes (c.receiver.takeReadyAtSeqs nowUs).1 := passes_takeReadyAtSeqs nowUs
  refine ⟨hpasses.latency.trans h.latency, ?_, fun hnone => ?_, fun origin horigin => ?_,
    fun e he => h.pending e (hpasses.pending e he)⟩
  · exact (congrArg TsbpdDrift.driftUs hpasses.drift).trans h.drift
  · -- No packet was scheduled, as there is none.
    change (c.origin.orElse fun _ => c.receiver.anchorFor nowUs) = none at hnone
    cases hset : c.origin with
    | some first =>
      rw [hset] at hnone
      cases hnone
    | none =>
      rw [hset] at hnone
      have hfirst : c.receiver.firstPending = none := by
        unfold anchorFor at hnone
        rw [h.latency] at hnone
        cases hfirst : c.receiver.firstPending with
        | none => rfl
        | some e =>
          rw [hfirst] at hnone
          cases hnone
      show (c.receiver.takeReadyAtSeqs nowUs).1.tsbpdAnchor = none
      unfold takeReadyAtSeqs
      rw [h.latency]
      unfold takeDue
      rw [hfirst]
      exact h.idle hset
  · obtain ⟨r, hanchored, -, -, htake, -⟩ := exists_anchored h horigin
    show Anchored origin (c.receiver.takeReadyAtSeqs nowUs).1
    rw [htake]
    exact anchored_takeDue hanchored

theorem inv_step (h : c.Inv latency) (event : Event) (htimestamp : ∀ pkt, event = .data pkt → pkt.timestamp < 2 ^ 32) :
    (c.step event).Inv latency := by
  cases event with
  | data pkt => exact inv_data h (htimestamp pkt rfl)
  | dropRequest first last hfirst hlast =>
    exact inv_passes h (passes_onDropRequest first last) (anchor_onDropRequest first last)
  | takeReady => exact inv_passes h (passes_takeInOrder _ _) (anchor_takeInOrder _ _)
  | takeReadyAt nowUs => exact inv_takeReadyAt h nowUs

theorem inv_run (h : c.Inv latency) (events : List Event)
    (htimestamps : ∀ pkt, Event.data pkt ∈ events → pkt.timestamp < 2 ^ 32) : (c.run events).Inv latency := by
  induction events generalizing c with
  | nil => exact h
  | cons event events ih =>
    refine ih (inv_step h event fun pkt heq => ?_) fun pkt hpkt => htimestamps pkt (mem_cons_of_mem _ hpkt)
    exact htimestamps pkt (heq ▸ mem_cons_self)

/-- When a packet is to be delivered: as long after the packet that set the anchor as it was sent after it. -/
def dueUs (origin : TsbpdAnchor) (originSentUs sentUs : Int) : Int := origin.deliveryUs + (sentUs - originSentUs)

theorem eq_dueUs {originSentUs sentUs deliveryUs nowUs : Int} (hon : OnSchedule origin timestamp deliveryUs)
    (hnear : -2 ^ 31 ≤ nowUs - deliveryUs ∧ nowUs - deliveryUs < 2 ^ 31)
    (horigin : (origin.timestamp : Int) = originSentUs % 2 ^ 32) (hsent : (timestamp : Int) = sentUs % 2 ^ 32)
    (htrue : (nowUs - dueUs origin originSentUs sentUs).natAbs < 2 ^ 31) :
    deliveryUs = dueUs origin originSentUs sentUs := by
  have hsame := hon.2
  unfold dueUs at *
  omega

/-- In every run, the delivery time of each packet that a call considers is the true one if that is less than half a
period from the local time. The packet is not taken before it, and if it is the first that is buffered it is taken from
then on. -/
theorem schedule_exact (lossMaxTtl latency : Nat) (cryptoEven cryptoOdd : Option (Nat → List UInt8 → List UInt8))
    (events : List Event) (htimestamps : ∀ pkt, Event.data pkt ∈ events → pkt.timestamp < 2 ^ 32)
    (hclock : c = (start (configured lossMaxTtl (some latency) cryptoEven cryptoOdd)).run events) (nowUs : Nat)
    (horigin : (c.step (.takeReadyAt nowUs)).origin = some origin) (originSentUs : Int)
    (horiginSent : (origin.timestamp : Int) = originSentUs % 2 ^ 32) :
    (∀ e ∈ c.receiver.consideredAt nowUs, ∀ sentUs : Int, (e.timestamp : Int) = sentUs % 2 ^ 32 →
      (asSigned 64 nowUs - dueUs origin originSentUs sentUs).natAbs < 2 ^ 31 →
      e.deliveryUs = dueUs origin originSentUs sentUs) ∧
    (∀ seq payload, (seq, payload) ∈ (c.receiver.takeReadyAtSeqs nowUs).2 →
      ∃ timestamp, (seq, payload, timestamp) ∈ c.receiver.pending.entries ∧
        ∀ sentUs : Int, (timestamp : Int) = sentUs % 2 ^ 32 →
          (asSigned 64 nowUs - dueUs origin originSentUs sentUs).natAbs < 2 ^ 31 →
          dueUs origin originSentUs sentUs ≤ asSigned 64 nowUs) ∧
    (∀ seq payload timestamp, c.receiver.firstPending = some (seq, payload, timestamp) →
      ∀ sentUs : Int, (timestamp : Int) = sentUs % 2 ^ 32 →
        (asSigned 64 nowUs - dueUs origin originSentUs sentUs).natAbs < 2 ^ 31 →
        dueUs origin originSentUs sentUs ≤ asSigned 64 nowUs →
        (seq, payload) ∈ (c.receiver.takeReadyAtSeqs nowUs).2) := by
  have hinv : c.Inv latency := hclock ▸ inv_run (inv_start _ _ _ _) events htimestamps
  obtain ⟨r, hanchored, hpending, hfirstPending, htake, hconsidered⟩ := exists_anchored hinv horigin
  refine ⟨fun e he sentUs hsent htrue => ?_, fun seq payload htaken => ?_,
    fun seq payload timestamp hfirst sentUs hsent htrue hdue => ?_⟩
  · rw [hconsidered] at he
    obtain ⟨hon, hnear⟩ := onSchedule_considered hanchored he
    exact eq_dueUs hon hnear horiginSent hsent htrue
  · rw [htake] at htaken
    obtain ⟨e, he, hdue, hmem⟩ := exists_considered hanchored htaken
    refine ⟨e.timestamp, hpending ▸ hmem, fun sentUs hsent htrue => ?_⟩
    obtain ⟨hon, hnear⟩ := onSchedule_considered hanchored he
    rw [← eq_dueUs hon hnear horiginSent hsent htrue]
    exact hdue
  · rw [← hfirstPending] at hfirst
    obtain ⟨a, deliveryUs, hanchor, hdelivery, hon, hnear, -⟩ := anchored_round hanchored hfirst (asSigned 64 nowUs)
    have heq := eq_dueUs hon hnear horiginSent hsent htrue
    rw [htake, takeDue, hfirst]
    dsimp only
    rw [hanchor, Option.getD_some, hdelivery, hanchored.drift, Int.add_zero, if_neg (by omega)]
    exact mem_cons_self

/-- Two packets that are sent 150 µs apart, across the wrap of the timestamps, and what is done up to the second. -/
def wrapEvents : List Event :=
  [.data { plainPacket 0 (by decide) with timestamp := 2 ^ 32 - 100 }, .takeReadyAt 5000, .takeReadyAt 6000,
    .data { plainPacket 1 (by decide) with timestamp := 50 }]

/-- The second packet is taken 150 µs after the first one was due. -/
theorem schedule_exact_wrap :
    (1, []) ∈ (((start (configured 0 (some 1000) none none)).run wrapEvents).receiver.takeReadyAtSeqs 6150).2 := by
  have htimestamps : ∀ pkt, Event.data pkt ∈ wrapEvents → pkt.timestamp < 2 ^ 32 := by
    intro pkt hpkt
    simp only [wrapEvents, mem_cons, Event.data.injEq, reduceCtorEq, not_mem_nil, false_or, or_false] at hpkt
    rcases hpkt with rfl | rfl <;> decide
  have horigin : (((start (configured 0 (some 1000) none none)).run wrapEvents).step (.takeReadyAt 6150)).origin =
      some { timestamp := 2 ^ 32 - 100, deliveryUs := 6000 } := by decide +kernel
  have hfirst : ((start (configured 0 (some 1000) none none)).run wrapEvents).receiver.firstPending =
      some (1, [], 50) := by decide +kernel
  obtain ⟨-, -, hready⟩ := schedule_exact 0 1000 none none wrapEvents htimestamps rfl 6150 horigin (2 ^ 32 - 100)
    (by decide)
  exact hready 1 [] 50 hfirst (2 ^ 32 + 50) (by decide) (by decide) (by decide)

end Clock

end SrtReceiver

end Glass2Glass.Srt
