import Glass2Glass.Srt.Delivery
import Glass2Glass.Srt.Sender

/-!
# A sender and a receiver

A sender and a receiver on a network that drops, duplicates and reorders what they send. While no packet is so old that
its sequence number is in use again, what is delivered is a run of what was sent, and what is not delivered and not too
old is sent again when it is reported lost (`Link.gap_free`).
-/

namespace Glass2Glass.Srt

open List Option
open SrtReceiver (accepts withBase onData_stored takeInOrder takeReady)

/-- The sequence number at a position. -/
def seqAt (initSeq p : Nat) : Nat := (initSeq + p) % 2 ^ 31

/-- A message on the network, with the number of packets that were sent before. -/
structure Flight (α : Type) where
  value : α
  sentAt : Nat

/-- A sender and a receiver, with all that was sent, delivered and put on the network. A loss report may name any
sequences, so reports are not kept. -/
structure Link where
  sender : SrtSender
  receiver : SrtReceiver
  initSeq : Nat
  /-- The payloads and timestamps that were given to the sender. -/
  sent : List (List UInt8 × Nat)
  /-- The position of the first packet that arrived. -/
  first : Option Nat
  delivered : List (List UInt8)
  /-- The position that the newest acknowledgement names. -/
  acknowledged : Nat
  packets : List (Flight (List UInt8))
  /-- The acknowledgements, with the positions that they name. -/
  acks : List (Flight (Control × Nat))

namespace Link

variable (link : Link)

/-- The position of the next packet to be delivered. -/
def cursor : Nat := link.first.getD 0 + link.delivered.length

def start (dstSocketId initSeq capacity lossMaxTtl : Nat) : Link where
  sender := .new dstSocketId initSeq capacity
  receiver := .configured lossMaxTtl none none none
  initSeq := initSeq % 2 ^ 31
  sent := []
  first := none
  delivered := []
  acknowledged := 0
  packets := []
  acks := []

def send (link : Link) (payload : List UInt8) (timestamp : Nat) : Link :=
  { link with
    sender := (link.sender.send payload timestamp).1
    sent := link.sent ++ [(payload, timestamp)]
    packets := link.packets ++ [{ value := (link.sender.send payload timestamp).2, sentAt := link.sent.length + 1 }] }

def arrive (bytes : List UInt8) : Link :=
  match parseDataPacket bytes with
  | none => link
  | some pkt =>
    { link with
      receiver := (link.receiver.onData pkt).1
      first := link.first.orElse fun _ => some (seqDistance pkt.seq link.initSeq) }

/-- What is in order is delivered. -/
def take : Link :=
  { link with
    receiver := link.receiver.takeReady.1
    delivered := link.delivered ++ link.receiver.takeReady.2 }

def acknowledge (ack : Control) : Link :=
  { link with acks := link.acks ++ [{ value := (ack, link.cursor), sentAt := link.sent.length }] }

/-- The sender gets a control packet. Its answers are put on the network. -/
def control (ctrl : Control) (timestamp : Nat) : Link :=
  { link with
    sender := (link.sender.onControl ctrl timestamp).1
    packets := link.packets ++
      (link.sender.onControl ctrl timestamp).2.map fun bytes => { value := bytes, sentAt := link.sent.length } }

/-- The sender gets an acknowledgement. -/
def acked (ack : Control × Nat) (timestamp : Nat) : Link :=
  { link.control ack.1 timestamp with acknowledged := max link.acknowledged ack.2 }

/-- What can happen. The sender sends at most a flow window past the acknowledged position. A message arrives any
number of times, or never, as long as its age is allowed, the age being the number of packets that were sent since. -/
inductive Step (dataInTime ackInTime : Nat → Prop) (link : Link) : Link → Prop
  | send (payload : List UInt8) (timestamp : Nat) (htimestamp : timestamp < 256 ^ 4)
      (hflow : link.sent.length < link.acknowledged + flowWindowPackets) :
      Step dataInTime ackInTime link (link.send payload timestamp)
  | arrive (flight : Flight (List UInt8)) (hflight : flight ∈ link.packets)
      (hage : dataInTime (link.sent.length - flight.sentAt)) :
      Step dataInTime ackInTime link (link.arrive flight.value)
  | take : Step dataInTime ackInTime link link.take
  | acknowledge (ack : Control) (seq : Nat) (hseq : link.receiver.ackSeq = some seq) (hack : ack.ackSeq? = some seq) :
      Step dataInTime ackInTime link (link.acknowledge ack)
  | acked (flight : Flight (Control × Nat)) (hflight : flight ∈ link.acks)
      (hage : ackInTime (link.sent.length - flight.sentAt)) (timestamp : Nat) :
      Step dataInTime ackInTime link (link.acked flight.value timestamp)
  | lossReport (loss : List Nat) (timestamp : Nat) :
      Step dataInTime ackInTime link (link.control (.nak loss) timestamp)

/-- The states of all runs. -/
inductive Reachable (dataInTime ackInTime : Nat → Prop) (dstSocketId initSeq capacity lossMaxTtl : Nat) : Link → Prop
  | start : Reachable dataInTime ackInTime dstSocketId initSeq capacity lossMaxTtl
      (Link.start dstSocketId initSeq capacity lossMaxTtl)
  | step {link link' : Link} (h : Reachable dataInTime ackInTime dstSocketId initSeq capacity lossMaxTtl link)
      (hstep : Step dataInTime ackInTime link link') :
      Reachable dataInTime ackInTime dstSocketId initSeq capacity lossMaxTtl link'

/-- The ages at which the sequence number of a data packet is not in use again. -/
def DataInTime (age : Nat) : Prop := age ≤ 2 ^ 31 - 2 * flowWindowPackets

/-- The ages at which an acknowledgement does not look new. -/
def AckInTime (age : Nat) : Prop := age ≤ 2 ^ 30 - flowWindowPackets

/-- What is delivered is a run of what was sent, from the first packet that arrived on. What is not delivered yet and
among the newest packets is still there, and is sent again when it is reported lost. -/
structure GapFree : Prop where
  delivered : link.delivered = ((link.sent.drop (link.first.getD 0)).take link.delivered.length).map Prod.fst
  empty : link.first = none → link.delivered = []
  buffered : ∀ p sent, link.sent[p]? = some sent → link.cursor ≤ p → link.sent.length ≤ p + link.sender.capacity →
    link.sender.buffered (seqAt link.initSeq p) =
      some { seq := seqAt link.initSeq p, kk := 0, timestamp := sent.2, data := sent.1 }
  resent : ∀ p sent, link.sent[p]? = some sent → link.cursor ≤ p → link.sent.length ≤ p + link.sender.capacity →
    ∀ loss, seqAt link.initSeq p ∈ loss → ∀ timestamp,
      ∃ bytes ∈ (link.sender.onControl (.nak loss) timestamp).2, ∃ pkt, parseDataPacket bytes = some pkt ∧
        pkt.seq = seqAt link.initSeq p ∧ pkt.retransmit = true ∧ pkt.kk = 0 ∧ pkt.timestamp = sent.2 ∧
        pkt.payload = sent.1

/-! ## Positions -/

variable {initSeq p c : Nat}

theorem seqAt_lt (initSeq p : Nat) : seqAt initSeq p < 2 ^ 31 := Nat.mod_lt _ (by decide)

theorem seqNext_seqAt : seqNext (seqAt initSeq p) = seqAt initSeq (p + 1) := by
  unfold seqNext seqAt
  omega

theorem seqDistance_seqAt (hle : c ≤ p) (hnear : p - c < 2 ^ 31) :
    seqDistance (seqAt initSeq p) (seqAt initSeq c) = p - c := by
  unfold seqDistance seqAt
  omega

theorem seqDistance_seqAt_wrap (hlt : p < c) (hnear : c - p < 2 ^ 31) :
    seqDistance (seqAt initSeq p) (seqAt initSeq c) = 2 ^ 31 - (c - p) := by
  unfold seqDistance seqAt
  omega

theorem seqAt_inj (hle : c ≤ p) (hnear : p - c < 2 ^ 31) (h : seqAt initSeq p = seqAt initSeq c) : p = c := by
  have hdistance : seqDistance (seqAt initSeq p) (seqAt initSeq c) = p - c := seqDistance_seqAt hle hnear
  rw [h, seqDistance_self] at hdistance
  omega

theorem dropWhile_eq_drop {α : Type} {q : α → Bool} {l : List α} {k : Nat}
    (hbefore : ∀ i < k, ∀ a, l[i]? = some a → q a = true) (hat : ∀ a, l[k]? = some a → q a = false) :
    l.dropWhile q = l.drop k := by
  induction l generalizing k with
  | nil => simp
  | cons x l ih =>
    cases k with
    | zero => rw [dropWhile_cons_of_neg (by simp [hat x rfl]), drop_zero]
    | succ k =>
      rw [dropWhile_cons_of_pos (hbefore 0 (Nat.succ_pos k) x rfl), drop_succ_cons]
      exact ih (fun i hi a ha => hbefore (i + 1) (Nat.succ_lt_succ hi) a ha) fun a ha => hat a ha

/-! ## The invariant -/

/-- The packets that were sent, as the sender keeps them. -/
def sentPackets (initSeq : Nat) (sent : List (List UInt8 × Nat)) : List SentPacket :=
  sent.mapIdx fun p s => { seq := seqAt initSeq p, kk := 0, timestamp := s.2, data := s.1 }

/-- What holds of a message that is on the network: what it carries was sent, not much before the message. -/
def Carries (initSeq : Nat) (sent : List (List UInt8 × Nat)) (flight : Flight (List UInt8)) : Prop :=
  flight.sentAt ≤ sent.length ∧ ∀ pkt, parseDataPacket flight.value = some pkt →
    ∃ p s, sent[p]? = some s ∧ pkt.seq = seqAt initSeq p ∧ pkt.payload = s.1 ∧ flight.sentAt ≤ p + flowWindowPackets

/-- What holds of the sender: it keeps the newest packets, but for some that are acknowledged. -/
structure Sending (initSeq : Nat) (sent : List (List UInt8 × Nat)) (acknowledged : Nat) (sender : SrtSender)
    (packets : List (Flight (List UInt8))) : Prop where
  nextSeq : sender.nextSeq = seqAt initSeq sent.length
  key : sender.activeKk = 0
  socket : sender.dstSocketId < 256 ^ 4
  capacity : 0 < sender.capacity
  timestamps : ∀ s ∈ sent, s.2 < 256 ^ 4
  buffer : ∃ oldest, oldest ≤ sent.length ∧ acknowledged ≤ oldest ∧
    (oldest ≤ acknowledged ∨ oldest + sender.capacity ≤ sent.length) ∧
    sender.buffer = (sentPackets initSeq sent).drop oldest
  flow : sent.length ≤ acknowledged + flowWindowPackets
  packets : ∀ flight ∈ packets, Carries initSeq sent flight

/-- What holds of the receiver: it buffers what was sent, and it delivered a run of it. -/
structure Receiving (initSeq : Nat) (sent : List (List UInt8 × Nat)) (receiver : SrtReceiver) (first : Option Nat)
    (delivered : List (List UInt8)) : Prop where
  cursor : first.getD 0 + delivered.length ≤ sent.length
  clear : receiver.tsbpdLatencyUs = none ∧ receiver.cryptoEven = none ∧ receiver.cryptoOdd = none
  fresh : first = none → receiver.haveBase = false ∧ receiver.pending.entries = [] ∧ delivered = []
  base : first ≠ none →
    receiver.haveBase = true ∧ receiver.nextDeliver = seqAt initSeq (first.getD 0 + delivered.length)
  pending : ∀ e ∈ receiver.pending.entries, ∃ p s, first.getD 0 + delivered.length ≤ p ∧ sent[p]? = some s ∧
    e.1 = seqAt initSeq p ∧ e.2.1 = s.1
  delivered : delivered = ((sent.drop (first.getD 0)).take delivered.length).map Prod.fst

/-- What holds in every state. -/
structure Inv : Prop where
  initSeq_lt : link.initSeq < 2 ^ 31
  sending : Sending link.initSeq link.sent link.acknowledged link.sender link.packets
  receiving : Receiving link.initSeq link.sent link.receiver link.first link.delivered
  acknowledged : link.acknowledged ≤ link.cursor
  acks : ∀ flight ∈ link.acks, flight.value.1.ackSeq? = some (seqAt link.initSeq flight.value.2) ∧
    flight.value.2 ≤ link.cursor ∧ flight.sentAt ≤ flight.value.2 + flowWindowPackets
  noAcks : link.first = none → link.acks = []

variable {link : Link} {sent : List (List UInt8 × Nat)}

theorem getElem?_sentPackets (initSeq : Nat) (sent : List (List UInt8 × Nat)) (p : Nat) :
    (sentPackets initSeq sent)[p]? =
      sent[p]?.map fun s => { seq := seqAt initSeq p, kk := 0, timestamp := s.2, data := s.1 } := by
  unfold sentPackets
  rw [List.getElem?_mapIdx]

@[simp] theorem length_sentPackets (initSeq : Nat) (sent : List (List UInt8 × Nat)) :
    (sentPackets initSeq sent).length = sent.length := length_mapIdx

theorem sentPackets_append (initSeq : Nat) (sent : List (List UInt8 × Nat)) (s : List UInt8 × Nat) :
    sentPackets initSeq (sent ++ [s]) =
      sentPackets initSeq sent ++ [{ seq := seqAt initSeq sent.length, kk := 0, timestamp := s.2, data := s.1 }] := by
  unfold sentPackets
  simp

theorem lt_of_getElem? {α : Type} {l : List α} {i : Nat} {a : α} (h : l[i]? = some a) : i < l.length :=
  (List.getElem?_eq_some_iff.1 h).1

theorem inv_start (dstSocketId initSeq capacity lossMaxTtl : Nat) (hdst : dstSocketId < 256 ^ 4) :
    (start dstSocketId initSeq capacity lossMaxTtl).Inv where
  initSeq_lt := Nat.mod_lt _ (by decide)
  sending :=
    { nextSeq := (Nat.mod_mod _ _).symm
      key := rfl
      socket := hdst
      capacity := lt_of_lt_of_le Nat.one_pos (Nat.le_max_right capacity 1)
      timestamps := forall_mem_nil _
      buffer := ⟨0, Nat.le_refl _, Nat.le_refl _, Or.inl (Nat.le_refl _), rfl⟩
      flow := Nat.zero_le _
      packets := forall_mem_nil _ }
  receiving :=
    { cursor := Nat.le_refl _
      clear := ⟨rfl, rfl, rfl⟩
      fresh := fun _ => ⟨rfl, rfl, rfl⟩
      base := fun h => absurd rfl h
      pending := forall_mem_nil _
      delivered := rfl }
  acknowledged := Nat.le_refl _
  acks := forall_mem_nil _
  noAcks := fun _ => rfl

/-! ## Sending -/

variable {acknowledged : Nat} {sender : SrtSender} {packets : List (Flight (List UInt8))}

theorem getElem?_append_sent {s x : List UInt8 × Nat} (h : sent[p]? = some s) : (sent ++ [x])[p]? = some s := by
  rw [List.getElem?_append_left (lt_of_getElem? h), h]

theorem Carries.append {flight : Flight (List UInt8)} (h : Carries initSeq sent flight) (x : List UInt8 × Nat) :
    Carries initSeq (sent ++ [x]) flight := by
  obtain ⟨hsentAt, hcarries⟩ := h
  refine ⟨?_, fun pkt hpkt => ?_⟩
  · rw [length_append]
    exact hsentAt.trans (Nat.le_add_right _ _)
  · obtain ⟨p, s, hs, hrest⟩ := hcarries pkt hpkt
    exact ⟨p, s, getElem?_append_sent hs, hrest⟩

section

variable (h : Sending initSeq sent acknowledged sender packets)

include h

theorem Sending.send_eq (payload : List UInt8)
    (timestamp : Nat) :
    sender.send payload timestamp = ({ sender with
          nextSeq := seqAt initSeq (sent.length + 1)
          msgNo := (sender.msgNo + 1) % 2 ^ 32 % 2 ^ 26
          buffer := (if sender.capacity ≤ sender.buffer.length then sender.buffer.tail else sender.buffer) ++
            [{ seq := seqAt initSeq sent.length, kk := 0, timestamp := timestamp, data := payload }] },
        buildDataPacket (seqAt initSeq sent.length) sender.msgNo false 0 timestamp sender.dstSocketId payload) := by
  have hcrypto : sender.activeCrypto = none := by
    unfold SrtSender.activeCrypto
    rw [h.key]
    rfl
  have hdata : sender.encodePayload sender.nextSeq payload = payload := by
    unfold SrtSender.encodePayload
    rw [hcrypto]
  unfold SrtSender.send
  dsimp only
  rw [hdata, h.key, h.nextSeq, seqNext_seqAt]

theorem sending_send (payload : List UInt8) {timestamp : Nat}
    (htimestamp : timestamp < 256 ^ 4) (hflow : sent.length < acknowledged + flowWindowPackets) :
    Sending initSeq (sent ++ [(payload, timestamp)]) acknowledged (sender.send payload timestamp).1
      (packets ++ [{ value := (sender.send payload timestamp).2, sentAt := sent.length + 1 }]) := by
  have hlength : (sent ++ [(payload, timestamp)]).length = sent.length + 1 := length_append
  rw [h.send_eq]
  refine
    { nextSeq := by rw [hlength]
      key := h.key
      socket := h.socket
      capacity := h.capacity
      timestamps := fun s hs => ?_
      buffer := ?_
      flow := by rw [hlength]; exact hflow
      packets := fun flight hflight => ?_ }
  · rcases List.mem_append.1 hs with hold | hnew
    · exact h.timestamps s hold
    · rw [List.mem_singleton.1 hnew]
      exact htimestamp
  · obtain ⟨oldest, hle, hack, hcapacity, hbuffer⟩ := h.buffer
    have hbufferLength : sender.buffer.length = sent.length - oldest := by
      rw [hbuffer, length_drop, length_sentPackets]
    have hpos := h.capacity
    dsimp only
    rw [hlength, sentPackets_append]
    split_ifs with hfull
    · refine ⟨oldest + 1, by omega, by omega, Or.inr (by omega), ?_⟩
      rw [hbuffer, tail_drop, drop_append_of_le_length (by rw [length_sentPackets]; omega)]
    · refine ⟨oldest, by omega, hack, by omega, ?_⟩
      rw [hbuffer, drop_append_of_le_length (by rw [length_sentPackets]; omega)]
  · rcases List.mem_append.1 hflight with hold | hnew
    · exact (h.packets flight hold).append _
    · rw [List.mem_singleton.1 hnew]
      refine ⟨hlength.ge, fun pkt hparse => ?_⟩
      rw [parseDataPacket_buildDataPacket (by decide) htimestamp h.socket] at hparse
      rw [← Option.some.inj hparse]
      refine ⟨sent.length, (payload, timestamp), List.getElem?_concat_length, ?_, rfl, ?_⟩
      · exact Nat.mod_eq_of_lt (seqAt_lt _ _)
      · show sent.length + 1 ≤ sent.length + flowWindowPackets
        unfold flowWindowPackets
        omega

/-- What is acknowledged is released, and nothing else, if the acknowledgement is not too old. -/
theorem sending_release {position : Nat}
    (hposition : position ≤ sent.length) (hage : sent.length ≤ position + 2 ^ 30) :
    Sending initSeq sent (max acknowledged position) (sender.releaseAcknowledged (seqAt initSeq position)) packets := by
  obtain ⟨oldest, hle, hack, hcapacity, hbuffer⟩ := h.buffer
  have hflow := h.flow
  have hreleased : (sender.releaseAcknowledged (seqAt initSeq position)).buffer =
      (sentPackets initSeq sent).drop (oldest + (position - oldest)) := by
    unfold SrtSender.releaseAcknowledged
    rw [hbuffer, ← drop_drop]
    refine dropWhile_eq_drop (fun i hi a ha => ?_) fun a ha => ?_
    · rw [List.getElem?_drop, getElem?_sentPackets, map_eq_some_iff] at ha
      obtain ⟨s, hs, rfl⟩ := ha
      have hlt := lt_of_getElem? hs
      unfold flowWindowPackets at hflow
      rw [Bool.not_eq_true', ← Bool.not_eq_true, seqGe_iff (seqAt_lt _ _) (seqAt_lt _ _),
        seqDistance_seqAt_wrap (by omega) (by omega)]
      omega
    · rw [List.getElem?_drop, getElem?_sentPackets, map_eq_some_iff] at ha
      obtain ⟨s, hs, rfl⟩ := ha
      have hlt := lt_of_getElem? hs
      rw [Bool.not_eq_false', seqGe_iff (seqAt_lt _ _) (seqAt_lt _ _), seqDistance_seqAt (by omega) (by omega)]
      omega
  refine
    { nextSeq := h.nextSeq
      key := h.key
      socket := h.socket
      capacity := h.capacity
      timestamps := h.timestamps
      buffer := ⟨oldest + (position - oldest), by omega, by omega, ?_, hreleased⟩
      flow := hflow.trans (Nat.add_le_add_right (Nat.le_max_left _ _) _)
      packets := h.packets }
  show _ ∨ oldest + (position - oldest) + sender.capacity ≤ sent.length
  omega

theorem sending_answer {answers : List (List UInt8)}
    (hanswers : ∀ bytes ∈ answers, ∀ pkt, parseDataPacket bytes = some pkt → ∃ p s, sent[p]? = some s ∧
      pkt.seq = seqAt initSeq p ∧ pkt.payload = s.1 ∧ acknowledged ≤ p) :
    Sending initSeq sent acknowledged sender
      (packets ++ answers.map fun bytes => { value := bytes, sentAt := sent.length }) where
  nextSeq := h.nextSeq
  key := h.key
  socket := h.socket
  capacity := h.capacity
  timestamps := h.timestamps
  buffer := h.buffer
  flow := h.flow
  packets := by
    intro flight hflight
    rcases List.mem_append.1 hflight with hold | hnew
    · exact h.packets flight hold
    · obtain ⟨bytes, hbytes, rfl⟩ := List.mem_map.1 hnew
      refine ⟨Nat.le_refl _, fun pkt hpkt => ?_⟩
      obtain ⟨p, s, hs, hseq, hpayload, hp⟩ := hanswers bytes hbytes pkt hpkt
      exact ⟨p, s, hs, hseq, hpayload, h.flow.trans (Nat.add_le_add_right hp _)⟩

theorem buffered_eq {oldest : Nat}
    (hle : oldest ≤ p) (hack : acknowledged ≤ oldest)
    (hbuffer : sender.buffer = (sentPackets initSeq sent).drop oldest) {s : List UInt8 × Nat} (hs : sent[p]? = some s) :
    sender.buffered (seqAt initSeq p) = some { seq := seqAt initSeq p, kk := 0, timestamp := s.2, data := s.1 } := by
  have hp := lt_of_getElem? hs
  have hflow := h.flow
  unfold flowWindowPackets at hflow
  obtain ⟨t, ht⟩ : ∃ t, sent[oldest]? = some t := ⟨_, List.getElem?_eq_getElem (by omega)⟩
  have hhead : sender.buffer.head? = some { seq := seqAt initSeq oldest, kk := 0, timestamp := t.2, data := t.1 } := by
    rw [hbuffer, List.head?_drop, getElem?_sentPackets, ht]
    rfl
  unfold SrtSender.buffered
  rw [hhead, bind_some, seqDistance_seqAt hle (by omega), hbuffer, List.getElem?_drop,
    Nat.add_sub_cancel' hle, getElem?_sentPackets, hs]
  simp

theorem sent_of_buffered {seq : Nat} {entry : SentPacket}
    (hentry : sender.buffered seq = some entry) :
    ∃ p s, sent[p]? = some s ∧ acknowledged ≤ p ∧
      entry = { seq := seqAt initSeq p, kk := 0, timestamp := s.2, data := s.1 } := by
  obtain ⟨oldest, hle, hack, hcapacity, hbuffer⟩ := h.buffer
  obtain ⟨head, hhead, hfound⟩ := Option.bind_eq_some_iff.1 hentry
  obtain ⟨hget, -⟩ := Option.filter_eq_some_iff.1 hfound
  rw [hbuffer, List.getElem?_drop, getElem?_sentPackets, map_eq_some_iff] at hget
  obtain ⟨s, hs, rfl⟩ := hget
  exact ⟨_, s, hs, by omega, rfl⟩

theorem parse_resend {s : List UInt8 × Nat}
    (hs : s ∈ sent) :
    parseDataPacket (sender.resend { seq := seqAt initSeq p, kk := 0, timestamp := s.2, data := s.1 }) =
      some { seq := seqAt initSeq p, seq_lt := seqAt_lt _ _, retransmit := true, kk := 0, timestamp := s.2,
             dstSocketId := sender.dstSocketId, payload := s.1 } := by
  unfold SrtSender.resend
  rw [parseDataPacket_buildDataPacket (Nat.zero_lt_succ 3) (h.timestamps s hs) h.socket]
  simp only [Nat.mod_eq_of_lt (seqAt_lt _ _)]

theorem sending_nak (loss : List Nat) (timestamp : Nat) :
    Sending initSeq sent acknowledged (sender.onControl (.nak loss) timestamp).1
      (packets ++ (sender.onControl (.nak loss) timestamp).2.map fun bytes =>
        { value := bytes, sentAt := sent.length }) := by
  have hcounted : Sending initSeq sent acknowledged (sender.onControl (.nak loss) timestamp).1 packets :=
    ⟨h.nextSeq, h.key, h.socket, h.capacity, h.timestamps, h.buffer, h.flow, h.packets⟩
  refine sending_answer hcounted fun bytes hbytes pkt hpkt => ?_
  obtain ⟨entry, hentry, rfl⟩ := List.mem_map.1 hbytes
  obtain ⟨seq, -, hfound⟩ := List.mem_filterMap.1 hentry
  obtain ⟨p, s, hs, hp, rfl⟩ := sent_of_buffered h hfound
  rw [parse_resend h (mem_of_getElem? hs)] at hpkt
  rw [← Option.some.inj hpkt]
  exact ⟨p, s, hs, rfl, rfl, hp⟩

theorem sending_ack {position : Nat} {ack : Control}
    (hack : ack.ackSeq? = some (seqAt initSeq position)) (hposition : position ≤ sent.length)
    (hage : sent.length ≤ position + 2 ^ 30) (timestamp : Nat) :
    Sending initSeq sent (max acknowledged position) (sender.onControl ack timestamp).1
      (packets ++ (sender.onControl ack timestamp).2.map fun bytes => { value := bytes, sentAt := sent.length }) := by
  have hreleased := sending_release h hposition hage
  cases ack with
  | ack ackNo ackSeq rttUs rttVarianceUs availableBuffer =>
    cases hack
    refine sending_answer hreleased fun bytes hbytes pkt hpkt => ?_
    rw [List.mem_singleton.1 hbytes, parseDataPacket_buildAckAck] at hpkt
    cases hpkt
  | lightAck ackSeq =>
    cases hack
    exact sending_answer hreleased (forall_mem_nil _)
  | keepalive | ackAck ackNo | nak loss | shutdown => cases hack

end

/-! ## Receiving -/

variable {receiver : SrtReceiver} {first : Option Nat} {delivered : List (List UInt8)} {pkt : DataPacket}
  {s : List UInt8 × Nat}

theorem Receiving.append (h : Receiving initSeq sent receiver first delivered) (x : List UInt8 × Nat) :
    Receiving initSeq (sent ++ [x]) receiver first delivered where
  cursor := by
    rw [length_append]
    exact h.cursor.trans (Nat.le_add_right _ _)
  clear := h.clear
  fresh := h.fresh
  base := h.base
  pending := by
    intro e he
    obtain ⟨p, s, hp, hs, hrest⟩ := h.pending e he
    exact ⟨p, s, hp, getElem?_append_sent hs, hrest⟩
  delivered := by
    have hcursor := h.cursor
    rw [drop_append_of_le_length (by omega), take_append_of_le_length (by rw [length_drop]; omega)]
    exact h.delivered

theorem decrypt_clear (heven : receiver.cryptoEven = none) (hodd : receiver.cryptoOdd = none) :
    receiver.decrypt pkt = pkt.payload := by
  unfold SrtReceiver.decrypt
  rw [heven, hodd]
  split_ifs <;> rfl

theorem le_of_accepts (hnext : receiver.nextDeliver = seqAt initSeq c)
    (hold : c ≤ p + (2 ^ 31 - flowWindowPackets)) (haccepts : receiver.accepts (seqAt initSeq p) = true) : c ≤ p := by
  by_contra hbehind
  unfold flowWindowPackets at hold
  unfold accepts flowWindowPackets at haccepts
  rw [hnext, Bool.and_eq_true, Bool.and_eq_true, decide_eq_true_iff,
    seqDistance_seqAt_wrap (Nat.lt_of_not_le hbehind) (by omega)] at haccepts
  omega

theorem pending_onData (hclear : receiver.cryptoEven = none ∧ receiver.cryptoOdd = none)
    (hpending : ∀ e ∈ receiver.pending.entries, ∃ p s, c ≤ p ∧ sent[p]? = some s ∧ e.1 = seqAt initSeq p ∧ e.2.1 = s.1)
    (hs : sent[p]? = some s) (hseq : pkt.seq = seqAt initSeq p) (hpayload : pkt.payload = s.1)
    (hahead : (receiver.withBase pkt.seq).accepts pkt.seq = true → c ≤ p) :
    ∀ e ∈ (receiver.onData pkt).1.pending.entries, ∃ p s, c ≤ p ∧ sent[p]? = some s ∧ e.1 = seqAt initSeq p ∧
      e.2.1 = s.1 := by
  have hdecrypt : (receiver.withBase pkt.seq).decrypt pkt = pkt.payload := by
    unfold withBase
    split_ifs <;> exact decrypt_clear hclear.1 hclear.2
  intro e he
  rw [(onData_stored receiver pkt).2, hdecrypt] at he
  split_ifs at he with haccepts
  · rcases SortedMap.mem_insert.1 he with rfl | ⟨-, hold⟩
    · exact ⟨p, s, hahead haccepts, hs, hseq, hpayload⟩
    · exact hpending e hold
  · exact hpending e he

theorem receiving_first (h : Receiving initSeq sent receiver none delivered) (hs : sent[p]? = some s)
    (hseq : pkt.seq = seqAt initSeq p) (hpayload : pkt.payload = s.1) :
    Receiving initSeq sent (receiver.onData pkt).1 (some p) delivered := by
  obtain ⟨hbase, hempty, rfl⟩ := h.fresh rfl
  have hp := lt_of_getElem? hs
  have hwith : receiver.withBase pkt.seq =
      { receiver with nextDeliver := pkt.seq, maxSeen := seqPrev pkt.seq, haveBase := true } :=
    if_neg (by rw [hbase]; decide)
  have hcursor := (onData_stored receiver pkt).1
  rw [hwith] at hcursor
  exact
    { cursor := hp.le
      clear := ⟨hcursor.latency.trans h.clear.1, hcursor.even.trans h.clear.2.1, hcursor.odd.trans h.clear.2.2⟩
      fresh := fun hnone => by cases hnone
      base := fun _ => ⟨hcursor.base, hcursor.next.trans hseq⟩
      pending := by
        refine pending_onData h.clear.2 (fun e he => ?_) hs hseq hpayload fun _ => Nat.le_refl p
        rw [hempty] at he
        cases he
      delivered := rfl }

theorem receiving_next {b : Nat} (h : Receiving initSeq sent receiver (some b) delivered) (hs : sent[p]? = some s)
    (hseq : pkt.seq = seqAt initSeq p) (hpayload : pkt.payload = s.1)
    (hold : b + delivered.length ≤ p + (2 ^ 31 - flowWindowPackets)) :
    Receiving initSeq sent (receiver.onData pkt).1 (some b) delivered := by
  obtain ⟨hbase, hnext⟩ := h.base (by rintro ⟨⟩)
  have hwith : receiver.withBase pkt.seq = receiver := if_pos hbase
  have hcursor := (onData_stored receiver pkt).1
  rw [hwith] at hcursor
  exact
    { cursor := h.cursor
      clear := ⟨hcursor.latency.trans h.clear.1, hcursor.even.trans h.clear.2.1, hcursor.odd.trans h.clear.2.2⟩
      fresh := fun hnone => by cases hnone
      base := fun _ => ⟨hcursor.base.trans hbase, hcursor.next.trans hnext⟩
      pending := by
        refine pending_onData h.clear.2 h.pending hs hseq hpayload fun haccepts => ?_
        rw [hwith, hseq] at haccepts
        exact le_of_accepts hnext hold haccepts
      delivered := h.delivered }

/-- What is taken is a run of what was sent, from a position on. -/
structure Ran (initSeq : Nat) (sent : List (List UInt8 × Nat)) (c : Nat) (receiver receiver' : SrtReceiver)
    (taken : List (List UInt8)) : Prop where
  run : taken = ((sent.drop c).take taken.length).map Prod.fst
  le : c + taken.length ≤ sent.length
  next : receiver'.nextDeliver = seqAt initSeq (c + taken.length)
  base : receiver'.haveBase = receiver.haveBase
  clear : receiver'.tsbpdLatencyUs = receiver.tsbpdLatencyUs ∧ receiver'.cryptoEven = receiver.cryptoEven ∧
    receiver'.cryptoOdd = receiver.cryptoOdd
  pending : ∀ e ∈ receiver'.pending.entries, ∃ p s, c + taken.length ≤ p ∧ sent[p]? = some s ∧
    e.1 = seqAt initSeq p ∧ e.2.1 = s.1

theorem ran_takeInOrder (fuel : Nat) (receiver : SrtReceiver) (c : Nat) (hnext : receiver.nextDeliver = seqAt initSeq c)
    (hc : c ≤ sent.length) (hflow : sent.length ≤ c + flowWindowPackets)
    (hpending : ∀ e ∈ receiver.pending.entries, ∃ p s, c ≤ p ∧ sent[p]? = some s ∧ e.1 = seqAt initSeq p ∧
      e.2.1 = s.1) :
    Ran initSeq sent c receiver (takeInOrder fuel receiver).1
      ((takeInOrder fuel receiver).2.map Prod.snd) := by
  induction fuel generalizing receiver c with
  | zero => exact ⟨rfl, hc, hnext, rfl, ⟨rfl, rfl, rfl⟩, hpending⟩
  | succ fuel ih =>
    unfold takeInOrder
    cases hentry : receiver.pending.get? receiver.nextDeliver with
    | none => exact ⟨rfl, hc, hnext, rfl, ⟨rfl, rfl, rfl⟩, hpending⟩
    | some entry =>
      -- The entry at the cursor is the one that was sent there: another one would be too far.
      obtain ⟨p, s, hp, hs, hseq, hpayload⟩ := hpending _ (SortedMap.get?_eq_some.1 hentry)
      have hlt := lt_of_getElem? hs
      have hpc : p = c := by
        unfold flowWindowPackets at hflow
        exact seqAt_inj hp (by omega) (hseq.symm.trans hnext)
      subst hpc
      have hrest := ih { receiver with
        pending := receiver.pending.erase receiver.nextDeliver
        nextDeliver := seqNext receiver.nextDeliver } (p + 1) (by rw [hnext, seqNext_seqAt]) hlt (by omega)
        fun e he => by
          obtain ⟨hne, hold⟩ := SortedMap.mem_erase.1 he
          obtain ⟨q, t, hq, ht, hseqE, hpayloadE⟩ := hpending e hold
          refine ⟨q, t, Nat.lt_of_le_of_ne hq fun heq => hne ?_, ht, hseqE, hpayloadE⟩
          rw [hseqE, hnext, heq]
      generalize takeInOrder fuel _ = taken at hrest
      have hlength : (entry.1 :: taken.2.map Prod.snd).length = (taken.2.map Prod.snd).length + 1 := length_cons
      have hshift : p + 1 + (taken.2.map Prod.snd).length = p + (entry.1 :: taken.2.map Prod.snd).length := by
        omega
      refine ⟨?_, ?_, ?_, hrest.base, hrest.clear, ?_⟩
      · have hget : sent.drop p = s :: sent.drop (p + 1) := by
          rw [drop_eq_getElem_cons hlt, (List.getElem?_eq_some_iff.1 hs).2]
        have hentryPayload : entry.1 = s.1 := hpayload
        rw [map_cons, hlength, hget, take_succ_cons, map_cons, ← hrest.run, hentryPayload]
      · rw [map_cons, ← hshift]
        exact hrest.le
      · rw [map_cons, ← hshift]
        exact hrest.next
      · rw [map_cons, ← hshift]
        exact hrest.pending

theorem receiving_take (h : Receiving initSeq sent receiver first delivered)
    (hflow : sent.length ≤ first.getD 0 + delivered.length + flowWindowPackets) :
    Receiving initSeq sent receiver.takeReady.1 first (delivered ++ receiver.takeReady.2) := by
  cases first with
  | none =>
    obtain ⟨hbase, hempty, rfl⟩ := h.fresh rfl
    have hnone : receiver.takeReady = (receiver, []) := by
      unfold takeReady
      rw [SrtReceiver.takeReadySeqs_of_empty hempty]
      rfl
    rw [hnone]
    exact h
  | some b =>
    obtain ⟨hbase, hnext⟩ := h.base (by rintro ⟨⟩)
    have hran := ran_takeInOrder receiver.pending.size receiver (b + delivered.length) hnext h.cursor hflow h.pending
    change Ran initSeq sent _ receiver receiver.takeReady.1 receiver.takeReady.2 at hran
    generalize receiver.takeReady = taken at hran ⊢
    have hlength : b + (delivered ++ taken.2).length = b + delivered.length + taken.2.length := by
      rw [length_append, Nat.add_assoc]
    refine
      { cursor := ?_
        clear := ⟨hran.clear.1.trans h.clear.1, hran.clear.2.1.trans h.clear.2.1, hran.clear.2.2.trans h.clear.2.2⟩
        fresh := fun hnone => by cases hnone
        base := fun _ => ⟨hran.base.trans hbase, ?_⟩
        pending := ?_
        delivered := ?_ }
    · show b + (delivered ++ taken.2).length ≤ sent.length
      rw [hlength]
      exact hran.le
    · show _ = seqAt initSeq (b + (delivered ++ taken.2).length)
      rw [hlength]
      exact hran.next
    · show ∀ e ∈ _, ∃ p s, b + (delivered ++ taken.2).length ≤ p ∧ _
      rw [hlength]
      exact hran.pending
    · show delivered ++ taken.2 = ((sent.drop b).take (delivered ++ taken.2).length).map Prod.fst
      rw [length_append, take_add, map_append, drop_drop, ← hran.run]
      exact congrArg (· ++ taken.2) h.delivered

/-! ## Runs -/

theorem inv_step {link' : Link} (h : link.Inv)
    (hstep : Step DataInTime AckInTime link link') : link'.Inv := by
  have hflow : link.sent.length ≤ link.cursor + flowWindowPackets :=
    h.sending.flow.trans (Nat.add_le_add_right h.acknowledged _)
  cases hstep with
  | send payload timestamp htimestamp hroom =>
    exact
      { initSeq_lt := h.initSeq_lt
        sending := sending_send h.sending payload htimestamp hroom
        receiving := h.receiving.append _
        acknowledged := h.acknowledged
        acks := h.acks
        noAcks := h.noAcks }
  | arrive flight hflight hage =>
    unfold arrive
    cases hparse : parseDataPacket flight.value with
    | none => exact h
    | some pkt =>
      obtain ⟨hsentAt, hcarries⟩ := h.sending.packets flight hflight
      obtain ⟨p, s, hs, hseq, hpayload, hnear⟩ := hcarries pkt hparse
      have hp := lt_of_getElem? hs
      have hreceiving := h.receiving
      cases hfirst : link.first with
      | none =>
        rw [hfirst] at hreceiving
        have hdelivered := (hreceiving.fresh rfl).2.2
        have hzero : link.cursor = 0 := by
          unfold cursor
          rw [hfirst, hdelivered]
          rfl
        have hposition : seqDistance pkt.seq link.initSeq = p := by
          rw [hseq]
          refine seqDistance_add h.initSeq_lt ?_
          unfold flowWindowPackets at hflow
          omega
        have hnone : link.acks = [] := h.noAcks hfirst
        have hack := h.acknowledged
        rw [hzero] at hack
        exact
          { initSeq_lt := h.initSeq_lt
            sending := h.sending
            receiving := by
              show Receiving _ _ _ (some (seqDistance pkt.seq link.initSeq)) _
              rw [hposition]
              exact receiving_first hreceiving hs hseq hpayload
            acknowledged := hack.trans (Nat.zero_le _)
            acks := fun flight hflight => by
              rw [hnone] at hflight
              cases hflight
            noAcks := fun _ => hnone }
      | some b =>
        rw [hfirst] at hreceiving
        have hin := hreceiving.cursor
        have hold : b + link.delivered.length ≤ p + (2 ^ 31 - flowWindowPackets) := by
          change b + link.delivered.length ≤ link.sent.length at hin
          unfold DataInTime at hage
          unfold flowWindowPackets at hage hnear ⊢
          omega
        have hsame : cursor { link with
            receiver := (link.receiver.onData pkt).1
            first := some b } = link.cursor := by
          unfold cursor
          rw [hfirst]
        exact
          { initSeq_lt := h.initSeq_lt
            sending := h.sending
            receiving := receiving_next hreceiving hs hseq hpayload hold
            acknowledged := hsame.symm ▸ h.acknowledged
            acks := hsame.symm ▸ h.acks
            noAcks := fun hnone => by cases hnone }
  | take =>
    have htaken := receiving_take h.receiving hflow
    have hle : link.cursor ≤ link.take.cursor := by
      show link.first.getD 0 + link.delivered.length ≤
        link.first.getD 0 + (link.delivered ++ link.receiver.takeReady.2).length
      rw [length_append]
      omega
    exact
      { initSeq_lt := h.initSeq_lt
        sending := h.sending
        receiving := htaken
        acknowledged := h.acknowledged.trans hle
        acks := fun flight hflight => by
          obtain ⟨hack, hposition, hage⟩ := h.acks flight hflight
          exact ⟨hack, hposition.trans hle, hage⟩
        noAcks := h.noAcks }
  | acknowledge ack seq hseq hack =>
    have hbase : link.receiver.haveBase = true ∧ link.receiver.nextDeliver = seq := by
      unfold SrtReceiver.ackSeq at hseq
      split_ifs at hseq with hbase
      exact ⟨hbase, Option.some.inj hseq⟩
    have hfirst : link.first ≠ none := by
      intro hnone
      exact Bool.noConfusion (hbase.1.symm.trans (h.receiving.fresh hnone).1)
    have hnext := (h.receiving.base hfirst).2
    exact
      { initSeq_lt := h.initSeq_lt
        sending := h.sending
        receiving := h.receiving
        acknowledged := h.acknowledged
        acks := fun flight hflight => by
          rcases List.mem_append.1 hflight with hold | hnew
          · exact h.acks flight hold
          · rw [List.mem_singleton.1 hnew]
            refine ⟨?_, Nat.le_refl _, hflow⟩
            rw [hack, ← hbase.2, hnext]
            rfl
        noAcks := fun hnone => absurd hnone hfirst }
  | acked flight hflight hage timestamp =>
    obtain ⟨hack, hposition, hnear⟩ := h.acks flight hflight
    have hin : link.cursor ≤ link.sent.length := h.receiving.cursor
    have hrecent : link.sent.length ≤ flight.value.2 + 2 ^ 30 := by
      unfold AckInTime at hage
      unfold flowWindowPackets at hage hnear
      omega
    exact
      { initSeq_lt := h.initSeq_lt
        sending := sending_ack h.sending hack (hposition.trans hin) hrecent timestamp
        receiving := h.receiving
        acknowledged := max_le h.acknowledged hposition
        acks := h.acks
        noAcks := h.noAcks }
  | lossReport loss timestamp =>
    exact
      { initSeq_lt := h.initSeq_lt
        sending := sending_nak h.sending loss timestamp
        receiving := h.receiving
        acknowledged := h.acknowledged
        acks := h.acks
        noAcks := h.noAcks }

theorem Inv.gapFree (h : link.Inv) : link.GapFree := by
  obtain ⟨oldest, hle, hack, hcapacity, hbuffer⟩ := h.sending.buffer
  have hfound : ∀ p s, link.sent[p]? = some s → link.cursor ≤ p → link.sent.length ≤ p + link.sender.capacity →
      link.sender.buffered (seqAt link.initSeq p) =
        some { seq := seqAt link.initSeq p, kk := 0, timestamp := s.2, data := s.1 } := by
    intro p s hs hp hnewest
    have hacknowledged := h.acknowledged
    exact buffered_eq h.sending (by omega) hack hbuffer hs
  refine ⟨h.receiving.delivered, fun hnone => (h.receiving.fresh hnone).2.2, hfound, ?_⟩
  intro p s hs hp hnewest loss hloss timestamp
  refine ⟨_, mem_map_of_mem (List.mem_filterMap.2 ⟨_, hloss, hfound p s hs hp hnewest⟩), _,
    parse_resend h.sending (mem_of_getElem? hs), rfl, rfl, rfl, rfl, rfl⟩

theorem inv_of_reachable {dstSocketId capacity lossMaxTtl : Nat} (hdst : dstSocketId < 256 ^ 4)
    (h : Reachable DataInTime AckInTime dstSocketId initSeq capacity lossMaxTtl link) : link.Inv := by
  induction h with
  | start => exact inv_start _ _ _ _ hdst
  | step _ hstep ih => exact inv_step ih hstep

/-- In every state of every run in which no packet is so old that its sequence number is in use again, what is
delivered is a run of what was sent, and what is not delivered and not too old is sent again. -/
theorem gap_free {dstSocketId capacity lossMaxTtl : Nat} (hdst : dstSocketId < 256 ^ 4)
    (h : Reachable DataInTime AckInTime dstSocketId initSeq capacity lossMaxTtl link) : link.GapFree :=
  (inv_of_reachable hdst h).gapFree

/-- A run across the wrap, in which the first packet is lost and the second one is delivered. -/
theorem gap_free_across_wrap : ((((start 7 (2 ^ 31 - 1) 4 0).send [1] 0).send [2] 1).arrive
      (buildDataPacket 0 2 false 0 1 7 [2])).take.GapFree := by
  have hone : Reachable DataInTime AckInTime 7 (2 ^ 31 - 1) 4 0 ((start 7 (2 ^ 31 - 1) 4 0).send [1] 0) :=
    .step .start (.send [1] 0 (by decide) (by decide))
  have htwo := hone.step (.send [2] 1 (by decide) (by decide))
  have harrived := htwo.step (.arrive { value := buildDataPacket 0 2 false 0 1 7 [2], sentAt := 2 }
    (.tail _ (.head _)) (Nat.zero_le _))
  exact gap_free (by decide) (harrived.step .take)

/-! ## An old packet -/

theorem take_one (hempty : receiver.pending.entries = [])
    (hnext : (receiver.withBase pkt.seq).nextDeliver = pkt.seq) (hseq : pkt.seq < 2 ^ 31) :
    (receiver.onData pkt).1.takeReady.2.length = 1 ∧ (receiver.onData pkt).1.takeReady.1.pending.entries = [] := by
  obtain ⟨hcursor, hpending⟩ := onData_stored receiver pkt
  have hbase : (receiver.withBase pkt.seq).pending = receiver.pending := by
    unfold withBase
    split_ifs <;> rfl
  have haccepts : (receiver.withBase pkt.seq).accepts pkt.seq = true := by
    unfold accepts SortedMap.contains
    rw [hnext, hbase, hempty, (seqGe_iff hseq hseq).2 (by rw [seqDistance_self]; decide), seqDistance_self]
    rfl
  rw [if_pos haccepts] at hpending
  have hplace := hcursor.next.trans hnext
  generalize ((receiver.withBase pkt.seq).decrypt pkt, pkt.timestamp) = entry at hpending
  have hentries : (receiver.onData pkt).1.pending.entries = [(pkt.seq, entry)] := by
    rw [hpending]
    show SortedMap.insertEntry _ _ receiver.pending.entries = _
    rw [hempty]
    rfl
  generalize (receiver.onData pkt).1 = r at *
  have hget : r.pending.get? r.nextDeliver = some entry := by
    rw [SortedMap.get?_eq_some, hentries, hplace]
    exact mem_singleton_self _
  have hsize : r.pending.size = 1 := congrArg List.length hentries
  have hleft : (r.pending.erase r.nextDeliver).entries = [] := by
    have hperm := SortedMap.size_erase hget
    rw [hsize] at hperm
    exact List.length_eq_zero_iff.1 (Nat.succ.inj hperm.symm)
  unfold takeReady SrtReceiver.takeReadySeqs
  rw [hsize]
  unfold takeInOrder
  rw [hget]
  exact ⟨rfl, hleft⟩

/-- A state in which all that was sent is delivered and acknowledged, and the first packet is still on the network. -/
structure CaughtUp (k : Nat) (link : Link) : Prop where
  reachable : Reachable DataInTime AckInTime 0 0 1 0 link
  initSeq : link.initSeq = 0
  sent : link.sent.length = k
  delivered : link.delivered.length = k
  acknowledged : link.acknowledged = k
  empty : link.receiver.pending.entries = []
  first : link.first = if k = 0 then none else some 0
  old : 0 < k → ∃ flight ∈ link.packets, ∃ pkt, parseDataPacket flight.value = some pkt ∧ pkt.seq = 0

/-- What an arrival and a delivery change, if they deliver one packet. -/
structure DeliversOne (link link' : Link) : Prop where
  initSeq : link'.initSeq = link.initSeq
  sent : link'.sent = link.sent
  delivered : link'.delivered.length = link.delivered.length + 1
  acknowledged : link'.acknowledged = link.acknowledged
  empty : link'.receiver.pending.entries = []
  packets : link'.packets = link.packets

theorem deliversOne {bytes : List UInt8} (hparse : parseDataPacket bytes = some pkt)
    (hempty : link.receiver.pending.entries = [])
    (hnext : (link.receiver.withBase pkt.seq).nextDeliver = pkt.seq) : DeliversOne link (link.arrive bytes).take := by
  obtain ⟨hone, hleft⟩ := take_one hempty hnext pkt.seq_lt
  unfold arrive
  rw [hparse]
  refine ⟨rfl, rfl, ?_, rfl, hleft, rfl⟩
  show (link.delivered ++ (link.receiver.onData pkt).1.takeReady.2).length = _
  rw [length_append, hone]

theorem first_arrive {bytes : List UInt8} (hparse : parseDataPacket bytes = some pkt) :
    (link.arrive bytes).take.first = link.first.orElse fun _ => some (seqDistance pkt.seq link.initSeq) := by
  unfold arrive
  rw [hparse]
  rfl

theorem parse_send (h : link.Inv) :
    ∃ pkt, parseDataPacket (link.sender.send [] 0).2 = some pkt ∧ pkt.seq = seqAt link.initSeq link.sent.length := by
  rw [h.sending.send_eq, parseDataPacket_buildDataPacket (by decide) (by decide) h.sending.socket]
  exact ⟨_, rfl, Nat.mod_eq_of_lt (seqAt_lt _ _)⟩

theorem CaughtUp.next {k : Nat} (h : link.CaughtUp k) (hseq : pkt.seq = seqAt 0 k) :
    (link.receiver.withBase pkt.seq).nextDeliver = pkt.seq := by
  have hinv := inv_of_reachable (by decide) h.reachable
  unfold withBase
  split_ifs with hbase
  · have hfirst : link.first ≠ none := by
      intro hnone
      exact Bool.noConfusion (hbase.symm.trans (hinv.receiving.fresh hnone).1)
    have hzero : link.first = some 0 := by
      have hcase := h.first
      split_ifs at hcase
      · exact absurd hcase hfirst
      · exact hcase
    rw [(hinv.receiving.base hfirst).2, h.initSeq, hzero, h.delivered, hseq]
    exact congrArg _ (Nat.zero_add k)
  · rfl

/-- A round: a packet is sent, arrives, is delivered and acknowledged. -/
theorem CaughtUp.succ {k : Nat} (h : link.CaughtUp k) : ∃ link' : Link, link'.CaughtUp (k + 1) := by
  have hinv := inv_of_reachable (by decide) h.reachable
  obtain ⟨pkt, hparse, hseq⟩ := parse_send hinv
  rw [h.initSeq, h.sent] at hseq
  have hsend := h.reachable.step (.send [] 0 (by decide) (by
    rw [h.sent, h.acknowledged]
    exact Nat.lt_add_of_pos_right (by decide)))
  let flight : Flight (List UInt8) := { value := (link.sender.send [] 0).2, sentAt := link.sent.length + 1 }
  have hflight : flight ∈ (link.send [] 0).packets := mem_append_right _ (mem_singleton_self _)
  have hlength : (link.send [] 0).sent.length = k + 1 := by
    show (link.sent ++ [_]).length = k + 1
    rw [length_append, h.sent]
    rfl
  have htake := (hsend.step (.arrive flight hflight (by
    rw [hlength]
    show k + 1 - (link.sent.length + 1) ≤ _
    rw [h.sent, Nat.sub_self]
    exact Nat.zero_le _))).step .take
  have hfirst : ((link.send [] 0).arrive flight.value).take.first = some 0 := by
    rw [first_arrive hparse]
    show (link.first.orElse fun _ => some (seqDistance pkt.seq link.initSeq)) = some 0
    rw [h.first]
    split_ifs with hk
    · show some (seqDistance pkt.seq link.initSeq) = some 0
      rw [hseq, h.initSeq, hk]
      rfl
    · rfl
  have hone : DeliversOne (link.send [] 0) ((link.send [] 0).arrive flight.value).take :=
    deliversOne hparse h.empty (h.next hseq)
  generalize ((link.send [] 0).arrive flight.value).take = later at htake hfirst hone
  have hdelivered : later.delivered.length = k + 1 := by
    rw [hone.delivered]
    exact congrArg (· + 1) h.delivered
  have hinvLater := inv_of_reachable (by decide) htake
  obtain ⟨hbase, hnext⟩ := hinvLater.receiving.base (by rw [hfirst]; exact some_ne_none 0)
  have hcursor : later.cursor = k + 1 := by
    unfold cursor
    rw [hfirst, hdelivered]
    exact Nat.zero_add _
  have hackSeq : later.receiver.ackSeq = some later.receiver.nextDeliver := if_pos hbase
  have hack := htake.step (.acknowledge (.lightAck later.receiver.nextDeliver) _ hackSeq rfl)
  have hacked := hack.step (.acked
    { value := (.lightAck later.receiver.nextDeliver, later.cursor), sentAt := later.sent.length }
    (mem_append_right _ (mem_singleton_self _)) (by
      show later.sent.length - later.sent.length ≤ _
      rw [Nat.sub_self]
      exact Nat.zero_le _) 0)
  refine ⟨_, hacked, ?_, ?_, hdelivered, ?_, hone.empty, hfirst, fun _ => ?_⟩
  · exact hone.initSeq.trans h.initSeq
  · exact (congrArg List.length hone.sent).trans hlength
  · show max later.acknowledged later.cursor = k + 1
    rw [hone.acknowledged, hcursor]
    show max link.acknowledged (k + 1) = k + 1
    rw [h.acknowledged]
    omega
  · have hold : ∃ old ∈ later.packets, ∃ pkt, parseDataPacket old.value = some pkt ∧ pkt.seq = 0 := by
      rw [hone.packets]
      rcases Nat.eq_zero_or_pos k with hk | hk
      · exact ⟨flight, hflight, pkt, hparse, by rw [hseq, hk]; rfl⟩
      · obtain ⟨old, hmem, hrest⟩ := h.old hk
        exact ⟨old, mem_append_left _ hmem, hrest⟩
    obtain ⟨old, hmem, hrest⟩ := hold
    exact ⟨old, mem_append_left _ hmem, hrest⟩

theorem exists_caughtUp (k : Nat) : ∃ link : Link, link.CaughtUp k := by
  induction k with
  | zero => exact ⟨_, .start, rfl, rfl, rfl, rfl, rfl, rfl, fun h => absurd h (Nat.lt_irrefl 0)⟩
  | succ k ih =>
    obtain ⟨link, hlink⟩ := ih
    exact hlink.succ

theorem Reachable.mono {dataInTime ackInTime : Nat → Prop} {dstSocketId capacity lossMaxTtl : Nat}
    (h : Reachable DataInTime AckInTime dstSocketId initSeq capacity lossMaxTtl link)
    (hdata : ∀ age, DataInTime age → dataInTime age) (hack : ∀ age, AckInTime age → ackInTime age) :
    Reachable dataInTime ackInTime dstSocketId initSeq capacity lossMaxTtl link := by
  induction h with
  | start => exact .start
  | step _ hstep ih =>
    refine ih.step ?_
    cases hstep with
    | send payload timestamp htimestamp hflow => exact .send payload timestamp htimestamp hflow
    | arrive flight hflight hage => exact .arrive flight hflight (hdata _ hage)
    | take => exact .take
    | acknowledge ack seq hseq hack => exact .acknowledge ack seq hseq hack
    | acked flight hflight hage timestamp => exact .acked flight hflight (hack _ hage) timestamp
    | lossReport loss timestamp => exact .lossReport loss timestamp

/-- On a network that keeps packets for any time, the first packet is delivered once more when its sequence number is
the next one again. -/
theorem old_packet_delivered_again :
    ¬ ∀ link : Link, Reachable (fun _ => True) (fun _ => True) 0 0 1 0 link → link.GapFree := by
  intro hall
  obtain ⟨link, h⟩ := exists_caughtUp (2 ^ 31)
  obtain ⟨old, hmem, pkt, hparse, hseq⟩ := h.old (by decide)
  have hreachable := h.reachable.mono (fun _ _ => trivial) (fun _ _ => trivial)
  have hagain := (hreachable.step (.arrive old hmem trivial)).step .take
  have hone := deliversOne hparse h.empty (h.next (hseq.trans rfl))
  have hrun := congrArg List.length (hall _ hagain).delivered
  rw [hone.delivered, hone.sent, length_map, length_take, length_drop, h.sent, h.delivered] at hrun
  omega

end Link

end Glass2Glass.Srt
