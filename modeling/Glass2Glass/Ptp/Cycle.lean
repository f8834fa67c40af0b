import Glass2Glass.Ptp.Slave

/-!
# One cycle to an exchange

A slave is fed messages in any order and with any loss, and is told when its requests went out. Messages and reports
have a number of their own here, of which the wire has 16 bits. What a slave knows comes from one cycle of what it was
fed (`Phase`), so that each exchange does (`PtpSlave.exchange_of_cycle`), as long as nothing is 65536 numbers away from
what it is matched with (`PtpSlave.mixed_cycles`).
-/

namespace Glass2Glass.Ptp

open List Option

open Words (beNat slice byteAt)

/-- What comes to a slave: a message, or the report that a request was sent. The number is the one that the message of
the master has among its Syncs, or the request among the requests. -/
inductive Input where
  | message (msg : List UInt8) (localRxNs index : Nat)
  | sent (seq t3 index : Nat)
  deriving DecidableEq

structure Entry where
  input : Input
  action : SlaveAction
  deriving DecidableEq

namespace PtpSlave

def receive (s : PtpSlave) : Input → SlaveAction × PtpSlave
  | .message msg localRxNs _ => s.onMessage msg localRxNs
  | .sent seq t3 _ => (.idle, s.delayReqSent seq t3)

def next (t : PtpSlave × List Entry) (i : Input) : PtpSlave × List Entry :=
  ((t.1.receive i).2, t.2 ++ [{ input := i, action := (t.1.receive i).1 }])

def run (s : PtpSlave) (inputs : List Input) : PtpSlave × List Entry := inputs.foldl next (s, [])

end PtpSlave

/-! ## Cycles -/

def headerOn (domain : UInt8) (msg : List UInt8) : Option PtpHeader :=
  (PtpHeader.parse msg).filter fun h => h.domain = domain

def SlaveAction.isRequest : SlaveAction → Bool
  | sendDelayReq _ => true
  | _ => false

def SlaveAction.isExchange : SlaveAction → Bool
  | exchange _ _ _ _ => true
  | _ => false

def Input.syncIndex (domain : UInt8) : Input → Option Nat
  | message msg _ index => if (headerOn domain msg).map (·.messageType) = some .sync then some index else none
  | sent _ _ _ => none

/-- The number of the last Sync that came. -/
def lastSync (domain : UInt8) (log : List Entry) : Option Nat :=
  (log.filterMap fun e => e.input.syncIndex domain).getLast?

/-- The requests that were made. -/
def requests (log : List Entry) : Nat := log.countP fun e => e.action.isRequest

/-- A number that is matched with the last one on 16 bits is less than those away from it. -/
def Near (index last : Nat) : Prop := index < last + 2 ^ 16 ∧ last < index + 2 ^ 16

instance (index last : Nat) : Decidable (Near index last) := inferInstanceAs (Decidable (_ ∧ _))

/-- A report or a response speaks of a request that was made, and not of one too many requests ago. -/
def Answers (log : List Entry) (index : Nat) : Prop := index ≤ requests log ∧ requests log < index + 2 ^ 16

instance (log : List Entry) (index : Nat) : Decidable (Answers log index) := inferInstanceAs (Decidable (_ ∧ _))

/-- What may come after `log` to a slave: what it does not read, or what has the bits of its number and is in time. -/
def Admissible (domain : UInt8) (clockId : List UInt8) (port : Nat) (log : List Entry) : Input → Prop
  | .sent seq _ index => seq = index % 2 ^ 16 ∧ Answers log index
  | .message msg _ index => ∀ h ∈ headerOn domain msg,
    (h.messageType = .sync → h.sequenceId = index % 2 ^ 16)
    ∧ (h.messageType = .followUp → h.sequenceId = index % 2 ^ 16 ∧ ∀ last ∈ lastSync domain log, Near index last)
    ∧ (h.messageType = .delayResp → ∀ resp ∈ DelayResp.parse msg,
      resp.requestingClockId = clockId → resp.requestingPort = port → h.sequenceId = index % 2 ^ 16 ∧ Answers log index)

instance (domain : UInt8) (clockId : List UInt8) (port : Nat) (log : List Entry) :
    (i : Input) → Decidable (Admissible domain clockId port log i)
  | .sent _ _ _ => inferInstanceAs (Decidable (_ ∧ _))
  | .message _ _ _ => inferInstanceAs (Decidable (∀ h ∈ _, _))

def InTime (domain : UInt8) (clockId : List UInt8) (port : Nat) (t : PtpSlave × List Entry) : List Input → Prop
  | [] => True
  | i :: inputs => Admissible domain clockId port t.2 i ∧ InTime domain clockId port (PtpSlave.next t i) inputs

instance decidableInTime (domain : UInt8) (clockId : List UInt8) (port : Nat) :
    (t : PtpSlave × List Entry) → (inputs : List Input) → Decidable (InTime domain clockId port t inputs)
  | _, [] => inferInstanceAs (Decidable True)
  | t, i :: inputs =>
    have := decidableInTime domain clockId port (PtpSlave.next t i) inputs
    inferInstanceAs (Decidable (_ ∧ _))

/-- A time less or more a correction, at an end of 64 bits if it is past that. -/
structure Corrected (time : Nat) (ns : Int) (t : Nat) : Prop where
  exact : 0 ≤ (time : Int) + ns → (time : Int) + ns < 2 ^ 64 → (t : Int) = time + ns
  before : (time : Int) + ns < 0 → t = 0
  after : 2 ^ 64 ≤ (time : Int) + ns → t = 2 ^ 64 - 1

/-- Neither a Sync nor a request. -/
def Quiet (domain : UInt8) (log : List Entry) : Prop :=
  ∀ e ∈ log, e.input.syncIndex domain = none ∧ e.action.isRequest = false

/-- A cycle up to its request: a Sync that has its origin with it, or one whose origin came in the Follow_Up of the same
number. -/
inductive Opening (domain : UInt8) : List Entry → Nat → Nat → Prop
  | oneStep {sync : Entry} {msg : List UInt8} {t2 index origin t1 : Nat} {h : PtpHeader}
      (hinput : sync.input = .message msg t2 index) (hheader : headerOn domain msg = some h)
      (htype : h.messageType = .sync) (hstep : h.twoStep = false)
      (horigin : parseTimestamp msg bodyOffset = some origin) (ht1 : Corrected origin h.correctionNs t1)
      (hrequest : sync.action.isRequest = true) : Opening domain [sync] t1 t2
  | twoStep {sync followUp : Entry} {quiet : List Entry} {msg msg' : List UInt8} {t2 rx index origin t1 : Nat}
      {h h' : PtpHeader} (hinput : sync.input = .message msg t2 index) (hheader : headerOn domain msg = some h)
      (htype : h.messageType = .sync) (hstep : h.twoStep = true) (hsync : sync.action.isRequest = false)
      (hquiet : Quiet domain quiet) (hinput' : followUp.input = .message msg' rx index)
      (hheader' : headerOn domain msg' = some h') (htype' : h'.messageType = .followUp)
      (horigin : parseTimestamp msg' bodyOffset = some origin)
      (ht1 : Corrected origin (h.correctionNs + h'.correctionNs) t1)
      (hrequest : followUp.action.isRequest = true) : Opening domain (sync :: quiet ++ [followUp]) t1 t2

/-- The last report that a request was sent says when. -/
def Reported (request : Nat) (log : List Entry) (t3 : Nat) : Prop :=
  ∃ earlier later seq action, log = earlier ++ [{ input := .sent seq t3 request, action }] ++ later
    ∧ ∀ e ∈ later, ∀ seq t3, e.input ≠ .sent seq t3 request

/-- An exchange of one cycle: the last Sync on the domain, its origin, the only request since then, the report that it
was sent, and the response to it. No exchange came of the request before. -/
def ExchangeOf (domain : UInt8) (clockId : List UInt8) (port : Nat) (log : List Entry) (i : Input) (t1 t2 t3 t4 : Nat) :
    Prop :=
  ∃ before opening after, log = before ++ opening ++ after ∧ Opening domain opening t1 t2
    ∧ Quiet domain after ∧ (∀ e ∈ after, e.action.isExchange = false)
    ∧ Reported (requests (before ++ opening)) after t3
    ∧ ∃ msg rx h resp, i = .message msg rx (requests (before ++ opening)) ∧ headerOn domain msg = some h
      ∧ h.messageType = .delayResp ∧ DelayResp.parse msg = some resp ∧ resp.requestingClockId = clockId
      ∧ resp.requestingPort = port ∧ Corrected resp.receiveTsNs (-h.correctionNs) t4

/-! ## Times and numbers -/

theorem corrected_saturatingAddSigned (time : Nat) (ns : Int) : Corrected time ns (saturatingAddSigned time ns) := by
  refine ⟨fun hlow hhigh => ?_, fun hbefore => ?_, fun hafter => ?_⟩
  all_goals
    simp only [saturatingAddSigned]
    omega

theorem signed64_bounds {n : Nat} (h : n < 2 ^ 64) : -2 ^ 63 ≤ signed64 n ∧ signed64 n < 2 ^ 63 := by
  rw [signed64]
  split_ifs <;> constructor <;> omega

variable {h : PtpHeader}

theorem PtpHeader.parse_correctionNs {buf : List UInt8} (hparse : PtpHeader.parse buf = some h) :
    -2 ^ 47 ≤ h.correctionNs ∧ h.correctionNs < 2 ^ 47 := by
  rw [PtpHeader.parse] at hparse
  split_ifs at hparse with hlength
  have hwidth : (slice buf 8 8).length = 8 := by
    simp only [headerLen] at hlength
    rw [slice, length_take, length_drop]
    omega
  have hraw : beNat (slice buf 8 8) < 2 ^ 64 := Words.beNat_lt hwidth
  obtain ⟨hlow, hhigh⟩ := signed64_bounds hraw
  have hcorrection : h.correctionNs = signed64 (beNat (slice buf 8 8)) / 2 ^ 16 := by
    rw [← Option.some.inj hparse]
  omega

theorem saturatingAddI64_of_bounds {a b : Int} (ha : -2 ^ 47 ≤ a ∧ a < 2 ^ 47) (hb : -2 ^ 47 ≤ b ∧ b < 2 ^ 47) :
    saturatingAddI64 a b = a + b := by
  simp only [saturatingAddI64]
  omega

variable {msg : List UInt8}

variable {domain : UInt8}

theorem headerOn_eq_some :
    headerOn domain msg = some h ↔ PtpHeader.parse msg = some h ∧ h.domain = domain := by
  rw [headerOn, filter_eq_some_iff, decide_eq_true_iff]

variable {index : Nat}

theorem Near.eq {last : Nat} (h : Near index last) (hbits : index % 2 ^ 16 = last % 2 ^ 16) : index = last := by
  obtain ⟨h₁, h₂⟩ := h
  omega

@[simp] theorem requests_append (log log' : List Entry) : requests (log ++ log') = requests log + requests log' :=
  countP_append

@[simp] theorem requests_singleton (e : Entry) : requests [e] = if e.action.isRequest = true then 1 else 0 := by
  simp [requests]

variable {e : Entry} {log : List Entry}

theorem requests_concat_of_not (h : e.action.isRequest = false) : requests (log ++ [e]) = requests log := by
  rw [requests_append, requests_singleton, h]
  rfl

theorem requests_concat (h : e.action.isRequest = true) : requests (log ++ [e]) = requests log + 1 := by
  rw [requests_append, requests_singleton, if_pos h]

theorem Quiet.requests (h : Quiet domain log) : requests log = 0 :=
  List.countP_eq_zero.mpr fun e he hrequest => absurd hrequest (by simp [(h e he).2])

theorem Quiet.concat (h : Quiet domain log)
    (hsync : e.input.syncIndex domain = none) (hrequest : e.action.isRequest = false) : Quiet domain (log ++ [e]) := by
  intro e' he'
  rw [mem_append, mem_singleton] at he'
  rcases he' with he' | rfl
  · exact h e' he'
  · exact ⟨hsync, hrequest⟩

theorem Quiet.nil (domain : UInt8) : Quiet domain [] := by simp [Quiet]

theorem Opening.requests {opening : List Entry} {t1 t2 : Nat} (h : Opening domain opening t1 t2) :
    requests opening = 1 := by
  cases h with
  | oneStep hinput hheader htype hstep horigin ht1 hrequest => rw [requests_singleton, if_pos hrequest]
  | twoStep hinput hheader htype hstep hsync hquiet hinput' hheader' htype' horigin ht1 hrequest =>
    rename_i sync followUp quiet msg msg' rx index origin h h'
    have hcons : sync :: quiet ++ [followUp] = [sync] ++ quiet ++ [followUp] := rfl
    rw [hcons, requests_append, requests_append, requests_singleton, requests_singleton, hquiet.requests, if_pos hrequest,
      hsync]
    rfl

theorem syncIndex_of_header {rx : Nat}
    (hheader : headerOn domain msg = some h) :
    (Input.message msg rx index).syncIndex domain = if h.messageType = .sync then some index else none := by
  simp only [Input.syncIndex, hheader, map_some, Option.some.injEq]

theorem syncIndex_of_none {rx : Nat} (hheader : headerOn domain msg = none) :
    (Input.message msg rx index).syncIndex domain = none := by
  simp [Input.syncIndex, hheader]

theorem lastSync_of_quiet {before quiet : List Entry} {sync : Entry}
    (hsync : sync.input.syncIndex domain = some index) (hquiet : Quiet domain quiet) :
    lastSync domain (before ++ sync :: quiet) = some index := by
  have hnone : quiet.filterMap (fun e => e.input.syncIndex domain) = [] :=
    List.filterMap_eq_nil_iff.mpr fun e he => (hquiet e he).1
  have hcons : (sync :: quiet).filterMap (fun e => e.input.syncIndex domain) = [index] := by
    simp only [filterMap_cons, hsync, hnone]
  rw [lastSync, filterMap_append, hcons, List.getLast?_concat]

/-! ## What a slave knows -/

/-- What a slave holds comes from one cycle of what came to it: no Sync came, or its origin did not come, or it did and
the delay was asked for. -/
inductive Phase (domain : UInt8) : List Entry → PtpSlave → Prop
  | fresh {log : List Entry} {s : PtpSlave} (hlog : Quiet domain log) (hsync : s.syncSeq = none) (ht1 : s.t1 = none)
      (hdr : s.drSeq = none) : Phase domain log s
  | waiting {before quiet : List Entry} {sync : Entry} {s : PtpSlave} {msg : List UInt8} {rx index : Nat} {h : PtpHeader}
      (hinput : sync.input = .message msg rx index) (hheader : headerOn domain msg = some h)
      (htype : h.messageType = .sync) (hindex : h.sequenceId = index % 2 ^ 16) (hsync : sync.action.isRequest = false)
      (hquiet : Quiet domain quiet) (hseq : s.syncSeq = some h.sequenceId) (hstep : s.twoStep = h.twoStep)
      (hcorrection : s.syncCorrectionNs = h.correctionNs) (ht1 : s.t1 = none) (ht2 : s.t2 = some rx)
      (hdr : s.drSeq = none) : Phase domain (before ++ sync :: quiet) s
  | asked {before opening after : List Entry} {s : PtpSlave} {t1 t2 : Nat} (hopening : Opening domain opening t1 t2)
      (hquiet : Quiet domain after) (ht1 : s.t1 = some t1) (ht2 : s.t2 = some t2)
      (hdr : ∀ seq, s.drSeq = some seq → seq = requests (before ++ opening) % 2 ^ 16
        ∧ (∀ e ∈ after, e.action.isExchange = false)
        ∧ ∀ t3, s.t3 = some t3 → Reported (requests (before ++ opening)) after t3) :
      Phase domain (before ++ opening ++ after) s

/-- A slave of its own, whose requests are counted, in its phase. -/
structure Knows (domain : UInt8) (clockId : List UInt8) (port : Nat) (t : PtpSlave × List Entry) : Prop where
  ownDomain : t.1.domain = domain
  ownClockId : t.1.ourClockId = clockId
  ownPort : t.1.ourPort = port
  delayReqSeq : t.1.delayReqSeq = requests t.2 % 2 ^ 16
  phase : Phase domain t.2 t.1

theorem Phase.idle {s : PtpSlave} (h : Phase domain log s)
    (hsync : e.input.syncIndex domain = none) (haction : e.action = .idle)
    (hreport : s.drSeq ≠ none → ∀ seq t3, e.input ≠ .sent seq t3 (requests log)) : Phase domain (log ++ [e]) s := by
  have hrequest : e.action.isRequest = false := by rw [haction]; rfl
  cases h with
  | fresh hlog hseq ht1 hdr => exact .fresh (hlog.concat hsync hrequest) hseq ht1 hdr
  | waiting hinput hheader htype hindex hsync' hquiet hseq hstep hcorrection ht1 ht2 hdr =>
    rw [append_assoc, cons_append]
    exact .waiting hinput hheader htype hindex hsync' (hquiet.concat hsync hrequest) hseq hstep hcorrection ht1 ht2 hdr
  | asked hopening hquiet ht1 ht2 hdr =>
    rw [append_assoc]
    refine .asked hopening (hquiet.concat hsync hrequest) ht1 ht2 fun seq hseq => ?_
    obtain ⟨hbits, hexchange, hreported⟩ := hdr seq hseq
    rw [requests_append _ _, hquiet.requests, Nat.add_zero] at hreport
    refine ⟨hbits, ?_, fun t3 ht3 => ?_⟩
    · intro e' he'
      rw [mem_append, mem_singleton] at he'
      rcases he' with he' | rfl
      · exact hexchange e' he'
      · rw [haction]
        rfl
    · obtain ⟨earlier, later, seq', action, rfl, hlater⟩ := hreported t3 ht3
      refine ⟨earlier, later ++ [e], seq', action, by simp, ?_⟩
      intro e' he'
      rw [mem_append, mem_singleton] at he'
      rcases he' with he' | rfl
      · exact hlater e' he'
      · exact hreport (by rw [hseq]; exact some_ne_none seq)

theorem Phase.asked_begins {before opening : List Entry} {s : PtpSlave} {t1 t2 seq : Nat}
    (hopening : Opening domain opening t1 t2) (ht1 : s.t1 = some t1) (ht2 : s.t2 = some t2)
    (hseq : seq = (requests before + 1) % 2 ^ 16) (hdr : s.drSeq = some seq) (ht3 : s.t3 = none) :
    Phase domain (before ++ opening) s := by
  rw [← append_nil (before ++ opening)]
  refine .asked hopening (.nil domain) ht1 ht2 fun seq' hseq' => ⟨?_, by simp, fun t3 hsome => ?_⟩
  · rw [← Option.some.inj (hdr.symm.trans hseq'), requests_append, hopening.requests]
    exact hseq
  · exact absurd (ht3.symm.trans hsome) (some_ne_none t3).symm

section Step

variable {domain : UInt8} {clockId : List UInt8} {port : Nat} {t : PtpSlave × List Entry}

theorem Knows.idle (h : Knows domain clockId port t) {i : Input} (hsync : i.syncIndex domain = none)
    (hreceive : t.1.receive i = (.idle, t.1)) (hreport : t.1.drSeq ≠ none → ∀ seq t3, i ≠ .sent seq t3 (requests t.2)) :
    Knows domain clockId port (PtpSlave.next t i) := by
  have hnext : PtpSlave.next t i = (t.1, t.2 ++ [{ input := i, action := .idle }]) := by rw [PtpSlave.next, hreceive]
  rw [hnext]
  refine ⟨h.ownDomain, h.ownClockId, h.ownPort, ?_, h.phase.idle hsync rfl hreport⟩
  exact h.delayReqSeq.trans (congrArg (· % 2 ^ 16) (requests_concat_of_not rfl).symm)

variable {msg : List UInt8} {index rx : Nat}

theorem message_not_sent {request : Nat} :
    ∀ seq t3, Input.message msg rx index ≠ .sent seq t3 request := fun _ _ => Input.noConfusion

/-- A report for the request of the cycle. -/
theorem Knows.sent (h : Knows domain clockId port t) {seq t3 : Nat} (hbits : seq = index % 2 ^ 16)
    (hanswers : Answers t.2 index) : Knows domain clockId port (PtpSlave.next t (.sent seq t3 index)) := by
  obtain ⟨s, log⟩ := t
  have hmade : index ≤ requests log := hanswers.1
  have hlate : requests log < index + 2 ^ 16 := hanswers.2
  have hphase : Phase domain log s := h.phase
  by_cases hdr : s.drSeq = some seq
  · have hnext : PtpSlave.next (s, log) (.sent seq t3 index)
        = ({ s with t3 := some t3 }, log ++ [{ input := .sent seq t3 index, action := .idle }]) := by
      simp only [PtpSlave.next, PtpSlave.receive, PtpSlave.delayReqSent, if_pos hdr]
    rw [hnext]
    refine ⟨h.ownDomain, h.ownClockId, h.ownPort, ?_, ?_⟩
    · exact h.delayReqSeq.trans (congrArg (· % 2 ^ 16) (requests_concat_of_not rfl).symm)
    · clear hnext h hanswers
      cases hphase with
      | fresh hlog hseq ht1 hnone
      | waiting hinput hheader htype hindex hsync hquiet hseq hstep hcorrection ht1 ht2 hnone =>
        exact absurd (hdr.symm.trans hnone) (some_ne_none seq)
      | asked hopening hquiet ht1 ht2 hknown =>
        rename_i before opening after t1 t2
        obtain ⟨hrequest, hexchange, -⟩ := hknown seq hdr
        have hindex : index = requests (before ++ opening) := by
          rw [requests_append (before ++ opening), hquiet.requests] at hmade hlate
          omega
        rw [append_assoc]
        refine .asked hopening (hquiet.concat rfl rfl) ht1 ht2 fun seq' hseq' => ?_
        obtain rfl : seq = seq' := Option.some.inj (hdr.symm.trans hseq')
        refine ⟨hrequest, ?_, fun t3' ht3' => ?_⟩
        · intro e he
          rw [mem_append, mem_singleton] at he
          rcases he with he | rfl
          · exact hexchange e he
          · rfl
        · obtain rfl : t3 = t3' := Option.some.inj ht3'
          exact ⟨after, [], seq, .idle, by rw [hindex, append_nil], by simp⟩
  · refine h.idle rfl ?_ fun hsome seq' t3' heq => ?_
    · simp only [PtpSlave.receive, PtpSlave.delayReqSent, if_neg hdr]
    · -- A report for the request of the cycle has its bits.
      obtain ⟨-, -, rfl⟩ := Input.sent.inj heq
      cases hphase with
      | fresh hlog hseq ht1 hnone
      | waiting hinput hheader htype hindex hsync hquiet hseq hstep hcorrection ht1 ht2 hnone =>
        exact hsome hnone
      | asked hopening hquiet ht1 ht2 hknown =>
        obtain ⟨held, hheld⟩ := Option.ne_none_iff_exists'.mp hsome
        have hrequest := (hknown held hheld).1
        refine hdr (hheld.trans (congrArg some ?_))
        rw [hrequest, hbits]
        exact congrArg (· % 2 ^ 16) (by rw [requests_append (_ ++ _), hquiet.requests, Nat.add_zero])

variable {hdr : PtpHeader}

/-- A Sync begins a cycle. -/
theorem Knows.sync (h : Knows domain clockId port t)
    (hheader : headerOn domain msg = some hdr) (htype : hdr.messageType = .sync)
    (hindex : hdr.sequenceId = index % 2 ^ 16) : Knows domain clockId port (PtpSlave.next t (.message msg rx index)) := by
  obtain ⟨hparse, hdomain⟩ := headerOn_eq_some.mp hheader
  have hreceive : t.1.receive (.message msg rx index) = t.1.onSync hdr msg rx := by
    simp only [PtpSlave.receive, PtpSlave.onMessage, hparse, hdomain, h.ownDomain, htype, ne_eq, not_true_eq_false, if_false]
  rw [PtpSlave.next, hreceive]
  have hwaits : t.1.onSync hdr msg rx = (.idle, { t.1 with
      syncSeq := some hdr.sequenceId, twoStep := hdr.twoStep, syncCorrectionNs := hdr.correctionNs
      t2 := some rx, t1 := none, drSeq := none, t3 := none }) →
      Knows domain clockId port ((t.1.onSync hdr msg rx).2,
        t.2 ++ [{ input := .message msg rx index, action := (t.1.onSync hdr msg rx).1 }]) := by
    intro hidle
    rw [hidle]
    refine ⟨h.ownDomain, h.ownClockId, h.ownPort, ?_, ?_⟩
    · exact h.delayReqSeq.trans (congrArg (· % 2 ^ 16) (requests_concat_of_not rfl).symm)
    · exact .waiting rfl hheader htype hindex rfl (.nil domain) rfl rfl rfl rfl rfl rfl
  by_cases hstep : hdr.twoStep = true
  · exact hwaits (by rw [PtpSlave.onSync]; exact if_pos hstep)
  · cases horigin : parseTimestamp msg bodyOffset with
    | none => exact hwaits (by rw [PtpSlave.onSync, if_neg hstep, horigin])
    | some origin =>
      rw [PtpSlave.onSync, if_neg hstep, horigin]
      have hseq : (t.1.delayReqSeq + 1) % 2 ^ 16 = (requests t.2 + 1) % 2 ^ 16 := by
        rw [h.delayReqSeq, Nat.mod_add_mod]
      refine ⟨h.ownDomain, h.ownClockId, h.ownPort, hseq.trans (congrArg (· % 2 ^ 16) (requests_concat rfl).symm), ?_⟩
      have hopening : Opening domain [⟨.message msg rx index, .sendDelayReq ((t.1.delayReqSeq + 1) % 2 ^ 16)⟩]
          (saturatingAddSigned origin hdr.correctionNs) rx :=
        .oneStep rfl hheader htype (Bool.eq_false_iff.mpr hstep) horigin (corrected_saturatingAddSigned _ _) rfl
      exact .asked_begins hopening rfl rfl hseq rfl rfl

/-- A Follow_Up opens the cycle of its Sync, or nothing. -/
theorem Knows.followUp (h : Knows domain clockId port t)
    (hheader : headerOn domain msg = some hdr) (htype : hdr.messageType = .followUp)
    (hindex : hdr.sequenceId = index % 2 ^ 16) (hnear : ∀ last ∈ lastSync domain t.2, Near index last) :
    Knows domain clockId port (PtpSlave.next t (.message msg rx index)) := by
  obtain ⟨s, log⟩ := t
  obtain ⟨hparse, hdomain⟩ := headerOn_eq_some.mp hheader
  have hsync : (Input.message msg rx index).syncIndex domain = none := by
    rw [syncIndex_of_header hheader, if_neg (by rw [htype]; decide)]
  have hreceive : s.receive (.message msg rx index) = s.onFollowUp hdr msg := by
    have hown : s.domain = domain := h.ownDomain
    simp only [PtpSlave.receive, PtpSlave.onMessage, hparse, hdomain, hown, htype, ne_eq, not_true_eq_false, if_false]
  by_cases hblocked : s.syncSeq ≠ some hdr.sequenceId ∨ s.twoStep = false ∨ s.t1 ≠ none
  · exact h.idle hsync (hreceive.trans (if_pos hblocked)) fun _ => message_not_sent
  · cases hprecise : parseTimestamp msg bodyOffset with
    | none =>
      refine h.idle hsync (hreceive.trans ?_) fun _ => message_not_sent
      rw [PtpSlave.onFollowUp, if_neg hblocked, hprecise]
    | some precise =>
      have hnext : PtpSlave.next (s, log) (.message msg rx index) = ({ s with
              t1 := some (saturatingAddSigned precise (saturatingAddI64 s.syncCorrectionNs hdr.correctionNs))
              delayReqSeq := (s.delayReqSeq + 1) % 2 ^ 16
              drSeq := some ((s.delayReqSeq + 1) % 2 ^ 16)
              t3 := none },
            log ++ [⟨.message msg rx index, .sendDelayReq ((s.delayReqSeq + 1) % 2 ^ 16)⟩]) := by
        rw [PtpSlave.next, hreceive, PtpSlave.onFollowUp, if_neg hblocked, hprecise]
        rfl
      have hphase : Phase domain log s := h.phase
      have hcount : s.delayReqSeq = requests log % 2 ^ 16 := h.delayReqSeq
      have hseq : (s.delayReqSeq + 1) % 2 ^ 16 = (requests log + 1) % 2 ^ 16 := by
        rw [hcount, Nat.mod_add_mod]
      rw [hnext]
      refine ⟨h.ownDomain, h.ownClockId, h.ownPort, hseq.trans (congrArg (· % 2 ^ 16) (requests_concat rfl).symm), ?_⟩
      push Not at hblocked
      obtain ⟨hmatches, htwo, hfirst⟩ := hblocked
      replace hnear : ∀ last ∈ lastSync domain log, Near index last := hnear
      cases hphase with
      | fresh hlog hsyncSeq ht1 hdr' => exact absurd (hsyncSeq.symm.trans hmatches).symm (some_ne_none _)
      | asked hopening hquiet ht1 ht2 hknown => exact absurd (ht1.symm.trans hfirst) (some_ne_none _)
      | waiting hinput hheader' htype' hindex' hsync' hquiet hsyncSeq hstep hcorrection ht1 ht2 hdr' =>
        rename_i before quiet sync msg' rx' index' h'
        -- The bits of the two numbers agree and the numbers are near, so this is the Sync's own Follow_Up.
        have hlast : lastSync domain (before ++ sync :: quiet) = some index' := by
          refine lastSync_of_quiet ?_ hquiet
          rw [hinput, syncIndex_of_header hheader', if_pos htype']
        have hsame : index = index' := by
          refine (hnear index' hlast).eq ?_
          rw [← hindex, ← hindex', Option.some.inj (hmatches.symm.trans hsyncSeq)]
        subst hsame
        have hopening : Opening domain (sync :: quiet ++
            [⟨.message msg rx index, .sendDelayReq ((s.delayReqSeq + 1) % 2 ^ 16)⟩])
            (saturatingAddSigned precise (saturatingAddI64 s.syncCorrectionNs hdr.correctionNs)) rx' := by
          refine .twoStep hinput hheader' htype' (by rw [← hstep]; simpa using htwo) hsync' hquiet rfl
            hheader htype hprecise ?_ rfl
          rw [hcorrection, saturatingAddI64_of_bounds
            (PtpHeader.parse_correctionNs (headerOn_eq_some.mp hheader').1) (PtpHeader.parse_correctionNs hparse)]
          exact corrected_saturatingAddSigned _ _
        have hbefore : requests (before ++ sync :: quiet) = requests before := by
          rw [append_cons, requests_append, hquiet.requests, requests_concat_of_not hsync', Nat.add_zero]
        rw [append_assoc]
        exact Phase.asked_begins hopening rfl ht2 (by rw [hseq]; exact congrArg (fun n => (n + 1) % 2 ^ 16) hbefore)
          rfl rfl

/-- A response to the request of the cycle completes an exchange. -/
theorem Knows.delayResp (h : Knows domain clockId port t)
    (hheader : headerOn domain msg = some hdr) (htype : hdr.messageType = .delayResp)
    (hanswers : ∀ resp ∈ DelayResp.parse msg, resp.requestingClockId = clockId → resp.requestingPort = port →
      hdr.sequenceId = index % 2 ^ 16 ∧ Answers t.2 index) :
    Knows domain clockId port (PtpSlave.next t (.message msg rx index))
      ∧ ∀ t1 t2 t3 t4, (t.1.receive (.message msg rx index)).1 = .exchange t1 t2 t3 t4 →
        ExchangeOf domain clockId port t.2 (.message msg rx index) t1 t2 t3 t4 := by
  obtain ⟨s, log⟩ := t
  obtain ⟨hparse, hdomain⟩ := headerOn_eq_some.mp hheader
  have hsync : (Input.message msg rx index).syncIndex domain = none := by
    rw [syncIndex_of_header hheader, if_neg (by rw [htype]; decide)]
  have hreceive : s.receive (.message msg rx index) = s.onDelayResp hdr msg := by
    have hown : s.domain = domain := h.ownDomain
    simp only [PtpSlave.receive, PtpSlave.onMessage, hparse, hdomain, hown, htype, ne_eq, not_true_eq_false, if_false]
  -- A response that is not taken.
  have hignored : s.onDelayResp hdr msg = (.idle, s) →
      Knows domain clockId port (PtpSlave.next (s, log) (.message msg rx index))
        ∧ ∀ t1 t2 t3 t4, (s.receive (.message msg rx index)).1 = .exchange t1 t2 t3 t4 →
          ExchangeOf domain clockId port log (.message msg rx index) t1 t2 t3 t4 := by
    intro hidle
    refine ⟨h.idle hsync (hreceive.trans hidle) fun _ => message_not_sent, fun t1 t2 t3 t4 hexchange => ?_⟩
    rw [hreceive, hidle] at hexchange
    cases hexchange
  cases hresp : DelayResp.parse msg with
  | none => exact hignored (by rw [PtpSlave.onDelayResp, hresp])
  | some resp =>
    by_cases hother : s.drSeq ≠ some hdr.sequenceId ∨ resp.requestingClockId ≠ s.ourClockId
        ∨ resp.requestingPort ≠ s.ourPort
    · refine hignored ?_
      rw [PtpSlave.onDelayResp, hresp]
      exact if_pos hother
    · push Not at hother
      obtain ⟨hmatches, hclock, hport⟩ := hother
      have hphase : Phase domain log s := h.phase
      replace hanswers := hanswers resp hresp (hclock.trans h.ownClockId) (hport.trans h.ownPort)
      obtain ⟨hindex, hmade, hlate⟩ : hdr.sequenceId = index % 2 ^ 16 ∧ index ≤ requests log
        ∧ requests log < index + 2 ^ 16 := hanswers
      cases ht3 : s.t3 with
      | none =>
        refine hignored ?_
        simp only [PtpSlave.onDelayResp, hresp, hmatches, hclock, hport, ht3]
        rcases s.t1 with _ | _ <;> rcases s.t2 with _ | _ <;> simp
      | some t3 =>
        cases hphase with
        | fresh hlog hsyncSeq ht1 hnone
        | waiting hinput hheader' htype' hindex' hsync' hquiet hsyncSeq hstep hcorrection ht1 ht2 hnone =>
          exact absurd (hmatches.symm.trans hnone) (some_ne_none _)
        | asked hopening hquiet ht1 ht2 hknown =>
          rename_i before opening after t1 t2
          obtain ⟨hrequest, hexchange, hreported⟩ := hknown _ hmatches
          have hcount : requests (before ++ opening ++ after) = requests (before ++ opening) := by
            rw [requests_append (before ++ opening), hquiet.requests, Nat.add_zero]
          have hnumber : index = requests (before ++ opening) := by
            omega
          have hanswer : s.onDelayResp hdr msg = (.exchange t1 t2 t3 (saturatingAddSigned resp.receiveTsNs
              (-hdr.correctionNs)), { s with drSeq := none, t3 := none }) := by
            simp [PtpSlave.onDelayResp, hresp, hmatches, hclock, hport, ht1, ht2, ht3]
          refine ⟨?_, fun u1 u2 u3 u4 hu => ?_⟩
          · rw [PtpSlave.next, hreceive, hanswer]
            refine ⟨h.ownDomain, h.ownClockId, h.ownPort, ?_, ?_⟩
            · exact h.delayReqSeq.trans (congrArg (· % 2 ^ 16) (requests_concat_of_not rfl).symm)
            · rw [append_assoc]
              exact .asked hopening (hquiet.concat hsync rfl) ht1 ht2 fun seq hseq => Option.noConfusion rfl (heq_of_eq hseq)
          · rw [hreceive, hanswer] at hu
            obtain ⟨rfl, rfl, rfl, rfl⟩ := SlaveAction.exchange.inj hu
            exact ⟨before, opening, after, rfl, hopening, hquiet, hexchange, hreported t3 ht3, msg, rx, hdr, resp,
              by rw [hnumber], hheader, htype, hresp, hclock.trans h.ownClockId, hport.trans h.ownPort,
              corrected_saturatingAddSigned _ _⟩

/-- All that may come keeps what is known, and an exchange is of one cycle. -/
theorem Knows.next (h : Knows domain clockId port t) {i : Input} (hadmissible : Admissible domain clockId port t.2 i) :
    Knows domain clockId port (PtpSlave.next t i) ∧ ∀ t1 t2 t3 t4, (t.1.receive i).1 = .exchange t1 t2 t3 t4 →
        ExchangeOf domain clockId port t.2 i t1 t2 t3 t4 := by
  cases i with
  | sent seq t3 index =>
    refine ⟨h.sent hadmissible.1 hadmissible.2, fun t1 t2 t3 t4 hexchange => ?_⟩
    cases hexchange
  | message msg rx index =>
    -- A message that is not read.
    have hignored : (Input.message msg rx index).syncIndex domain = none →
        t.1.receive (.message msg rx index) = (.idle, t.1) →
        Knows domain clockId port (PtpSlave.next t (.message msg rx index))
          ∧ ∀ t1 t2 t3 t4, (t.1.receive (.message msg rx index)).1 = .exchange t1 t2 t3 t4 →
            ExchangeOf domain clockId port t.2 (.message msg rx index) t1 t2 t3 t4 := by
      intro hsync hreceive
      refine ⟨h.idle hsync hreceive fun _ => message_not_sent, fun t1 t2 t3 t4 hexchange => ?_⟩
      rw [hreceive] at hexchange
      cases hexchange
    cases hheader : headerOn domain msg with
    | none =>
      refine hignored (syncIndex_of_none hheader) ?_
      simp only [PtpSlave.receive, PtpSlave.onMessage, h.ownDomain]
      cases hparse : PtpHeader.parse msg with
      | none => rfl
      | some hdr =>
        have hdomain : hdr.domain ≠ domain := by
          intro hdomain
          rw [headerOn_eq_some.mpr ⟨hparse, hdomain⟩] at hheader
          cases hheader
        simp only [ne_eq, hdomain, not_false_eq_true, if_true]
    | some hdr =>
      obtain ⟨hsync, hfollowUp, hdelayResp⟩ := hadmissible hdr hheader
      have hother : hdr.messageType ≠ .sync → hdr.messageType ≠ .followUp → hdr.messageType ≠ .delayResp →
          t.1.receive (.message msg rx index) = (.idle, t.1) := by
        intro hsync hfollowUp hdelayResp
        obtain ⟨hparse, hdomain⟩ := headerOn_eq_some.mp hheader
        simp only [PtpSlave.receive, PtpSlave.onMessage, hparse, hdomain, h.ownDomain, ne_eq, not_true_eq_false, if_false]
      have hnot : ∀ {type : PtpMessageType}, hdr.messageType = type → type ≠ .sync →
          (Input.message msg rx index).syncIndex domain = none := by
        intro type htype hne
        rw [syncIndex_of_header hheader, if_neg (by rw [htype]; exact hne)]
      cases htype : hdr.messageType with
      | sync =>
        refine ⟨h.sync hheader htype (hsync htype), fun t1 t2 t3 t4 hexchange => ?_⟩
        obtain ⟨hparse, hdomain⟩ := headerOn_eq_some.mp hheader
        simp only [PtpSlave.receive, PtpSlave.onMessage, hparse, hdomain, h.ownDomain, htype, ne_eq, not_true_eq_false,
          if_false, PtpSlave.onSync] at hexchange
        split_ifs at hexchange
        cases horigin : parseTimestamp msg bodyOffset <;> rw [horigin] at hexchange <;> cases hexchange
      | followUp =>
        obtain ⟨hindex, hnear⟩ := hfollowUp htype
        refine ⟨h.followUp hheader htype hindex hnear, fun t1 t2 t3 t4 hexchange => ?_⟩
        obtain ⟨hparse, hdomain⟩ := headerOn_eq_some.mp hheader
        simp only [PtpSlave.receive, PtpSlave.onMessage, hparse, hdomain, h.ownDomain, htype, ne_eq, not_true_eq_false,
          if_false, PtpSlave.onFollowUp] at hexchange
        split_ifs at hexchange
        cases horigin : parseTimestamp msg bodyOffset <;> rw [horigin] at hexchange <;> cases hexchange
      | delayResp => exact h.delayResp hheader htype (hdelayResp htype)
      | delayReq | announce | management =>
        exact hignored (hnot htype (by decide)) (hother (by simp [htype]) (by simp [htype]) (by simp [htype]))
      | other nibble =>
        exact hignored (hnot htype (by simp)) (hother (by simp [htype]) (by simp [htype]) (by simp [htype]))

end Step

/-! ## Runs -/

section Run

variable {domain : UInt8} {clockId : List UInt8} {port : Nat}

theorem Knows.new (domain : UInt8) (clockId : List UInt8) (port : Nat) :
    Knows domain clockId port (PtpSlave.new domain clockId port, []) :=
  ⟨rfl, rfl, rfl, rfl, .fresh (.nil domain) rfl rfl rfl⟩

/-- Every exchange in a log is of one cycle of what came before it. -/
def OfCycles (domain : UInt8) (clockId : List UInt8) (port : Nat) (log : List Entry) : Prop :=
  ∀ before e after t1 t2 t3 t4, log = before ++ e :: after → e.action = .exchange t1 t2 t3 t4 →
    ExchangeOf domain clockId port before e.input t1 t2 t3 t4

theorem OfCycles.concat {log : List Entry} {e : Entry} (h : OfCycles domain clockId port log)
    (he : ∀ t1 t2 t3 t4, e.action = .exchange t1 t2 t3 t4 → ExchangeOf domain clockId port log e.input t1 t2 t3 t4) :
    OfCycles domain clockId port (log ++ [e]) := by
  intro before e' after t1 t2 t3 t4 hlog haction
  rcases after.eq_nil_or_concat' with rfl | ⟨after, last, rfl⟩
  · obtain ⟨rfl, hlast⟩ := append_inj' hlog rfl
    obtain rfl := List.singleton_inj.mp hlast
    exact he t1 t2 t3 t4 haction
  · rw [← cons_append, ← append_assoc] at hlog
    exact h before e' after t1 t2 t3 t4 (append_inj' hlog rfl).1 haction

theorem run_ofCycles {inputs : List Input} : ∀ {t : PtpSlave × List Entry}, Knows domain clockId port t →
    OfCycles domain clockId port t.2 → InTime domain clockId port t inputs →
      OfCycles domain clockId port (inputs.foldl PtpSlave.next t).2 := by
  induction inputs with
  | nil => exact fun _ h _ => h
  | cons i inputs ih =>
    intro t hknows hcycles hinTime
    obtain ⟨hnext, hexchange⟩ := hknows.next hinTime.1
    exact ih hnext (hcycles.concat hexchange) hinTime.2

theorem Opening.ends {opening : List Entry} {t1 t2 : Nat} (h : Opening domain opening t1 t2) :
    ∃ earlier request, opening = earlier ++ [request] ∧ request.action.isRequest = true := by
  cases h with
  | oneStep hinput hheader htype hstep horigin ht1 hrequest => exact ⟨[], _, rfl, hrequest⟩
  | twoStep hinput hheader htype hstep hsync hquiet hinput' hheader' htype' horigin ht1 hrequest =>
    exact ⟨_, _, rfl, hrequest⟩

/-- A request is made between two exchanges. -/
theorem OfCycles.request_between {log before between after : List Entry} {e e' : Entry}
    (h : OfCycles domain clockId port log) (hlog : log = before ++ e :: between ++ e' :: after)
    (he : e.action.isExchange = true) (he' : e'.action.isExchange = true) : 0 < requests between := by
  obtain ⟨t1, t2, t3, t4, haction⟩ : ∃ t1 t2 t3 t4, e'.action = .exchange t1 t2 t3 t4 := by
    cases haction : e'.action with
    | exchange t1 t2 t3 t4 => exact ⟨t1, t2, t3, t4, rfl⟩
    | idle | sendDelayReq seq => rw [haction] at he'; cases he'
  obtain ⟨before', opening, after', hsplit, hopening, -, hnone, -⟩ := h _ e' after t1 t2 t3 t4 hlog haction
  obtain ⟨earlier, request, rfl, hrequest⟩ := hopening.ends
  rw [← append_assoc] at hsplit
  -- No exchange is after the request, so the first one is before it.
  rcases List.append_eq_append_iff.mp hsplit with ⟨rest, hrest, hafter⟩ | ⟨rest, hrest, hafter⟩
  · rcases rest.eq_nil_or_concat' with rfl | ⟨rest, last, rfl⟩
    · rw [nil_append] at hafter
      have hmem : e ∈ after' := by rw [← hafter]; simp
      exact absurd he (by rw [hnone e hmem]; decide)
    · rw [← append_assoc] at hrest
      have hlast : request = last := List.singleton_inj.mp (append_inj' hrest rfl).2
      cases rest with
      | nil =>
        obtain ⟨heq, -⟩ := List.cons.inj (hafter : e :: between = [last] ++ after')
        rw [heq, ← hlast] at he
        cases haction' : request.action <;> rw [haction'] at he hrequest <;> simp [SlaveAction.isExchange,
          SlaveAction.isRequest] at he hrequest
      | cons first rest =>
        have hbetween : between = rest ++ [last] ++ after' := (List.cons.inj hafter).2
        rw [hbetween, requests_append, requests_concat (by rw [← hlast]; exact hrequest)]
        omega
  · have hmem : e ∈ after' := by rw [hafter]; simp
    exact absurd he (by rw [hnone e hmem]; decide)

/-- An exchange is of one cycle and each request yields one at most, in any order of what comes in time. A message of
another domain or for another requester changes nothing. -/
theorem PtpSlave.exchange_of_cycle (domain : UInt8) (clockId : List UInt8) (port : Nat) (inputs : List Input)
    (hinTime : InTime domain clockId port (new domain clockId port, []) inputs) :
    OfCycles domain clockId port (run (new domain clockId port) inputs).2
      ∧ (∀ before e between e' after, (run (new domain clockId port) inputs).2 = before ++ e :: between ++ e' :: after →
        e.action.isExchange = true → e'.action.isExchange = true → 0 < requests between)
      ∧ (∀ (s : PtpSlave) msg rx, headerOn s.domain msg = none → s.onMessage msg rx = (.idle, s))
      ∧ ∀ (s : PtpSlave) msg rx hdr resp, headerOn s.domain msg = some hdr → hdr.messageType = .delayResp →
        DelayResp.parse msg = some resp → (resp.requestingClockId ≠ s.ourClockId ∨ resp.requestingPort ≠ s.ourPort) →
          s.onMessage msg rx = (.idle, s) := by
  have hcycles : OfCycles domain clockId port (run (new domain clockId port) inputs).2 := by
    refine run_ofCycles (Knows.new domain clockId port) ?_ hinTime
    intro before e after t1 t2 t3 t4 hlog
    exact absurd hlog.symm (by simp)
  refine ⟨hcycles, fun before e between e' after hlog he he' => hcycles.request_between hlog he he', ?_, ?_⟩
  · intro s msg rx hheader
    rw [onMessage]
    cases hparse : PtpHeader.parse msg with
    | none => rfl
    | some hdr =>
      have hdomain : hdr.domain ≠ s.domain := by
        intro hdomain
        rw [headerOn_eq_some.mpr ⟨hparse, hdomain⟩] at hheader
        cases hheader
      exact if_pos hdomain
  · intro s msg rx hdr resp hheader htype hresp hother
    obtain ⟨hparse, hdomain⟩ := headerOn_eq_some.mp hheader
    simp only [onMessage, hparse, hdomain, htype, ne_eq, not_true_eq_false, if_false, onDelayResp, hresp]
    exact if_pos (Or.inr hother)

end Run

/-! ## Runs out of time -/

/-- A message of domain 0 from one master, with its correction in the units of the wire. -/
def sampleMessage (type : UInt8) (flags correction seq : Nat) (body : List UInt8) : List UInt8 :=
  [type, 2] ++ Words.beBytes 2 (34 + body.length) ++ [0, 0] ++ Words.beBytes 2 flags ++ Words.beBytes 8 correction
    ++ List.replicate 14 0 ++ Words.beBytes 2 seq ++ [0, 0] ++ body

def sampleTime (ns : Nat) : List UInt8 := Words.beBytes 6 (ns / 1000000000) ++ Words.beBytes 4 (ns % 1000000000)

def sampleClock : List UInt8 := [1, 2, 3, 4, 5, 6, 7, 8]

def sampleResponse (seq : Nat) : List UInt8 :=
  sampleMessage 9 0 0 seq (sampleTime 12 ++ sampleClock ++ Words.beBytes 2 1)

/-- One cycle of a Sync with its origin. -/
def oneStepCycle (correction : Nat) : List Input :=
  [.message (sampleMessage 0 0 correction 0 (sampleTime 0)) 7 0, .sent 1 9 1, .message (sampleResponse 1) 20 1]

theorem exchange_of_cycle_oneStep : OfCycles 0 sampleClock 1 (PtpSlave.run (.new 0 sampleClock 1) (oneStepCycle 0)).2 :=
  (PtpSlave.exchange_of_cycle 0 sampleClock 1 (oneStepCycle 0) (by decide)).1

/-- A Follow_Up that comes after 65536 Syncs were lost. -/
def lostSyncs : List Input :=
  [.message (sampleMessage 0 0x200 0 0 (sampleTime 0)) 7 0, .message (sampleMessage 8 0 0 0 (sampleTime 5)) 8 65536,
    .sent 1 9 1, .message (sampleResponse 1) 20 1]

theorem onMessage_oneStep (s : PtpSlave) (hdomain : s.domain = 0) :
    (s.onMessage (sampleMessage 0 0 0 0 (sampleTime 5)) 7).2 = { s with
      syncSeq := some 0, twoStep := false, syncCorrectionNs := 0, t2 := some 7, t1 := some 5
      delayReqSeq := (s.delayReqSeq + 1) % 2 ^ 16, drSeq := some ((s.delayReqSeq + 1) % 2 ^ 16), t3 := none } := by
  have hparse : PtpHeader.parse (sampleMessage 0 0 0 0 (sampleTime 5)) = some {
      messageType := .sync, version := 2, messageLength := 44, domain := 0, flags := 0, correctionNs := 0
      sourceClockId := List.replicate 8 0, sourcePort := 0, sequenceId := 0 } := by decide
  have horigin : parseTimestamp (sampleMessage 0 0 0 0 (sampleTime 5)) bodyOffset = some 5 := by decide
  simp only [PtpSlave.onMessage, hparse, hdomain, ne_eq, not_true_eq_false, if_false, PtpSlave.onSync, horigin]
  rfl

theorem iterate_oneStep (n : Nat) :
    (fun s : PtpSlave => (s.onMessage (sampleMessage 0 0 0 0 (sampleTime 5)) 7).2)^[n + 1] (.new 0 sampleClock 1) = {
      PtpSlave.new 0 sampleClock 1 with
      syncSeq := some 0, twoStep := false, syncCorrectionNs := 0, t2 := some 7, t1 := some 5
      delayReqSeq := (n + 1) % 2 ^ 16, drSeq := some ((n + 1) % 2 ^ 16), t3 := none } := by
  induction n with
  | zero => exact onMessage_oneStep _ rfl
  | succ n ih =>
    rw [Function.iterate_succ_apply', ih, onMessage_oneStep _ rfl]
    simp only [Nat.mod_add_mod]

/-- Where the numbers of the wire end: a time before zero is zero, a Follow_Up that comes after 65536 Syncs were lost opens
the cycle of another Sync, and a report that is 65536 requests late is taken for one of the last request. -/
theorem PtpSlave.mixed_cycles : ((run (new 0 sampleClock 1) (oneStepCycle (2 ^ 64 - 2 ^ 16))).2.map (·.action)
          = [.sendDelayReq 1, .idle, .exchange 0 7 9 12]
        ∧ (headerOn 0 (sampleMessage 0 0 (2 ^ 64 - 2 ^ 16) 0 (sampleTime 0))).map (·.correctionNs) = some (-1)
        ∧ parseTimestamp (sampleMessage 0 0 (2 ^ 64 - 2 ^ 16) 0 (sampleTime 0)) bodyOffset = some 0)
      ∧ ((run (new 0 sampleClock 1) lostSyncs).2.map (·.action) = [.idle, .sendDelayReq 1, .idle, .exchange 5 7 9 12]
        ∧ ¬ OfCycles 0 sampleClock 1 (run (new 0 sampleClock 1) lostSyncs).2)
      ∧ ((((fun s : PtpSlave => (s.onMessage (sampleMessage 0 0 0 0 (sampleTime 5)) 7).2)^[65537]
          (new 0 sampleClock 1)).delayReqSent 1 9).onMessage (sampleResponse 1) 20).1 = .exchange 5 7 9 12 := by
  refine ⟨⟨by decide, by decide, by decide⟩, ⟨by decide, fun hcycles => ?_⟩, ?_⟩
  · have hlog : (run (new 0 sampleClock 1) lostSyncs).2 =
        (run (new 0 sampleClock 1) (lostSyncs.take 3)).2 ++ [⟨.message (sampleResponse 1) 20 1, .exchange 5 7 9 12⟩] := by
      decide
    obtain ⟨before, opening, after, hsplit, hopening, -⟩ := hcycles _ _ [] 5 7 9 12 hlog rfl
    have hmem : ∀ e ∈ opening, e ∈ (run (new 0 sampleClock 1) (lostSyncs.take 3)).2 := by
      intro e he
      rw [hsplit]
      simp [he]
    -- The only request came with the Follow_Up, and the only Sync has another number.
    have hrequests : ∀ e ∈ (run (new 0 sampleClock 1) (lostSyncs.take 3)).2, e.action.isRequest = true →
        e.input = .message (sampleMessage 8 0 0 0 (sampleTime 5)) 8 65536 := by decide
    have hsyncs : ∀ e ∈ (run (new 0 sampleClock 1) (lostSyncs.take 3)).2, ∀ index ∈ e.input.syncIndex 0, index = 0 := by
      decide
    cases hopening with
    | oneStep hinput hheader htype hstep horigin ht1 hrequest =>
      have hinput' := hrequests _ (hmem _ (by simp)) hrequest
      obtain ⟨-, harrival, -⟩ := Input.message.inj (hinput.symm.trans hinput')
      exact absurd harrival (by decide)
    | twoStep hinput hheader htype hstep hsync hquiet hinput' hheader' htype' horigin ht1 hrequest =>
      obtain ⟨-, -, rfl⟩ := Input.message.inj (hinput'.symm.trans (hrequests _ (hmem _ (by simp)) hrequest))
      have hindex := hsyncs _ (hmem _ (mem_cons_self)) 65536 (by
        rw [hinput, syncIndex_of_header hheader, if_pos htype]
        rfl)
      exact absurd hindex (by decide)
  · rw [iterate_oneStep 65536]
    decide

end Glass2Glass.Ptp
