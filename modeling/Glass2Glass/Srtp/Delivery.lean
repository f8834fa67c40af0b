import Glass2Glass.Srtp.Receiver

/-!
# What a receiver accepts

A sender protects packets whose sequence numbers advance by less than half of them, and a network delivers copies of
them, in any order and number, and packets of its own. `Reception.delivers_once` is about every such run: what is near
enough is accepted once and comes out as it went in, and the rest is refused.
-/

namespace Glass2Glass.Srtp

open Words Mcu PacketIndexState List
open PacketIndexState (estimateRtpIndex accept)

/-! ## What was sent -/

/-- A packet that was sent: its true index, the packet, and what it was protected as. -/
structure Sent where
  index : Nat
  packet : List UInt8
  secured : List UInt8
  deriving DecidableEq

/-- How far a sequence number is after that of an index. -/
def advance (last sequence : Nat) : Nat := (sequence + 2 ^ 16 - last % 2 ^ 16) % 2 ^ 16

/-- The index of the next packet: as far after the last one as its sequence number is. -/
def trueIndex : List Sent → Nat → Nat
  | [], sequence => sequence
  | last :: _, sequence => last.index + advance last.index sequence

def Advances : List Sent → Nat → Prop
  | [], _ => True
  | last :: _, sequence => advance last.index sequence < 2 ^ 15

/-- A sender protects packets, and the log has what was sent, the latest first. -/
inductive Sends (c : Crypto) (start : SrtpSender) : SrtpSender → List Sent → Prop
  | start : Sends c start start []
  | protect {s s' : SrtpSender} {log : List Sent} {packet secured : List UInt8} {parsed : RtpParsed} :
      Sends c start s log → RtpHeader.parse packet = some parsed → Advances log parsed.header.sequence →
        s.protectRtp c packet = .ok (s', secured) →
          Sends c start s' ({ index := trueIndex log parsed.header.sequence, packet, secured } :: log)

variable {c : Crypto} {keys : SessionKeys} {mki : Option (List UInt8)} {source : Nat} {log : List Sent} {e : Sent}

/-- What is known of a packet that was sent. -/
structure Sent.Valid (c : Crypto) (keys : SessionKeys) (mki : Option (List UInt8)) (source : Nat) (e : Sent) :
    Prop where
  index_lt : e.index < 2 ^ 48
  secured_eq : keys.protectRtp c e.packet e.index mki = .ok e.secured
  header : ∃ parsed, RtpHeader.parse e.packet = some parsed ∧ parsed.header.ssrc = source ∧
    parsed.header.sequence = e.index % 2 ^ 16

theorem estimate_advance {p : PacketIndexState} {top sequence index : Nat} (htop : p.highestIndex = some top)
    (hsequence : sequence < 2 ^ 16) (hadvance : advance top sequence < 2 ^ 15)
    (h : p.estimateRtpIndex sequence = .ok index) : index = top + advance top sequence := by
  unfold advance at hadvance ⊢
  unfold estimateRtpIndex sequenceHalfRange maximumRtpPacketIndex at h
  rw [htop] at h
  dsimp only at h
  split_ifs at h <;> cases h <;> omega

theorem highestIndex_accept {p : PacketIndexState} {top index : Nat} (htop : p.highestIndex = some top)
    (hle : top ≤ index) (hwindow : 0 < p.window) : (p.accept index).highestIndex = some index := by
  unfold accept
  rw [htop]
  dsimp only
  split_ifs with habove hin
  · rfl
  · exact congrArg some (by omega)
  · omega

/-- The state of a sender, next to what it sent. -/
structure SendInv (c : Crypto) (start s : SrtpSender) (log : List Sent) : Prop where
  keys_eq : s.keys = start.keys
  mki_eq : s.mki = start.mki
  source_eq : s.synchronizationSource = start.synchronizationSource
  rollover : s.rtpIndices.initialRolloverCounter = 0
  window_pos : 0 < s.rtpIndices.window
  highest : s.rtpIndices.highestIndex = (log.head?).map (·.index)
  valid : ∀ e ∈ log, e.Valid c start.keys start.mki start.synchronizationSource

theorem initialRolloverCounter_accept (p : PacketIndexState) (index : Nat) :
    (p.accept index).initialRolloverCounter = p.initialRolloverCounter := by
  unfold accept
  cases p.highestIndex with
  | none => rfl
  | some top =>
    dsimp only
    split_ifs <;> rfl

theorem window_accept (p : PacketIndexState) (index : Nat) : (p.accept index).window = p.window := by
  unfold accept
  cases p.highestIndex with
  | none => rfl
  | some top =>
    dsimp only
    split_ifs <;> rfl

theorem sendInv {start s : SrtpSender} (hrollover : start.rtpIndices.initialRolloverCounter = 0)
    (hwindow : 0 < start.rtpIndices.window) (hfresh : start.rtpIndices.highestIndex = none)
    (h : Sends c start s log) : SendInv c start s log := by
  induction h with
  | start =>
    exact
      { keys_eq := rfl
        mki_eq := rfl
        source_eq := rfl
        rollover := hrollover
        window_pos := hwindow
        highest := hfresh
        valid := fun e he => absurd he not_mem_nil }
  | @protect s s' log packet secured parsed _ hparse hadvances hprotect ih =>
    obtain ⟨packetIndex, hindex, hrest⟩ := Loop.bind_eq_ok.1 hprotect
    obtain ⟨out, hsecured, hrest⟩ := Loop.bind_eq_ok.1 hrest
    cases hrest
    obtain ⟨-, parsed', hparse', hsource, hestimate, -⟩ := SrtpSender.rtpIndex_eq_ok hindex
    rw [hparse] at hparse'
    cases hparse'
    have hsequence := parse_sequence_lt hparse
    obtain ⟨hmod, hlt⟩ := estimate_spec hsequence (by rw [ih.rollover]; decide) hestimate
    have hhighest := ih.highest
    -- What the sender estimates is the true index, and it becomes the highest one.
    have htrue : packetIndex = trueIndex log parsed.header.sequence ∧
        (s.rtpIndices.accept packetIndex).highestIndex = some packetIndex := by
      cases log with
      | nil =>
        have hnone : s.rtpIndices.highestIndex = none := hhighest
        constructor
        · unfold estimateRtpIndex at hestimate
          rw [hnone, ih.rollover] at hestimate
          cases hestimate
          exact Nat.zero_add _
        · unfold accept
          rw [hnone]
      | cons last rest =>
        have hsome : s.rtpIndices.highestIndex = some last.index := hhighest
        have heq := estimate_advance hsome hsequence hadvances hestimate
        exact ⟨heq, highestIndex_accept hsome (by omega) ih.window_pos⟩
    exact
      { keys_eq := ih.keys_eq
        mki_eq := ih.mki_eq
        source_eq := ih.source_eq
        rollover := (initialRolloverCounter_accept _ _).trans ih.rollover
        window_pos := (window_accept s.rtpIndices packetIndex).symm ▸ ih.window_pos
        highest := htrue.2.trans (congrArg some htrue.1)
        valid := fun e he => by
          rcases List.mem_cons.1 he with rfl | hold
          · refine ⟨htrue.1 ▸ hlt, ?_, parsed, hparse, hsource.trans ih.source_eq, ?_⟩
            · dsimp only
              rw [← htrue.1, ← ih.keys_eq, ← ih.mki_eq]
              exact hsecured
            · dsimp only
              rw [← htrue.1]
              exact hmod.symm
          · exact ih.valid e hold }

/-! ## What is delivered -/

/-- A copy of a packet that was sent, or a packet of the network. -/
inductive Delivery where
  | copy (e : Sent)
  | injected (packet : List UInt8)

namespace Delivery

def bytes : Delivery → List UInt8
  | copy e => e.secured
  | injected packet => packet

def index : Delivery → Option Nat
  | copy e => some e.index
  | injected _ => none

end Delivery

/-- A receiver, everything that was delivered to it, and what it accepted and made of it. -/
structure Reception where
  receiver : SrtpReceiver
  delivered : List Delivery
  accepted : List (Delivery × List UInt8)

namespace Reception

/-- A packet that is refused leaves the receiver as it was. -/
def deliver (c : Crypto) (t : Reception) (d : Delivery) : Reception :=
  match t.receiver.unprotectRtp c d.bytes with
  | .error _ => { t with delivered := d :: t.delivered }
  | .ok (receiver, out) => { receiver, delivered := d :: t.delivered, accepted := (d, out) :: t.accepted }

/-- The network delivers what was sent, and forges some packets. The first packet of the sender has the rollover counter
that the receiver starts with. -/
def Allows (log : List Sent) (forged : List UInt8 → Prop) (rolloverCounter : Nat) (t : Reception) : Delivery → Prop
  | .copy e => e ∈ log ∧ ((∀ e', .copy e' ∉ t.delivered) → e.index / 2 ^ 16 = rolloverCounter)
  | .injected packet => forged packet

inductive Reachable (c : Crypto) (log : List Sent) (forged : List UInt8 → Prop) (start : SrtpReceiver) :
    Reception → Prop
  | start : Reachable c log forged start { receiver := start, delivered := [], accepted := [] }
  | deliver {t : Reception} (d : Delivery) : Reachable c log forged start t →
      t.Allows log forged start.rtpIndices.initialRolloverCounter d → Reachable c log forged start (t.deliver c d)

def Accepted (t : Reception) (i : Nat) : Prop := some i ∈ t.accepted.map fun a => a.1.index

def Highest (t : Reception) (top : Nat) : Prop := t.Accepted top ∧ ∀ i, t.Accepted i → i ≤ top

/-- An index is above the highest one by less than half of the sequence numbers, or below it by less than the window
and was not accepted. -/
def InRange (t : Reception) (window i : Nat) : Prop :=
  ∀ top, t.Highest top → top < i ∧ i < top + 2 ^ 15 ∨ i ≤ top ∧ top < i + window ∧ ¬ t.Accepted i

end Reception

/-- Authentication rejects what the sender did not produce under the same index, for the keys that a packet chooses.
The index has the sequence number of the packet. -/
structure Authentic (c : Crypto) (start : SrtpReceiver) (log : List Sent) (forged : List UInt8 → Prop) : Prop where
  copy : ∀ e ∈ log, ∀ index, index % 2 ^ 16 = e.index % 2 ^ 16 → index ≠ e.index →
    ∀ session, start.sessionFor e.secured = .ok session →
      ∀ out, session.keys.unprotectRtp c e.secured index start.mkiLength ≠ .ok out
  injected : ∀ packet, forged packet → ∀ session, start.sessionFor packet = .ok session →
    ∀ index out, session.keys.unprotectRtp c packet index start.mkiLength ≠ .ok out

/-! ## The receiver of a sender -/

/-- A receiver with one key has the sender's. -/
structure SrtpReceiver.Matches (r : SrtpReceiver) (keys : SessionKeys) (mki : Option (List UInt8)) (source : Nat) :
    Prop where
  sessions_eq : r.sessions = [{ keys, mki }]
  mkiLength_eq : r.mkiLength = mkiLengthOf mki
  source_eq : r.synchronizationSource = source
  named : mki ≠ some []

variable {r r' : SrtpReceiver} {packet out : List UInt8}

theorem sessionFor_secured (hr : r.Matches keys mki source) (he : e.Valid c keys mki source) :
    r.sessionFor e.secured = .ok { keys, mki } := by
  unfold SrtpReceiver.sessionFor
  rw [hr.mkiLength_eq, hr.sessions_eq]
  cases mki with
  | none => rfl
  | some m =>
    have hpos : mkiLengthOf (some m) ≠ 0 := fun hzero => hr.named (congrArg some (List.length_eq_zero_iff.1 hzero))
    have hlength : r.mkiLength = m.length := hr.mkiLength_eq
    have hnames : r.names e.secured { keys, mki := some m } = true := names_protectRtp hlength he.secured_eq
    rw [if_neg hpos, List.find?_cons_of_pos hnames]

theorem unprotectRtp_eq_ok : r.unprotectRtp c packet = .ok (r', out) ↔
    ∃ session index, r.sessionFor packet = .ok session ∧ r.rtpIndex packet = .ok index ∧
      session.keys.unprotectRtp c packet index r.mkiLength = .ok out ∧
      r' = { r with rtpIndices := r.rtpIndices.accept index } := by
  constructor
  · intro h
    obtain ⟨session, hsession, h⟩ := Loop.bind_eq_ok.1 h
    obtain ⟨index, hindex, h⟩ := Loop.bind_eq_ok.1 h
    obtain ⟨out', hout, h⟩ := Loop.bind_eq_ok.1 h
    cases h
    exact ⟨session, index, hsession, hindex, hout, rfl⟩
  · rintro ⟨session, index, hsession, hindex, hout, rfl⟩
    unfold SrtpReceiver.unprotectRtp
    rw [hsession, hindex]
    dsimp only [bind, Except.bind]
    rw [hout]
    rfl

theorem rtpIndex_eq_ok {index : Nat} {parsed : RtpParsedHeader} (hparse : RtpHeader.parseHeader packet = some parsed)
    (hsource : parsed.header.ssrc = r.synchronizationSource) :
    r.rtpIndex packet = .ok index ↔
      r.rtpIndices.estimateRtpIndex parsed.header.sequence = .ok index ∧ r.rtpIndices.check index = .ok () := by
  unfold SrtpReceiver.rtpIndex SrtpReceiver.checkSynchronizationSource
  rw [hparse]
  dsimp only
  rw [if_neg (not_not.2 hsource)]
  constructor
  · intro h
    obtain ⟨_, -, h⟩ := Loop.bind_eq_ok.1 h
    obtain ⟨index', hindex, h⟩ := Loop.bind_eq_ok.1 h
    obtain ⟨_, hcheck, h⟩ := Loop.bind_eq_ok.1 h
    cases h
    exact ⟨hindex, hcheck⟩
  · rintro ⟨hindex, hcheck⟩
    dsimp only [bind, Except.bind]
    rw [hindex]
    dsimp only
    rw [hcheck]
    rfl

/-- A copy of a packet is accepted just if its true index is estimated and passes the check, and then it comes out as
it went in. -/
theorem unprotect_copy (hc : c.Undoes) (hr : r.Matches keys mki source) (he : e.Valid c keys mki source)
    (hrejects : ∀ index, index % 2 ^ 16 = e.index % 2 ^ 16 → index ≠ e.index →
      ∀ out, keys.unprotectRtp c e.secured index (mkiLengthOf mki) ≠ .ok out)
    (hroc : r.rtpIndices.initialRolloverCounter < 2 ^ 32) :
    r.unprotectRtp c e.secured = .ok (r', out) ↔
      r.rtpIndices.estimateRtpIndex (e.index % 2 ^ 16) = .ok e.index ∧ r.rtpIndices.check e.index = .ok () ∧
        out = e.packet ∧ r' = { r with rtpIndices := r.rtpIndices.accept e.index } := by
  obtain ⟨parsed, hparse, hsource, hsequence⟩ := he.header
  have hheader := parseHeader_protectRtp he.secured_eq hparse
  have hindex (index : Nat) := @rtpIndex_eq_ok r _ index _ hheader (hsource.trans hr.source_eq.symm)
  rw [hsequence] at hindex
  have hsame := SessionKeys.unprotect_protect hc he.secured_eq
  rw [unprotectRtp_eq_ok]
  constructor
  · rintro ⟨session, index, hsession, hestimate, hout, rfl⟩
    rw [sessionFor_secured hr he] at hsession
    cases hsession
    rw [hr.mkiLength_eq] at hout
    obtain ⟨hestimate, hcheck⟩ := (hindex index).1 hestimate
    have hmod := (estimate_spec (by omega) hroc hestimate).1
    by_cases htrue : index = e.index
    · subst htrue
      rw [hsame] at hout
      cases hout
      exact ⟨hestimate, hcheck, rfl, rfl⟩
    · exact absurd hout (hrejects index hmod htrue out)
  · rintro ⟨hestimate, hcheck, rfl, rfl⟩
    refine ⟨_, e.index, sessionFor_secured hr he, (hindex _).2 ⟨hestimate, hcheck⟩, ?_, rfl⟩
    rw [hr.mkiLength_eq]
    exact hsame

/-! ## Every run -/

namespace Reception

variable {start : SrtpReceiver} {forged : List UInt8 → Prop} {t : Reception} {d : Delivery}

structure Inv (log : List Sent) (start : SrtpReceiver) (t : Reception) : Prop where
  receiver_eq : t.receiver = { start with rtpIndices := t.receiver.rtpIndices }
  rollover : t.receiver.rtpIndices.initialRolloverCounter = start.rtpIndices.initialRolloverCounter
  window : t.receiver.rtpIndices.window = start.rtpIndices.window
  exact : t.receiver.rtpIndices.Exact t.Accepted
  first : t.receiver.rtpIndices.highestIndex = none → ∀ e, .copy e ∉ t.delivered
  genuine : ∀ a ∈ t.accepted, ∃ e ∈ log, a = (.copy e, e.packet)
  once : t.accepted.Pairwise fun a b => a.1.index ≠ b.1.index

theorem highestIndex_eq_some (h : t.Inv log start) {top : Nat} :
    t.receiver.rtpIndices.highestIndex = some top ↔ t.Highest top := by
  constructor
  · intro htop
    obtain ⟨hrecorded, hmax, -⟩ := h.exact.some top htop
    exact ⟨hrecorded, hmax⟩
  · rintro ⟨htop, hmax⟩
    cases hhighest : t.receiver.rtpIndices.highestIndex with
    | none => exact absurd htop ((h.exact.none hhighest).1 top)
    | some top' =>
      obtain ⟨hrecorded, hmax', -⟩ := h.exact.some top' hhighest
      exact congrArg some (Nat.le_antisymm (hmax top' hrecorded) (hmax' top htop))

/-- What the network delivers has the form that the receiver's theorems need. -/
structure Setting (c : Crypto) (keys : SessionKeys) (mki : Option (List UInt8)) (source : Nat) (log : List Sent)
    (forged : List UInt8 → Prop) (start : SrtpReceiver) : Prop where
  undoes : c.Undoes
  receiver : start.Matches keys mki source
  valid : ∀ e ∈ log, e.Valid c keys mki source
  authentic : Authentic c start log forged
  rollover_lt : start.rtpIndices.initialRolloverCounter < 2 ^ 32
  fresh : start.rtpIndices.Exact fun _ => False

variable (hset : Setting c keys mki source log forged start)

include hset

theorem matches_receiver (h : t.Inv log start) : t.receiver.Matches keys mki source := by
  obtain ⟨hsessions, hlength, hsource, hnamed⟩ := hset.receiver
  rw [h.receiver_eq]
  exact ⟨hsessions, hlength, hsource, hnamed⟩

theorem copy_eq_ok (h : t.Inv log start) (he : e ∈ log) {r' : SrtpReceiver} {out : List UInt8} :
    t.receiver.unprotectRtp c e.secured = .ok (r', out) ↔
      t.receiver.rtpIndices.estimateRtpIndex (e.index % 2 ^ 16) = .ok e.index ∧
        t.receiver.rtpIndices.check e.index = .ok () ∧ out = e.packet ∧
          r' = { t.receiver with rtpIndices := t.receiver.rtpIndices.accept e.index } := by
  have hvalid := hset.valid e he
  refine unprotect_copy hset.undoes (matches_receiver hset h) hvalid (fun index hmod hne out hout => ?_)
    (h.rollover ▸ hset.rollover_lt)
  have hsession := sessionFor_secured hset.receiver hvalid
  have hrejects := hset.authentic.copy e he index hmod hne _ hsession out
  rw [hset.receiver.mkiLength_eq] at hrejects
  exact hrejects hout

theorem injected_ne_ok (h : t.Inv log start) {packet : List UInt8} (hforged : forged packet)
    (result : SrtpReceiver × List UInt8) : t.receiver.unprotectRtp c packet ≠ .ok result := by
  intro hok
  obtain ⟨session, index, hsession, -, hout, -⟩ := unprotectRtp_eq_ok.1 hok
  rw [h.receiver_eq] at hsession hout
  exact hset.authentic.injected packet hforged session hsession index _ hout

theorem copy_refused (h : t.Inv log start) (he : e ∈ log)
    (hold : t.Accepted e.index ∨ ∃ top, t.Highest top ∧ e.index + start.rtpIndices.window ≤ top)
    (result : SrtpReceiver × List UInt8) : t.receiver.unprotectRtp c e.secured ≠ .ok result := by
  intro hok
  obtain ⟨-, hcheck, -⟩ := (copy_eq_ok hset h he).1 hok
  have hpasses := (check_eq_ok h.exact).1 hcheck
  have hpos := h.exact.window_pos
  have hwindow := h.window
  rcases hold with haccepted | ⟨top, htop, hbelow⟩
  · cases hhighest : t.receiver.rtpIndices.highestIndex with
    | none => exact (h.exact.none hhighest).1 _ haccepted
    | some top =>
      have hle := (h.exact.some top hhighest).2.1 _ haccepted
      rcases hpasses top hhighest with habove | ⟨-, hnot⟩
      · omega
      · exact hnot haccepted
  · rcases hpasses top ((highestIndex_eq_some h).2 htop) with habove | ⟨hin, -⟩ <;> omega

theorem copy_accepted (h : t.Inv log start)
    (hallows : t.Allows log forged start.rtpIndices.initialRolloverCounter (.copy e))
    (hwindow : start.rtpIndices.window ≤ 2 ^ 15) (hrange : t.InRange start.rtpIndices.window e.index) :
    ∃ r', t.receiver.unprotectRtp c e.secured = .ok (r', e.packet) := by
  obtain ⟨he, hfirst⟩ := hallows
  have hlt := (hset.valid e he).index_lt
  refine ⟨_, (copy_eq_ok hset h he).2 ⟨?_, (check_eq_ok h.exact).2 fun top htop => ?_, rfl, rfl⟩⟩
  · cases hhighest : t.receiver.rtpIndices.highestIndex with
    | none =>
      have hrollover := hfirst (h.first hhighest)
      unfold estimateRtpIndex
      rw [hhighest, h.rollover, ← hrollover]
      exact congrArg Except.ok (by omega)
    | some top =>
      rcases hrange top ((highestIndex_eq_some h).1 hhighest) with ⟨habove, hnear⟩ | ⟨hle, hin, -⟩
      · exact estimate_near hhighest hlt hnear (by omega)
      · exact estimate_near hhighest hlt (by omega) (by omega)
  · rw [h.window]
    rcases hrange top ((highestIndex_eq_some h).1 htop) with ⟨habove, -⟩ | ⟨-, hin, hnot⟩
    · exact .inl habove
    · exact .inr ⟨hin, hnot⟩

omit hset in
/-- A packet that is refused changes nothing but what was delivered. -/
theorem inv_refused (h : t.Inv log start) (hfirst : t.receiver.rtpIndices.highestIndex = none → ∀ e, d ≠ .copy e) :
    Inv log start { t with delivered := d :: t.delivered } := by
  refine { h with first := fun hnone e' he' => ?_ }
  rcases List.mem_cons.1 he' with hd | hold
  · exact hfirst hnone e' hd.symm
  · exact h.first hnone e' hold

theorem inv_deliver (h : t.Inv log start)
    (hallows : t.Allows log forged start.rtpIndices.initialRolloverCounter d) : (t.deliver c d).Inv log start := by
  cases hok : t.receiver.unprotectRtp c d.bytes with
  | error err =>
    have heq : t.deliver c d = { t with delivered := d :: t.delivered } := by
      unfold deliver
      rw [hok]
    rw [heq]
    refine inv_refused h fun hnone e hd => ?_
    subst hd
    -- The first copy has the rollover counter of the receiver, so it is not refused.
    obtain ⟨he, hfirst⟩ := hallows
    have hrollover := hfirst (h.first hnone)
    have hestimate : t.receiver.rtpIndices.estimateRtpIndex (e.index % 2 ^ 16) = .ok e.index := by
      unfold estimateRtpIndex
      rw [hnone, h.rollover, ← hrollover]
      exact congrArg Except.ok (by omega)
    have hcheck : t.receiver.rtpIndices.check e.index = .ok () :=
      (check_eq_ok h.exact).2 fun top htop => by
        rw [hnone] at htop
        cases htop
    have haccepted := (copy_eq_ok hset h he).2 ⟨hestimate, hcheck, rfl, rfl⟩
    rw [show (Delivery.copy e).bytes = e.secured from rfl, haccepted] at hok
    cases hok
  | ok result =>
    cases d with
    | injected packet => exact absurd hok (injected_ne_ok hset h hallows _)
    | copy e =>
      obtain ⟨he, -⟩ := hallows
      obtain ⟨r', out⟩ := result
      have hbytes : t.receiver.unprotectRtp c e.secured = .ok (r', out) := hok
      obtain ⟨-, hcheck, rfl, rfl⟩ := (copy_eq_ok hset h he).1 hbytes
      have heq : t.deliver c (.copy e) =
          { receiver := { t.receiver with rtpIndices := t.receiver.rtpIndices.accept e.index }
            delivered := .copy e :: t.delivered
            accepted := (.copy e, e.packet) :: t.accepted } := by
        unfold deliver
        rw [hok]
      have hfresh : ¬ t.Accepted e.index := fun haccepted =>
        copy_refused hset h he (.inl haccepted) _ hbytes
      have hexact := exact_accept h.exact e.index
      have hpasses := (check_eq_ok h.exact).1 hcheck
      have hpos := h.exact.window_pos
      have hrecords : t.receiver.rtpIndices.Records t.Accepted e.index =
          fun i => some i ∈ some e.index :: t.accepted.map fun a => a.1.index := by
        funext i
        refine propext ⟨?_, fun hmem => ?_⟩
        · rintro (hold | ⟨rfl, -⟩)
          · exact mem_cons_of_mem _ hold
          · exact mem_cons_self
        · rcases List.mem_cons.1 hmem with hsame | hold
          · refine .inr ⟨Option.some.inj hsame, fun top htop => ?_⟩
            rcases hpasses top htop with habove | ⟨hin, -⟩ <;> omega
          · exact .inl hold
      rw [hrecords] at hexact
      have hhighest : (t.receiver.rtpIndices.accept e.index).highestIndex ≠ none := by
        intro hnone
        exact (hexact.none hnone).1 e.index mem_cons_self
      rw [heq]
      have hreceiver := h.receiver_eq
      refine
        { receiver_eq := ?_
          rollover := (initialRolloverCounter_accept _ _).trans h.rollover
          window := (window_accept _ _).trans h.window
          exact := hexact
          first := fun hnone => absurd hnone hhighest
          genuine := fun a ha => ?_
          once := List.pairwise_cons.2 ⟨fun a ha hsame => ?_, h.once⟩ }
      · dsimp only
        rw [hreceiver]
      · rcases List.mem_cons.1 ha with rfl | hold
        · exact ⟨e, he, rfl⟩
        · exact h.genuine a hold
      · exact hfresh (List.mem_map.2 ⟨a, ha, hsame.symm⟩)

theorem inv_reachable (h : Reachable c log forged start t) : t.Inv log start := by
  induction h with
  | start =>
    have hnone : (fun _ : Nat => False) = Reception.Accepted { receiver := start, delivered := [], accepted := [] } := by
      funext i
      exact propext ⟨False.elim, fun hmem => absurd hmem not_mem_nil⟩
    exact
      { receiver_eq := rfl
        rollover := rfl
        window := rfl
        exact := hnone ▸ hset.fresh
        first := fun _ e he => absurd he not_mem_nil
        genuine := fun a ha => absurd ha not_mem_nil
        once := .nil }
  | deliver d _ hallows ih => exact inv_deliver hset ih hallows

end Reception

/-! ## One key on both sides -/

theorem newWithKeys_matches {policy : SrtpPolicy} {masterKey masterSalt : List UInt8} {start : SrtpReceiver}
    {initialRolloverCounter window : Nat} (hkeys : SessionKeys.derive c policy masterKey masterSalt = .ok keys)
    (hnamed : mki ≠ some [])
    (h : SrtpReceiver.newWithKeysAndWindow c source
      [{ policy, masterKey, masterSalt, mki, initialRolloverCounter }] window = .ok start) :
    start.Matches keys mki source ∧ PacketIndexState.new initialRolloverCounter window = .ok start.rtpIndices := by
  obtain ⟨mkiLength, hlength, h⟩ := Loop.bind_eq_ok.1 h
  obtain ⟨sessions, hsessions, h⟩ := Loop.bind_eq_ok.1 h
  obtain ⟨rtpIndices, hindices, h⟩ := Loop.bind_eq_ok.1 h
  obtain ⟨srtcpIndices, -, h⟩ := Loop.bind_eq_ok.1 h
  cases h
  have hsame : mkiLength = mkiLengthOf mki := by
    unfold sharedMkiLength at hlength
    dsimp only at hlength
    split_ifs at hlength
    cases hlength
    rfl
  have hsession : sessions = [{ keys, mki }] := by
    rw [mapM_cons, mapM_nil] at hsessions
    unfold SrtpReceiver.keyedSession at hsessions
    rw [hkeys] at hsessions
    cases hsessions
    rfl
  exact ⟨⟨hsession, hsame, rfl, hnamed⟩, hindices⟩

namespace Reception

/-- A sender and a receiver with one key: the receiver accepts each packet at most once and gives it out as it was, it
accepts what is in range, and it refuses what was accepted, what is below its window, and what was forged. -/
theorem delivers_once {policy : SrtpPolicy} {masterKey masterSalt : List UInt8} {softLimits : SrtpSoftLimits}
    {fresh named sender : SrtpSender} {start : SrtpReceiver} {forged : List UInt8 → Prop} {t : Reception}
    {initialRolloverCounter window : Nat} (hc : c.Undoes)
    (hfresh : SrtpSender.newWithSoftLimits c policy masterKey masterSalt source softLimits = .ok fresh)
    (hnamed : fresh.setMki mki = .ok named) (hsends : Sends c named sender log)
    (hstart : SrtpReceiver.newWithKeysAndWindow c source
      [{ policy, masterKey, masterSalt, mki, initialRolloverCounter }] window = .ok start)
    (hrollover : initialRolloverCounter < 2 ^ 32) (hauthentic : Authentic c start log forged)
    (h : Reachable c log forged start t) :
    (∀ a ∈ t.accepted, ∃ e ∈ log, a = (.copy e, e.packet)) ∧
    (t.accepted.Pairwise fun a b => a.1.index ≠ b.1.index) ∧
    (∀ e, t.Allows log forged initialRolloverCounter (.copy e) → t.InRange window e.index →
      ∃ r', t.receiver.unprotectRtp c e.secured = .ok (r', e.packet)) ∧
    (∀ e ∈ log, (t.Accepted e.index ∨ ∃ top, t.Highest top ∧ e.index + window ≤ top) →
      ∀ result, t.receiver.unprotectRtp c e.secured ≠ .ok result) ∧
    ∀ packet, forged packet → ∀ result, t.receiver.unprotectRtp c packet ≠ .ok result := by
  obtain ⟨rfl, hidentifier⟩ := SrtpSender.setMki_eq_ok hnamed
  obtain ⟨_, -, hfresh⟩ := Loop.bind_eq_ok.1 hfresh
  obtain ⟨keys, hkeys, hfresh⟩ := Loop.bind_eq_ok.1 hfresh
  obtain ⟨senderIndices, hsenderIndices, hfresh⟩ := Loop.bind_eq_ok.1 hfresh
  cases hfresh
  obtain ⟨hzero, -, hunset, -⟩ := new_eq_ok hsenderIndices
  have hsent := sendInv hzero (exact_new hsenderIndices).window_pos hunset hsends
  obtain ⟨hmatches, hindices⟩ := newWithKeys_matches hkeys hidentifier hstart
  obtain ⟨hsame, rfl, -, hwindow⟩ := new_eq_ok hindices
  have hset : Setting c keys mki source log forged start :=
    { undoes := hc
      receiver := hmatches
      valid := hsent.valid
      authentic := hauthentic
      rollover_lt := hsame ▸ hrollover
      fresh := exact_new hindices }
  have hinv := inv_reachable hset h
  subst hsame
  exact ⟨hinv.genuine, hinv.once, fun e hallows => copy_accepted hset hinv hallows hwindow,
    fun e he => copy_refused hset hinv he, fun packet => injected_ne_ok hset hinv⟩

end Reception

/-! ## The recorded session -/

theorem recorded_undoes : Crypto.recorded.Undoes := by
  intro key vector associated plaintext ciphertext tag h
  obtain ⟨p, hfind, hsealed⟩ := Option.map_eq_some_iff.1 h
  have hsame := List.find?_some hfind
  rw [decide_eq_true_eq] at hsame
  obtain ⟨rfl, rfl, rfl, rfl⟩ := hsame
  cases hsealed
  have hall : ∀ p ∈ recordedPackets,
      Crypto.recorded.gcmDecrypt p.key p.vector p.associated p.ciphertext p.tag = some p.plaintext := by
    decide +kernel
  exact hall p (List.mem_of_find?_eq_some hfind)

/-- Only the first two indices were recorded. -/
theorem recorded_rejects {keys : SessionKeys} {packet out : List UInt8} {index : Nat} {parsed : RtpParsedHeader}
    (hcipher : keys.rtp.cipher = .authenticatedEncryption recordedKey recordedSalt)
    (hparse : RtpHeader.parseHeader packet = some parsed) (hsource : parsed.header.ssrc = 7)
    (hsequence : parsed.header.sequence < 2 ^ 16) (h : keys.unprotectRtp .recorded packet index 0 = .ok out) :
    index / 2 ^ 16 = 0 ∧ (parsed.header.sequence = 1 ∨ parsed.header.sequence = 2) := by
  unfold SessionKeys.unprotectRtp at h
  rw [hparse, hcipher] at h
  dsimp only at h
  split_ifs at h with hcounter hshort
  rw [hsource] at h
  cases hdecrypt : Crypto.recorded.gcmDecrypt recordedKey
      (rtpInitializationVector recordedSalt 7 (index / 2 ^ 16) parsed.header.sequence)
      (packet.take parsed.payloadOffset)
      (slice packet parsed.payloadOffset (packet.length - 0 - authenticationTagLength - parsed.payloadOffset))
      (slice packet (packet.length - 0 - authenticationTagLength) authenticationTagLength) with
  | none =>
    rw [hdecrypt] at h
    cases h
  | some payload =>
    obtain ⟨p, hfind, -⟩ := Option.map_eq_some_iff.1 hdecrypt
    have hsame := List.find?_some hfind
    rw [decide_eq_true_eq] at hsame
    have hvector := hsame.2.1
    have hsplit : index / 2 ^ 16 = (index / 2 ^ 16 * 2 ^ 16 + parsed.header.sequence) / 2 ^ 16 ∧
        parsed.header.sequence = (index / 2 ^ 16 * 2 ^ 16 + parsed.header.sequence) % 2 ^ 16 := by omega
    have hlength : recordedSalt.length = 12 := length_beBytes _ _
    have hone := @rtpInitializationVector_injective recordedSalt 1
      (index / 2 ^ 16 * 2 ^ 16 + parsed.header.sequence) 7 hlength (by decide) (by omega)
    have htwo := @rtpInitializationVector_injective recordedSalt 2
      (index / 2 ^ 16 * 2 ^ 16 + parsed.header.sequence) 7 hlength (by decide) (by omega)
    rw [← hsplit.1, ← hsplit.2] at hone htwo
    rcases List.mem_cons.1 (List.mem_of_find?_eq_some hfind) with rfl | hmem
    · have heq := hone hvector
      omega
    · rw [List.mem_singleton.1 hmem] at hvector
      have heq := htwo hvector
      omega

def SrtpReceiver.recorded : SrtpReceiver where
  sessions := [{ keys := SrtpSender.recorded.keys, mki := none }]
  mkiLength := 0
  synchronizationSource := 7
  rtpIndices := SrtpSender.recorded.rtpIndices
  srtcpIndices := SrtpSender.recorded.rtpIndices

/-- A packet of that session, protected. -/
def securedOf (sequence : UInt8) (ciphertext tag : Nat) : List UInt8 :=
  (rtpPacketOf sequence).take 12 ++ beBytes 1 ciphertext ++ beBytes 16 tag

def recordedLog : List Sent :=
  [{ index := 2, packet := rtpPacketOf 2, secured := securedOf 2 0x54 0x3ebfd877ec0c58590ec1cd9a168846c8 },
    { index := 1, packet := rtpPacketOf 1, secured := securedOf 1 0xdd 0x298eb90696316beb9718f370e4f482b0 }]

/-- A packet with the tag of another one. -/
def forgedPacket : List UInt8 := securedOf 3 0xdd 0x298eb90696316beb9718f370e4f482b0

/-- The sender of that session after its first packet. -/
def SrtpSender.recordedNext : SrtpSender :=
  { SrtpSender.recorded with
    rtpIndices := SrtpSender.recorded.rtpIndices.accept 1
    srtpKeyInvocations := 1 }

theorem recorded_sends : ∃ sender, Sends .recorded .recorded sender recordedLog := by
  have hfirst : SrtpSender.recorded.protectRtp .recorded (rtpPacketOf 1) =
      .ok (.recordedNext, securedOf 1 0xdd 0x298eb90696316beb9718f370e4f482b0) := by decide +kernel
  have hsecond : SrtpSender.recordedNext.protectRtp .recorded (rtpPacketOf 2) = .ok ({ SrtpSender.recordedNext with
        rtpIndices := SrtpSender.recordedNext.rtpIndices.accept 2
        srtpKeyInvocations := 2 }, securedOf 2 0x54 0x3ebfd877ec0c58590ec1cd9a168846c8) := by decide +kernel
  have hlog := Sends.protect .start (rfl : RtpHeader.parse (rtpPacketOf 1) = some _) trivial hfirst
  have hadvance : advance 1 2 < 2 ^ 15 := by decide
  have hnext := Sends.protect hlog (rfl : RtpHeader.parse (rtpPacketOf 2) = some _) hadvance hsecond
  exact ⟨_, hnext⟩

theorem recorded_authentic : Authentic .recorded .recorded recordedLog (· = forgedPacket) where
  copy e he index hmod hne session hsession out hok := by
    cases hsession
    have hlog : ∀ e ∈ recordedLog, ∃ parsed, RtpHeader.parseHeader e.secured = some parsed ∧
        parsed.header.ssrc = 7 ∧ parsed.header.sequence < 2 ^ 16 ∧ e.index < 2 ^ 16 := by
      intro e he
      rcases List.mem_cons.1 he with rfl | hmem
      · exact ⟨_, rfl, rfl, by decide, by decide⟩
      · rw [List.mem_singleton.1 hmem]
        exact ⟨_, rfl, rfl, by decide, by decide⟩
    obtain ⟨parsed, hparse, hsource, hsequence, hlt⟩ := hlog e he
    have hzero := (recorded_rejects rfl hparse hsource hsequence hok).1
    omega
  injected packet hforged session hsession index out hok := by
    cases hsession
    cases hforged
    have hthree := (recorded_rejects rfl (rfl : RtpHeader.parseHeader forgedPacket = some _) rfl (by decide) hok).2
    exact absurd hthree (by decide)

namespace Reception

theorem delivers_once_recorded : ∃ t,
    Reachable .recorded recordedLog (· = forgedPacket) .recorded t ∧ t.delivered.length = 4 ∧
      (t.accepted.map fun a => a.1.index) = [some 1, some 2] ∧
      (∀ a ∈ t.accepted, ∃ e ∈ recordedLog, a = (.copy e, e.packet)) ∧
      ∀ result, t.receiver.unprotectRtp .recorded forgedPacket ≠ .ok result := by
  obtain ⟨sender, hsends⟩ := recorded_sends
  -- The second packet arrives before the first one, which arrives twice.
  have hcopy (t : Reception) (e : Sent) (he : e ∈ recordedLog) :
      t.Allows recordedLog (· = forgedPacket) 0 (.copy e) := by
    refine ⟨he, fun _ => ?_⟩
    rcases List.mem_cons.1 he with rfl | hmem
    · decide
    · rw [List.mem_singleton.1 hmem]
      decide
  have hstart : Reachable .recorded recordedLog (· = forgedPacket) .recorded _ := .start
  have hsecond := hstart.deliver (.copy recordedLog[0]) (hcopy _ _ (by decide))
  have hfirst := hsecond.deliver (.copy recordedLog[1]) (hcopy _ _ (by decide))
  have hforged := hfirst.deliver (.injected forgedPacket) rfl
  have h := hforged.deliver (.copy recordedLog[1]) (hcopy _ _ (by decide))
  have hnew : SrtpReceiver.newWithKeysAndWindow .recorded 7
      [{ policy := ⟨.aes128Gcm, .null, fun _ => rfl⟩
         masterKey := (List.range 16).map UInt8.ofNat
         masterSalt := (List.range' 0xa0 12).map UInt8.ofNat
         mki := none
         initialRolloverCounter := 0 }] 128 = .ok .recorded := by decide +kernel
  have hdelivers := delivers_once recorded_undoes SrtpSender.new_recorded rfl hsends hnew (by decide)
    recorded_authentic h
  exact ⟨_, h, rfl, by decide +kernel, hdelivers.1, hdelivers.2.2.2.2 _ rfl⟩

end Reception

end Glass2Glass.Srtp
