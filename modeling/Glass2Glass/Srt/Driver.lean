import Glass2Glass.Srt.Control

/-!
# The handshake driver

What a caller, a listener or a side of a rendezvous does with a handshake packet (`SrtHandshake` in
`g2g-plugins/src/srt.rs`). It reads nothing of a packet but the handshake in it, so its steps are given by what it does
with a handshake that was received (`onPacket_of_parse`).
-/

namespace Glass2Glass.Srt

open Words

/-- A handshake type from here on is a rejection. -/
def urqFailureTypes : UInt32 := 1000

def rejectUnsecure : UInt32 := urqFailureTypes + 11

def rejectStreamNotFound : UInt32 := urqFailureTypes + 1404

def kmKeyLengthOffset : Nat := 15

def hsExtFlagHsreq : UInt16 := 0x0001

def hsExtFlagKmreq : UInt16 := 0x0002

def hsExtFlagConfig : UInt16 := 0x0004

def srtOptTsbpdsnd : UInt32 := 0x01

def srtOptTsbpdrcv : UInt32 := 0x02

def srtOptTlpktdrop : UInt32 := 0x08

def srtOptNakreport : UInt32 := 0x10

def srtOptRexmitflg : UInt32 := 0x20

def liveModeFlags : UInt32 :=
  srtOptTsbpdsnd ||| srtOptTsbpdrcv ||| srtOptTlpktdrop ||| srtOptNakreport ||| srtOptRexmitflg

inductive RendezvousState where
  | waving
  | initiator
  | responder
  | responderAnswered
  deriving DecidableEq

inductive Role where
  | caller
  | listener
  | rendezvous (state : RendezvousState)
  deriving DecidableEq

/-- The contest of the cookies, by the low 32 bits of their signed difference. -/
def rendezvousRole (ownCookie peerCookie : UInt32) : Option RendezvousState :=
  let contest := (ownCookie.toBitVec.toInt - peerCookie.toBitVec.toInt) % 2 ^ 32
  if contest = 0 then none
  else if 2 ^ 31 ≤ contest then some .responder
  else some .initiator

theorem rendezvousRole_eq (own peer : UInt32) : rendezvousRole own peer =
      if own = peer then none
      else if 2 ^ 31 ≤ (own.toNat + 2 ^ 32 - peer.toNat) % 2 ^ 32 then some .responder
      else some .initiator := by
  have hown : own.toNat < 2 ^ 32 := own.toNat_lt
  have hpeer : peer.toNat < 2 ^ 32 := peer.toNat_lt
  have hsigned (x : UInt32) : x.toBitVec.toInt = if 2 * x.toNat < 2 ^ 32 then (x.toNat : Int) else x.toNat - 2 ^ 32 :=
    BitVec.toInt_eq_toNat_cond x.toBitVec
  have hcontest : (own.toBitVec.toInt - peer.toBitVec.toInt) % 2 ^ 32 =
      ((own.toNat + 2 ^ 32 - peer.toNat) % 2 ^ 32 : Nat) := by
    rw [hsigned, hsigned]
    split_ifs <;> omega
  have hzero : own = peer ↔ (own.toNat + 2 ^ 32 - peer.toNat) % 2 ^ 32 = 0 := by
    rw [← UInt32.toNat_inj]
    omega
  unfold rendezvousRole
  simp only [hcontest, hzero]
  generalize (own.toNat + 2 ^ 32 - peer.toNat) % 2 ^ 32 = contest
  have hnone : (contest : Int) = 0 ↔ contest = 0 := by omega
  have hhalf : (2 : Int) ^ 31 ≤ contest ↔ 2 ^ 31 ≤ contest := by omega
  simp only [hnone, hhalf]

theorem rendezvousRole_self (cookie : UInt32) : rendezvousRole cookie cookie = none := by
  rw [rendezvousRole_eq, if_pos rfl]

variable {own peer : UInt32}

theorem rendezvousRole_of_ne (h : own ≠ peer) :
    rendezvousRole own peer = some .initiator ∨ rendezvousRole own peer = some .responder := by
  rw [rendezvousRole_eq, if_neg h]
  split_ifs
  · exact Or.inr rfl
  · exact Or.inl rfl

theorem rendezvousRole_eq_some {state : RendezvousState} (h : rendezvousRole own peer = some state) :
    state = .initiator ∨ state = .responder := by
  by_cases heq : own = peer
  · subst heq
    exact absurd (h.symm.trans (rendezvousRole_self own)) (by simp)
  · rcases rendezvousRole_of_ne heq with hrole | hrole
    · exact Or.inl (Option.some.inj (h.symm.trans hrole))
    · exact Or.inr (Option.some.inj (h.symm.trans hrole))

theorem rendezvousRole_flip (h : rendezvousRole own peer = some .initiator) :
    rendezvousRole peer own = some .responder := by
  have hown : own.toNat < 2 ^ 32 := own.toNat_lt
  have hpeer : peer.toNat < 2 ^ 32 := peer.toNat_lt
  rw [rendezvousRole_eq] at h
  split_ifs at h with heq hlt
  · exact absurd (Option.some.inj h) (by decide)
  · have hne : own.toNat ≠ peer.toNat := fun hnat => heq (UInt32.toNat_inj.1 hnat)
    rw [rendezvousRole_eq, if_neg fun hsym => heq hsym.symm, if_pos (by omega)]

theorem rendezvousRole_responder_iff (h : rendezvousRole own peer = some .responder) :
    rendezvousRole peer own = some .initiator ↔ (own.toNat + 2 ^ 32 - peer.toNat) % 2 ^ 32 ≠ 2 ^ 31 := by
  have hown : own.toNat < 2 ^ 32 := own.toNat_lt
  have hpeer : peer.toNat < 2 ^ 32 := peer.toNat_lt
  rw [rendezvousRole_eq] at h
  split_ifs at h with heq hlt
  · have hne : own.toNat ≠ peer.toNat := fun hnat => heq (UInt32.toNat_inj.1 hnat)
    rw [rendezvousRole_eq, if_neg fun hsym => heq hsym.symm]
    split_ifs with hpast
    · refine iff_of_false (by simp) ?_
      omega
    · refine iff_of_true rfl ?_
      omega
  · exact absurd (Option.some.inj h) (by decide)

/-- What is to be done after a step: a packet to send, and whether the connection is established. -/
structure HandshakeStep where
  reply : Option (List UInt8)
  established : Bool

structure SrtHandshake where
  role : Role
  socketId : UInt32
  initSeq : UInt32
  latencyMs : UInt16
  streamId : Option String
  cookie : UInt32
  peerSocketId : UInt32
  peerInitSeq : UInt32
  established : Bool
  km : Option (List UInt8)
  peerKm : Option (List UInt8)
  peerSrtFlags : UInt32
  requiredStreamId : Option String
  requiredKeyLength : Option Nat
  rejection : Option UInt32

/-- The length of the stream key that keying material carries. -/
def kmKeyLength (km : List UInt8) : Option Nat := km[kmKeyLengthOffset]?.map fun words => words.toNat * 4

namespace SrtHandshake

def newCaller (socketId initSeq : UInt32) (latencyMs : UInt16) (streamId : Option String) (km : Option (List UInt8)) :
    SrtHandshake where
  role := .caller
  socketId
  initSeq
  latencyMs
  streamId
  cookie := 0
  peerSocketId := 0
  peerInitSeq := 0
  established := false
  km
  peerKm := none
  peerSrtFlags := 0
  requiredStreamId := none
  requiredKeyLength := none
  rejection := none

def newRendezvous (socketId initSeq : UInt32) (latencyMs : UInt16) (streamId : Option String)
    (km : Option (List UInt8)) (cookie : UInt32) : SrtHandshake :=
  { newCaller socketId initSeq latencyMs streamId km with
    role := .rendezvous .waving
    cookie }

def newListener (socketId : UInt32) (latencyMs : UInt16) (cookie : UInt32) : SrtHandshake where
  role := .listener
  socketId
  initSeq := 0
  latencyMs
  streamId := none
  cookie
  peerSocketId := 0
  peerInitSeq := 0
  established := false
  km := none
  peerKm := none
  peerSrtFlags := 0
  requiredStreamId := none
  requiredKeyLength := none
  rejection := none

section

variable (s : SrtHandshake)

def admitOnly (streamId : Option String) (keyLength : Option Nat) : SrtHandshake :=
  { s with
    requiredStreamId := streamId
    requiredKeyLength := keyLength }

/-- A handshake without extensions. -/
def bare (hsType : UInt32) : Handshake :=
  { Handshake.induction s.socketId s.initSeq with
    version := hsVersion5
    extField := 0
    hsType
    synCookie := s.cookie }

/-- Why a listener rejects a conclusion. -/
def refusal (conclusion : Handshake) : Option UInt32 :=
  if s.requiredStreamId.any fun id => conclusion.streamId ≠ some id then some rejectStreamNotFound
  else if s.requiredKeyLength.any fun required => conclusion.km.bind kmKeyLength ≠ some required then
    some rejectUnsecure
  else none

/-- A side that answers. -/
def responding : Bool :=
  match s.role with
  | .listener | .rendezvous .responder | .rendezvous .responderAnswered => true
  | _ => false

/-- The conclusion of a side, with its extensions. -/
def conclusion : Handshake where
  version := hsVersion5
  encryption := if s.km.isSome then 1 else 0
  extField :=
    hsExtFlagHsreq ||| (if s.streamId.isSome then hsExtFlagConfig else 0) |||
      (if s.km.isSome then hsExtFlagKmreq else 0)
  initSeq := s.initSeq
  mtu := mssBytes
  flowWindow := handshakeFlowWindow
  hsType := urqConclusion
  srtSocketId := s.socketId
  synCookie := s.cookie
  peerIp := List.replicate 16 0
  peerIp_length := length_noPeerIp
  latencyMs := some s.latencyMs
  -- A side that answers asks for the retransmit bit only when it was offered.
  srtFlags := if s.responding then liveModeFlags &&& (s.peerSrtFlags ||| ~~~srtOptRexmitflg) else liveModeFlags
  streamId := s.streamId
  km := s.km
  isResponse := s.responding

/-- The packet that a side starts with. -/
def start : Option (List UInt8) :=
  match s.role with
  | .caller => some (buildControl (.handshake (Handshake.induction s.socketId s.initSeq)) 0 0)
  | .listener => none
  | .rendezvous _ => some (buildControl (.handshake (s.bare urqWaveahand)) 0 0)

/-- The latency of both sides, if the other one has told its own. -/
def raiseLatency (latencyMs : Option UInt16) : UInt16 :=
  match latencyMs with
  | some latency => max s.latencyMs latency
  | none => s.latencyMs

def takePeerParameters (hs : Handshake) : SrtHandshake :=
  { s with
    peerInitSeq := hs.initSeq
    peerSrtFlags := hs.srtFlags
    peerKm := hs.km
    latencyMs := s.raiseLatency hs.latencyMs }

/-- A side after a handshake, the handshake that it answers, and whether the step says that it is established. -/
structure Outcome where
  side : SrtHandshake
  answer : Option Handshake
  established : Bool

/-- Nothing is answered. -/
def quiet : Outcome where
  side := s
  answer := none
  established := s.established

/-- A listener answers a request with its cookie. -/
def onCallerInduction (hs : Handshake) : Outcome where
  side := { s with peerSocketId := hs.srtSocketId }
  answer :=
    some { Handshake.induction s.socketId 0 with
      version := hsVersion5
      synCookie := s.cookie }
  established := false

/-- What a listener rejects a caller with. -/
def rejects (reason : UInt32) : Handshake :=
  { Handshake.induction s.socketId 0 with
    version := hsVersion5
    extField := 0
    hsType := reason
    synCookie := s.cookie }

/-- A listener that takes the parameters of a caller. -/
def admits (hs : Handshake) : SrtHandshake :=
  { s with
    peerSocketId := hs.srtSocketId
    peerInitSeq := hs.initSeq
    initSeq := hs.initSeq
    peerSrtFlags := hs.srtFlags
    latencyMs := s.raiseLatency hs.latencyMs
    peerKm := hs.km
    km := hs.km
    established := true }

/-- A listener concludes or rejects. -/
def onCallerConclusion (hs : Handshake) : Outcome :=
  if hs.synCookie ≠ s.cookie then s.quiet
  else
    match s.refusal hs with
    | some reason => { side := s, answer := some (s.rejects reason), established := false }
    | none => { side := s.admits hs, answer := some (s.admits hs).conclusion, established := true }

/-- A caller takes the cookie and concludes. -/
def onListenerInduction (hs : Handshake) : Outcome where
  side := { s with cookie := hs.synCookie }
  answer := some { s with cookie := hs.synCookie }.conclusion
  established := false

end

section

variable (s : SrtHandshake)

/-- A caller is done. -/
def onListenerConclusion (hs : Handshake) : Outcome where
  side :=
    { s.takePeerParameters hs with
      peerSocketId := hs.srtSocketId
      established := true }
  answer := none
  established := true

/-- The responder that has answered the conclusion of the initiator. -/
def answered (hs : Handshake) : SrtHandshake :=
  { s.takePeerParameters hs with
    km := hs.km
    role := .rendezvous .responderAnswered }

/-- The answer of a side of a rendezvous whose role is decided. -/
def onDecided (state : RendezvousState) (hs : Handshake) : SrtHandshake × Option Handshake :=
  let carriesHsExtension := hs.latencyMs.isSome
  match state with
  | .initiator =>
    if hs.hsType = urqConclusion ∧ carriesHsExtension then
      let s := { s.takePeerParameters hs with established := true }
      (s, some (s.bare urqAgreement))
    else if hs.hsType = urqWaveahand ∨ hs.hsType = urqConclusion then (s, some s.conclusion)
    else (s, none)
  | .responder =>
    if hs.hsType = urqConclusion ∧ carriesHsExtension then (s.answered hs, some (s.answered hs).conclusion)
    else if hs.hsType = urqWaveahand ∨ hs.hsType = urqConclusion then (s, some (s.bare urqConclusion))
    else (s, none)
  | .responderAnswered =>
    if hs.hsType = urqConclusion ∧ carriesHsExtension then (s.answered hs, some (s.answered hs).conclusion)
    else if hs.hsType = urqAgreement then ({ s with established := true }, none)
    else (s, none)
  | .waving => (s, none)

/-- The state of a side of a rendezvous. The first packet decides it. -/
def decided (state : RendezvousState) (hs : Handshake) : Option RendezvousState :=
  match state with
  | .waving => rendezvousRole s.cookie hs.synCookie
  | state => some state

/-- A packet of the other side of a rendezvous. -/
def onRendezvousPacket (state : RendezvousState) (hs : Handshake) : Outcome :=
  match s.decided state hs with
  | none => { side := { s with peerSocketId := hs.srtSocketId }, answer := none, established := false }
  | some state =>
    let next := onDecided { s with peerSocketId := hs.srtSocketId, role := .rendezvous state } state hs
    { side := next.1, answer := next.2, established := next.1.established }

/-- What a side does with a handshake. -/
def onHandshake (hs : Handshake) : Outcome :=
  -- The types of a conclusion and an agreement are negative numbers, that of a rejection is positive.
  if hs.hsType < 2 ^ 31 ∧ urqFailureTypes ≤ hs.hsType then
    { side := { s with rejection := some hs.hsType }, answer := none, established := s.established }
  else
    match s.role with
    | .listener =>
      if hs.hsType = urqInduction then s.onCallerInduction hs
      else if hs.hsType = urqConclusion then s.onCallerConclusion hs
      else s.quiet
    | .caller =>
      if hs.hsType = urqInduction then s.onListenerInduction hs
      else if hs.hsType = urqConclusion then s.onListenerConclusion hs
      else s.quiet
    | .rendezvous state => s.onRendezvousPacket state hs

/-- The socket that an answer is sent to. -/
def replyTo (hs : Handshake) : UInt32 :=
  match s.role with
  | .caller => 0
  | _ => hs.srtSocketId

end

/-- What a side does without a handshake. The initiator sends data once it is connected, which stands in for an agreement
that was lost. -/
def onOther (s : SrtHandshake) : SrtHandshake :=
  if s.role = .rendezvous .responderAnswered then { s with established := true } else s

/-- What a side does with a packet. -/
def onPacket (s : SrtHandshake) (buf : List UInt8) : SrtHandshake × HandshakeStep :=
  match parseControl buf with
  | some (.handshake hs) =>
    let outcome := s.onHandshake hs
    (outcome.side,
      { reply := outcome.answer.map fun answer => buildControl (.handshake answer) 0 (s.replyTo hs).toNat
        established := outcome.established })
  | _ => (s.onOther, { reply := none, established := s.onOther.established })

variable {s : SrtHandshake} {hs : Handshake}

theorem onPacket_of_parse {buf : List UInt8} (h : parseControl buf = some (.handshake hs)) :
    s.onPacket buf = ((s.onHandshake hs).side,
      { reply := (s.onHandshake hs).answer.map fun answer =>
          buildControl (.handshake answer) 0 (s.replyTo hs).toNat
        established := (s.onHandshake hs).established }) := by
  unfold onPacket
  rw [h]

theorem onPacket_of_other {buf : List UInt8} (h : ∀ hs, parseControl buf ≠ some (.handshake hs)) :
    s.onPacket buf = (s.onOther, { reply := none, established := s.onOther.established }) := by
  unfold onPacket
  split
  · next hs heq => exact absurd heq (h hs)
  · rfl

theorem onHandshake_rejection (h : hs.hsType < 2 ^ 31 ∧ urqFailureTypes ≤ hs.hsType) : s.onHandshake hs =
      { side := { s with rejection := some hs.hsType }, answer := none, established := s.established } := by
  unfold onHandshake
  rw [if_pos h]

theorem onHandshake_listener (hrole : s.role = .listener) (htype : hs.hsType = urqInduction ∨ hs.hsType = urqConclusion) :
    s.onHandshake hs = if hs.hsType = urqInduction then s.onCallerInduction hs else s.onCallerConclusion hs := by
  unfold onHandshake
  rw [hrole]
  rcases htype with htype | htype <;> rw [htype] <;> rfl

theorem onHandshake_caller (hrole : s.role = .caller) (htype : hs.hsType = urqInduction ∨ hs.hsType = urqConclusion) :
    s.onHandshake hs = if hs.hsType = urqInduction then s.onListenerInduction hs else s.onListenerConclusion hs := by
  unfold onHandshake
  rw [hrole]
  rcases htype with htype | htype <;> rw [htype] <;> rfl

theorem onHandshake_rendezvous {state : RendezvousState} (hrole : s.role = .rendezvous state)
    (htype : hs.hsType = urqWaveahand ∨ hs.hsType = urqConclusion ∨ hs.hsType = urqAgreement) :
    s.onHandshake hs = s.onRendezvousPacket state hs := by
  unfold onHandshake
  rw [hrole]
  rcases htype with htype | htype | htype <;> rw [htype] <;> rfl

/-- The handshake that a side starts with. -/
def opening (s : SrtHandshake) : Option Handshake :=
  match s.role with
  | .caller => some (Handshake.induction s.socketId s.initSeq)
  | .listener => none
  | .rendezvous _ => some (s.bare urqWaveahand)

theorem start_eq (s : SrtHandshake) : s.start = s.opening.map fun hs => buildControl (.handshake hs) 0 0 := by
  unfold start opening
  cases s.role <;> rfl

end SrtHandshake

theorem parseControl_handshake {hs : Handshake} (h : hs.Fits) (timestamp dstSocketId : Nat) :
    parseControl (buildControl (.handshake hs) timestamp dstSocketId) = some (.handshake hs.received) := by
  rw [buildControl, parseControl_controlPacket (by decide) (by decide), parseCif, if_pos rfl,
    parseHandshakeCif_buildHandshakeCif hs h]
  rfl

end Glass2Glass.Srt
