import Glass2Glass.Lib.Exchange
import Glass2Glass.Srt.Driver

/-!
# Agreement

Two sides of a handshake on a network that loses, duplicates and reorders their packets. Each side guarantees of the
handshakes that it sends what the other one relies on, so once both are established they agree on socket ids, sequence
numbers, latency and keying material (`handshake_agreement`).
-/

namespace Glass2Glass.Srt

open SrtHandshake Option

/-- What a side was created with. -/
structure Side where
  socketId : UInt32
  initSeq : UInt32
  latencyMs : UInt16
  streamId : Option String
  km : Option (List UInt8)

/-- What a listener was created with, and what it admits only. -/
structure Service where
  socketId : UInt32
  latencyMs : UInt16
  cookie : UInt32
  requiredStreamId : Option String
  requiredKeyLength : Option Nat

def Service.listener (service : Service) : SrtHandshake :=
  (newListener service.socketId service.latencyMs service.cookie).admitOnly service.requiredStreamId
    service.requiredKeyLength

/-- The word counts of a side's extensions fit into 16 bits. -/
structure Side.Fits (side : Side) : Prop where
  km : ∀ km, side.km = some km → wordCount km < 2 ^ 16
  streamId : ∀ sid, side.streamId = some sid → wordCount sid.toUTF8.data.toList < 2 ^ 16

def Side.caller (side : Side) : SrtHandshake :=
  newCaller side.socketId side.initSeq side.latencyMs side.streamId side.km

def Side.rendezvous (side : Side) (cookie : UInt32) : SrtHandshake :=
  newRendezvous side.socketId side.initSeq side.latencyMs side.streamId side.km cookie

/-- A packet without a handshake. -/
def Foreign (buf : List UInt8) : Prop := ∀ hs, parseControl buf ≠ some (.handshake hs)

/-- A side takes a packet and may answer it. -/
def receive (s : SrtHandshake) (buf : List UInt8) : SrtHandshake × Option (List UInt8) :=
  ((s.onPacket buf).1, (s.onPacket buf).2.reply)

/-- Both sides with the packets that they have sent and received. -/
abbrev Pair : Type :=
  Exchange.Endpoint SrtHandshake (List UInt8) × Exchange.Endpoint SrtHandshake (List UInt8)

theorem receive_of_parse {s : SrtHandshake} {hs : Handshake} {buf : List UInt8}
    (h : parseControl buf = some (.handshake hs)) :
    receive s buf = ((s.onHandshake hs).side, (s.onHandshake hs).answer.map fun answer =>
      buildControl (.handshake answer) 0 (s.replyTo hs).toNat) := by
  unfold receive
  rw [onPacket_of_parse h]

/-- What two sides can reach on a network that carries other packets too. -/
def Reaches (s t : SrtHandshake) (pair : Pair) : Prop :=
  Exchange.Reaches SrtHandshake.start receive Foreign s t pair

/-- The side that has sent its key and the other one agree. Both hold the key filled up to whole words. -/
structure Agree (latencyMs : UInt16) (initiator other : SrtHandshake) : Prop where
  peerSocketId : initiator.peerSocketId = other.socketId ∧ other.peerSocketId = initiator.socketId
  peerInitSeq : initiator.peerInitSeq = other.initSeq ∧ other.peerInitSeq = initiator.initSeq
  latency : initiator.latencyMs = latencyMs ∧ other.latencyMs = latencyMs
  km : initiator.peerKm = initiator.km.map padWords ∧ other.km = initiator.km.map padWords ∧
    other.peerKm = initiator.km.map padWords

/-! ## Contracts on handshakes -/

/-- A packet that was built of a handshake that fits, by what is read of it. -/
def Carries (P : Handshake → Prop) (buf : List UInt8) : Prop :=
  ∃ hs dst, buf = buildControl (.handshake hs) 0 dst ∧ hs.Fits ∧ P hs.received

/-- A contract on the handshakes that are read of packets. -/
structure Behaves (relies guarantees : Handshake → Prop) (Inv : SrtHandshake → List (List UInt8) → Prop) : Prop where
  opening : ∀ s got hs, Inv s got → s.opening = some hs → hs.Fits ∧ guarantees hs.received
  kept : ∀ s got hs buf, Inv s got → relies hs → parseControl buf = some (.handshake hs) →
    Inv (s.onHandshake hs).side (got ++ [buf])
  answer : ∀ s got hs answer, Inv s got → relies hs → (s.onHandshake hs).answer = some answer →
    answer.Fits ∧ guarantees answer.received
  other : ∀ s got buf, Inv s got → Inv s.onOther (got ++ [buf])

theorem Behaves.contract {relies guarantees : Handshake → Prop} {Inv : SrtHandshake → List (List UInt8) → Prop}
    (h : Behaves relies guarantees Inv) :
    Exchange.Contract SrtHandshake.start receive (fun buf => Carries relies buf ∨ Foreign buf) (Carries guarantees)
      Inv where
  opening := by
    intro s got buf hinv hstart
    rw [start_eq] at hstart
    obtain ⟨hs, hopening, rfl⟩ := Option.map_eq_some_iff.1 hstart
    obtain ⟨hfits, hguarantees⟩ := h.opening s got hs hinv hopening
    exact ⟨hs, 0, rfl, hfits, hguarantees⟩
  kept := by
    rintro s got buf hinv (⟨hs, dst, rfl, hfits, hrelies⟩ | hforeign)
    · have hparse := parseControl_handshake hfits 0 dst
      unfold receive
      rw [onPacket_of_parse hparse]
      exact h.kept s got hs.received _ hinv hrelies hparse
    · unfold receive
      rw [onPacket_of_other hforeign]
      exact h.other s got buf hinv
  answer := by
    rintro s got buf reply hinv (⟨hs, dst, rfl, hfits, hrelies⟩ | hforeign) hreply
    · unfold receive at hreply
      rw [onPacket_of_parse (parseControl_handshake hfits 0 dst)] at hreply
      obtain ⟨answer, hanswer, rfl⟩ := Option.map_eq_some_iff.1 hreply
      obtain ⟨hfits', hguarantees⟩ := h.answer s got hs.received answer hinv hrelies hanswer
      exact ⟨answer, _, rfl, hfits', hguarantees⟩
    · unfold receive at hreply
      rw [onPacket_of_other hforeign] at hreply
      exact absurd hreply (some_ne_none reply).symm

theorem Reaches.inv {guaranteesLeft guaranteesRight : Handshake → Prop}
    {InvLeft InvRight : SrtHandshake → List (List UInt8) → Prop}
    (hleft : Behaves guaranteesRight guaranteesLeft InvLeft) (hright : Behaves guaranteesLeft guaranteesRight InvRight)
    {s t : SrtHandshake} (hs : InvLeft s []) (ht : InvRight t []) {pair : Pair} (h : Reaches s t pair) :
    InvLeft pair.1.state pair.1.received ∧ InvRight pair.2.state pair.2.received := by
  obtain ⟨hl, hr⟩ := Exchange.Reaches.contracts hleft.contract hright.contract hs ht h
  exact ⟨hl.inv, hr.inv⟩

theorem toNat_max (x y : UInt16) : (max x y).toNat = max x.toNat y.toNat := by
  show (if x ≤ y then y else x).toNat = _
  split_ifs with h
  · rw [Nat.max_eq_right (UInt16.le_iff_toNat_le.1 h)]
  · rw [Nat.max_eq_left (Nat.le_of_not_le fun h' => h (UInt16.le_iff_toNat_le.2 h'))]

theorem max_of_agreed {a b x y : UInt16} (hx : x = a ∨ x = max a b) (hy : y = b ∨ y = max a b) : max x y = max a b := by
  refine UInt16.toNat_inj.1 ?_
  rcases hx with rfl | rfl <;> rcases hy with rfl | rfl <;> simp only [toNat_max] <;> omega

theorem max_comm_latency (x y : UInt16) : max x y = max y x := by
  refine UInt16.toNat_inj.1 ?_
  rw [toNat_max, toNat_max, Nat.max_comm]

theorem wordCount_padWords (bytes : List UInt8) : wordCount (padWords bytes) = wordCount bytes := by
  have := length_padWords bytes
  unfold wordCount at *
  omega

theorem map_padWords_twice (km : Option (List UInt8)) : (km.map padWords).map padWords = km.map padWords := by
  cases km with
  | none => rfl
  | some km => exact congrArg some (padWords_padWords km)

theorem Side.Fits.of_padded {side : Side} (h : side.Fits) {km : List UInt8} (hkm : side.km.map padWords = some km) :
    wordCount km < 2 ^ 16 := by
  obtain ⟨own, hown, rfl⟩ := Option.map_eq_some_iff.1 hkm
  rw [wordCount_padWords]
  exact h.km own hown

/-! ## Caller and listener -/

section Listener

variable (side : Side) (service : Service)

/-- What is read of a caller: requests, and conclusions with its key. -/
def CallerSends (hs : Handshake) : Prop :=
  hs.srtSocketId = side.socketId ∧ hs.initSeq = side.initSeq ∧ (hs.hsType = urqInduction ∨
      hs.hsType = urqConclusion ∧ hs.km = side.km.map padWords ∧
        ∃ l, hs.latencyMs = some l ∧ (l = side.latencyMs ∨ l = max side.latencyMs service.latencyMs))

/-- What is read of a listener: its cookie, rejections, and conclusions that take over what the caller has sent. -/
def ListenerSends (hs : Handshake) : Prop :=
  hs.hsType = urqInduction ∨ (hs.hsType < 2 ^ 31 ∧ urqFailureTypes ≤ hs.hsType) ∨
    (hs.hsType = urqConclusion ∧ hs.srtSocketId = service.socketId ∧ hs.initSeq = side.initSeq ∧
      hs.latencyMs = some (max side.latencyMs service.latencyMs) ∧ hs.km = side.km.map padWords)

/-- A caller keeps what it was created with, and when it is established it has taken what the listener has sent. -/
structure CallerInv (s : SrtHandshake) : Prop where
  role : s.role = .caller
  socketId : s.socketId = side.socketId
  initSeq : s.initSeq = side.initSeq
  streamId : s.streamId = side.streamId
  km : s.km = side.km
  latency : s.latencyMs = side.latencyMs ∨ s.latencyMs = max side.latencyMs service.latencyMs
  established : s.established = true → s.peerSocketId = service.socketId ∧ s.peerInitSeq = side.initSeq ∧
    s.latencyMs = max side.latencyMs service.latencyMs ∧ s.peerKm = side.km.map padWords

/-- A conclusion that a listener accepts: it carries the listener's cookie, and what the listener requires. -/
def Accepted (buf : List UInt8) : Prop :=
  ∃ hs, parseControl buf = some (.handshake hs) ∧ hs.hsType = urqConclusion ∧ hs.synCookie = service.cookie ∧
    service.listener.refusal hs = none

/-- A listener keeps what it was created with, and when it is established it has accepted a conclusion and taken what
the caller has sent. -/
structure ListenerInv (s : SrtHandshake) (got : List (List UInt8)) : Prop where
  role : s.role = .listener
  socketId : s.socketId = service.socketId
  cookie : s.cookie = service.cookie
  streamId : s.streamId = none
  requiredStreamId : s.requiredStreamId = service.requiredStreamId
  requiredKeyLength : s.requiredKeyLength = service.requiredKeyLength
  latency : s.latencyMs = service.latencyMs ∨ s.latencyMs = max side.latencyMs service.latencyMs
  established : s.established = true →
    (s.peerSocketId = side.socketId ∧ s.peerInitSeq = side.initSeq ∧ s.initSeq = side.initSeq ∧
      s.latencyMs = max side.latencyMs service.latencyMs ∧ s.km = side.km.map padWords ∧ s.peerKm = side.km.map padWords) ∧
    ∃ buf ∈ got, Accepted service buf

variable {s : SrtHandshake}

theorem fits_conclusion (hkm : ∀ km, s.km = some km → wordCount km < 2 ^ 16)
    (hsid : ∀ sid, s.streamId = some sid → wordCount sid.toUTF8.data.toList < 2 ^ 16) : s.conclusion.Fits where
  km := hkm
  streamId := hsid

theorem fits_of_none {hs : Handshake} (hkm : hs.km = none) (hsid : hs.streamId = none) : hs.Fits where
  km := fun km h => absurd (hkm.symm.trans h) (by simp)
  streamId := fun sid h => absurd (hsid.symm.trans h) (by simp)

variable {side service}

theorem callerInv_other (h : CallerInv side service s) : s.onOther = s := by
  unfold onOther
  rw [if_neg (by rw [h.role]; decide)]

theorem behaves_caller (hfits : side.Fits) : Behaves (ListenerSends side service) (CallerSends side service)
      (fun s _ => CallerInv side service s) where
  opening := by
    intro s got hs hinv hopening
    unfold opening at hopening
    rw [hinv.role] at hopening
    obtain rfl := Option.some.inj hopening
    exact ⟨fits_of_none rfl rfl, hinv.socketId, hinv.initSeq, .inl rfl⟩
  kept := by
    rintro s got hs buf hinv (htype | htype | ⟨htype, hsocket, hseq, hlatency, hkm⟩) -
    · rw [onHandshake_caller hinv.role (.inl htype), if_pos htype]
      exact { hinv with }
    · rw [onHandshake_rejection htype]
      exact { hinv with }
    · rw [onHandshake_caller hinv.role (.inr htype), if_neg (by rw [htype]; decide)]
      have hlatency' : s.raiseLatency hs.latencyMs = max side.latencyMs service.latencyMs := by
        rw [hlatency]
        exact max_of_agreed hinv.latency (.inr rfl)
      exact { hinv with
        latency := .inr hlatency'
        established := fun _ => ⟨hsocket, hseq, hlatency', hkm⟩ }
  answer := by
    rintro s got hs answer hinv (htype | htype | ⟨htype, -⟩) hanswer
    · rw [onHandshake_caller hinv.role (.inl htype), if_pos htype] at hanswer
      obtain rfl := Option.some.inj hanswer
      refine ⟨fits_conclusion (fun km h => hfits.km km (hinv.km ▸ h)) fun sid h => hfits.streamId sid (hinv.streamId ▸ h),
        hinv.socketId, hinv.initSeq, .inr ⟨rfl, congrArg (Option.map padWords) hinv.km, s.latencyMs, rfl, hinv.latency⟩⟩
    · rw [onHandshake_rejection htype] at hanswer
      exact absurd hanswer (by simp)
    · rw [onHandshake_caller hinv.role (.inr htype), if_neg (by rw [htype]; decide)] at hanswer
      exact absurd hanswer (by simp [onListenerConclusion])
  other := by
    intro s got buf hinv
    rw [callerInv_other hinv]
    exact hinv

variable {got : List (List UInt8)}

theorem ListenerInv.append (h : ListenerInv side service s got)
    (buf : List UInt8) : ListenerInv side service s (got ++ [buf]) :=
  { h with
    established := fun hest =>
      have ⟨hagreed, earlier, hmem, haccepted⟩ := h.established hest
      ⟨hagreed, earlier, List.mem_append_left _ hmem, haccepted⟩ }

theorem ListenerInv.other (h : ListenerInv side service s got) : s.onOther = s := by
  unfold onOther
  rw [if_neg (by rw [h.role]; decide)]

theorem ListenerInv.refusal_eq (h : ListenerInv side service s got)
    (hs : Handshake) : s.refusal hs = service.listener.refusal hs := by
  unfold refusal
  rw [h.requiredStreamId, h.requiredKeyLength]
  rfl

theorem ListenerInv.raised (h : ListenerInv side service s got)
    {l : UInt16} (hl : l = side.latencyMs ∨ l = max side.latencyMs service.latencyMs) :
    max s.latencyMs l = max side.latencyMs service.latencyMs := by
  rw [max_comm_latency]
  exact max_of_agreed hl h.latency

theorem refusal_rejects {hs : Handshake} {reason : UInt32} (h : s.refusal hs = some reason) :
    reason < 2 ^ 31 ∧ urqFailureTypes ≤ reason := by
  unfold refusal at h
  split_ifs at h
  · obtain rfl := Option.some.inj h
    decide
  · obtain rfl := Option.some.inj h
    decide

theorem behaves_listener (hfits : side.Fits) : Behaves (CallerSends side service) (ListenerSends side service)
      (ListenerInv side service) where
  opening := by
    intro s got hs hinv hopening
    unfold opening at hopening
    rw [hinv.role] at hopening
    exact absurd hopening (by simp)
  kept := by
    rintro s got hs buf hinv ⟨hsocket, hseq, htype | ⟨htype, hkm, l, hl, hlatency⟩⟩ hparse
    · rw [onHandshake_listener hinv.role (.inl htype), if_pos htype]
      exact { hinv.append buf with
        established := fun h =>
          have hagreed := (hinv.append buf).established h
          ⟨⟨hsocket, hagreed.1.2⟩, hagreed.2⟩ }
    · rw [onHandshake_listener hinv.role (.inr htype), if_neg (by rw [htype]; decide)]
      unfold onCallerConclusion
      split_ifs with hcookie
      · exact hinv.append buf
      · rcases hrefusal : s.refusal hs with _ | reason
        · have hlatency' : s.raiseLatency hs.latencyMs = max side.latencyMs service.latencyMs := by
            rw [hl]
            exact hinv.raised hlatency
          have haccepted : Accepted service buf :=
            ⟨hs, hparse, htype, (not_not.1 hcookie).trans hinv.cookie, hinv.refusal_eq hs ▸ hrefusal⟩
          exact { hinv with
            latency := .inr hlatency'
            established := fun _ => ⟨⟨hsocket, hseq, hseq, hlatency', hkm, hkm⟩,
              buf, List.mem_append_right _ List.mem_cons_self, haccepted⟩ }
        · exact hinv.append buf
  answer := by
    rintro s got hs answer hinv ⟨hsocket, hseq, htype | ⟨htype, hkm, l, hl, hlatency⟩⟩ hanswer
    · rw [onHandshake_listener hinv.role (.inl htype), if_pos htype] at hanswer
      obtain rfl := Option.some.inj hanswer
      exact ⟨fits_of_none rfl rfl, .inl rfl⟩
    · rw [onHandshake_listener hinv.role (.inr htype), if_neg (by rw [htype]; decide)] at hanswer
      unfold onCallerConclusion at hanswer
      split_ifs at hanswer with hcookie
      · exact absurd hanswer (by simp [quiet])
      · rcases hrefusal : s.refusal hs with _ | reason
        · rw [hrefusal] at hanswer
          obtain rfl := Option.some.inj hanswer
          have hlatency' : s.raiseLatency hs.latencyMs = max side.latencyMs service.latencyMs := by
            rw [hl]
            exact hinv.raised hlatency
          refine ⟨fits_conclusion (fun km h => ?_) fun sid h => ?_, .inr (.inr ⟨rfl, hinv.socketId, hseq,
            congrArg some hlatency', ?_⟩)⟩
          · exact hfits.of_padded (hkm ▸ h)
          · exact absurd (hinv.streamId.symm.trans h) (by simp)
          · show hs.km.map padWords = _
            rw [hkm, map_padWords_twice]
        · rw [hrefusal] at hanswer
          obtain rfl := Option.some.inj hanswer
          exact ⟨fits_of_none rfl rfl, .inr (.inl (refusal_rejects hrefusal))⟩
  other := by
    intro s got buf hinv
    rw [hinv.other]
    exact hinv.append buf

end Listener

/-! ## Rendezvous -/

section Rendezvous

variable (own peer : Side) (ownCookie peerCookie : UInt32)

/-- What is read of a side of a rendezvous. An extension is sent by the initiator, with its own key, and by the side that
answers the initiator, with the key of the initiator. -/
def RendezvousSends (hs : Handshake) : Prop :=
  hs.srtSocketId = own.socketId ∧ hs.initSeq = own.initSeq ∧ hs.synCookie = ownCookie ∧
    (hs.hsType = urqWaveahand ∨ hs.hsType = urqConclusion ∨ hs.hsType = urqAgreement) ∧
    ∀ l, hs.latencyMs = some l → (rendezvousRole ownCookie peerCookie = some .initiator ∧
        (l = own.latencyMs ∨ l = max own.latencyMs peer.latencyMs) ∧ hs.km = own.km.map padWords) ∨
      (rendezvousRole peerCookie ownCookie = some .initiator ∧ l = max own.latencyMs peer.latencyMs ∧
        hs.km = peer.km.map padWords)

/-- A side that has taken the parameters of the other one. -/
structure Taken (key : Option (List UInt8)) (s : SrtHandshake) : Prop where
  peerSocketId : s.peerSocketId = peer.socketId
  peerInitSeq : s.peerInitSeq = peer.initSeq
  latency : s.latencyMs = max own.latencyMs peer.latencyMs
  peerKm : s.peerKm = key.map padWords

/-- The states of a side of a rendezvous. -/
inductive Phase (s : SrtHandshake) : Prop
  | waving (role : s.role = .rendezvous .waving) (established : s.established = false)
      (latency : s.latencyMs = own.latencyMs) (km : s.km = own.km)
  | initiator (role : s.role = .rendezvous .initiator) (decided : rendezvousRole ownCookie peerCookie = some .initiator)
      (latency : s.latencyMs = own.latencyMs ∨ s.latencyMs = max own.latencyMs peer.latencyMs) (km : s.km = own.km)
      (established : s.established = true → Taken own peer own.km s)
  | responder (role : s.role = .rendezvous .responder) (decided : rendezvousRole ownCookie peerCookie = some .responder)
      (established : s.established = false) (latency : s.latencyMs = own.latencyMs) (km : s.km = own.km)
  | answered (role : s.role = .rendezvous .responderAnswered)
      (decided : rendezvousRole peerCookie ownCookie = some .initiator) (km : s.km = peer.km.map padWords)
      (taken : Taken own peer peer.km s)

/-- A side of a rendezvous keeps what it was created with, until it has taken the key of the initiator. -/
structure RendezvousInv (s : SrtHandshake) : Prop where
  socketId : s.socketId = own.socketId
  initSeq : s.initSeq = own.initSeq
  cookie : s.cookie = ownCookie
  streamId : s.streamId = own.streamId
  phase : Phase own peer ownCookie peerCookie s

variable {own peer ownCookie peerCookie} {s : SrtHandshake} {hs : Handshake}

theorem agreed_comm : max peer.latencyMs own.latencyMs = max own.latencyMs peer.latencyMs := max_comm_latency _ _

/-- A side that has noted the socket of the other one and decided its role. -/
theorem RendezvousInv.decide {state state' : RendezvousState} (h : RendezvousInv own peer ownCookie peerCookie s)
    (hrole : s.role = .rendezvous state) (hsends : RendezvousSends peer own peerCookie ownCookie hs)
    (hdecided : s.decided state hs = some state') : RendezvousInv own peer ownCookie peerCookie { s with
        peerSocketId := hs.srtSocketId
        role := .rendezvous state' } := by
  obtain ⟨hsocket, -, hcookie, -⟩ := hsends
  refine ⟨h.socketId, h.initSeq, h.cookie, h.streamId, ?_⟩
  cases h.phase with
  | waving role established latency km =>
    obtain rfl : state = .waving := Role.rendezvous.inj (hrole.symm.trans role)
    have hcontest : rendezvousRole ownCookie peerCookie = some state' := by
      rw [← h.cookie, ← hcookie]
      exact hdecided
    rcases rendezvousRole_eq_some hcontest with rfl | rfl
    · exact .initiator rfl hcontest (.inl latency) km fun hest => absurd (hest.symm.trans established) (by decide)
    · exact .responder rfl hcontest established latency km
  | initiator role decided latency km established =>
    obtain rfl : state = .initiator := Role.rendezvous.inj (hrole.symm.trans role)
    obtain rfl : .initiator = state' := Option.some.inj hdecided
    exact .initiator rfl decided latency km fun hest =>
      { established hest with peerSocketId := hsocket }
  | responder role decided established latency km =>
    obtain rfl : state = .responder := Role.rendezvous.inj (hrole.symm.trans role)
    obtain rfl : .responder = state' := Option.some.inj hdecided
    exact .responder rfl decided established latency km
  | answered role decided km taken =>
    obtain rfl : state = .responderAnswered := Role.rendezvous.inj (hrole.symm.trans role)
    obtain rfl : .responderAnswered = state' := Option.some.inj hdecided
    exact .answered rfl decided km { taken with peerSocketId := hsocket }

theorem sends_bare (h : RendezvousInv own peer ownCookie peerCookie s) {hsType : UInt32}
    (htype : hsType = urqWaveahand ∨ hsType = urqConclusion ∨ hsType = urqAgreement) :
    (s.bare hsType).Fits ∧ RendezvousSends own peer ownCookie peerCookie (s.bare hsType).received :=
  ⟨fits_of_none rfl rfl, h.socketId, h.initSeq, h.cookie, htype, fun l hl => absurd hl (by simp [bare, Handshake.received, Handshake.induction])⟩

theorem sends_own (hown : own.Fits) (h : RendezvousInv own peer ownCookie peerCookie s)
    (hdecided : rendezvousRole ownCookie peerCookie = some .initiator)
    (hlatency : s.latencyMs = own.latencyMs ∨ s.latencyMs = max own.latencyMs peer.latencyMs) (hkm : s.km = own.km) :
    s.conclusion.Fits ∧ RendezvousSends own peer ownCookie peerCookie s.conclusion.received := by
  refine ⟨fits_conclusion (fun km hs => hown.km km (hkm ▸ hs)) fun sid hs => hown.streamId sid (h.streamId ▸ hs),
    h.socketId, h.initSeq, h.cookie, .inr (.inl rfl), fun l hl => .inl ⟨hdecided, ?_, ?_⟩⟩
  · exact Option.some.inj hl ▸ hlatency
  · exact congrArg (Option.map padWords) hkm

theorem sends_answer (hown : own.Fits) (hpeer : peer.Fits) (h : RendezvousInv own peer ownCookie peerCookie s)
    (hdecided : rendezvousRole peerCookie ownCookie = some .initiator)
    (hlatency : s.latencyMs = max own.latencyMs peer.latencyMs) (hkm : s.km = peer.km.map padWords) :
    s.conclusion.Fits ∧ RendezvousSends own peer ownCookie peerCookie s.conclusion.received := by
  refine ⟨fits_conclusion (fun km hs => hpeer.of_padded (hkm ▸ hs)) fun sid hs => hown.streamId sid (h.streamId ▸ hs),
    h.socketId, h.initSeq, h.cookie, .inr (.inl rfl), fun l hl => .inr ⟨hdecided, ?_, ?_⟩⟩
  · exact Option.some.inj hl ▸ hlatency
  · show s.km.map padWords = _
    rw [hkm, map_padWords_twice]

theorem read_by_initiator (hsends : RendezvousSends peer own peerCookie ownCookie hs)
    (hdecided : rendezvousRole ownCookie peerCookie = some .initiator) {l : UInt16} (hl : hs.latencyMs = some l) :
    l = max own.latencyMs peer.latencyMs ∧ hs.km = own.km.map padWords := by
  rcases hsends.2.2.2.2 l hl with ⟨hother, -⟩ | ⟨-, hlatency, hkm⟩
  · exact absurd ((rendezvousRole_flip hdecided).symm.trans hother) (by decide)
  · exact ⟨hlatency.trans agreed_comm, hkm⟩

theorem read_by_responder (hsends : RendezvousSends peer own peerCookie ownCookie hs)
    (hdecided : rendezvousRole ownCookie peerCookie = some .responder) {l : UInt16} (hl : hs.latencyMs = some l) :
    rendezvousRole peerCookie ownCookie = some .initiator ∧
      (l = peer.latencyMs ∨ l = max peer.latencyMs own.latencyMs) ∧ hs.km = peer.km.map padWords := by
  rcases hsends.2.2.2.2 l hl with h | ⟨hother, -⟩
  · exact h
  · exact absurd (hdecided.symm.trans hother) (by decide)

theorem RendezvousInv.answered (h : RendezvousInv own peer ownCookie peerCookie s)
    (hsocket : s.peerSocketId = peer.socketId)
    (hlatency : s.latencyMs = own.latencyMs ∨ s.latencyMs = max own.latencyMs peer.latencyMs)
    (hsends : RendezvousSends peer own peerCookie ownCookie hs)
    (hdecided : rendezvousRole ownCookie peerCookie = some .responder) {l : UInt16} (hl : hs.latencyMs = some l) :
    RendezvousInv own peer ownCookie peerCookie (s.answered hs) ∧
      (s.answered hs).latencyMs = max own.latencyMs peer.latencyMs ∧
      (s.answered hs).km = peer.km.map padWords ∧ rendezvousRole peerCookie ownCookie = some .initiator := by
  obtain ⟨hinitiator, hl', hkm⟩ := read_by_responder hsends hdecided hl
  have hraised : s.raiseLatency hs.latencyMs = max own.latencyMs peer.latencyMs := by
    rw [hl]
    rw [agreed_comm] at hl'
    exact max_of_agreed hlatency hl'
  refine ⟨⟨h.socketId, h.initSeq, h.cookie, h.streamId, ?_⟩, hraised, hkm, hinitiator⟩
  exact .answered rfl hinitiator hkm ⟨hsocket, hsends.2.1, hraised, hkm⟩

/-- What a side does once its role is decided keeps the invariant, and its answer keeps the guarantee. -/
theorem RendezvousInv.onDecided (hown : own.Fits) (hpeer : peer.Fits)
    (h : RendezvousInv own peer ownCookie peerCookie s) {state : RendezvousState} (hrole : s.role = .rendezvous state)
    (hsocket : s.peerSocketId = peer.socketId) (hsends : RendezvousSends peer own peerCookie ownCookie hs) :
    RendezvousInv own peer ownCookie peerCookie (s.onDecided state hs).1 ∧
      ∀ answer, (s.onDecided state hs).2 = some answer →
        answer.Fits ∧ RendezvousSends own peer ownCookie peerCookie answer.received := by
  cases h.phase with
  | waving role established latency km =>
    obtain rfl : state = .waving := Role.rendezvous.inj (hrole.symm.trans role)
    exact ⟨h, fun answer hanswer => absurd hanswer (some_ne_none answer).symm⟩
  | initiator role decided latency km established =>
    obtain rfl : state = .initiator := Role.rendezvous.inj (hrole.symm.trans role)
    unfold SrtHandshake.onDecided
    dsimp only
    split_ifs with hconclusion hcall
    · obtain ⟨l, hl⟩ := Option.isSome_iff_exists.1 hconclusion.2
      obtain ⟨hagreed, hkm⟩ := read_by_initiator hsends decided hl
      have hraised : s.raiseLatency hs.latencyMs = max own.latencyMs peer.latencyMs := by
        rw [hl, hagreed]
        exact max_of_agreed latency (.inr rfl)
      have hinv : RendezvousInv own peer ownCookie peerCookie { s.takePeerParameters hs with established := true } :=
        ⟨h.socketId, h.initSeq, h.cookie, h.streamId,
          .initiator role decided (.inr hraised) km fun _ => ⟨hsocket, hsends.2.1, hraised, hkm⟩⟩
      exact ⟨hinv, fun answer hanswer => Option.some.inj hanswer ▸ sends_bare hinv (.inr (.inr rfl))⟩
    · exact ⟨h, fun answer hanswer => Option.some.inj hanswer ▸ sends_own hown h decided latency km⟩
    · exact ⟨h, fun _ hfalse => hfalse.elim⟩
  | responder role decided established latency km =>
    obtain rfl : state = .responder := Role.rendezvous.inj (hrole.symm.trans role)
    unfold SrtHandshake.onDecided
    dsimp only
    split_ifs with hconclusion hcall
    · obtain ⟨l, hl⟩ := Option.isSome_iff_exists.1 hconclusion.2
      obtain ⟨hinv, hlatency, hkm, hinitiator⟩ := h.answered hsocket (.inl latency) hsends decided hl
      exact ⟨hinv, fun answer hanswer =>
        Option.some.inj hanswer ▸ sends_answer hown hpeer hinv hinitiator hlatency hkm⟩
    · exact ⟨h, fun answer hanswer => Option.some.inj hanswer ▸ sends_bare h (.inr (.inl rfl))⟩
    · exact ⟨h, fun _ hfalse => hfalse.elim⟩
  | answered role decided km taken =>
    obtain rfl : state = .responderAnswered := Role.rendezvous.inj (hrole.symm.trans role)
    unfold SrtHandshake.onDecided
    dsimp only
    split_ifs with hconclusion hagreement
    · obtain ⟨l, hl⟩ := Option.isSome_iff_exists.1 hconclusion.2
      obtain ⟨hinv, hlatency, hkm, hinitiator⟩ :=
        h.answered hsocket (.inr taken.latency) hsends (rendezvousRole_flip decided) hl
      exact ⟨hinv, fun answer hanswer =>
        Option.some.inj hanswer ▸ sends_answer hown hpeer hinv hinitiator hlatency hkm⟩
    · exact ⟨⟨h.socketId, h.initSeq, h.cookie, h.streamId, .answered role decided km { taken with }⟩,
        fun _ hfalse => hfalse.elim⟩
    · exact ⟨h, fun _ hfalse => hfalse.elim⟩

theorem RendezvousInv.exists_role (h : RendezvousInv own peer ownCookie peerCookie s) :
    ∃ state, s.role = .rendezvous state := by
  cases h.phase with
  | waving role | initiator role | responder role | answered role => exact ⟨_, role⟩

theorem RendezvousInv.onHandshake (hown : own.Fits) (hpeer : peer.Fits)
    (h : RendezvousInv own peer ownCookie peerCookie s) (hsends : RendezvousSends peer own peerCookie ownCookie hs) :
    RendezvousInv own peer ownCookie peerCookie (s.onHandshake hs).side ∧
      ∀ answer, (s.onHandshake hs).answer = some answer →
        answer.Fits ∧ RendezvousSends own peer ownCookie peerCookie answer.received := by
  obtain ⟨state, hrole⟩ := h.exists_role
  rw [onHandshake_rendezvous hrole hsends.2.2.2.1]
  unfold onRendezvousPacket
  rcases hdecided : s.decided state hs with _ | state'
  · refine ⟨?_, fun answer hanswer => absurd hanswer (by simp)⟩
    -- Only the first packet can leave the role open, and the cookies are the same then.
    cases h.phase with
    | waving role established latency km =>
      exact ⟨h.socketId, h.initSeq, h.cookie, h.streamId, .waving role established latency km⟩
    | initiator role =>
      obtain rfl : state = .initiator := Role.rendezvous.inj (hrole.symm.trans role)
      exact absurd hdecided (some_ne_none _)
    | responder role =>
      obtain rfl : state = .responder := Role.rendezvous.inj (hrole.symm.trans role)
      exact absurd hdecided (some_ne_none _)
    | answered role =>
      obtain rfl : state = .responderAnswered := Role.rendezvous.inj (hrole.symm.trans role)
      exact absurd hdecided (some_ne_none _)
  · exact (h.decide hrole hsends hdecided).onDecided hown hpeer rfl hsends.1 hsends

theorem behaves_rendezvous (hown : own.Fits) (hpeer : peer.Fits) :
    Behaves (RendezvousSends peer own peerCookie ownCookie) (RendezvousSends own peer ownCookie peerCookie)
      (fun s _ => RendezvousInv own peer ownCookie peerCookie s) where
  opening := by
    intro s got hs hinv hopening
    obtain ⟨state, hrole⟩ := hinv.exists_role
    unfold opening at hopening
    rw [hrole] at hopening
    exact Option.some.inj hopening ▸ sends_bare hinv (.inl rfl)
  kept := fun s got hs buf hinv hsends _ => (hinv.onHandshake hown hpeer hsends).1
  answer := fun s got hs answer hinv hsends hanswer => (hinv.onHandshake hown hpeer hsends).2 answer hanswer
  other := by
    intro s got buf hinv
    unfold onOther
    split_ifs with hrole
    · refine ⟨hinv.socketId, hinv.initSeq, hinv.cookie, hinv.streamId, ?_⟩
      cases hinv.phase with
      | waving role | initiator role | responder role => exact absurd (hrole.symm.trans role) (by decide)
      | answered role decided km taken => exact .answered role decided km { taken with }
    · exact hinv

theorem rendezvousInv_new : RendezvousInv own peer ownCookie peerCookie (own.rendezvous ownCookie) :=
  ⟨rfl, rfl, rfl, rfl, .waving rfl rfl rfl rfl⟩

end Rendezvous

/-! ## Agreement -/

theorem CallerInv.agree {side : Side} {service : Service} {s t : SrtHandshake} {got : List (List UInt8)}
    (hs : CallerInv side service s) (ht : ListenerInv side service t got) (hsEst : s.established = true)
    (htEst : t.established = true) : Agree (max side.latencyMs service.latencyMs) s t := by
  obtain ⟨hsocket, hseq, hlatency, hkm⟩ := hs.established hsEst
  obtain ⟨⟨hsocket', hseq', hown, hlatency', hkm', hpeerKm⟩, -⟩ := ht.established htEst
  rw [← hs.km] at hkm hkm' hpeerKm
  exact ⟨⟨hsocket.trans ht.socketId.symm, hsocket'.trans hs.socketId.symm⟩,
    ⟨hseq.trans hown.symm, hseq'.trans hs.initSeq.symm⟩, ⟨hlatency, hlatency'⟩, hkm, hkm', hpeerKm⟩

variable {own peer : Side} {ownCookie peerCookie : UInt32}

theorem RendezvousInv.agree {s t : SrtHandshake}
    (hs : RendezvousInv own peer ownCookie peerCookie s) (ht : RendezvousInv peer own peerCookie ownCookie t)
    (hsEst : s.established = true) (htEst : t.established = true) (hrole : s.role = .rendezvous .initiator) :
    Agree (max own.latencyMs peer.latencyMs) s t := by
  cases hs.phase with
  | waving role | responder role | answered role => exact absurd (hrole.symm.trans role) (by decide)
  | initiator role decided latency km established =>
    have htaken := established hsEst
    cases ht.phase with
    | waving role htNot | responder role decided htNot => exact absurd (htEst.symm.trans htNot) (by decide)
    | initiator role decided' => exact absurd ((rendezvousRole_flip decided).symm.trans decided') (by decide)
    | answered role decided' hkm htaken' =>
      refine ⟨⟨htaken.peerSocketId.trans ht.socketId.symm, htaken'.peerSocketId.trans hs.socketId.symm⟩,
        ⟨htaken.peerInitSeq.trans ht.initSeq.symm, htaken'.peerInitSeq.trans hs.initSeq.symm⟩,
        ⟨htaken.latency, htaken'.latency.trans agreed_comm⟩, ?_, ?_, ?_⟩
      · rw [km, htaken.peerKm]
      · rw [km, hkm]
      · rw [km, htaken'.peerKm]

theorem RendezvousInv.exists_initiator {s : SrtHandshake}
    (hs : RendezvousInv own peer ownCookie peerCookie s) (hsEst : s.established = true) :
    s.role = .rendezvous .initiator ∨ rendezvousRole peerCookie ownCookie = some .initiator := by
  cases hs.phase with
  | waving role hsNot | responder role decided hsNot => exact absurd (hsEst.symm.trans hsNot) (by decide)
  | initiator role => exact .inl role
  | answered role decided => exact .inr decided

theorem RendezvousInv.wins {s : SrtHandshake}
    (hs : RendezvousInv own peer ownCookie peerCookie s) (hrole : s.role = .rendezvous .initiator) :
    rendezvousRole ownCookie peerCookie = some .initiator := by
  cases hs.phase with
  | waving role | responder role | answered role => exact absurd (hrole.symm.trans role) (by decide)
  | initiator role decided => exact decided

/-- A caller and a listener that are both established agree, and the listener has accepted a conclusion. Two sides of
a rendezvous that are both established agree, and they are never both the initiator. -/
theorem handshake_agreement :
    (∀ (side : Side) (service : Service), side.Fits → ∀ pair, Reaches side.caller service.listener pair →
      (pair.1.state.established = true → pair.2.state.established = true →
        Agree (max side.latencyMs service.latencyMs) pair.1.state pair.2.state) ∧
      (pair.2.state.established = true → ∃ buf ∈ pair.2.received, Accepted service buf)) ∧
    ∀ (a b : Side) (aCookie bCookie : UInt32), aCookie ≠ bCookie → a.Fits → b.Fits →
      ∀ pair, Reaches (a.rendezvous aCookie) (b.rendezvous bCookie) pair →
        (pair.1.state.established = true → pair.2.state.established = true →
          (pair.1.state.role = .rendezvous .initiator ∧ Agree (max a.latencyMs b.latencyMs) pair.1.state pair.2.state) ∨
          (pair.2.state.role = .rendezvous .initiator ∧
            Agree (max a.latencyMs b.latencyMs) pair.2.state pair.1.state)) ∧
        ¬ (pair.1.state.role = .rendezvous .initiator ∧ pair.2.state.role = .rendezvous .initiator) := by
  refine ⟨fun side service hfits pair h => ?_, fun a b aCookie bCookie hcookie ha hb pair h => ?_⟩
  · have hcaller : CallerInv side service side.caller :=
      ⟨rfl, rfl, rfl, rfl, rfl, Or.inl rfl, fun hest => absurd hest Bool.false_ne_true⟩
    have hlistener : ListenerInv side service service.listener [] :=
      ⟨rfl, rfl, rfl, rfl, rfl, rfl, Or.inl rfl, fun hest => absurd hest Bool.false_ne_true⟩
    obtain ⟨hs, ht⟩ := h.inv (behaves_caller hfits) (behaves_listener hfits) hcaller hlistener
    exact ⟨fun hsEst htEst => hs.agree ht hsEst htEst, fun htEst => (ht.established htEst).2⟩
  · obtain ⟨hs, ht⟩ := h.inv (behaves_rendezvous ha hb) (behaves_rendezvous hb ha) rendezvousInv_new rendezvousInv_new
    refine ⟨fun hsEst htEst => ?_, fun hboth => ?_⟩
    · rcases hs.exists_initiator hsEst with hrole | hother
      · exact Or.inl ⟨hrole, hs.agree ht hsEst htEst hrole⟩
      · rcases ht.exists_initiator htEst with hrole | hown
        · refine Or.inr ⟨hrole, ?_⟩
          have hagree := ht.agree hs htEst hsEst hrole
          rwa [max_comm_latency] at hagree
        · exact absurd ((rendezvousRole_flip hown).symm.trans hother) (by decide)
    · exact absurd ((rendezvousRole_flip (hs.wins hboth.1)).symm.trans (ht.wins hboth.2)) (by decide)

/-! ### A connection that comes about -/

/-- The listener's answer to a request. -/
def Service.offer (service : Service) : Handshake :=
  { Handshake.induction service.socketId 0 with
    version := hsVersion5
    synCookie := service.cookie }

/-- The listener after a request. -/
def Service.offered (service : Service) (side : Side) : SrtHandshake :=
  { service.listener with peerSocketId := side.socketId }

/-- The caller after the listener's answer. -/
def Side.concluding (side : Side) (service : Service) : SrtHandshake := { side.caller with cookie := service.cookie }

/-- A caller that gets through to a listener: what the listener reads of its conclusion is what it holds then. -/
theorem reaches_established {side : Side} {service : Service} {hs : Handshake}
    (hparse : parseControl (buildControl (.handshake (side.concluding service).conclusion) 0 0) = some (.handshake hs))
    (htype : hs.hsType = urqConclusion) (hcookie : hs.synCookie = service.cookie)
    (hrefusal : service.listener.refusal hs = none) (hfits : ((service.offered side).admits hs).conclusion.Fits) :
    ∃ pair, Reaches side.caller service.listener pair ∧ pair.1.state.established = true ∧
      pair.2.state.established = true ∧ pair.1.state.km = side.km ∧ pair.2.state.peerKm = hs.km := by
  have hinduction : (Handshake.induction side.socketId side.initSeq).Fits := fits_of_none rfl rfl
  have hofferFits : service.offer.Fits := fits_of_none rfl rfl
  have hadmits : (service.offered side).onHandshake hs =
      { side := (service.offered side).admits hs
        answer := some ((service.offered side).admits hs).conclusion
        established := true } := by
    have hrefusal' : (service.offered side).refusal hs = none := hrefusal
    have hcookie' : ¬ hs.synCookie ≠ (service.offered side).cookie := not_not.2 hcookie
    rw [onHandshake_listener rfl (Or.inr htype), if_neg (by rw [htype]; decide), onCallerConclusion, if_neg hcookie',
      hrefusal']
  -- What each side does with each packet of the other.
  have hfirst : receive service.listener
        (buildControl (.handshake (Handshake.induction side.socketId side.initSeq)) 0 0) =
      (service.offered side, some (buildControl (.handshake service.offer) 0 side.socketId.toNat)) :=
    receive_of_parse (parseControl_handshake hinduction 0 0)
  have hsecond : receive side.caller (buildControl (.handshake service.offer) 0 side.socketId.toNat) =
      (side.concluding service, some (buildControl (.handshake (side.concluding service).conclusion) 0 0)) :=
    receive_of_parse (parseControl_handshake hofferFits 0 side.socketId.toNat)
  have hthird : receive (service.offered side) (buildControl (.handshake (side.concluding service).conclusion) 0 0) =
      ((service.offered side).admits hs,
        some (buildControl (.handshake ((service.offered side).admits hs).conclusion) 0 hs.srtSocketId.toNat)) := by
    rw [receive_of_parse hparse, hadmits]
    rfl
  have hfourth : (receive (side.concluding service)
        (buildControl (.handshake ((service.offered side).admits hs).conclusion) 0 hs.srtSocketId.toNat)).1 =
      ((side.concluding service).onListenerConclusion ((service.offered side).admits hs).conclusion.received).side := by
    rw [receive_of_parse (parseControl_handshake hfits 0 hs.srtSocketId.toNat), onHandshake_caller rfl (Or.inr rfl)]
    rfl
  have hoffered := congrArg Prod.fst hfirst
  have hconcluding := congrArg Prod.fst hsecond
  -- The request, its answer, the conclusion, and the conclusion in return.
  have hrun : Reaches side.caller service.listener (.fresh side.caller, .fresh service.listener) := .refl
  have hrun := Exchange.Reaches.opensLeft hrun
  have hrun := Exchange.Reaches.takesRight
    (p := buildControl (.handshake (Handshake.induction side.socketId side.initSeq)) 0 0) hrun
    (Or.inl List.mem_cons_self)
  have hrun := Exchange.Reaches.takesLeft hrun (Or.inl (Exchange.Endpoint.mem_sent_takes (congrArg Prod.snd hfirst)))
  have hrun := Exchange.Reaches.takesRight hrun (Or.inl (Exchange.Endpoint.mem_sent_takes (congrArg Prod.snd hsecond)))
  have hrun := Exchange.Reaches.takesLeft hrun (Or.inl (Exchange.Endpoint.mem_sent_takes
    ((congrArg (fun s => (receive s _).2) hoffered).trans (congrArg Prod.snd hthird))))
  refine ⟨_, hrun, ?_, ?_, ?_, ?_⟩
  · show (receive (receive side.caller _).1 _).1.established = true
    rw [hconcluding, hfourth]
    rfl
  · show (receive (receive service.listener _).1 _).1.established = true
    rw [hoffered, hthird]
    rfl
  · show (receive (receive side.caller _).1 _).1.km = side.km
    rw [hconcluding, hfourth]
    rfl
  · show (receive (receive service.listener _).1 _).1.peerKm = hs.km
    rw [hoffered, hthird]
    rfl

theorem refusal_open {s : SrtHandshake} (hstream : s.requiredStreamId = none) (hkey : s.requiredKeyLength = none)
    (hs : Handshake) : s.refusal hs = none := by
  unfold refusal
  rw [hstream, hkey]
  rfl

theorem reaches_established_open {side : Side} (service : Service) (hfits : side.Fits)
    (hstream : service.requiredStreamId = none) (hkey : service.requiredKeyLength = none) :
    ∃ pair, Reaches side.caller service.listener pair ∧ pair.1.state.established = true ∧
      pair.2.state.established = true ∧ pair.1.state.km = side.km ∧ pair.2.state.peerKm = side.km.map padWords := by
  have hconclusion : (side.concluding service).conclusion.Fits := fits_conclusion hfits.km hfits.streamId
  refine reaches_established (parseControl_handshake hconclusion 0 0) rfl rfl
    (refusal_open (s := service.listener) hstream hkey _)
    (fits_conclusion (fun km hkm => hfits.of_padded hkm) fun sid hsid => ?_)
  exact absurd hsid (some_ne_none sid).symm

/-- A caller and a listener that agree, and two sides of a rendezvous before they have heard of each other. -/
theorem handshake_agreement_reached :
    (∃ pair, Reaches (Side.caller ⟨1, 7, 120, none, some [1, 2, 3, 4]⟩) (Service.listener ⟨2, 200, 77, none, none⟩) pair ∧
      Agree (max 120 200) pair.1.state pair.2.state ∧ ∃ buf ∈ pair.2.received, Accepted ⟨2, 200, 77, none, none⟩ buf) ∧
    ¬ ((Side.rendezvous ⟨1, 7, 120, none, some [1, 2, 3, 4]⟩ 5).role = .rendezvous .initiator ∧
      (Side.rendezvous ⟨2, 9, 200, none, none⟩ 6).role = .rendezvous .initiator) := by
  have hfits : Side.Fits ⟨1, 7, 120, none, some [1, 2, 3, 4]⟩ :=
    ⟨fun km hkm => Option.some.inj hkm ▸ by decide, fun sid hsid => absurd hsid (some_ne_none sid).symm⟩
  have hfits' : Side.Fits ⟨2, 9, 200, none, none⟩ :=
    ⟨fun km hkm => absurd hkm (some_ne_none km).symm, fun sid hsid => absurd hsid (some_ne_none sid).symm⟩
  obtain ⟨pair, hreach, hcaller, hlistener, -⟩ :=
    reaches_established_open ⟨2, 200, 77, none, none⟩ hfits rfl rfl
  have hagree := handshake_agreement.1 _ ⟨2, 200, 77, none, none⟩ hfits pair hreach
  exact ⟨⟨pair, hreach, hagree.1 hcaller hlistener, hagree.2 hlistener⟩,
    (handshake_agreement.2 _ _ 5 6 (by decide) hfits hfits' _ .refl).2⟩

theorem reaches_long_key (service : Service) (hstream : service.requiredStreamId = none)
    (hkey : service.requiredKeyLength = none) {words : Nat} (hwords : words = 2 ^ 16) :
    ∃ pair, Reaches (Side.caller ⟨1, 7, 120, none, some (List.replicate (4 * words) 0)⟩) service.listener pair ∧
      pair.1.state.established = true ∧ pair.2.state.established = true ∧
      pair.1.state.km = some (List.replicate (4 * words) 0) ∧ pair.2.state.peerKm = some [] := by
  have hlong : (Side.concluding ⟨1, 7, 120, none, some (List.replicate (4 * words) 0)⟩ service).conclusion.km =
      some (List.replicate (4 * words) 0) := rfl
  obtain ⟨read, hread, htype, hcookie, hkm⟩ := parseHandshakeCif_longKm rfl rfl hwords hlong
  have hparse : parseControl (buildControl (.handshake
      (Side.concluding ⟨1, 7, 120, none, some (List.replicate (4 * words) 0)⟩ service).conclusion) 0 0) =
      some (.handshake read) := by
    rw [buildControl, parseControl_controlPacket (by decide) (by decide), parseCif, if_pos rfl, hread]
    rfl
  have hadmitted : ((service.offered ⟨1, 7, 120, none, some (List.replicate (4 * words) 0)⟩).admits read).conclusion.Fits :=
    fits_conclusion (fun km h => by rw [← Option.some.inj (hkm.symm.trans h)]; decide)
      fun sid h => absurd h (some_ne_none sid).symm
  obtain ⟨pair, hreach, hcaller, hlistener, hown, hpeer⟩ :=
    reaches_established hparse htype hcookie (refusal_open hstream hkey read) hadmitted
  exact ⟨pair, hreach, hcaller, hlistener, hown, hpeer.trans hkm⟩

/-- A key that is not made of whole words arrives longer than it is, and one of 2^16 words arrives empty. -/
theorem key_filled_up :
    (∃ pair, Reaches (Side.caller ⟨1, 7, 120, none, some [1]⟩) (Service.listener ⟨2, 200, 77, none, none⟩) pair ∧
      pair.1.state.established = true ∧ pair.2.state.established = true ∧ pair.1.state.km = some [1] ∧
      pair.2.state.peerKm = some [1, 0, 0, 0]) ∧
    ∃ pair, Reaches (Side.caller ⟨1, 7, 120, none, some (List.replicate (4 * 2 ^ 16) 0)⟩)
        (Service.listener ⟨2, 200, 77, none, none⟩) pair ∧
      pair.1.state.established = true ∧ pair.2.state.established = true ∧
      pair.1.state.km = some (List.replicate (4 * 2 ^ 16) 0) ∧ pair.2.state.peerKm = some [] := by
  have hfits : Side.Fits ⟨1, 7, 120, none, some [1]⟩ :=
    ⟨fun km hkm => Option.some.inj hkm ▸ by decide, fun sid hsid => absurd hsid (some_ne_none sid).symm⟩
  exact ⟨reaches_established_open ⟨2, 200, 77, none, none⟩ hfits rfl rfl,
    reaches_long_key ⟨2, 200, 77, none, none⟩ rfl rfl rfl⟩

end Glass2Glass.Srt
