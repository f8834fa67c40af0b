import Glass2Glass.Lib.Channel
import Glass2Glass.Srt.Agreement

/-!
# Rendezvous

Two sides of a rendezvous on channels that lose nothing. Unless their cookies are half a circle apart, the contest makes
one of them the initiator and the other the responder, and both are established after at most nine deliveries
(`rendezvous_finishes`). When the cookies are half a circle apart, both become responders and wait for a request that
neither of them sends.
-/

namespace Glass2Glass.Srt

open SrtHandshake Words List

/-! ## Messages -/

/-- What the sides of a rendezvous tell each other. -/
inductive Message where
  | wave
  | bareConclusion
  | conclusion
  | agreement
  deriving DecidableEq

def Message.hsType : Message → UInt32
  | .wave => urqWaveahand
  | .bareConclusion | .conclusion => urqConclusion
  | .agreement => urqAgreement

/-- Whether the message tells the sender's latency. -/
def Message.carriesHsExtension : Message → Bool
  | .conclusion => true
  | _ => false

structure Message.ReadAs (message : Message) (cookie : UInt32) (hs : Handshake) : Prop where
  hsType : hs.hsType = message.hsType
  synCookie : hs.synCookie = cookie
  latencyMs : hs.latencyMs.isSome = message.carriesHsExtension

def Message.SentAs (message : Message) (cookie : UInt32) (buf : List UInt8) : Prop :=
  ∃ hs, parseControl buf = some (.handshake hs) ∧ message.ReadAs cookie hs

theorem Handshake.readExtension_keeps (hs : Handshake) (kind : UInt16) (words : Nat) (body : List UInt8) :
    (hs.readExtension kind words body).hsType = hs.hsType ∧
      (hs.readExtension kind words body).synCookie = hs.synCookie ∧
      (hs.latencyMs.isSome → (hs.readExtension kind words body).latencyMs.isSome) := by
  unfold Handshake.readExtension
  split_ifs
  · exact ⟨rfl, rfl, fun _ => rfl⟩
  · exact ⟨rfl, rfl, id⟩
  · split
    · exact ⟨rfl, rfl, id⟩
    · exact ⟨rfl, rfl, id⟩
  · exact ⟨rfl, rfl, id⟩

theorem readExtensions_keeps (fuel : Nat) (rest : List UInt8) (hs : Handshake) :
    (readExtensions fuel rest hs).hsType = hs.hsType ∧ (readExtensions fuel rest hs).synCookie = hs.synCookie ∧
      (hs.latencyMs.isSome → (readExtensions fuel rest hs).latencyMs.isSome) := by
  induction fuel generalizing rest hs with
  | zero => exact ⟨rfl, rfl, id⟩
  | succ fuel ih =>
    unfold readExtensions
    split_ifs
    · exact ⟨rfl, rfl, id⟩
    · exact ⟨rfl, rfl, id⟩
    · obtain ⟨htype, hcookie, hlatency⟩ := hs.readExtension_keeps (word16 rest 0) (word16 rest 2).toNat
        (slice rest 4 ((word16 rest 2).toNat * 4))
      obtain ⟨htype', hcookie', hlatency'⟩ := ih (rest.drop (4 + (word16 rest 2).toNat * 4))
        (hs.readExtension (word16 rest 0) (word16 rest 2).toNat (slice rest 4 ((word16 rest 2).toNat * 4)))
      exact ⟨htype'.trans htype, hcookie'.trans hcookie, fun h => hlatency' (hlatency h)⟩

theorem sentAs_conclusion (s : SrtHandshake) (dst : Nat) :
    Message.conclusion.SentAs s.cookie (buildControl (.handshake s.conclusion) 0 dst) := by
  have hparse : ∃ read, parseHandshakeCif (buildHandshakeCif s.conclusion) = some read ∧
      Message.conclusion.ReadAs s.cookie read := by
    unfold buildHandshakeCif
    rw [parseHandshakeCif_fixedCif]
    generalize hsize : 48 + (s.conclusion.latencyExtension ++ (s.conclusion.kmExtension ++
      s.conclusion.streamIdExtension)).length = size
    obtain ⟨fuel, rfl⟩ : ∃ fuel, size = fuel + 1 := Nat.exists_eq_add_of_le' (by omega)
    rw [readExtensions_latencyExtension s.conclusion rfl]
    refine ⟨_, rfl, ?_⟩
    obtain ⟨htype, hcookie, hlatency⟩ := readExtensions_keeps fuel
      (s.conclusion.kmExtension ++ s.conclusion.streamIdExtension) _
    exact ⟨htype, hcookie, hlatency rfl⟩
  obtain ⟨read, hread, hmessage⟩ := hparse
  refine ⟨read, ?_, hmessage⟩
  rw [buildControl, parseControl_controlPacket (by decide) (by decide), parseCif, if_pos rfl, hread]
  rfl

theorem sentAs_bare (s : SrtHandshake) {message : Message} (h : message.carriesHsExtension = false) (dst : Nat) :
    message.SentAs s.cookie (buildControl (.handshake (s.bare message.hsType)) 0 dst) :=
  ⟨_, parseControl_handshake (fits_of_none rfl rfl) 0 dst, rfl, rfl, h.symm⟩

/-! ## Answers -/

/-- What a side whose role is decided does with a message: its next state, what it answers, and whether it is established
by it. -/
def RendezvousState.respond : RendezvousState → Message → RendezvousState × Option Message × Bool
  | .initiator, .conclusion => (.initiator, some .agreement, true)
  | .initiator, .wave | .initiator, .bareConclusion => (.initiator, some .conclusion, false)
  | .responder, .conclusion | .responderAnswered, .conclusion => (.responderAnswered, some .conclusion, false)
  | .responder, .wave | .responder, .bareConclusion => (.responder, some .bareConclusion, false)
  | .responderAnswered, .agreement => (.responderAnswered, none, true)
  | state, _ => (state, none, false)

/-- The role that a side takes on a message of the other one. -/
def RendezvousState.next (state : RendezvousState) (own peer : UInt32) : Option RendezvousState :=
  if state = .waving then rendezvousRole own peer else some state

/-- A side answers by the table. -/
theorem receive_message {s : SrtHandshake} {state next : RendezvousState} {peer : UInt32} {message : Message}
    {buf : List UInt8} (hrole : s.role = .rendezvous state) (hnext : state.next s.cookie peer = some next)
    (hbuf : message.SentAs peer buf) :
    (receive s buf).1.cookie = s.cookie ∧ (receive s buf).1.role = .rendezvous (next.respond message).1 ∧
      (receive s buf).1.established = (s.established || (next.respond message).2.2) ∧
      Option.Rel (fun message buf => message.SentAs s.cookie buf) (next.respond message).2.1 (receive s buf).2 := by
  obtain ⟨hs, hparse, htype, hcookie, hlatency⟩ := hbuf
  have hkind : hs.hsType = urqWaveahand ∨ hs.hsType = urqConclusion ∨ hs.hsType = urqAgreement := by
    rw [htype]
    cases message <;> decide
  have hdecided : s.decided state hs = some next := by
    rw [← hnext]
    unfold SrtHandshake.decided RendezvousState.next
    cases state <;> simp [hcookie]
  have hneWaving : next ≠ .waving := by
    rintro rfl
    unfold RendezvousState.next at hnext
    split_ifs at hnext with hwaving
    · rcases rendezvousRole_eq_some hnext with h | h <;> exact absurd h (by decide)
    · exact hwaving (Option.some.inj hnext)
  have hreply : s.replyTo hs = hs.srtSocketId := by
    unfold SrtHandshake.replyTo
    rw [hrole]
  rw [receive_of_parse hparse, onHandshake_rendezvous hrole hkind, onRendezvousPacket, hdecided, hreply]
  unfold onDecided
  rw [htype, hlatency]
  cases next with
  | waving => exact absurd rfl hneWaving
  | initiator =>
    cases message with
    | conclusion => exact ⟨rfl, rfl, (Bool.or_true _).symm, .some (sentAs_bare _ rfl _)⟩
    | wave | bareConclusion => exact ⟨rfl, rfl, (Bool.or_false _).symm, .some (sentAs_conclusion _ _)⟩
    | agreement => exact ⟨rfl, rfl, (Bool.or_false _).symm, .none⟩
  | responder =>
    cases message with
    | conclusion => exact ⟨rfl, rfl, (Bool.or_false _).symm, .some (sentAs_conclusion _ _)⟩
    | wave | bareConclusion => exact ⟨rfl, rfl, (Bool.or_false _).symm, .some (sentAs_bare _ rfl _)⟩
    | agreement => exact ⟨rfl, rfl, (Bool.or_false _).symm, .none⟩
  | responderAnswered =>
    cases message with
    | conclusion => exact ⟨rfl, rfl, (Bool.or_false _).symm, .some (sentAs_conclusion _ _)⟩
    | wave | bareConclusion => exact ⟨rfl, rfl, (Bool.or_false _).symm, .none⟩
    | agreement => exact ⟨rfl, rfl, (Bool.or_true _).symm, .none⟩

/-! ## Scripts -/

/-- What a side says and hears in a rendezvous, and the states that it goes through. -/
structure Part where
  state : Nat → RendezvousState
  /-- The number of messages that establish the side. -/
  needs : Nat
  tells : List Message
  hears : List Message

def initiatorPart : Part where
  state
    | 0 => .waving
    | _ => .initiator
  needs := 3
  tells := [.wave, .conclusion, .conclusion, .agreement, .agreement]
  hears := [.wave, .bareConclusion, .conclusion, .conclusion]

def responderPart : Part where
  state
    | 0 => .waving
    | 1 => .responder
    | _ => .responderAnswered
  needs := 4
  tells := [.wave, .bareConclusion, .conclusion, .conclusion]
  hears := [.wave, .conclusion, .conclusion, .agreement, .agreement]

/-- The part of a side whose cookie is known. -/
def Part.script (part : Part) (cookie : UInt32) : Channel.Script SrtHandshake (List UInt8) where
  phase n s := s.cookie = cookie ∧ s.role = .rendezvous (part.state n) ∧ (part.needs ≤ n → s.established = true)
  sent n := min (n + 1) part.tells.length
  sends n buf := ∃ message, part.tells[n]? = some message ∧ message.SentAs cookie buf

/-- A part is what the table tells of it, for a side that the contest gives a role. -/
structure Part.Plays (part : Part) (role : RendezvousState) : Prop where
  first : part.state 0 = .waving
  later : ∀ n, part.state (n + 1) ≠ .waving
  plan : ∀ (n : Nat) (h : n < part.hears.length),
    let answer := (if n = 0 then role else part.state n).respond part.hears[n]
    answer.1 = part.state (n + 1) ∧ answer.2.1 = part.tells[n + 1]? ∧ (part.needs ≤ n + 1 → answer.2.2 = true)

theorem plays_initiator : initiatorPart.Plays .initiator where
  first := rfl
  later := fun _ => RendezvousState.noConfusion
  plan := by decide

theorem plays_responder : responderPart.Plays .responder where
  first := rfl
  later := by
    rintro (_ | n) <;> exact RendezvousState.noConfusion
  plan := by decide

/-- A side with the role of a part plays it. -/
theorem Part.Plays.follows {part other : Part} {role : RendezvousState} (h : part.Plays role)
    (hhears : part.hears = other.tells) {own peer : UInt32} (hrole : rendezvousRole own peer = some role) :
    (part.script own).Follows receive (other.script peer).sends := by
  -- What the side does with the message that it is to hear next.
  have hnext (n : Nat) (s : SrtHandshake) (buf : List UInt8) (hphase : (part.script own).phase n s)
      (hexpected : (other.script peer).sends n buf) :
      (receive s buf).1.cookie = own ∧ (receive s buf).1.role = .rendezvous (part.state (n + 1)) ∧
        (part.needs ≤ n + 1 → (receive s buf).1.established = true) ∧
        Option.Rel (fun message buf => message.SentAs own buf) part.tells[n + 1]? (receive s buf).2 := by
    obtain ⟨hcookie, hstate, -⟩ := hphase
    obtain ⟨message, hmessage, hbuf⟩ := hexpected
    rw [← hhears] at hmessage
    obtain ⟨hn, rfl⟩ := List.getElem?_eq_some_iff.1 hmessage
    have hdecided : (part.state n).next s.cookie peer = some (if n = 0 then role else part.state n) := by
      unfold RendezvousState.next
      rcases n with _ | n
      · rw [h.first, hcookie, if_pos rfl, if_pos rfl, hrole]
      · rw [if_neg (h.later n), if_neg (Nat.succ_ne_zero n)]
    obtain ⟨hstate', htells, hneeds⟩ := h.plan n hn
    obtain ⟨hcookie', hrole', hestablished, hanswer⟩ := receive_message hstate hdecided hbuf
    refine ⟨hcookie'.trans hcookie, hrole'.trans (congrArg Role.rendezvous hstate'), fun hdone => ?_, ?_⟩
    · rw [hestablished, hneeds hdone, Bool.or_true]
    · rw [← htells, ← hcookie]
      exact hanswer
  refine ⟨fun n s buf hphase hexpected => ?_, fun n s buf hphase hexpected => ?_,
    fun n s buf reply hphase hexpected hreply => ?_⟩
  · obtain ⟨hcookie, hstate, hdone, -⟩ := hnext n s buf hphase hexpected
    exact ⟨hcookie, hstate, hdone⟩
  · obtain ⟨-, -, -, hanswer⟩ := hnext n s buf hphase hexpected
    show min (n + 1 + 1) part.tells.length = min (n + 1) part.tells.length + _
    rcases Nat.lt_or_ge (n + 1) part.tells.length with hlt | hge
    · rw [List.getElem?_eq_getElem hlt] at hanswer
      cases hreply : (receive s buf).2 with
      | none =>
        rw [hreply] at hanswer
        nomatch hanswer
      | some reply =>
        rw [Option.toList_some, length_singleton]
        omega
    · rw [List.getElem?_eq_none hge] at hanswer
      cases hreply : (receive s buf).2 with
      | none =>
        rw [Option.toList_none, length_nil]
        omega
      | some reply =>
        rw [hreply] at hanswer
        nomatch hanswer
  · obtain ⟨-, -, -, hanswer⟩ := hnext n s buf hphase hexpected
    rw [hreply] at hanswer
    cases htells : part.tells[n + 1]? with
    | none =>
      rw [htells] at hanswer
      nomatch hanswer
    | some message =>
      rw [htells] at hanswer
      obtain ⟨hlt, -⟩ := List.getElem?_eq_some_iff.1 htells
      cases hanswer with
      | some hsent =>
        refine ⟨message, ?_, hsent⟩
        show part.tells[min (n + 1) part.tells.length]? = _
        rw [Nat.min_eq_left (Nat.le_of_lt hlt), htells]

/-! ## The end of a rendezvous -/

/-- Two sides that have sent what they start with. -/
def rendezvousLink (left right : Side) (own peer : UInt32) : Channel.Link SrtHandshake (List UInt8) where
  left := left.rendezvous own
  right := right.rendezvous peer
  toLeft := (right.rendezvous peer).start.toList
  toRight := (left.rendezvous own).start.toList

/-- However the deliveries interleave, there are no more than so many of them, and when nothing is on its way any more
both sides are established. -/
def Finishes (link : Channel.Link SrtHandshake (List UInt8)) : Prop :=
  ∃ bound, ∀ n last, Channel.Run receive link n last →
    n ≤ bound ∧ (last.toLeft = [] → last.toRight = [] → last.left.established = true ∧ last.right.established = true)

/-- The cookies are half a circle apart. -/
def Opposite (own peer : UInt32) : Prop := (own.toNat + 2 ^ 32 - peer.toNat) % 2 ^ 32 = 2 ^ 31

instance (own peer : UInt32) : Decidable (Opposite own peer) := inferInstanceAs (Decidable (_ = _))

variable {left right : Side} {own peer : UInt32}

theorem start_rendezvous (side : Side) (cookie : UInt32) :
    ∃ buf, (side.rendezvous cookie).start = some buf ∧ Message.wave.SentAs cookie buf :=
  have hbare : Message.wave.carriesHsExtension = false := rfl
  ⟨_, rfl, sentAs_bare (side.rendezvous cookie) hbare 0⟩

theorem conforms_rendezvousLink {part other : Part} (hfirst : part.state 0 = .waving) (hfirst' : other.state 0 = .waving)
    (hneeds : part.needs ≠ 0) (hneeds' : other.needs ≠ 0) (htells : part.tells[0]? = some .wave)
    (htells' : other.tells[0]? = some .wave) :
    Channel.Conforms (part.script own) (other.script peer) 0 0 (rendezvousLink left right own peer) := by
  have hphase (p : Part) (side : Side) (cookie : UInt32) (h : p.state 0 = .waving) (hn : p.needs ≠ 0) :
      (p.script cookie).phase 0 (side.rendezvous cookie) :=
    ⟨rfl, congrArg Role.rendezvous h.symm, fun hle => absurd (Nat.le_zero.1 hle) hn⟩
  have hcount (p : Part) (h : p.tells[0]? = some .wave) : 0 + 1 = min (0 + 1) p.tells.length :=
    (Nat.min_eq_left (List.getElem?_eq_some_iff.1 h).1).symm
  have hpending (p : Part) (side : Side) (cookie : UInt32) (h : p.tells[0]? = some .wave) :
      Channel.Pending (p.script cookie).sends 0 (side.rendezvous cookie).start.toList := by
    obtain ⟨buf, hbuf, hwave⟩ := start_rendezvous side cookie
    rw [hbuf]
    rintro (_ | m) q hq
    · exact ⟨.wave, h, Option.some.inj hq ▸ hwave⟩
    · exact absurd hq (by simp)
  exact ⟨hphase part left own hfirst hneeds, hphase other right peer hfirst' hneeds', hcount part htells,
    hcount other htells', hpending part left own htells, hpending other right peer htells'⟩

theorem finishes_of_plays {part other : Part} {role role' : RendezvousState} (h : part.Plays role)
    (h' : other.Plays role') (hhears : part.hears = other.tells) (hhears' : other.hears = part.tells)
    (hneeds : part.needs ≠ 0) (hneeds' : other.needs ≠ 0) (htells : part.tells[0]? = some .wave)
    (htells' : other.tells[0]? = some .wave) (hown : rendezvousRole own peer = some role)
    (hpeer : rendezvousRole peer own = some role')
    (hend : ∀ i j, j = min (i + 1) part.tells.length → i = min (j + 1) other.tells.length →
      part.needs ≤ i ∧ other.needs ≤ j) : Finishes (rendezvousLink left right own peer) := by
  refine ⟨part.tells.length + other.tells.length, fun n last hrun => ?_⟩
  obtain ⟨i, j, hn, hlast⟩ := hrun.conforms (h.follows hhears hown) (h'.follows hhears' hpeer)
    (conforms_rendezvousLink h.first h'.first hneeds hneeds' htells htells')
  have htoRight : j + last.toRight.length = min (i + 1) part.tells.length := hlast.toRight
  have htoLeft : i + last.toLeft.length = min (j + 1) other.tells.length := hlast.toLeft
  refine ⟨by omega, fun hleft hright => ?_⟩
  rw [hright, length_nil] at htoRight
  rw [hleft, length_nil] at htoLeft
  obtain ⟨-, -, hestablished⟩ := hlast.phaseLeft
  obtain ⟨-, -, hestablished'⟩ := hlast.phaseRight
  obtain ⟨hi, hj⟩ := hend i j htoRight htoLeft
  exact ⟨hestablished hi, hestablished' hj⟩

theorem finishes_of_initiator (hown : rendezvousRole own peer = some .initiator)
    (hpeer : rendezvousRole peer own = some .responder) : Finishes (rendezvousLink left right own peer) := by
  refine finishes_of_plays plays_initiator plays_responder rfl rfl (by decide) (by decide) rfl rfl hown hpeer
    fun i j hj hi => ?_
  have hj : j = min (i + 1) 5 := hj
  have hi : i = min (j + 1) 4 := hi
  show 3 ≤ i ∧ 4 ≤ j
  omega

theorem finishes_of_responder (hown : rendezvousRole own peer = some .responder)
    (hpeer : rendezvousRole peer own = some .initiator) : Finishes (rendezvousLink left right own peer) := by
  refine finishes_of_plays plays_responder plays_initiator rfl rfl (by decide) (by decide) rfl rfl hown hpeer
    fun i j hj hi => ?_
  have hj : j = min (i + 1) 4 := hj
  have hi : i = min (j + 1) 5 := hi
  show 4 ≤ i ∧ 3 ≤ j
  omega

/-! ## Two responders -/

/-- A side that has not got beyond waiting for a request. -/
structure Waits (cookie : UInt32) (s : SrtHandshake) : Prop where
  cookie_eq : s.cookie = cookie
  role : s.role = .rendezvous .waving ∨ s.role = .rendezvous .responder
  established : s.established = false

/-- A packet that is no request. -/
def Idle (cookie : UInt32) (buf : List UInt8) : Prop :=
  ∃ message : Message, (message = .wave ∨ message = .bareConclusion) ∧ message.SentAs cookie buf

theorem Waits.receive {s : SrtHandshake} {buf : List UInt8} (h : Waits own s)
    (hrole : rendezvousRole own peer = some .responder) (hbuf : Idle peer buf) :
    Waits own (receive s buf).1 ∧ ∃ reply, (receive s buf).2 = some reply ∧ Idle own reply := by
  obtain ⟨message, hmessage, hsent⟩ := hbuf
  obtain ⟨state, hstate, hnext⟩ : ∃ state, s.role = .rendezvous state ∧
      state.next s.cookie peer = some .responder := by
    rcases h.role with hwaving | hresponder
    · exact ⟨.waving, hwaving, by rw [h.cookie_eq]; exact hrole⟩
    · exact ⟨.responder, hresponder, rfl⟩
  obtain ⟨hcookie, hrole', hestablished, hanswer⟩ := receive_message hstate hnext hsent
  have hrespond : RendezvousState.responder.respond message = (.responder, some .bareConclusion, false) := by
    rcases hmessage with rfl | rfl <;> rfl
  rw [hrespond] at hrole' hestablished hanswer
  refine ⟨⟨hcookie.trans h.cookie_eq, Or.inr hrole', by rw [hestablished, h.established]; rfl⟩, ?_⟩
  cases hreply : (Srt.receive s buf).2 with
  | none =>
    rw [hreply] at hanswer
    nomatch hanswer
  | some reply =>
    rw [hreply] at hanswer
    cases hanswer with
    | some hsent' => exact ⟨reply, rfl, .bareConclusion, Or.inr rfl, h.cookie_eq ▸ hsent'⟩

/-- Two sides that wait for each other's request, and two packets on their way. -/
structure Deadlock (own peer : UInt32) (link : Channel.Link SrtHandshake (List UInt8)) : Prop where
  left : Waits own link.left
  right : Waits peer link.right
  toLeft : ∀ buf ∈ link.toLeft, Idle peer buf
  toRight : ∀ buf ∈ link.toRight, Idle own buf
  count : link.toLeft.length + link.toRight.length = 2

theorem Deadlock.delivers (hown : rendezvousRole own peer = some .responder)
    (hpeer : rendezvousRole peer own = some .responder) {link link' : Channel.Link SrtHandshake (List UInt8)}
    (h : Deadlock own peer link) (hstep : Channel.Delivers receive link link') : Deadlock own peer link' := by
  obtain ⟨hleft, hright, htoLeft, htoRight, hcount⟩ := h
  cases hstep with
  | left s t p toLeft toRight =>
    obtain ⟨hidle, hrest⟩ := List.forall_mem_cons.1 htoLeft
    obtain ⟨hwaits, reply, hreply, hanswer⟩ := hleft.receive hown hidle
    rw [hreply]
    refine ⟨hwaits, hright, hrest, ?_, ?_⟩
    · exact List.forall_mem_append.2 ⟨htoRight, List.forall_mem_singleton.2 hanswer⟩
    · dsimp only at hcount ⊢
      rw [length_cons] at hcount
      rw [Option.toList_some, length_append, length_singleton]
      omega
  | right s t p toLeft toRight =>
    obtain ⟨hidle, hrest⟩ := List.forall_mem_cons.1 htoRight
    obtain ⟨hwaits, reply, hreply, hanswer⟩ := hright.receive hpeer hidle
    rw [hreply]
    refine ⟨hleft, hwaits, ?_, hrest, ?_⟩
    · exact List.forall_mem_append.2 ⟨htoLeft, List.forall_mem_singleton.2 hanswer⟩
    · dsimp only at hcount ⊢
      rw [length_cons] at hcount
      rw [Option.toList_some, length_append, length_singleton]
      omega

theorem deadlock_rendezvousLink : Deadlock own peer (rendezvousLink left right own peer) := by
  have hwaits (side : Side) (cookie : UInt32) : Waits cookie (side.rendezvous cookie) := ⟨rfl, Or.inl rfl, rfl⟩
  have hidle (side : Side) (cookie : UInt32) : ∀ buf ∈ (side.rendezvous cookie).start.toList, Idle cookie buf := by
    obtain ⟨buf, hbuf, hwave⟩ := start_rendezvous side cookie
    rw [hbuf]
    exact List.forall_mem_singleton.2 ⟨.wave, Or.inl rfl, hwave⟩
  exact ⟨hwaits left own, hwaits right peer, hidle right peer, hidle left own, rfl⟩

theorem never_established (hown : rendezvousRole own peer = some .responder)
    (hpeer : rendezvousRole peer own = some .responder) {n : Nat} {last : Channel.Link SrtHandshake (List UInt8)}
    (h : Channel.Run receive (rendezvousLink left right own peer) n last) :
    last.left.established = false ∧ last.right.established = false := by
  have hlast := h.invariant (fun _ _ hlink hstep => Deadlock.delivers hown hpeer hlink hstep) deadlock_rendezvousLink
  exact ⟨hlast.left.established, hlast.right.established⟩

theorem not_finishes (hown : rendezvousRole own peer = some .responder)
    (hpeer : rendezvousRole peer own = some .responder) : ¬ Finishes (rendezvousLink left right own peer) := by
  rintro ⟨bound, hbound⟩
  obtain ⟨n, last, hrun, hleft, hright⟩ := Channel.exists_quiet fun n last hrun => (hbound n last hrun).1
  have hestablished := ((hbound n last hrun).2 hleft hright).1
  rw [(never_established hown hpeer hrun).1] at hestablished
  exact Bool.false_ne_true hestablished

/-- A rendezvous with different cookies finishes, with one initiator and one responder, unless the cookies are half a
circle apart. -/
theorem rendezvous_finishes (left right : Side) (own peer : UInt32) (hne : own ≠ peer) :
    (Finishes (rendezvousLink left right own peer) ↔ ¬ Opposite own peer) ∧
      (rendezvousRole own peer = some .initiator ∧ rendezvousRole peer own = some .responder ∨
          rendezvousRole own peer = some .responder ∧ rendezvousRole peer own = some .initiator ↔
        ¬ Opposite own peer) := by
  rcases rendezvousRole_of_ne hne with hown | hown
  · have hpeer := rendezvousRole_flip hown
    have hnot : ¬ Opposite own peer := by
      have hback := rendezvousRole_responder_iff hpeer
      have hown' : own.toNat < 2 ^ 32 := own.toNat_lt
      have hpeer' : peer.toNat < 2 ^ 32 := peer.toNat_lt
      have := hback.1 hown
      unfold Opposite
      omega
    exact ⟨iff_of_true (finishes_of_initiator hown hpeer) hnot, iff_of_true (Or.inl ⟨hown, hpeer⟩) hnot⟩
  · by_cases hopposite : Opposite own peer
    · have hpeer : rendezvousRole peer own = some .responder :=
        (rendezvousRole_of_ne hne.symm).resolve_left fun h => (rendezvousRole_responder_iff hown).1 h hopposite
      refine ⟨iff_of_false (not_finishes hown hpeer) (not_not.2 hopposite), iff_of_false ?_ (not_not.2 hopposite)⟩
      rintro (⟨h, -⟩ | ⟨-, h⟩)
      · exact absurd (hown.symm.trans h) (by decide)
      · exact absurd (hpeer.symm.trans h) (by decide)
    · have hpeer : rendezvousRole peer own = some .initiator := (rendezvousRole_responder_iff hown).2 hopposite
      exact ⟨iff_of_true (finishes_of_responder hown hpeer) hopposite, iff_of_true (Or.inr ⟨hown, hpeer⟩) hopposite⟩

/-- Two sides that finish. -/
theorem rendezvous_finishes_next : Finishes (rendezvousLink ⟨1, 7, 120, none, none⟩ ⟨2, 9, 200, none, none⟩ 0 1) :=
  (rendezvous_finishes ⟨1, 7, 120, none, none⟩ ⟨2, 9, 200, none, none⟩ 0 1 (by decide)).1.2 (by decide)

/-- Two sides with the cookies 0 and 2^31 both take the part of the responder, and are never established. -/
theorem rendezvous_opposite :
    rendezvousRole 0 (2 ^ 31) = some .responder ∧ rendezvousRole (2 ^ 31) 0 = some .responder ∧
      ∀ n last, Channel.Run receive (rendezvousLink ⟨1, 7, 120, none, none⟩ ⟨2, 9, 200, none, none⟩ 0 (2 ^ 31)) n last →
        last.left.established = false ∧ last.right.established = false := by
  have hown : rendezvousRole 0 (2 ^ 31) = some .responder := by decide
  have hpeer : rendezvousRole (2 ^ 31) 0 = some .responder := by decide
  exact ⟨hown, hpeer, fun n last hrun => never_established hown hpeer hrun⟩

end Glass2Glass.Srt
