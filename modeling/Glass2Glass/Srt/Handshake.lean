import Glass2Glass.Srt.Packet
import Mathlib.Data.List.TakeWhile
import Mathlib.Data.UInt

/-!
# Handshakes

The control information field of a handshake with its extensions, as it is built and parsed (`build_handshake_cif`,
`parse_handshake_cif` in `g2g-plugins/src/srt.rs`). What the other side reads of a handshake is what was written, except
that keying material comes back filled up to whole words, and the stream id only up to its first zero byte
(`parseHandshakeCif_buildHandshakeCif`).
-/

namespace Glass2Glass.Srt

open Words List

def srtVersion : UInt32 := 0x00010402

def hsVersionInduction : UInt32 := 4

def hsVersion5 : UInt32 := 5

def srtMagic : UInt16 := 0x4A17

def urqInduction : UInt32 := 1

def urqWaveahand : UInt32 := 0

def urqConclusion : UInt32 := 0xFFFFFFFF

def urqAgreement : UInt32 := 0xFFFFFFFE

def extHsreq : UInt16 := 1

def extHsrsp : UInt16 := 2

def extKmreq : UInt16 := 3

def extKmrsp : UInt16 := 4

def extSid : UInt16 := 5

def handshakeFlowWindow : UInt32 := 8192

def mssBytes : UInt32 := 1500

/-- The control information field of a handshake. -/
structure Handshake where
  version : UInt32
  encryption : UInt16
  extField : UInt16
  initSeq : UInt32
  mtu : UInt32
  flowWindow : UInt32
  hsType : UInt32
  srtSocketId : UInt32
  synCookie : UInt32
  peerIp : List UInt8
  peerIp_length : peerIp.length = 16
  latencyMs : Option UInt16
  srtFlags : UInt32
  streamId : Option String
  km : Option (List UInt8)
  isResponse : Bool

theorem length_noPeerIp : (List.replicate 16 (0 : UInt8)).length = 16 := length_replicate

/-- The request that a caller starts with. -/
def Handshake.induction (socketId initSeq : UInt32) : Handshake where
  version := hsVersionInduction
  encryption := 0
  extField := srtMagic
  initSeq
  mtu := mssBytes
  flowWindow := handshakeFlowWindow
  hsType := urqInduction
  srtSocketId := socketId
  synCookie := 0
  peerIp := List.replicate 16 0
  peerIp_length := length_noPeerIp
  latencyMs := none
  srtFlags := 0
  streamId := none
  km := none
  isResponse := false

/-! ## Words -/

def be16 (x : UInt16) : List UInt8 := beBytes 2 x.toNat

def be32 (x : UInt32) : List UInt8 := beBytes 4 x.toNat

/-- The 16-bit word at a place. -/
def word16 (bs : List UInt8) (at_ : Nat) : UInt16 := UInt16.ofNat (beNat (slice bs at_ 2))

/-- The 32-bit word at a place. -/
def word32 (bs : List UInt8) (at_ : Nat) : UInt32 := UInt32.ofNat (beNat (slice bs at_ 4))

variable (bytes : List UInt8)

def wordCount : Nat := (bytes.length + 3) / 4

/-- The bytes filled up with zeros to whole words. -/
def padWords : List UInt8 := bytes ++ List.replicate (wordCount bytes * 4 - bytes.length) 0

/-- The bytes of each whole word in the other order. -/
def reverseWordBytes : List UInt8 → List UInt8
  | a :: b :: c :: d :: rest => d :: c :: b :: a :: reverseWordBytes rest
  | bytes => bytes

/-! ## Writing -/

/-- An extension behind its kind and its length in words, of which 16 bits are written. -/
def buildExtension (kind : UInt16) (words : Nat) (body : List UInt8) : List UInt8 :=
  be16 kind ++ (be16 (UInt16.ofNat words) ++ body)

def Handshake.latencyExtension (hs : Handshake) : List UInt8 :=
  match hs.latencyMs with
  | none => []
  | some latency =>
    buildExtension (if hs.isResponse then extHsrsp else extHsreq) 3
      (be32 srtVersion ++ (be32 hs.srtFlags ++ be32 (latency.toUInt32 <<< 16 ||| latency.toUInt32)))

def Handshake.kmExtension (hs : Handshake) : List UInt8 :=
  match hs.km with
  | none => []
  | some km => buildExtension (if hs.isResponse then extKmrsp else extKmreq) (wordCount km) (padWords km)

def Handshake.streamIdExtension (hs : Handshake) : List UInt8 :=
  match hs.streamId with
  | none => []
  | some sid =>
    buildExtension extSid (wordCount sid.toUTF8.data.toList) (reverseWordBytes (padWords sid.toUTF8.data.toList))

/-- The part that every handshake has. -/
def Handshake.fixedCif (hs : Handshake) : List UInt8 :=
  be32 hs.version ++ (be16 hs.encryption ++ (be16 hs.extField ++ (be32 hs.initSeq ++ (be32 hs.mtu ++
    (be32 hs.flowWindow ++ (be32 hs.hsType ++ (be32 hs.srtSocketId ++ (be32 hs.synCookie ++ hs.peerIp))))))))

def buildHandshakeCif (hs : Handshake) : List UInt8 :=
  hs.fixedCif ++ (hs.latencyExtension ++ (hs.kmExtension ++ hs.streamIdExtension))

/-! ## Reading -/

/-- The string with the given bytes, up to the first zero. -/
def readStreamId : Option String :=
  String.fromUTF8? ⟨(bytes.takeWhile (· ≠ 0)).toArray⟩

def Handshake.readExtension (hs : Handshake) (kind : UInt16) (words : Nat) (body : List UInt8) : Handshake :=
  if (kind = extHsreq ∨ kind = extHsrsp) ∧ 3 ≤ words then
    { hs with
      srtFlags := word32 body 4
      latencyMs := some (word32 body 8 >>> 16).toUInt16
      isResponse := hs.isResponse || kind == extHsrsp }
  else if kind = extKmreq ∨ kind = extKmrsp then
    { hs with
      km := some body
      isResponse := hs.isResponse || kind == extKmrsp }
  else if kind = extSid then
    match readStreamId (reverseWordBytes body) with
    | some sid => { hs with streamId := some sid }
    | none => hs
  else hs

/-- The extensions one after another, until one does not fit. There are no more than the given number, as each takes four
bytes at least. -/
def readExtensions : Nat → List UInt8 → Handshake → Handshake
  | 0, _, hs => hs
  | fuel + 1, rest, hs =>
    if rest.length < 4 then hs
    else if rest.length < 4 + (word16 rest 2).toNat * 4 then hs
    else
      readExtensions fuel (rest.drop (4 + (word16 rest 2).toNat * 4))
        (hs.readExtension (word16 rest 0) (word16 rest 2).toNat (slice rest 4 ((word16 rest 2).toNat * 4)))

def parseHandshakeCif (cif : List UInt8) : Option Handshake :=
  if h : cif.length < 48 then none
  else
    some <| readExtensions cif.length (cif.drop 48)
      { version := word32 cif 0
        encryption := word16 cif 4
        extField := word16 cif 6
        initSeq := word32 cif 8
        mtu := word32 cif 12
        flowWindow := word32 cif 16
        hsType := word32 cif 20
        srtSocketId := word32 cif 24
        synCookie := word32 cif 28
        peerIp := slice cif 32 16
        peerIp_length := by
          unfold slice
          rw [length_take, length_drop]
          omega
        latencyMs := none
        srtFlags := 0
        streamId := none
        km := none
        isResponse := false }

/-! ## Round trip -/

/-- The word counts of the extensions fit into 16 bits. -/
structure Handshake.Fits (hs : Handshake) : Prop where
  km : ∀ km, hs.km = some km → wordCount km < 2 ^ 16
  streamId : ∀ sid, hs.streamId = some sid → wordCount sid.toUTF8.data.toList < 2 ^ 16

/-- What the other side reads of a handshake. -/
def Handshake.received (hs : Handshake) : Handshake :=
  { hs with
    srtFlags := if hs.latencyMs.isSome then hs.srtFlags else 0
    streamId := hs.streamId.bind fun sid => readStreamId sid.toUTF8.data.toList
    km := hs.km.map padWords
    isResponse := hs.isResponse && (hs.latencyMs.isSome || hs.km.isSome) }

@[simp] theorem length_be16 (x : UInt16) : (be16 x).length = 2 := length_beBytes _ _

@[simp] theorem length_be32 (x : UInt32) : (be32 x).length = 4 := length_beBytes _ _

theorem beNat_be16 (x : UInt16) : beNat (be16 x) = x.toNat := beNat_beBytes x.toNat_lt

theorem beNat_be32 (x : UInt32) : beNat (be32 x) = x.toNat := beNat_beBytes x.toNat_lt

theorem ofNat_beNat_be16 (x : UInt16) : UInt16.ofNat (beNat (be16 x)) = x := by
  rw [beNat_be16, UInt16.ofNat_toNat]

theorem ofNat_beNat_be32 (x : UInt32) : UInt32.ofNat (beNat (be32 x)) = x := by
  rw [beNat_be32, UInt32.ofNat_toNat]

theorem wordCount_mul : bytes.length ≤ wordCount bytes * 4 := by
  unfold wordCount
  omega

@[simp] theorem length_padWords : (padWords bytes).length = wordCount bytes * 4 := by
  have := wordCount_mul bytes
  unfold padWords
  rw [length_append, length_replicate]
  omega

theorem padWords_of_whole {bytes : List UInt8} (h : bytes.length % 4 = 0) : padWords bytes = bytes := by
  have hcount : wordCount bytes * 4 - bytes.length = 0 := by
    unfold wordCount
    omega
  unfold padWords
  rw [hcount, replicate_zero, append_nil]

theorem padWords_padWords : padWords (padWords bytes) = padWords bytes :=
  padWords_of_whole (by rw [length_padWords, Nat.mul_mod_left])

theorem reverseWordBytes_reverseWordBytes : reverseWordBytes (reverseWordBytes bytes) = bytes := by
  fun_induction reverseWordBytes bytes with
  | case1 a b c d rest ih => rw [reverseWordBytes, ih]
  | case2 bytes h => rw [reverseWordBytes.eq_2 _ h]

@[simp] theorem length_reverseWordBytes : (reverseWordBytes bytes).length = bytes.length := by
  fun_induction reverseWordBytes bytes with
  | case1 a b c d rest ih => simp only [length_cons, ih]
  | case2 bytes h => rfl

theorem readStreamId_padWords : readStreamId (padWords bytes) = readStreamId bytes := by
  have htake (n : Nat) : (bytes ++ List.replicate n (0 : UInt8)).takeWhile (· ≠ 0) = bytes.takeWhile (· ≠ 0) := by
    induction bytes with
    | nil => cases n <;> rfl
    | cons b bytes ih =>
      rw [cons_append, takeWhile_cons, takeWhile_cons, ih]
  unfold readStreamId padWords
  rw [htake]

theorem readStreamId_toUTF8 {sid : String} (h : (0 : UInt8) ∉ sid.toUTF8.data.toList) :
    readStreamId sid.toUTF8.data.toList = some sid := by
  have hall : sid.toUTF8.data.toList.takeWhile (· ≠ 0) = sid.toUTF8.data.toList :=
    List.takeWhile_eq_self_iff.2 fun b hb => decide_eq_true fun heq => h (heq ▸ hb)
  have hvalid : sid.toByteArray.IsValidUTF8 := sid.isValidUTF8
  have hbytes : (⟨sid.toUTF8.data.toList.toArray⟩ : ByteArray) = sid.toByteArray := by simp
  unfold readStreamId
  rw [hall, hbytes]
  simp only [String.fromUTF8?, dif_pos hvalid]
  rfl

theorem toUInt16_latency (latency : UInt16) :
    ((latency.toUInt32 <<< 16 ||| latency.toUInt32) >>> 16).toUInt16 = latency := by
  have hlt : latency.toNat < 2 ^ 16 := latency.toNat_lt
  have hshift : latency.toNat <<< 16 % 2 ^ 32 = latency.toNat <<< 16 := by
    exact Nat.mod_eq_of_lt (by omega)
  refine UInt16.toNat_inj.1 ?_
  show ((latency.toNat <<< 16 % 2 ^ 32) ||| latency.toNat) >>> 16 % 2 ^ 16 = latency.toNat
  rw [hshift, ← Nat.shiftLeft_add_eq_or_of_lt hlt, Nat.shiftRight_eq_div_pow, Nat.shiftLeft_eq, Nat.mul_comm,
    Nat.mul_add_div (by decide), Nat.div_eq_of_lt hlt, Nat.add_zero, Nat.mod_eq_of_lt hlt]

/-! ### The extensions -/

variable {kind : UInt16} {words fuel : Nat} {body rest : List UInt8} {hs : Handshake}

theorem readExtensions_buildExtension (hbody : body.length = words * 4) (hwords : words < 2 ^ 16) :
    readExtensions (fuel + 1) (buildExtension kind words body ++ rest) hs =
      readExtensions fuel rest (hs.readExtension kind words body) := by
  have hcount : word16 (buildExtension kind words body ++ rest) 2 = UInt16.ofNat words := by
    exact ofNat_beNat_be16 _
  have hkind : word16 (buildExtension kind words body ++ rest) 0 = kind := ofNat_beNat_be16 kind
  have hnat : (UInt16.ofNat words).toNat = words := by
    rw [UInt16.toNat_ofNat', Nat.mod_eq_of_lt hwords]
  have hshape : buildExtension kind words body ++ rest = (be16 kind ++ be16 (UInt16.ofNat words)) ++ (body ++ rest) := by
    unfold buildExtension
    simp only [append_assoc]
  have hhead : (be16 kind ++ be16 (UInt16.ofNat words)).length = 4 := rfl
  have hlength : (buildExtension kind words body ++ rest).length = 4 + (words * 4 + rest.length) := by
    rw [hshape, length_append, hhead, length_append, hbody]
  rw [readExtensions, hcount, hkind, hnat, if_neg (by omega), if_neg (by omega), hshape, slice_after hhead hbody,
    ← drop_drop, drop_left' hhead, drop_left' hbody]

theorem readExtensions_nil : readExtensions fuel [] hs = hs := by
  cases fuel <;> rfl

variable (sent : Handshake)

theorem readExtensions_streamId (hfits : sent.Fits) (hhs : hs.streamId = none) :
    readExtensions (fuel + 1) sent.streamIdExtension hs =
      { hs with streamId := sent.streamId.bind fun sid => readStreamId sid.toUTF8.data.toList } := by
  unfold Handshake.streamIdExtension
  rcases hsid : sent.streamId with _ | sid
  · cases hs
    subst hhs
    exact readExtensions_nil
  · dsimp only
    rw [← append_nil (buildExtension _ _ _),
      readExtensions_buildExtension (by rw [length_reverseWordBytes, length_padWords]) (hfits.streamId sid hsid),
      readExtensions_nil]
    show (match readStreamId (reverseWordBytes (reverseWordBytes (padWords sid.toUTF8.data.toList))) with
      | some read => { hs with streamId := some read }
      | none => hs) = _
    rw [reverseWordBytes_reverseWordBytes, readStreamId_padWords]
    cases hs
    subst hhs
    dsimp only [Option.bind_some]
    cases readStreamId sid.toUTF8.data.toList <;> rfl

theorem readExtensions_km (hfits : sent.Fits) (hhs : hs.streamId = none) (hkm : hs.km = none) :
    readExtensions (fuel + 2) (sent.kmExtension ++ sent.streamIdExtension) hs = { hs with
        streamId := sent.streamId.bind fun sid => readStreamId sid.toUTF8.data.toList
        km := sent.km.map padWords
        isResponse := hs.isResponse || (sent.isResponse && sent.km.isSome) } := by
  unfold Handshake.kmExtension
  rcases hsent : sent.km with _ | km
  · dsimp only
    rw [nil_append, readExtensions_streamId sent hfits hhs]
    cases hs
    subst hkm
    simp
  · dsimp only
    rw [readExtensions_buildExtension (length_padWords km) (hfits.km km hsent)]
    have hread : hs.readExtension (if sent.isResponse then extKmrsp else extKmreq) (wordCount km) (padWords km) =
        { hs with
          km := some (padWords km)
          isResponse := hs.isResponse || sent.isResponse } := by
      cases sent.isResponse <;> rfl
    rw [hread]
    refine (readExtensions_streamId sent hfits (by exact hhs)).trans ?_
    simp

theorem readExtensions_latencyExtension {latency : UInt16} (hsent : sent.latencyMs = some latency) :
    readExtensions (fuel + 1) (sent.latencyExtension ++ rest) hs = readExtensions fuel rest { hs with
          srtFlags := sent.srtFlags
          latencyMs := some latency
          isResponse := hs.isResponse || sent.isResponse } := by
  generalize hword : latency.toUInt32 <<< 16 ||| latency.toUInt32 = word
  have hread : word32 (be32 srtVersion ++ (be32 sent.srtFlags ++ be32 word)) 8 = word := ofNat_beNat_be32 word
  have hflags : word32 (be32 srtVersion ++ (be32 sent.srtFlags ++ be32 word)) 4 = sent.srtFlags :=
    ofNat_beNat_be32 sent.srtFlags
  have hext : hs.readExtension (if sent.isResponse then extHsrsp else extHsreq) 3
      (be32 srtVersion ++ (be32 sent.srtFlags ++ be32 word)) =
      { hs with
        srtFlags := sent.srtFlags
        latencyMs := some latency
        isResponse := hs.isResponse || sent.isResponse } := by
    unfold Handshake.readExtension
    rw [hread, hflags, ← hword, toUInt16_latency]
    cases sent.isResponse <;> rfl
  unfold Handshake.latencyExtension
  rw [hsent]
  dsimp only
  rw [hword, readExtensions_buildExtension (by simp) (by decide), hext]

theorem readExtensions_latency (hfits : sent.Fits) (hhs : hs.streamId = none) (hkm : hs.km = none)
    (hlatency : hs.latencyMs = none) (hflags : hs.srtFlags = 0) :
    readExtensions (fuel + 3) (sent.latencyExtension ++ (sent.kmExtension ++ sent.streamIdExtension)) hs = { hs with
        latencyMs := sent.latencyMs
        srtFlags := if sent.latencyMs.isSome then sent.srtFlags else 0
        streamId := sent.streamId.bind fun sid => readStreamId sid.toUTF8.data.toList
        km := sent.km.map padWords
        isResponse := hs.isResponse || (sent.isResponse && (sent.latencyMs.isSome || sent.km.isSome)) } := by
  rcases hsent : sent.latencyMs with _ | latency
  · have hnone : sent.latencyExtension = [] := by
      unfold Handshake.latencyExtension
      rw [hsent]
    rw [hnone, nil_append, readExtensions_km sent hfits hhs hkm]
    cases hs
    subst hlatency hflags
    simp
  · rw [readExtensions_latencyExtension sent hsent]
    refine (readExtensions_km sent hfits (by exact hhs) (by exact hkm)).trans ?_
    cases hs.isResponse <;> cases sent.isResponse <;> simp

theorem readExtensions_zeros (n : Nat) (hfuel : n ≤ fuel) : readExtensions fuel (List.replicate (4 * n) 0) hs = hs := by
  induction n generalizing fuel with
  | zero => exact readExtensions_nil
  | succ n ih =>
    obtain ⟨fuel, rfl⟩ : ∃ m, fuel = m + 1 := Nat.exists_eq_add_of_le' (Nat.le_trans (Nat.succ_pos n) hfuel)
    have hzeros : List.replicate (4 * (n + 1)) (0 : UInt8) = buildExtension 0 0 [] ++ List.replicate (4 * n) 0 := by
      rfl
    exact ih (by omega)

/-! ### The whole field -/

theorem length_fixedCif (hs : Handshake) : hs.fixedCif.length = 48 := by
  unfold Handshake.fixedCif
  simp only [length_append, length_be16, length_be32, hs.peerIp_length]

theorem parseHandshakeCif_fixedCif (hs : Handshake) (extensions : List UInt8) :
    parseHandshakeCif (hs.fixedCif ++ extensions) = some (readExtensions (48 + extensions.length) extensions { hs with
        latencyMs := none
        srtFlags := 0
        streamId := none
        km := none
        isResponse := false }) := by
  have hlength : (hs.fixedCif ++ extensions).length = 48 + extensions.length := by
    rw [length_append, length_fixedCif]
  have hdrop : (hs.fixedCif ++ extensions).drop 48 = extensions := drop_left' (length_fixedCif hs)
  have hpeer : slice (hs.fixedCif ++ extensions) 32 16 = hs.peerIp := by
    rw [slice_append_of_le (by rw [length_fixedCif])]
    show hs.peerIp.take 16 = hs.peerIp
    rw [← hs.peerIp_length, take_length]
  have hwords : word32 (hs.fixedCif ++ extensions) 0 = hs.version ∧
      word16 (hs.fixedCif ++ extensions) 4 = hs.encryption ∧ word16 (hs.fixedCif ++ extensions) 6 = hs.extField ∧
      word32 (hs.fixedCif ++ extensions) 8 = hs.initSeq ∧ word32 (hs.fixedCif ++ extensions) 12 = hs.mtu ∧
      word32 (hs.fixedCif ++ extensions) 16 = hs.flowWindow ∧ word32 (hs.fixedCif ++ extensions) 20 = hs.hsType ∧
      word32 (hs.fixedCif ++ extensions) 24 = hs.srtSocketId ∧
      word32 (hs.fixedCif ++ extensions) 28 = hs.synCookie :=
    ⟨ofNat_beNat_be32 _, ofNat_beNat_be16 _, ofNat_beNat_be16 _, ofNat_beNat_be32 _, ofNat_beNat_be32 _,
      ofNat_beNat_be32 _, ofNat_beNat_be32 _, ofNat_beNat_be32 _, ofNat_beNat_be32 _⟩
  obtain ⟨h0, h4, h6, h8, h12, h16, h20, h24, h28⟩ := hwords
  unfold parseHandshakeCif
  rw [dif_neg (by omega)]
  simp only [hlength, hdrop, hpeer, h0, h4, h6, h8, h12, h16, h20, h24, h28]

theorem parseHandshakeCif_buildHandshakeCif (hs : Handshake) (h : hs.Fits) :
    parseHandshakeCif (buildHandshakeCif hs) = some hs.received := by
  unfold buildHandshakeCif
  have hfuel (n : Nat) : 48 + n = 45 + n + 3 := by omega
  rw [parseHandshakeCif_fixedCif, hfuel, readExtensions_latency hs h rfl rfl rfl rfl]
  rfl

theorem parseHandshakeCif_longKm {hs : Handshake} {latency : UInt16} (hlatency : hs.latencyMs = some latency)
    (hstream : hs.streamId = none) {words : Nat} (hwords : words = 2 ^ 16)
    (hkm : hs.km = some (List.replicate (4 * words) 0)) :
    ∃ read, parseHandshakeCif (buildHandshakeCif hs) = some read ∧ read.hsType = hs.hsType ∧
      read.synCookie = hs.synCookie ∧ read.km = some [] := by
  have hcount : wordCount (List.replicate (4 * words) 0) = 2 ^ 16 := by
    unfold wordCount
    rw [length_replicate]
    omega
  have hpad : padWords (List.replicate (4 * words) 0) = List.replicate (4 * words) 0 :=
    padWords_of_whole (by rw [length_replicate]; omega)
  have hextension : hs.kmExtension =
      buildExtension (if hs.isResponse then extKmrsp else extKmreq) 0 [] ++ List.replicate (4 * words) 0 := by
    unfold Handshake.kmExtension
    rw [hkm]
    dsimp only
    rw [hcount, hpad]
    unfold buildExtension
    rfl
  have hnone : hs.streamIdExtension = [] := by
    unfold Handshake.streamIdExtension
    rw [hstream]
  unfold buildHandshakeCif
  rw [parseHandshakeCif_fixedCif, hextension, hnone, append_nil]
  generalize hsize : 48 + (hs.latencyExtension ++ (buildExtension (if hs.isResponse then extKmrsp else extKmreq) 0 [] ++
    List.replicate (4 * words) 0)).length = size
  have hroom : 2 ^ 16 + 2 ≤ size := by
    rw [← hsize, length_append, length_append, length_replicate]
    omega
  obtain ⟨fuel, rfl⟩ : ∃ m, size = m + 2 := Nat.exists_eq_add_of_le' (by omega)
  rw [readExtensions_latencyExtension hs hlatency, readExtensions_buildExtension rfl (by decide),
    readExtensions_zeros _ (by omega)]
  cases hs.isResponse <;> exact ⟨_, rfl, rfl, rfl, rfl⟩

end Glass2Glass.Srt
