import Mathlib.Tactic.Ring
import Glass2Glass.Ts.Splitter

/-!
# What a probe tells

A stream of packets at one stride is followed by the places of its bytes: the splitter is run on the places themselves,
where `sync p` says that the byte at `p` is a sync byte. A probe at a packet's own sync byte finds the stride as soon as
the next packet's is buffered; at a sync byte of no packet it finds nothing, and it is the last of the three distances
that tells.
-/

namespace Glass2Glass.Ts

/-- The bytes in front of the packet at each stride. -/
def Stride.lead : Stride → ℕ
  | ts => 0
  | m2ts => 4
  | dvbAsi => 0

variable (stride : Stride)

/-- Where packet `k` starts. -/
def Stride.place (k : ℕ) : ℕ := stride.lead + stride.len * k

/-- The places from `p` on, before `c`. -/
def window (p c : ℕ) : List ℕ := List.range' p (c - p)

/-- The places of the packets from `k` on, before packet `k'`. -/
def packetPlaces (k k' : ℕ) : List (List ℕ) :=
  (window k k').map fun j => List.range' (stride.place j) 188

/-! ## Places -/

theorem window_nil {p c : ℕ} (h : c ≤ p) : window p c = [] := by
  rw [window, Nat.sub_eq_zero_of_le h]
  rfl

theorem window_cons {p c : ℕ} (h : p < c) : window p c = p :: window (p + 1) c := by
  obtain ⟨n, rfl⟩ := Nat.exists_eq_add_of_lt h
  have hsub : p + n + 1 - p = n + 1 := by omega
  have hsub' : p + n + 1 - (p + 1) = n := by omega
  rw [window, window, hsub, hsub', List.range'_succ]

@[simp] theorem length_window (p c : ℕ) : (window p c).length = c - p := List.length_range'

theorem window_append {p c c' : ℕ} (hp : p ≤ c) (hc : c ≤ c') : window p c ++ window c c' = window p c' := by
  have hsum : c' - p = (c - p) + (c' - c) := by omega
  have hstart : p + 1 * (c - p) = c := by omega
  rw [window, window, window, hsum, ← List.range'_append, hstart]

theorem drop_window (p c n : ℕ) : (window p c).drop n = window (p + n) c := by
  rw [window, window, List.drop_range', Nat.mul_one, Nat.sub_sub]

theorem take_window {p c n : ℕ} (h : p + n ≤ c) : (window p c).take n = List.range' p n := by
  exact List.take_range'_of_length_ge (by omega)

theorem getElem?_window (p c i : ℕ) : (window p c)[i]? = if p + i < c then some (p + i) else none := by
  by_cases h : p + i < c
  · rw [if_pos h, window, List.getElem?_range' (by omega), one_mul]
  · rw [if_neg h, List.getElem?_eq_none_iff, length_window]
    omega

theorem packetPlaces_self (k : ℕ) : packetPlaces stride k k = [] := by
  rw [packetPlaces, window_nil le_rfl]
  rfl

theorem packetPlaces_cons {k k' : ℕ} (h : k < k') :
    packetPlaces stride k k' = List.range' (stride.place k) 188 :: packetPlaces stride (k + 1) k' := by
  rw [packetPlaces, window_cons h]
  rfl

theorem packetPlaces_append {k k' k'' : ℕ} (h : k ≤ k') (h' : k' ≤ k'') :
    packetPlaces stride k k' ++ packetPlaces stride k' k'' = packetPlaces stride k k'' := by
  rw [packetPlaces, packetPlaces, packetPlaces, ← List.map_append, window_append h h']

namespace Stride

variable (stride : Stride)

theorem place_succ (k : ℕ) : stride.place (k + 1) = stride.place k + stride.len := by
  rw [place, place]
  ring

theorem place_strictMono : StrictMono stride.place :=
  strictMono_nat_of_lt_succ fun k => by
    rw [place_succ]
    exact Nat.lt_add_of_pos_right stride.len_pos

theorem place_mono {j k : ℕ} (h : j ≤ k) : stride.place j ≤ stride.place k := stride.place_strictMono.monotone h

theorem len_bounds : 188 ≤ stride.len ∧ stride.len ≤ 204 := by
  cases stride <;> decide

theorem distance (p : ℕ) : p + stride.len = p + 188 ∨ p + stride.len = p + 192 ∨ p + stride.len = p + 204 := by
  cases stride with
  | ts => exact .inl rfl
  | m2ts => exact .inr (.inl rfl)
  | dvbAsi => exact .inr (.inr rfl)

theorem place_add_le {j k : ℕ} (h : j < k) : stride.place j + 188 ≤ stride.place k := by
  have hnext : stride.place (j + 1) ≤ stride.place k := stride.place_mono h
  rw [place_succ] at hnext
  have hlen := stride.len_bounds.1
  omega

theorem place_lt_iff {k count : ℕ} : stride.place k < stride.len * count ↔ k < count := by
  cases stride <;> simp only [place, lead, len] <;> omega

theorem place_add_le_end {k count : ℕ} (hk : k < count) : stride.place k + 188 ≤ stride.len * count := by
  cases stride <;> simp only [place, lead, len] <;> omega

theorem last_of_end {k count : ℕ} (hk : k < count) (h : stride.len * count ≤ stride.place k + stride.len) :
    k + 1 = count := by
  cases stride <;> simp only [place, lead, len] at h <;> omega

end Stride

/-- The sync bytes of `count` packets at the stride: the bytes around the packets may be sync bytes too, but no two of
them, nor one of them and a packet's own, are at a distance that a stride could have. -/
structure Synced (stride : Stride) (count : ℕ) (sync : ℕ → Bool) : Prop where
  within : ∀ p, sync p → p < stride.len * count
  own : ∀ k < count, sync (stride.place k)
  apart : stride ≠ .ts → ∀ p q, sync p → sync q → q = p + 188 ∨ q = p + 192 ∨ q = p + 204 →
    (∃ k, p = stride.place k) ∧ ∃ k, q = stride.place k

/-! ## What a probe tells -/

section

variable {sync : ℕ → Bool} {p c : ℕ}

theorem confirmedFrom_end (distance following count confirmed : ℕ) (h : c ≤ p + following * distance) :
    confirmedFrom sync (window p c) distance following count confirmed = some confirmed := by
  cases count with
  | zero => rfl
  | succ count => rw [confirmedFrom, getElem?_window, if_neg (by omega)]

theorem confirmedSyncs_none (distance : ℕ) (h : p + distance < c) (hsync : sync (p + distance) = false) :
    confirmedSyncs sync (window p c) distance = none := by
  rw [confirmedSyncs, strideLockPackets, confirmedFrom, getElem?_window, one_mul, if_pos h]
  simp only [hsync, Bool.false_eq_true, if_false]

theorem confirmedSyncs_zero (distance : ℕ) (h : c ≤ p + distance) :
    confirmedSyncs sync (window p c) distance = some 0 :=
  confirmedFrom_end distance 1 _ 0 (by omega)

theorem confirmedFrom_some (distance following count confirmed : ℕ)
    (h : ∀ j, following ≤ j → p + j * distance < c → sync (p + j * distance)) :
    ∃ found ≥ confirmed, confirmedFrom sync (window p c) distance following count confirmed = some found := by
  induction count generalizing following confirmed with
  | zero => exact ⟨confirmed, le_rfl, rfl⟩
  | succ count ih =>
    by_cases hend : c ≤ p + following * distance
    · exact ⟨confirmed, le_rfl, confirmedFrom_end distance following _ confirmed hend⟩
    obtain ⟨found, hfound, heq⟩ := ih (following + 1) (confirmed + 1) fun j hj => h j (by omega)
    refine ⟨found, by omega, ?_⟩
    rw [confirmedFrom, getElem?_window, if_pos (not_le.mp hend)]
    simp only [h following le_rfl (not_le.mp hend), if_true, heq]

theorem confirmedSyncs_some (distance : ℕ) (h : ∀ j, 1 ≤ j → p + j * distance < c → sync (p + j * distance))
    (hnext : p + distance < c) : ∃ found ≥ 1, confirmedSyncs sync (window p c) distance = some found := by
  obtain ⟨found, hfound, heq⟩ := confirmedFrom_some distance 2 3 1 fun j hj => h j (by omega)
  refine ⟨found, hfound, ?_⟩
  have hfirst : sync (p + distance) := by simpa using h 1 le_rfl (by omega)
  rw [confirmedSyncs, strideLockPackets, confirmedFrom, getElem?_window, one_mul, if_pos hnext]
  simp only [hfirst, if_true, heq]

theorem probeStride_own {stride : Stride} (h : ∀ j, 1 ≤ j → p + j * stride.len < c → sync (p + j * stride.len))
    (hnext : p + stride.len < c) (hother : ∀ other : Stride, other.len < stride.len → sync (p + other.len) = false) :
    probeStride sync (window p c) = .locked stride ∨ probeStride sync (window p c) = .tentative stride := by
  obtain ⟨found, hfound, heq⟩ := confirmedSyncs_some stride.len h hnext
  have hprobe : probeStride sync (window p c) =
      if found = strideLockPackets then .locked stride else if found = 0 then .unconfirmed else .tentative stride := by
    have hruled : ∀ other : Stride, other.len < stride.len → confirmedSyncs sync (window p c) other.len = none :=
      fun other hlt => confirmedSyncs_none other.len (by omega) (hother other hlt)
    cases stride with
    | ts => simp only [probeStride, packetStrides, probeFrom, heq]
    | m2ts => simp only [probeStride, packetStrides, probeFrom, hruled .ts (by decide), heq]
    | dvbAsi =>
      simp only [probeStride, packetStrides, probeFrom, hruled .ts (by decide), hruled .m2ts (by decide), heq]
  rw [hprobe, if_neg (by omega : found ≠ 0)]
  by_cases hlock : found = strideLockPackets
  · exact .inl (if_pos hlock)
  · exact .inr (if_neg hlock)

theorem probeStride_false (hnext : p + 204 < c) (hother : ∀ other : Stride, sync (p + other.len) = false) :
    probeStride sync (window p c) = .falseSync := by
  have hruled : ∀ other : Stride, confirmedSyncs sync (window p c) other.len = none := fun other =>
    confirmedSyncs_none other.len (by have hlen := other.len_bounds.2; omega) (hother other)
  simp only [probeStride, packetStrides, probeFrom, hruled]

theorem probeStride_unconfirmed {stride : Stride} (hend : c ≤ p + stride.len)
    (hother : ∀ other : Stride, other.len < stride.len → sync (p + other.len) = false) :
    probeStride sync (window p c) = .unconfirmed := by
  have hruled : ∀ other : Stride, other.len < stride.len →
      confirmedSyncs sync (window p c) other.len = none ∨ confirmedSyncs sync (window p c) other.len = some 0 := by
    intro other hlt
    rcases lt_or_ge (p + other.len) c with hin | hout
    · exact .inl (confirmedSyncs_none other.len hin (hother other hlt))
    · exact .inr (confirmedSyncs_zero other.len hout)
  have hlast : confirmedSyncs sync (window p c) stride.len = some 0 := confirmedSyncs_zero stride.len hend
  cases stride with
  | ts => simp [probeStride, packetStrides, probeFrom, hlast, strideLockPackets]
  | m2ts =>
    rcases hruled .ts (by decide) with h | h <;>
      simp [probeStride, packetStrides, probeFrom, h, hlast, strideLockPackets]
  | dvbAsi =>
    rcases hruled .ts (by decide) with h | h <;> rcases hruled .m2ts (by decide) with h' | h' <;>
      simp [probeStride, packetStrides, probeFrom, h, h', hlast, strideLockPackets]

end

/-! ## Probes of a stream -/

/-- The packets before `k` are over at `p`, and packet `k` is not begun. -/
def Between (stride : Stride) (k p : ℕ) : Prop := (∀ j < k, stride.place j + 188 ≤ p) ∧ p ≤ stride.place k

namespace Between

variable {stride : Stride} {k p : ℕ}

theorem next (h : Between stride k p) (hp : p < stride.place k) : Between stride k (p + 1) :=
  ⟨fun j hj => (h.1 j hj).trans (Nat.le_succ p), hp⟩

theorem after (stride : Stride) (k : ℕ) : Between stride (k + 1) (stride.place k + 188) :=
  ⟨fun _ hj => Nat.add_le_add_right (stride.place_mono (Nat.lt_succ_iff.mp hj)) 188,
    stride.place_add_le (Nat.lt_succ_self k)⟩

theorem le_count (h : Between stride k p) {count : ℕ} (hp : p ≤ stride.len * count) : k ≤ count := by
  refine not_lt.mp fun hlt => lt_irrefl count (stride.place_lt_iff.mp ?_)
  have hover := h.1 count hlt
  omega

theorem ne_place (h : Between stride k p) (hp : p < stride.place k) (j : ℕ) : p ≠ stride.place j := by
  rcases lt_or_ge j k with hj | hj
  · have hover := h.1 j hj
    omega
  · have hlater := stride.place_mono hj
    omega

theorem ne_ts (h : Between stride k p) (hp : p < stride.place k) : stride ≠ .ts := by
  rintro rfl
  cases k with
  | zero => exact absurd hp (by simp [Stride.place, Stride.lead])
  | succ k =>
    have hover := h.1 k (Nat.lt_succ_self k)
    rw [Stride.place_succ] at hp
    simp only [Stride.len] at hp
    omega

end Between

namespace Synced

variable {stride : Stride} {count : ℕ} {sync : ℕ → Bool} {k p c : ℕ}

section

variable (hs : Synced stride count sync)

include hs

theorem own_following (hc : c ≤ stride.len * count) (j : ℕ)
    (h : stride.place k + j * stride.len < c) : sync (stride.place k + j * stride.len) := by
  have hplace : stride.place k + j * stride.len = stride.place (k + j) := by
    rw [Stride.place, Stride.place]
    ring
  rw [hplace] at h ⊢
  exact hs.own (k + j) (stride.place_lt_iff.mp (h.trans_le hc))

theorem own_other (hk : k < count) (other : Stride) (hlt : other.len < stride.len) :
    sync (stride.place k + other.len) = false := by
  by_contra hsync
  have hne : stride ≠ .ts := by
    rintro rfl
    exact absurd other.len_bounds.1 (by simpa [Stride.len] using hlt)
  obtain ⟨-, j, hj⟩ := hs.apart hne _ _ (hs.own k hk) (Bool.not_eq_false _ ▸ hsync) (other.distance _)
  rcases le_or_gt j k with hle | hgt
  · have hback := stride.place_mono hle
    have hpos := other.len_pos
    omega
  · have hforth := stride.place_mono (Nat.succ_le_of_lt hgt)
    rw [Nat.succ_eq_add_one, Stride.place_succ] at hforth
    omega

theorem between_other (h : Between stride k p) (hp : p < stride.place k)
    (hsync : sync p) (other : Stride) : sync (p + other.len) = false := by
  by_contra hother
  obtain ⟨⟨j, hj⟩, -⟩ := hs.apart (h.ne_ts hp) _ _ hsync (Bool.not_eq_false _ ▸ hother) (other.distance _)
  exact h.ne_place hp j hj

theorem probe_own (hk : k < count) (hc : c ≤ stride.len * count)
    (hnext : stride.place k + stride.len < c) : probeStride sync (window (stride.place k) c) = .locked stride ∨
      probeStride sync (window (stride.place k) c) = .tentative stride :=
  probeStride_own (fun j _ => hs.own_following hc j) hnext (hs.own_other hk)

theorem probe_own_unconfirmed (hk : k < count)
    (hend : c ≤ stride.place k + stride.len) : probeStride sync (window (stride.place k) c) = .unconfirmed :=
  probeStride_unconfirmed hend (hs.own_other hk)

theorem probe_between (h : Between stride k p) (hp : p < stride.place k)
    (hsync : sync p) : probeStride sync (window p c) = if c ≤ p + 204 then .unconfirmed else .falseSync := by
  by_cases hend : c ≤ p + 204
  · rw [if_pos hend]
    have hlast : c ≤ p + Stride.dvbAsi.len := hend
    exact probeStride_unconfirmed hlast fun other _ => hs.between_other h hp hsync other
  · rw [if_neg hend]
    exact probeStride_false (not_le.mp hend) (hs.between_other h hp hsync)

end

end Synced

end Glass2Glass.Ts
