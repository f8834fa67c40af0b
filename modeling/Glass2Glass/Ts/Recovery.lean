import Glass2Glass.Ts.Probing

/-!
# What the splitter hands over

While no stride is confirmed the splitter hands over whatever starts with a sync byte and has nothing behind it yet, so
what it hands over depends on where the chunks end. `Search` lists what one look at the buffer comes to: over chunks it
either finds a packet that the next one confirms, and from there on the packets are all that is handed over, or it comes
on a sync byte between two packets while nothing is buffered that would show it to be one.
-/

namespace Glass2Glass.Ts

open TsPacketSplitter List
open Stride (place_succ ts len)

section

variable {stride : Stride} {count : ℕ} {sync : ℕ → Bool} {k p c : ℕ}
variable {endOfStream : Bool} {lockedStride confirmedStride : Option Stride}

/-! ## One turn at a place -/

theorem split_window_pass (hp : p < c) (hsync : sync p = false) :
    split sync endOfStream (window p c) none confirmedStride =
      split sync endOfStream (window (p + 1) c) none confirmedStride := by
  rw [window_cons hp, split_pass _ _ hsync]

theorem split_window_short (hp : p < c) (hsync : sync p = true) (hc : c < p + 188) :
    split sync endOfStream (window p c) lockedStride confirmedStride =
      ([], ⟨window p c, lockedStride, confirmedStride⟩) := by
  have hlength : (window p c).length < 188 := by
    rw [length_window]
    omega
  rw [window_cons hp] at hlength ⊢
  exact split_sync_short _ _ hsync hlength

theorem split_window_sync (hsync : sync p = true) (hc : p + 188 ≤ c) :
    split sync endOfStream (window p c) lockedStride confirmedStride =
      match splitStep endOfStream lockedStride confirmedStride (probe sync lockedStride (window p c)) with
      | .wait => ([], ⟨window p c, lockedStride, confirmedStride⟩)
      | .skip => split sync endOfStream (window (p + 1) c) lockedStride confirmedStride
      | .hand stride lockedStride confirmedStride =>
        if c < p + stride.len ∧ ¬ endOfStream then ([], ⟨window p c, lockedStride, confirmedStride⟩)
        else
          let after := split sync endOfStream (window (p + min stride.len (c - p)) c) lockedStride confirmedStride
          (List.range' p 188 :: after.1, after.2) := by
  have hp : p < c := by omega
  have hlength : 188 ≤ (window p c).length := by
    rw [length_window]
    omega
  have htake : (window p c).take 188 = List.range' p 188 := take_window hc
  have hdrop := drop_window p c
  have hlen := length_window p c
  have hcond : ∀ n, c - p < n ↔ c < p + n := fun n => by omega
  rw [window_cons hp] at hlength htake hdrop hlen ⊢
  rw [split_sync _ _ hsync hlength]
  cases splitStep endOfStream lockedStride confirmedStride (probe sync lockedStride (p :: window (p + 1) c)) with
  | wait | skip => rfl
  | hand stride locked' confirmed' =>
    change (if _ ∧ _ then _ else _) = if _ ∧ _ then _ else _
    rw [hlen, htake, hdrop]
    exact if_congr (and_congr_left fun _ => hcond _) rfl rfl

/-- What is handed over at a place, and what comes of the bytes after it. -/
def handThen (p : ℕ) (after : List (List ℕ) × TsPacketSplitter ℕ) : List (List ℕ) × TsPacketSplitter ℕ :=
  (List.range' p 188 :: after.1, after.2)

section

variable (hsync : sync p = true) (hlow : p + 188 ≤ c)

include hsync hlow

theorem split_hand {locked' confirmed' : Option Stride}
    (hstep : splitStep endOfStream lockedStride confirmedStride (probe sync lockedStride (window p c)) =
      .hand stride locked' confirmed') (hc : p + stride.len ≤ c ∨ endOfStream = true) :
    split sync endOfStream (window p c) lockedStride confirmedStride =
      handThen p (split sync endOfStream (window (p + min stride.len (c - p)) c) locked' confirmed') := by
  have hgo : ¬ (c < p + stride.len ∧ ¬ endOfStream = true) := fun h => by
    rcases hc with hc | hc
    · omega
    · exact h.2 hc
  rw [split_window_sync hsync hlow, hstep]
  exact if_neg hgo

theorem split_hand_wait {locked' confirmed' : Option Stride}
    (hstep : splitStep false lockedStride confirmedStride (probe sync lockedStride (window p c)) =
      .hand stride locked' confirmed') (hc : c < p + stride.len) :
    split sync false (window p c) lockedStride confirmedStride = ([], ⟨window p c, locked', confirmed'⟩) := by
  rw [split_window_sync hsync hlow, hstep]
  exact if_pos ⟨hc, Bool.false_ne_true⟩

theorem split_wait
    (hstep : splitStep endOfStream lockedStride confirmedStride (probe sync lockedStride (window p c)) = .wait) :
    split sync endOfStream (window p c) lockedStride confirmedStride =
      ([], ⟨window p c, lockedStride, confirmedStride⟩) := by
  rw [split_window_sync hsync hlow, hstep]

theorem split_skip
    (hstep : splitStep endOfStream lockedStride confirmedStride (probe sync lockedStride (window p c)) = .skip) :
    split sync endOfStream (window p c) lockedStride confirmedStride =
      split sync endOfStream (window (p + 1) c) lockedStride confirmedStride := by
  rw [split_window_sync hsync hlow, hstep]

end

/-! ## One turn at a packet -/

/-- A stride is locked only if it is the stream's own. -/
def OwnLock (stride : Stride) (lockedStride : Option Stride) : Prop := ∀ locked ∈ lockedStride, locked = stride

theorem OwnLock.none (stride : Stride) : OwnLock stride none := fun _ h => (Option.some_ne_none _ h.symm).elim

theorem OwnLock.some (stride : Stride) : OwnLock stride (some stride) := fun _ h => (Option.some.inj h).symm

theorem split_own (hs : Synced stride count sync) (hk : k < count) (hc : c ≤ stride.len * count)
    (hnext : stride.place k + stride.len < c) :
    ∃ locked', OwnLock stride locked' ∧ split sync endOfStream (window (stride.place k) c) none confirmedStride =
      handThen (stride.place k) (split sync endOfStream (window (stride.place (k + 1)) c) locked' (some stride)) := by
  have hlen := stride.len_bounds.1
  have hplace : stride.place k + min stride.len (c - stride.place k) = stride.place (k + 1) := by
    rw [place_succ, Nat.min_eq_left (by omega)]
  obtain ⟨locked', hown, hstep⟩ : ∃ locked', OwnLock stride locked' ∧
      splitStep endOfStream none confirmedStride (probe sync none (window (stride.place k) c)) =
        .hand stride locked' (some stride) := by
    rcases hs.probe_own hk hc hnext with hprobe | hprobe
    · exact ⟨_, .some stride, by rw [probe, hprobe, splitStep]⟩
    · exact ⟨_, .none stride, by rw [probe, hprobe, splitStep]⟩
  refine ⟨locked', hown, ?_⟩
  rw [split_hand (hs.own k hk) (by omega) hstep (.inl hnext.le), hplace]

theorem split_unconfirmed (hsync : sync p = true) (hlow : p + 188 ≤ c)
    (hprobe : probeStride sync (window p c) = .unconfirmed) :
    split sync false (window p c) none none = handThen p (split sync false (window (p + 188) c) none none) := by
  have hplace : min ts.len (c - p) = 188 := Nat.min_eq_left (by simp only [len]; omega)
  have hstep : splitStep false none none (probe sync none (window p c)) = .hand .ts none none := by
    simp [probe, hprobe, splitStep]
  rw [split_hand hsync hlow hstep (.inl hlow), hplace]

/-! ## Once the stride is confirmed -/

/-- What a splitter that knows the stride does at a packet: it waits for the whole of it, hands it over and goes on at the
next one, or hands it over as the stream's last. -/
inductive SettledStep (stride : Stride) (sync : ℕ → Bool) (k c : ℕ) : Bool → List (List ℕ) × TsPacketSplitter ℕ → Prop
  | wait (lockedStride : Option Stride) (hown : OwnLock stride lockedStride) :
    SettledStep stride sync k c false ([], ⟨window (stride.place k) c, lockedStride, some stride⟩)
  | next (endOfStream : Bool) (lockedStride : Option Stride) (hown : OwnLock stride lockedStride)
    (hc : stride.place (k + 1) ≤ c) :
    SettledStep stride sync k c endOfStream (handThen (stride.place k)
      (split sync endOfStream (window (stride.place (k + 1)) c) lockedStride (some stride)))
  | last (after : List (List ℕ) × TsPacketSplitter ℕ) (hafter : after.1 = []) (hc : c ≤ stride.place k + stride.len) :
    SettledStep stride sync k c true (handThen (stride.place k) after)

theorem settled_step (hs : Synced stride count sync) (hk : k < count) (hc : c ≤ stride.len * count)
    (hlow : stride.place k + 188 ≤ c) (hown : OwnLock stride lockedStride) (endOfStream : Bool) :
    SettledStep stride sync k c endOfStream
      (split sync endOfStream (window (stride.place k) c) lockedStride (some stride)) := by
  have hsync := hs.own k hk
  have hlen := stride.len_bounds
  cases lockedStride with
  | some locked =>
    obtain rfl : locked = stride := hown locked rfl
    have hstep : splitStep endOfStream (some locked) (some locked)
        (probe sync (some locked) (window (locked.place k) c)) = .hand locked (some locked) (some locked) := rfl
    rcases le_or_gt (locked.place k + locked.len) c with hfull | hpart
    · have hplace : locked.place k + min locked.len (c - locked.place k) = locked.place (k + 1) := by
        rw [place_succ, Nat.min_eq_left (by omega)]
      rw [split_hand hsync hlow hstep (.inl hfull), hplace]
      exact .next _ _ (.some locked) (by rwa [place_succ])
    cases endOfStream with
    | false =>
      rw [split_hand_wait hsync hlow hstep hpart]
      exact .wait _ (.some locked)
    | true =>
      rw [split_hand hsync hlow hstep (.inr rfl)]
      refine .last _ ?_ hpart.le
      rw [window_nil (by omega), split_nil]
  | none =>
    rcases lt_or_ge (stride.place k + stride.len) c with hnext | hend
    · obtain ⟨locked', hown', heq⟩ := split_own hs hk hc hnext
      rw [heq]
      exact .next _ _ hown' (by rw [place_succ]; exact hnext.le)
    have hprobe := hs.probe_own_unconfirmed hk hend
    have hplace : min ts.len (c - stride.place k) = 188 := Nat.min_eq_left (by simp only [len]; omega)
    -- Nothing is buffered behind the packet: only the plain stride has all of it, and the end of the stream takes it.
    by_cases hwait : endOfStream = false ∧ stride ≠ .ts
    · obtain ⟨rfl, hne⟩ := hwait
      rw [split_wait hsync hlow (by simp [probe, hprobe, splitStep, hne])]
      exact .wait _ (.none stride)
    have hstep : splitStep endOfStream none (some stride) (probe sync none (window (stride.place k) c)) =
        .hand .ts none (some stride) := by
      rw [probe, hprobe, splitStep, if_neg]
      simpa only [Option.any_some, decide_eq_true_eq, Bool.not_eq_true] using hwait
    rw [split_hand hsync hlow hstep (.inl hlow), hplace]
    cases endOfStream with
    | false =>
      obtain rfl : stride = .ts := by simpa using hwait
      have hnext : ts.place k + 188 = ts.place (k + 1) := (place_succ _ k).symm
      rw [hnext] at hlow ⊢
      exact .next _ _ (.none _) hlow
    | true =>
      refine .last _ (split_short _ ?_) hend
      rw [length_window]
      omega

theorem settled_run (hs : Synced stride count sync) (hc : c ≤ stride.len * count) (hk : stride.place k ≤ c)
    (hown : OwnLock stride lockedStride) : ∃ k' locked', k ≤ k' ∧ stride.place k' ≤ c ∧ OwnLock stride locked' ∧
      split sync false (window (stride.place k) c) lockedStride (some stride) =
        (packetPlaces stride k k', ⟨window (stride.place k') c, locked', some stride⟩) := by
  induction hn : c - stride.place k using Nat.strong_induction_on generalizing k lockedStride with
  | _ n ih =>
    have hself : ([] : List (List ℕ)) = packetPlaces stride k k := (packetPlaces_self stride k).symm
    rcases hk.eq_or_lt with heq | hlt
    · refine ⟨k, lockedStride, le_rfl, hk, hown, ?_⟩
      rw [window_nil heq.ge, split_nil, hself]
    have hcount : k < count := stride.place_lt_iff.mp (hlt.trans_le hc)
    rcases lt_or_ge c (stride.place k + 188) with hshort | hlow
    · refine ⟨k, lockedStride, le_rfl, hk, hown, ?_⟩
      rw [split_window_short hlt (hs.own k hcount) hshort, hself]
    have hstep := settled_step hs hcount hc hlow hown false
    generalize split sync false (window (stride.place k) c) lockedStride (some stride) = out at hstep ⊢
    cases hstep with
    | wait locked' hown' => exact ⟨k, locked', le_rfl, hk, hown', by rw [hself]⟩
    | next _ locked' hown' hnext =>
      have hlater : stride.place k < stride.place (k + 1) := stride.place_strictMono (Nat.lt_succ_self k)
      obtain ⟨k', locked'', hle, hplace, hown'', heq⟩ := ih _ (by omega) hnext hown' rfl
      refine ⟨k', locked'', by omega, hplace, hown'', ?_⟩
      rw [heq, packetPlaces_cons stride (by omega : k < k')]
      rfl

theorem settled_finish (hs : Synced stride count sync) (hk : k ≤ count) (hown : OwnLock stride lockedStride) :
    (split sync true (window (stride.place k) (stride.len * count)) lockedStride (some stride)).1 =
      packetPlaces stride k count := by
  induction hn : count - k generalizing k lockedStride with
  | zero =>
    obtain rfl : k = count := by omega
    have hend : stride.len * k ≤ stride.place k := not_lt.mp fun h => (stride.place_lt_iff.mp h).false
    rw [window_nil hend, split_nil, packetPlaces_self]
  | succ n ih =>
    have hcount : k < count := by omega
    have hstep := settled_step hs hcount le_rfl (stride.place_add_le_end hcount) hown true
    generalize split sync true (window (stride.place k) _) lockedStride (some stride) = out at hstep ⊢
    cases hstep with
    | next _ locked' hown' hnext =>
      rw [handThen, ih (by omega) hown' (by omega), packetPlaces_cons stride hcount]
    | last after hafter hend =>
      rw [handThen, hafter, packetPlaces_cons stride hcount, stride.last_of_end hcount hend, packetPlaces_self]

/-! ## While no stride is confirmed -/

/-- One look at the bytes from `p` to `c`, between the packets before `k` and packet `k`, while no stride is confirmed. -/
inductive Search (stride : Stride) (sync : ℕ → Bool) (c : ℕ) : ℕ → ℕ → List (List ℕ) × TsPacketSplitter ℕ → Prop
  | stop (k p : ℕ) (hp : p ≤ c) (hshort : c < p + 188) : Search stride sync c k p ([], ⟨window p c, none, none⟩)
  | pass (k p : ℕ) (out : List (List ℕ) × TsPacketSplitter ℕ) (hp : p < stride.place k)
    (hskip : sync p = true → p + 204 < c) (hrest : Search stride sync c k (p + 1) out) : Search stride sync c k p out
  | found (k : ℕ) (out : List (List ℕ) × TsPacketSplitter ℕ) (hlow : stride.place k + 188 ≤ c)
    (hend : c ≤ stride.place k + stride.len) (hrest : Search stride sync c (k + 1) (stride.place k + 188) out) :
    Search stride sync c k (stride.place k) (handThen (stride.place k) out)
  | settled (k k' : ℕ) (lockedStride : Option Stride) (hnext : stride.place k + stride.len < c) (hk : k ≤ k')
    (hc : stride.place k' ≤ c) (hown : OwnLock stride lockedStride) :
    Search stride sync c k (stride.place k)
      (packetPlaces stride k k', ⟨window (stride.place k') c, lockedStride, some stride⟩)
  | madeUp (k p : ℕ) (out : List (List ℕ) × TsPacketSplitter ℕ) (hp : p < stride.place k) (hsync : sync p = true)
    (hlow : p + 188 ≤ c) (hend : c ≤ p + 204) : Search stride sync c k p (handThen p out)

theorem search_split (hs : Synced stride count sync) (hc : c ≤ stride.len * count) (h : Between stride k p)
    (hp : p ≤ c) : Search stride sync c k p (split sync false (window p c) none none) := by
  induction hn : c - p using Nat.strong_induction_on generalizing k p with
  | _ n ih =>
    rcases hp.eq_or_lt with rfl | hlt
    · rw [window_nil le_rfl, split_nil, ← window_nil (le_refl p)]
      exact .stop k p le_rfl (by omega)
    rcases h.2.eq_or_lt with rfl | hbefore
    -- A packet's own sync byte.
    · have hk : k < count := stride.place_lt_iff.mp (hlt.trans_le hc)
      rcases lt_or_ge c (stride.place k + 188) with hshort | hlow
      · rw [split_window_short hlt (hs.own k hk) hshort]
        exact .stop k _ hp hshort
      rcases le_or_gt c (stride.place k + stride.len) with hend | hnext
      · rw [split_unconfirmed (hs.own k hk) hlow (hs.probe_own_unconfirmed hk hend)]
        exact .found k _ hlow hend (ih _ (by omega) (.after stride k) hlow rfl)
      · have hplace : stride.place (k + 1) ≤ c := by
          rw [place_succ]
          exact hnext.le
        obtain ⟨locked', hown, heq⟩ := split_own hs hk hc hnext
        obtain ⟨k', locked'', hle, hc', hown', heq'⟩ := settled_run hs hc hplace hown
        have hout : handThen (stride.place k) (split sync false (window (stride.place (k + 1)) c) locked' (some stride)) =
            (packetPlaces stride k k', ⟨window (stride.place k') c, locked'', some stride⟩) := by
          rw [heq', packetPlaces_cons stride (by omega : k < k')]
          rfl
        rw [heq, hout]
        exact .settled k k' locked'' hnext (by omega) hc' hown'
    -- A byte between two packets.
    cases hsync : sync p with
    | false =>
      rw [split_window_pass hlt hsync]
      exact .pass k p _ hbefore (by simp [hsync]) (ih _ (by omega) (h.next hbefore) hlt rfl)
    | true =>
      rcases lt_or_ge c (p + 188) with hshort | hlow
      · rw [split_window_short hlt hsync hshort]
        exact .stop k p hp hshort
      have hprobe := hs.probe_between (c := c) h hbefore hsync
      by_cases hend : c ≤ p + 204
      · rw [if_pos hend] at hprobe
        rw [split_unconfirmed hsync hlow hprobe]
        exact .madeUp k p _ hbefore hsync hlow hend
      · rw [if_neg hend] at hprobe
        rw [split_skip hsync hlow (by simp [probe, hprobe, splitStep])]
        exact .pass k p _ hbefore (fun _ => not_le.mp hend) (ih _ (by omega) (h.next hbefore) hlt rfl)

end

/-! ## Chunks -/

section

variable {β : Type}

/-- Where the chunks end, the first of which starts at `p`. -/
def chunkEnds (p : ℕ) : List (List β) → List ℕ
  | [] => []
  | bytes :: chunks => (p + bytes.length) :: chunkEnds (p + bytes.length) chunks

def chunkPlaces (p : ℕ) : List (List β) → List (List ℕ)
  | [] => []
  | bytes :: chunks => List.range' p bytes.length :: chunkPlaces (p + bytes.length) chunks

theorem le_of_mem_chunkEnds (p c : ℕ) (chunks : List (List β)) (h : c ∈ chunkEnds p chunks) : p ≤ c := by
  induction chunks generalizing p with
  | nil => exact absurd h not_mem_nil
  | cons bytes chunks ih =>
    rcases List.mem_cons.mp h with rfl | hmem
    · exact Nat.le_add_right p bytes.length
    · exact (Nat.le_add_right p bytes.length).trans (ih _ hmem)

end

/-- A sync byte between two packets passes for a packet: a chunk ends where a packet's length of bytes is buffered behind it
and the longest stride is not, and no packet before it had the next one's sync byte behind it when it was handed over. -/
def MadeUp (stride : Stride) (sync : ℕ → Bool) (ends : List ℕ) : Prop :=
  ∃ k q, Between stride k q ∧ q < stride.place k ∧ sync q = true ∧ (∃ c ∈ ends, q + 188 ≤ c ∧ c ≤ q + 204) ∧
    ∀ j < k, ∃ c ∈ ends, stride.place j + 188 ≤ c ∧ c ≤ stride.place j + stride.len

section

variable {stride : Stride} {count : ℕ} {sync : ℕ → Bool} {ends : List ℕ} {k p c c' : ℕ} {s : TsPacketSplitter ℕ}
variable {out : List (List ℕ) × TsPacketSplitter ℕ}

/-- After a chunk that ends at `c` the packets before `k` have been handed over, and the bytes behind them are kept. -/
inductive Recovering (stride : Stride) (ends : List ℕ) (k c : ℕ) : TsPacketSplitter ℕ → Prop
  | searching (p : ℕ) (hp : Between stride k p) (hc : p ≤ c) (hshort : c < p + 188)
    (hreached : ∀ j < k, ∃ c ∈ ends, stride.place j + 188 ≤ c ∧ c ≤ stride.place j + stride.len) :
    Recovering stride ends k c ⟨window p c, none, none⟩
  | settled (lockedStride : Option Stride) (hown : OwnLock stride lockedStride) (hc : stride.place k ≤ c) :
    Recovering stride ends k c ⟨window (stride.place k) c, lockedStride, some stride⟩

theorem search_recovers (h : Search stride sync c k p out) (hmade : ¬ MadeUp stride sync ends) (hc : c ∈ ends)
    (hp : Between stride k p)
    (hreached : ∀ j < k, ∃ c ∈ ends, stride.place j + 188 ≤ c ∧ c ≤ stride.place j + stride.len) :
    ∃ k' ≥ k, out.1 = packetPlaces stride k k' ∧ Recovering stride ends k' c out.2 := by
  induction h with
  | stop k p hle hshort => exact ⟨k, le_rfl, (packetPlaces_self stride k).symm, .searching p hp hle hshort hreached⟩
  | pass k p out hlt _ _ ih => exact ih (hp.next hlt) hreached
  | found k out hlow hend _ ih =>
    have hnow : ∃ c ∈ ends, stride.place k + 188 ≤ c ∧ c ≤ stride.place k + stride.len := ⟨c, hc, hlow, hend⟩
    obtain ⟨k', hk', hout, hrec⟩ := ih (.after stride k) fun j hj => by
      rcases Nat.lt_succ_iff_lt_or_eq.mp hj with hbefore | rfl
      · exact hreached j hbefore
      · exact hnow
    refine ⟨k', by omega, ?_, hrec⟩
    rw [packetPlaces_cons stride (by omega : k < k'), ← hout]
    rfl
  | settled k k' locked hnext hk hc' hown => exact ⟨k', hk, rfl, .settled locked hown hc'⟩
  | madeUp k p out hlt hsync hlow hend =>
    exact absurd ⟨k, p, hp, hlt, hsync, ⟨c, hc, hlow, hend⟩, hreached⟩ hmade

theorem push_recovers (hs : Synced stride count sync) (hmade : ¬ MadeUp stride sync ends)
    (h : Recovering stride ends k c s) (hcc : c ≤ c') (hc : c' ≤ stride.len * count) (hmem : c' ∈ ends) :
    ∃ k' ≥ k, (s.push sync (window c c')).1 = packetPlaces stride k k' ∧
      Recovering stride ends k' c' (s.push sync (window c c')).2 := by
  cases h with
  | searching p hp hle hshort hreached =>
    rw [push, window_append hle hcc]
    exact search_recovers (search_split hs hc hp (hle.trans hcc)) hmade hmem hp hreached
  | settled locked hown hle =>
    rw [push, window_append hle hcc]
    obtain ⟨k', locked', hk, hc', hown', heq⟩ := settled_run hs hc (hle.trans hcc) hown
    rw [heq]
    exact ⟨k', hk, rfl, .settled locked' hown' hc'⟩

theorem pushAll_recovers {β : Type} (hs : Synced stride count sync) (hmade : ¬ MadeUp stride sync ends)
    (chunks : List (List β)) (h : Recovering stride ends k c s)
    (hlength : c + chunks.flatten.length = stride.len * count) (hmem : ∀ e ∈ chunkEnds c chunks, e ∈ ends) :
    ∃ k' ≥ k, (pushAll sync s (chunkPlaces c chunks)).1 = packetPlaces stride k k' ∧
      Recovering stride ends k' (stride.len * count) (pushAll sync s (chunkPlaces c chunks)).2 := by
  induction chunks generalizing c k s with
  | nil =>
    obtain rfl : c = stride.len * count := hlength
    exact ⟨k, le_rfl, (packetPlaces_self stride k).symm, h⟩
  | cons bytes chunks ih =>
    rw [flatten_cons, length_append] at hlength
    have hwindow : List.range' c bytes.length = window c (c + bytes.length) := by rw [window, Nat.add_sub_cancel_left]
    obtain ⟨k₁, hk₁, hout, hrec⟩ := push_recovers hs hmade h (Nat.le_add_right c bytes.length) (by omega)
      (hmem _ mem_cons_self)
    obtain ⟨k₂, hk₂, hout', hrec'⟩ := ih hrec (by omega) fun e he => hmem e (mem_cons_of_mem _ he)
    rw [chunkPlaces, pushAll, hwindow]
    refine ⟨k₂, by omega, ?_, hrec'⟩
    calc _ = packetPlaces stride k k₁ ++ packetPlaces stride k₁ k₂ := congrArg₂ (· ++ ·) hout hout'
      _ = packetPlaces stride k k₂ := packetPlaces_append stride hk₁ hk₂

theorem finish_recovers (hs : Synced stride count sync) (h : Recovering stride ends k (stride.len * count) s) :
    k ≤ count ∧ (s.finish sync).1 = packetPlaces stride k count := by
  cases h with
  | searching p hp hle hshort hreached =>
    have hk : k = count := by
      refine le_antisymm (hp.le_count hle) (not_lt.mp fun hlt => ?_)
      have hend := stride.place_add_le_end hlt
      have hbefore := hp.2
      omega
    refine ⟨hk.le, ?_⟩
    rw [hk, packetPlaces_self]
    refine split_short _ ?_
    rw [length_window]
    omega
  | settled locked hown hle =>
    have hk : k ≤ count := not_lt.mp fun hlt =>
      lt_irrefl count (stride.place_lt_iff.mp ((stride.place_strictMono hlt).trans_le hle))
    exact ⟨hk, settled_finish hs hk hown⟩

theorem handed_of_not_madeUp {β : Type} (hs : Synced stride count sync) (chunks : List (List β))
    (hlength : chunks.flatten.length = stride.len * count) (hmade : ¬ MadeUp stride sync (chunkEnds 0 chunks)) :
    handed sync (chunkPlaces 0 chunks) = packetPlaces stride 0 count := by
  have hfirst : Recovering stride (chunkEnds 0 chunks) 0 0 new :=
    .searching 0 ⟨fun j hj => absurd hj (Nat.not_lt_zero j), Nat.zero_le _⟩ le_rfl (by omega)
      fun j hj => absurd hj (Nat.not_lt_zero j)
  obtain ⟨k, hk, hout, hrec⟩ := pushAll_recovers hs hmade chunks hfirst (by omega) fun _ h => h
  obtain ⟨hcount, hfinish⟩ := finish_recovers hs hrec
  calc handed sync (chunkPlaces 0 chunks) = packetPlaces stride 0 k ++ packetPlaces stride k count :=
        congrArg₂ (· ++ ·) hout hfinish
    _ = packetPlaces stride 0 count := packetPlaces_append stride hk hcount

/-! ## A packet that is none -/

/-- Among what is handed over from packet `k` on there is a packet's length of bytes that starts between two packets. -/
def Strays (stride : Stride) (k : ℕ) (packets : List (List ℕ)) : Prop :=
  ∃ k' ≥ k, ∃ q < stride.place k', ∃ more, packets = packetPlaces stride k k' ++ List.range' q 188 :: more

theorem Strays.append (h : Strays stride k out.1) (more : List (List ℕ)) : Strays stride k (out.1 ++ more) := by
  obtain ⟨k', hk, q, hq, rest, heq⟩ := h
  exact ⟨k', hk, q, hq, rest ++ more, by rw [heq, append_assoc, cons_append]⟩

theorem Strays.prepend {k' : ℕ} {packets : List (List ℕ)} (h : Strays stride k' packets) (hk : k ≤ k') :
    Strays stride k (packetPlaces stride k k' ++ packets) := by
  obtain ⟨k'', hk', q, hq, rest, heq⟩ := h
  refine ⟨k'', by omega, q, hq, rest, ?_⟩
  rw [heq, ← append_assoc, packetPlaces_append stride hk hk']

theorem Strays.ne {packets : List (List ℕ)} (h : Strays stride 0 packets) : packets ≠ packetPlaces stride 0 count := by
  obtain ⟨k, -, q, hq, more, rfl⟩ := h
  intro heq
  have hlength : (packetPlaces stride 0 k).length = k := by rw [packetPlaces, length_map, length_window]; omega
  have hat : (packetPlaces stride 0 count)[k]? = some (List.range' q 188) := by
    rw [← heq, List.getElem?_append_right hlength.le, hlength, Nat.sub_self]
    rfl
  rw [packetPlaces, List.getElem?_map, getElem?_window, Nat.zero_add] at hat
  by_cases hk : k < count
  · rw [if_pos hk, Option.map_some, Option.some.injEq] at hat
    have hhead : stride.place k = q := by
      have hheads := congrArg List.head? hat
      exact Option.some.inj hheads
    exact hq.ne' hhead
  · rw [if_neg hk] at hat
    exact Option.some_ne_none _ hat.symm

theorem search_strays {kq q : ℕ} (h : Search stride sync c k p out) (hstray : Between stride kq q)
    (hlt : q < stride.place kq) (hsync : sync q = true) (hp : Between stride k p) (hk : k ≤ kq) (hpq : p ≤ q)
    (hearly : ∀ j, k ≤ j → j < kq → stride.place j + 188 ≤ c → c ≤ stride.place j + stride.len)
    (hq : q + 188 ≤ c → c ≤ q + 204) :
    Strays stride k out.1 ∨ ∃ k' p', k ≤ k' ∧ k' ≤ kq ∧ Between stride k' p' ∧ p' ≤ q ∧ p' ≤ c ∧ c < p' + 188 ∧
      out = (packetPlaces stride k k', ⟨window p' c, none, none⟩) := by
  -- A packet whose sync byte the search meets before `q` is one of those in front of it.
  have hbefore : ∀ k, stride.place k ≤ q → k < kq := fun k hle =>
    not_le.mp fun hge => absurd (stride.place_mono hge) (by omega)
  induction h with
  | stop k p hle hshort =>
    exact .inr ⟨k, p, le_rfl, hk, hp, hpq, hle, hshort, by rw [packetPlaces_self]⟩
  | pass k p out hlt' hskip _ ih =>
    have hne : p ≠ q := by
      rintro rfl
      have hfar := hskip hsync
      have hnear := hq (by omega)
      omega
    exact ih (hp.next hlt') hk (by omega) hearly
  | found k out hlow hend _ ih =>
    have hk' := hbefore k hpq
    rcases ih (.after stride k) hk' (hstray.1 k hk') fun j hj => hearly j (by omega) with hout | hout
    · have hone : packetPlaces stride k (k + 1) = [List.range' (stride.place k) 188] := by
        rw [packetPlaces_cons stride (Nat.lt_succ_self k), packetPlaces_self]
      have hmore := hout.prepend (Nat.le_succ k)
      rw [hone] at hmore
      exact .inl hmore
    · obtain ⟨k', p', hle, hle', hp', hpq', hc, hshort, rfl⟩ := hout
      refine .inr ⟨k', p', by omega, hle', hp', hpq', hc, hshort, ?_⟩
      rw [packetPlaces_cons stride (by omega : k < k')]
      rfl
  | settled k k' locked hnext hle hc hown =>
    have hlen := stride.len_bounds.1
    have hnear := hearly k le_rfl (hbefore k hpq) (by omega)
    omega
  | madeUp k p out hlt' _ _ _ =>
    refine .inl ⟨k, le_rfl, p, hlt', out.1, ?_⟩
    rw [packetPlaces_self]
    rfl

theorem pushAll_strays {β : Type} {kq q : ℕ} (hs : Synced stride count sync) (hstray : Between stride kq q)
    (hlt : q < stride.place kq) (hsync : sync q = true) (chunks : List (List β)) (hp : Between stride k p)
    (hk : k ≤ kq) (hpq : p ≤ q) (hle : p ≤ c) (hshort : c < p + 188)
    (hlength : c + chunks.flatten.length ≤ stride.len * count)
    (hq : ∃ e ∈ chunkEnds c chunks, q + 188 ≤ e ∧ e ≤ q + 204) (hearly : ∀ j, k ≤ j → j < kq →
      ∃ e ∈ chunkEnds c chunks, stride.place j + 188 ≤ e ∧ e ≤ stride.place j + stride.len) :
    Strays stride k (pushAll sync ⟨window p c, none, none⟩ (chunkPlaces c chunks)).1 := by
  induction chunks generalizing c k p with
  | nil =>
    obtain ⟨e, hmem, -⟩ := hq
    exact absurd hmem not_mem_nil
  | cons bytes chunks ih =>
    rw [flatten_cons, length_append] at hlength
    have hwindow : List.range' c bytes.length = window c (c + bytes.length) := by rw [window, Nat.add_sub_cancel_left]
    have hcc : c ≤ c + bytes.length := Nat.le_add_right c bytes.length
    -- The chunk's own end is the first of the ends.
    have hends : ∀ e ∈ chunkEnds c (bytes :: chunks), c + bytes.length ≤ e := fun e he => by
      rcases List.mem_cons.mp he with rfl | hmem
      · exact le_rfl
      · exact le_of_mem_chunkEnds _ _ _ hmem
    have hpush : push sync ⟨window p c, none, none⟩ (window c (c + bytes.length)) =
        split sync false (window p (c + bytes.length)) none none := by rw [push, window_append hle hcc]
    have hsearch := search_split hs (by omega) hp (hle.trans hcc)
    rw [chunkPlaces, pushAll, hwindow, hpush]
    rcases search_strays hsearch hstray hlt hsync hp hk hpq (fun j hj hjk _ => by
          obtain ⟨e, hmem, -, hnear⟩ := hearly j hj hjk
          exact (hends e hmem).trans hnear)
        (fun _ => by
          obtain ⟨e, hmem, -, hnear⟩ := hq
          exact (hends e hmem).trans hnear) with hout | hout
    · exact hout.append _
    · obtain ⟨k', p', hkk, hk', hp', hpq', hc, hshort', heq⟩ := hout
      have hlater : ∀ e ∈ chunkEnds c (bytes :: chunks), c + bytes.length < e →
          e ∈ chunkEnds (c + bytes.length) chunks := fun e he hne =>
        (List.mem_cons.mp he).resolve_left (by rintro rfl; exact lt_irrefl _ hne)
      rw [heq]
      refine Strays.prepend (ih hp' hk' hpq' hc hshort' (by omega) ?_ fun j hj hjk => ?_) hkk
      · obtain ⟨e, hmem, hfar, hnear⟩ := hq
        exact ⟨e, hlater e hmem (by omega), hfar, hnear⟩
      · obtain ⟨e, hmem, hfar, hnear⟩ := hearly j (by omega) hjk
        have hplace := stride.place_mono hj
        have hbelow := hp'.2
        exact ⟨e, hlater e hmem (by omega), hfar, hnear⟩

theorem handed_of_madeUp {β : Type} (hs : Synced stride count sync) (chunks : List (List β))
    (hlength : chunks.flatten.length = stride.len * count) (hmade : MadeUp stride sync (chunkEnds 0 chunks)) :
    handed sync (chunkPlaces 0 chunks) ≠ packetPlaces stride 0 count := by
  obtain ⟨kq, q, hstray, hlt, hsync, hq, hearly⟩ := hmade
  have hfirst : Between stride 0 0 := ⟨fun j hj => absurd hj (Nat.not_lt_zero j), Nat.zero_le _⟩
  have hout := pushAll_strays hs hstray hlt hsync chunks hfirst (Nat.zero_le kq) (Nat.zero_le q) le_rfl (by omega)
    (by omega) hq fun j _ => hearly j
  exact (hout.append _).ne

end

end Glass2Glass.Ts
