import Glass2Glass.Srtp.Replay
import Mathlib.Data.List.Induction

/-!
# The replay window over a whole history

After any row of accepted indices the check answers by that history alone: what is above the largest one passes, what
is a window or more below it is too old, and what is inside of the window is a repeat just if it was accepted while it
was inside (`PacketIndexState.check_acceptAll`).
-/

namespace Glass2Glass.Srtp

open List

namespace PacketIndexState

/-- Accept a row of indices. -/
def acceptAll (s : PacketIndexState) (accepted : List Nat) : PacketIndexState := accepted.foldl accept s

/-- An index was accepted when it was less than `window` below all that had been accepted. -/
def AcceptedInside (window : Nat) (accepted : List Nat) (j : Nat) : Prop :=
  ∃ before behind, accepted = before ++ j :: behind ∧ ∀ i ∈ before, i < j + window

def HighestOf (s : PacketIndexState) (accepted : List Nat) : Prop :=
  match s.highestIndex with
  | none => accepted = []
  | some top => top ∈ accepted ∧ ∀ i ∈ accepted, i ≤ top

variable {s : PacketIndexState} {accepted : List Nat} {window i j : Nat}

theorem acceptAll_concat (s : PacketIndexState) (accepted : List Nat) (i : Nat) :
    s.acceptAll (accepted ++ [i]) = (s.acceptAll accepted).accept i := by
  unfold acceptAll
  rw [foldl_append]
  rfl

theorem acceptedInside_concat : AcceptedInside window (accepted ++ [i]) j ↔
    AcceptedInside window accepted j ∨ j = i ∧ ∀ k ∈ accepted, k < i + window := by
  constructor
  · rintro ⟨before, behind, heq, hbefore⟩
    rcases eq_nil_or_concat behind with rfl | ⟨behind, last, rfl⟩
    · obtain ⟨rfl, hlast⟩ := append_inj' heq rfl
      obtain rfl := List.singleton_inj.1 hlast
      exact .inr ⟨rfl, hbefore⟩
    · rw [concat_eq_append, ← cons_append, ← append_assoc] at heq
      obtain ⟨rfl, -⟩ := append_inj' heq rfl
      exact .inl ⟨before, behind, rfl, hbefore⟩
  · rintro (⟨before, behind, rfl, hbefore⟩ | ⟨rfl, hall⟩)
    · refine ⟨before, behind ++ [i], ?_, hbefore⟩
      rw [append_assoc, cons_append]
    · exact ⟨accepted, [], rfl, hall⟩

theorem window_accept (s : PacketIndexState) (i : Nat) : (s.accept i).window = s.window := by
  unfold accept
  split
  · rfl
  · split_ifs <;> rfl

theorem highestOf_accept (h : s.HighestOf accepted) (i : Nat) : (s.accept i).HighestOf (accepted ++ [i]) := by
  unfold HighestOf at h
  unfold accept
  rcases htop : s.highestIndex with _ | top
  · rw [htop] at h
    subst h
    exact ⟨mem_singleton_self i, fun k hk => (List.mem_singleton.1 hk).le⟩
  · rw [htop] at h
    obtain ⟨hmem, hmax⟩ := h
    have hall : ∀ bound, top ≤ bound → i ≤ bound → ∀ k ∈ accepted ++ [i], k ≤ bound := by
      intro bound hle hi k hk
      rcases List.mem_append.1 hk with hk | hk
      · exact (hmax k hk).trans hle
      · exact (List.mem_singleton.1 hk).trans_le hi
    dsimp only
    split_ifs with habove hinside
    · exact ⟨mem_append_right _ (mem_singleton_self i), hall i habove.le le_rfl⟩
    · unfold HighestOf
      exact ⟨mem_append_left _ hmem, hall top le_rfl (Nat.le_of_not_lt habove)⟩
    · unfold HighestOf
      rw [htop]
      exact ⟨mem_append_left _ hmem, hall top le_rfl (Nat.le_of_not_lt habove)⟩

theorem records_iff (h : s.HighestOf accepted) :
    s.Records (AcceptedInside s.window accepted) i j ↔ AcceptedInside s.window (accepted ++ [i]) j := by
  unfold HighestOf at h
  rw [acceptedInside_concat]
  refine or_congr_right (and_congr_right fun _ => ?_)
  rcases htop : s.highestIndex with _ | top
  · rw [htop] at h
    subst h
    exact ⟨fun _ => nofun, fun _ => nofun⟩
  · rw [htop] at h
    obtain ⟨hmem, hmax⟩ := h
    constructor
    · intro hin k hk
      exact (hmax k hk).trans_lt (hin top rfl)
    · intro hin highest hhighest
      obtain rfl := Option.some.inj hhighest
      exact hin top hmem

/-- After any row of indices the bitmap records those that were accepted inside of the window, of which the highest
index is the largest. -/
theorem exact_acceptAll {initialRolloverCounter : Nat} (h : new initialRolloverCounter window = .ok s)
    (accepted : List Nat) :
    (s.acceptAll accepted).Exact (AcceptedInside window accepted) ∧ (s.acceptAll accepted).HighestOf accepted ∧
      (s.acceptAll accepted).window = window := by
  obtain ⟨-, hwindow, hnone, -⟩ := new_eq_ok h
  induction accepted using List.reverseRecOn with
  | nil =>
    have hempty : AcceptedInside window [] = fun _ => False := by
      funext j
      refine eq_false ?_
      rintro ⟨before, behind, heq, -⟩
      exact append_ne_nil_of_right_ne_nil before (cons_ne_nil j behind) heq.symm
    refine ⟨hempty ▸ exact_new h, ?_, hwindow⟩
    unfold HighestOf acceptAll
    rw [foldl_nil, hnone]
  | append_singleton accepted i ih =>
    obtain ⟨hexact, hhighest, hsame⟩ := ih
    rw [acceptAll_concat]
    have hrecords : (s.acceptAll accepted).Records (AcceptedInside window accepted) i =
        AcceptedInside window (accepted ++ [i]) := by
      funext j
      have hiff := records_iff (i := i) (j := j) hhighest
      rw [hsame] at hiff
      exact propext hiff
    refine ⟨hrecords ▸ exact_accept hexact i, highestOf_accept hhighest i, ?_⟩
    rw [window_accept, hsame]

theorem check_of_exact {recorded : Nat → Prop} (h : s.Exact recorded) {top : Nat}
    (htop : s.highestIndex = Option.some top) (j : Nat) :
    (s.check j = .ok () ↔ top < j ∨ top - j < s.window ∧ ¬recorded j) ∧
      (s.check j = .error .packetTooOld ↔ s.window ≤ top - j) ∧
      (s.check j = .error .repeatedPacket ↔ j ≤ top ∧ top - j < s.window ∧ recorded j) := by
  have hle := h.window_le
  have hpos := h.window_pos
  obtain ⟨-, hmax, hbits⟩ := h.some top htop
  unfold check
  rw [htop]
  dsimp only
  split_ifs with habove hold hset
  · -- above the largest one
    have hnone : ¬s.window ≤ top - j := by omega
    have hnot : ¬j ≤ top := by omega
    simp [habove, hnone, hnot]
  · -- below the window
    have hin : ¬top - j < s.window := by omega
    simp [habove, hold, hin]
  · -- recorded
    have hrecorded := (hbits (top - j) (by omega)).1 hset
    rw [show top - (top - j) = j by omega] at hrecorded
    have hin : top - j < s.window := by omega
    have hbelow : j ≤ top := by omega
    simp [habove, hold, hin, hbelow, hrecorded.2]
  · -- not recorded
    have hrecorded : ¬recorded j := by
      intro hrecorded
      refine hset ((hbits (top - j) (by omega)).2 ⟨Nat.sub_le _ _, ?_⟩)
      rwa [show top - (top - j) = j by omega]
    have hin : top - j < s.window := by omega
    simp [habove, hold, hin, hrecorded]

/-- The bitmap is an exact sliding window. After any row of accepted indices every index passes if the row is empty.
Else, with `h` the largest of the row, an index passes just if it is above `h`, or less than a window below it and not
accepted while inside of the window; it is too old just if it is a window or more below `h`, and a repeat otherwise. -/
theorem check_acceptAll {initialRolloverCounter : Nat} (hnew : new initialRolloverCounter window = .ok s)
    (accepted : List Nat) (j : Nat) : (accepted = [] → (s.acceptAll accepted).check j = .ok ()) ∧
    ∀ h ∈ accepted, (∀ i ∈ accepted, i ≤ h) →
      ((s.acceptAll accepted).check j = .ok () ↔ h < j ∨ h - j < window ∧ ¬AcceptedInside window accepted j) ∧
      ((s.acceptAll accepted).check j = .error .packetTooOld ↔ window ≤ h - j) ∧
      ((s.acceptAll accepted).check j = .error .repeatedPacket ↔
        j ≤ h ∧ h - j < window ∧ AcceptedInside window accepted j) := by
  obtain ⟨hexact, hhighest, hwindow⟩ := exact_acceptAll hnew accepted
  constructor
  · rintro rfl
    have hnone := (new_eq_ok hnew).2.2.1
    unfold acceptAll check
    rw [foldl_nil, hnone]
  · intro h hmem hmax
    have htop : (s.acceptAll accepted).highestIndex = Option.some h := by
      unfold HighestOf at hhighest
      rcases htop : (s.acceptAll accepted).highestIndex with _ | top
      · rw [htop] at hhighest
        dsimp only at hhighest
        rw [hhighest] at hmem
        exact absurd hmem not_mem_nil
      · rw [htop] at hhighest
        obtain ⟨htopMem, htopMax⟩ := hhighest
        exact congrArg Option.some (Nat.le_antisymm (hmax top htopMem) (htopMax h hmem))
    have hcheck := check_of_exact hexact htop j
    rw [hwindow] at hcheck
    exact hcheck

/-- A window of 100 after two indices that are further apart. -/
theorem check_acceptAll_two :
    (([5, 300] : List Nat) = [] → ((⟨0, none, [0, 0], 100⟩ : PacketIndexState).acceptAll [5, 300]).check 5 = .ok ()) ∧
    ∀ h ∈ [5, 300], (∀ i ∈ [5, 300], i ≤ h) →
      (((⟨0, none, [0, 0], 100⟩ : PacketIndexState).acceptAll [5, 300]).check 5 = .ok () ↔
        h < 5 ∨ h - 5 < 100 ∧ ¬AcceptedInside 100 [5, 300] 5) ∧
      (((⟨0, none, [0, 0], 100⟩ : PacketIndexState).acceptAll [5, 300]).check 5 = .error .packetTooOld ↔ 100 ≤ h - 5) ∧
      (((⟨0, none, [0, 0], 100⟩ : PacketIndexState).acceptAll [5, 300]).check 5 = .error .repeatedPacket ↔
        5 ≤ h ∧ h - 5 < 100 ∧ AcceptedInside 100 [5, 300] 5) :=
  @check_acceptAll ⟨0, none, [0, 0], 100⟩ 100 0 rfl [5, 300] 5

end PacketIndexState

end Glass2Glass.Srtp
