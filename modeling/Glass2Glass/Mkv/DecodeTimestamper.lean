import Glass2Glass.Lib.Reorder

/-!
# Decode times

Frames arrive in decode order with the times at which they are to be presented, and leave in the same order with the
times at which they are to be decoded (`DecodeTimestamper` in `g2g-plugins/src/decodetimestamper.rs`). When no frame
arrives more than the reorder depth after its place in presentation order, the decode times are the presentation times
in order (`stamp_eq`).
-/

namespace Glass2Glass.Mkv

open List

variable {τ : Type}

/-- The frames that are held, and the presentation times that are pending. The heap of these is a list in order. -/
structure DecodeTimestamper (τ : Type) where
  reorderDepth : Nat
  held : List τ
  pendingPtsNs : List Nat

namespace DecodeTimestamper

def new (reorderDepth : Nat) : DecodeTimestamper τ where
  reorderDepth
  held := []
  pendingPtsNs := []

variable (s : DecodeTimestamper τ)

/-- The frame that is held longest leaves with the least time that is pending. There is one for every frame. -/
def release : DecodeTimestamper τ × Option (Nat × τ) :=
  match s.held, s.pendingPtsNs with
  | frame :: held, dtsNs :: pendingPtsNs => ({ s with held, pendingPtsNs }, some (dtsNs, frame))
  | _, _ => (s, none)

/-- A frame arrives in decode order. -/
def push (ptsNs : Nat) (frame : τ) : DecodeTimestamper τ × Option (Nat × τ) :=
  let s := { s with
    held := s.held ++ [frame]
    pendingPtsNs := s.pendingPtsNs.orderedInsert (· ≤ ·) ptsNs }
  if s.held.length ≤ s.reorderDepth then (s, none) else s.release

/-- Frames are released until there are no more, and there are no more than the given number. -/
def releaseAll : Nat → DecodeTimestamper τ → DecodeTimestamper τ × List (Nat × τ)
  | 0, s => (s, [])
  | fuel + 1, s =>
    match s.release with
    | (s, none) => (s, [])
    | (s, some out) => ((releaseAll fuel s).1, out :: (releaseAll fuel s).2)

/-- At the end of the stream, all frames that are held leave. -/
def drain : DecodeTimestamper τ × List (Nat × τ) := s.releaseAll (s.held.length + 1)

/-- Frames arrive one after another. -/
def pushAll (s : DecodeTimestamper τ) : List (Nat × τ) → DecodeTimestamper τ × List (Nat × τ)
  | [] => (s, [])
  | (ptsNs, frame) :: frames =>
    (((s.push ptsNs frame).1.pushAll frames).1,
      (s.push ptsNs frame).2.toList ++ ((s.push ptsNs frame).1.pushAll frames).2)

/-- What leaves when frames arrive and the stream ends. -/
def stamp (reorderDepth : Nat) (frames : List (Nat × τ)) : List (Nat × τ) :=
  let pushed := (new reorderDepth).pushAll frames
  pushed.2 ++ pushed.1.drain.2

/-- Of the frames that have arrived, the first `left` have left with the first times in order. -/
structure Holds (sorted : List Nat) (arrived : List (Nat × τ)) (left : Nat) (s : DecodeTimestamper τ) : Prop where
  held : s.held = (arrived.map Prod.snd).drop left
  ordered : s.pendingPtsNs.Pairwise (· ≤ ·)
  pending : (sorted.take left ++ s.pendingPtsNs).Perm (arrived.map Prod.fst)

variable {sorted : List Nat} {frames arrived : List (Nat × τ)} {left d : Nat} {s : DecodeTimestamper τ}

theorem holds_new (reorderDepth : Nat) : Holds sorted ([] : List (Nat × τ)) 0 (new reorderDepth) where
  held := rfl
  ordered := List.Pairwise.nil
  pending := List.Perm.nil

/-- The next frame leaves with the next time in order, if that has arrived. -/
theorem Holds.release (h : Holds sorted arrived left s) (hsorted : sorted.Pairwise (· ≤ ·))
    (hperm : sorted.Perm (frames.map Prod.fst)) (hstarts : arrived <+: frames) (hn : left < arrived.length)
    (harrived : (sorted.take (left + 1)).Subperm (arrived.map Prod.fst)) :
    ∃ s' out, s.release = (s', some out) ∧ Holds sorted arrived (left + 1) s' ∧ s'.reorderDepth = s.reorderDepth ∧
      (sorted.zip (frames.map Prod.snd)).take (left + 1) = (sorted.zip (frames.map Prod.snd)).take left ++ [out] := by
  have hlength : sorted.length = frames.length := by rw [hperm.length_eq, length_map]
  have hleft : left < frames.length := Nat.lt_of_lt_of_le hn hstarts.length_le
  have hsub : (arrived.map Prod.fst).Subperm sorted :=
    (hstarts.sublist.map Prod.fst).subperm.trans hperm.symm.subperm
  obtain ⟨later, hlater⟩ := Reorder.head_of_held hsorted h.ordered h.pending hsub (hlength ▸ hleft) harrived
  have hframe : getElem (arrived.map Prod.snd) left (by rwa [length_map]) =
      getElem (frames.map Prod.snd) left (by rwa [length_map]) := by
    rw [getElem_map, getElem_map, hstarts.getElem hn]
  have hheld : s.held = getElem (frames.map Prod.snd) left (by rwa [length_map]) ::
      (arrived.map Prod.snd).drop (left + 1) := by
    rw [h.held, drop_eq_getElem_cons (by rwa [length_map]), hframe]
  refine ⟨{ s with held := (arrived.map Prod.snd).drop (left + 1), pendingPtsNs := later },
    (sorted[left], getElem (frames.map Prod.snd) left (by rwa [length_map])), ?_, ⟨rfl, ?_, ?_⟩, rfl, ?_⟩
  · unfold DecodeTimestamper.release
    rw [hheld, hlater]
  · have hordered := h.ordered
    rw [hlater] at hordered
    exact (List.pairwise_cons.1 hordered).2
  · have hpending := h.pending
    rw [hlater] at hpending
    rw [take_succ_eq_append_getElem (hlength ▸ hleft), append_assoc]
    exact hpending
  · have hzip : left < (sorted.zip (frames.map Prod.snd)).length := by
      rw [length_zip, length_map, hlength, Nat.min_self]
      exact hleft
    rw [take_succ_eq_append_getElem hzip, getElem_zip]

theorem Holds.insert (h : Holds sorted arrived left s) (hle : left ≤ arrived.length) (ptsNs : Nat) (frame : τ) :
    Holds sorted (arrived ++ [(ptsNs, frame)]) left { s with
        held := s.held ++ [frame]
        pendingPtsNs := s.pendingPtsNs.orderedInsert (· ≤ ·) ptsNs } where
  held := by
    rw [h.held, map_append, drop_append_of_le_length (by rwa [length_map])]
    rfl
  ordered := h.ordered.orderedInsert ptsNs _
  pending := by
    have hinsert : (s.pendingPtsNs.orderedInsert (· ≤ ·) ptsNs).Perm (s.pendingPtsNs ++ [ptsNs]) :=
      (perm_orderedInsert _ ptsNs _).trans (perm_append_singleton ptsNs _).symm
    rw [map_append]
    refine (hinsert.append_left _).trans ?_
    rw [← append_assoc]
    exact h.pending.append_right _

/-- A frame arrives, and the one that came the reorder depth before it leaves. -/
theorem Holds.push {ptsNs : Nat} {frame : τ} (h : Holds sorted arrived (arrived.length - s.reorderDepth) s)
    (hsorted : sorted.Pairwise (· ≤ ·)) (hperm : sorted.Perm (frames.map Prod.fst))
    (hwithin : ∀ n, (sorted.take n).Subperm ((frames.map Prod.fst).take (n + s.reorderDepth)))
    (hstarts : arrived ++ [(ptsNs, frame)] <+: frames) :
    Holds sorted (arrived ++ [(ptsNs, frame)]) ((arrived ++ [(ptsNs, frame)]).length - s.reorderDepth)
        (s.push ptsNs frame).1 ∧
      (s.push ptsNs frame).1.reorderDepth = s.reorderDepth ∧
      (sorted.zip (frames.map Prod.snd)).take (arrived.length - s.reorderDepth) ++ (s.push ptsNs frame).2.toList =
        (sorted.zip (frames.map Prod.snd)).take ((arrived ++ [(ptsNs, frame)]).length - s.reorderDepth) := by
  have hinsert := h.insert (Nat.sub_le _ _) ptsNs frame
  have hlength : (arrived ++ [(ptsNs, frame)]).length = arrived.length + 1 := length_append
  have hheld : (s.held ++ [frame]).length = arrived.length - (arrived.length - s.reorderDepth) + 1 := by
    rw [length_append, h.held, length_drop, length_map]
    rfl
  unfold DecodeTimestamper.push
  dsimp only
  rw [hheld, hlength]
  by_cases hfew : arrived.length - (arrived.length - s.reorderDepth) + 1 ≤ s.reorderDepth
  · -- There is still room for the frame.
    rw [if_pos hfew, show arrived.length + 1 - s.reorderDepth = arrived.length - s.reorderDepth by omega]
    exact ⟨hinsert, rfl, append_nil _⟩
  · have hnext : arrived.length + 1 - s.reorderDepth = arrived.length - s.reorderDepth + 1 := by omega
    have harrived : (sorted.take (arrived.length - s.reorderDepth + 1)).Subperm
        ((arrived ++ [(ptsNs, frame)]).map Prod.fst) := by
      have htake : (frames.map Prod.fst).take (arrived.length - s.reorderDepth + 1 + s.reorderDepth) =
          (arrived ++ [(ptsNs, frame)]).map Prod.fst := by
        obtain ⟨rest, rfl⟩ := hstarts
        have hmap : (arrived ++ [(ptsNs, frame)] ++ rest).map Prod.fst =
            (arrived ++ [(ptsNs, frame)]).map Prod.fst ++ rest.map Prod.fst := map_append
        rw [hmap, take_left']
        rw [length_map, hlength]
        omega
      rw [← htake]
      exact hwithin _
    obtain ⟨s', out, hrelease, hholds, hdepth, hout⟩ :=
      hinsert.release hsorted hperm hstarts (by rw [hlength]; omega) harrived
    rw [if_neg hfew, hrelease, hnext]
    exact ⟨hholds, hdepth, hout.symm⟩

theorem Holds.pushAll (h : Holds sorted arrived (arrived.length - s.reorderDepth) s)
    (hsorted : sorted.Pairwise (· ≤ ·)) (hperm : sorted.Perm (frames.map Prod.fst))
    (hwithin : ∀ n, (sorted.take n).Subperm ((frames.map Prod.fst).take (n + s.reorderDepth)))
    (rest : List (Nat × τ)) (hrest : arrived ++ rest = frames) :
    Holds sorted frames (frames.length - s.reorderDepth) (s.pushAll rest).1 ∧
      (sorted.zip (frames.map Prod.snd)).take (arrived.length - s.reorderDepth) ++ (s.pushAll rest).2 =
        (sorted.zip (frames.map Prod.snd)).take (frames.length - s.reorderDepth) := by
  induction rest generalizing arrived s with
  | nil =>
    rw [append_nil] at hrest
    subst hrest
    exact ⟨h, append_nil _⟩
  | cons first rest ih =>
    obtain ⟨ptsNs, frame⟩ := first
    have hsplit : arrived ++ [(ptsNs, frame)] ++ rest = frames := by rw [← hrest, append_assoc]; rfl
    obtain ⟨hholds, hdepth, hout⟩ := h.push hsorted hperm hwithin ⟨rest, hsplit⟩
    rw [← hdepth] at hholds hwithin
    obtain ⟨hlast, hleft⟩ := ih hholds hwithin hsplit
    rw [hdepth] at hlast hleft
    refine ⟨hlast, ?_⟩
    rw [DecodeTimestamper.pushAll, ← append_assoc, hout]
    exact hleft

theorem Holds.releaseAll (h : Holds sorted frames left s) (hsorted : sorted.Pairwise (· ≤ ·))
    (hperm : sorted.Perm (frames.map Prod.fst)) (fuel : Nat) (hfuel : frames.length - left < fuel)
    (hle : left ≤ frames.length) :
    (sorted.zip (frames.map Prod.snd)).take left ++ (s.releaseAll fuel).2 = sorted.zip (frames.map Prod.snd) := by
  have hlength : sorted.length = frames.length := by rw [hperm.length_eq, length_map]
  induction fuel generalizing left s with
  | zero => exact absurd hfuel (Nat.not_lt_zero _)
  | succ fuel ih =>
    rcases Nat.eq_or_lt_of_le hle with rfl | hlt
    · have hheld : s.held = [] := by rw [h.held, drop_of_length_le (by rw [length_map])]
      have hnone : s.release = (s, none) := by
        unfold DecodeTimestamper.release
        rw [hheld]
      rw [DecodeTimestamper.releaseAll, hnone, append_nil, take_of_length_le]
      rw [length_zip, length_map, hlength, Nat.min_self]
    · have harrived : (sorted.take (left + 1)).Subperm (frames.map Prod.fst) :=
        (take_sublist _ _).subperm.trans hperm.subperm
      obtain ⟨s', out, hrelease, hholds, -, hout⟩ := h.release hsorted hperm prefix_rfl hlt harrived
      have hnext := ih hholds (by omega) hlt
      rw [DecodeTimestamper.releaseAll, hrelease]
      rw [hout, append_assoc] at hnext
      exact hnext

theorem stamp_eq (frames : List (Nat × τ)) (r : Reorder.Ranking (frames.map Prod.fst)) (h : r.Within d) :
    stamp d frames = r.sorted.zip (frames.map Prod.snd) := by
  have hzero : Holds r.sorted ([] : List (Nat × τ))
      (([] : List (Nat × τ)).length - (new d : DecodeTimestamper τ).reorderDepth) (new d) := by
    rw [length_nil, Nat.zero_sub]
    exact holds_new d
  obtain ⟨hpushed, hleft⟩ := hzero.pushAll r.pairwise_sorted r.perm_sorted (r.take_subperm h) frames rfl
  have hheld : ((new d).pushAll frames).1.held.length = frames.length - (frames.length - d) := by
    rw [hpushed.held, length_drop, length_map]
    rfl
  have hdrain := hpushed.releaseAll r.pairwise_sorted r.perm_sorted
    (((new d).pushAll frames).1.held.length + 1) (by rw [hheld]; exact Nat.lt_succ_self _) (Nat.sub_le _ _)
  rw [← hleft, length_nil, Nat.zero_sub, take_zero, nil_append] at hdrain
  exact hdrain

theorem sorted_le {pts : List Nat} (r : Reorder.Ranking pts) (h : r.Within d) {base period : Nat}
    (hperiod : ∀ i : Fin pts.length, pts[i] = base + r.rank i * period) (i : Fin pts.length) :
    getElem r.sorted i (by rw [r.length_sorted]; exact i.isLt) ≤ pts[i] + d * period := by
  have hle : (i : Nat) * period ≤ (r.rank i + d) * period := Nat.mul_le_mul_right period (h i)
  have hrank := hperiod (r.rank.symm i)
  rw [Equiv.apply_symm_apply] at hrank
  rw [Nat.add_mul] at hle
  calc getElem r.sorted i (by rw [r.length_sorted]; exact i.isLt)
      = base + i * period := (r.getElem_sorted i).trans hrank
    _ ≤ base + (r.rank i * period + d * period) := Nat.add_le_add_left hle base
    _ = pts[i] + d * period := by rw [hperiod i, Nat.add_assoc]

end DecodeTimestamper

end Glass2Glass.Mkv
