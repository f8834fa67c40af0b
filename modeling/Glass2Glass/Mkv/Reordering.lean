import Glass2Glass.Mkv.DecodeTimestamper
import Mathlib.Algebra.Group.Nat.Defs

/-!
# Reordering in the demuxer

How the Matroska demuxer stamps the frames of its tracks with decode times (`complete`, `finish` and the reorder shift
of `drain_elements` in `g2g-plugins/src/matroska.rs`). The presentation times of all tracks are shifted, so that with a
constant frame period no frame is to be decoded after it is to be presented (`finish_stamps`). What a frame has besides
its track, its times and its data is left out.
-/

namespace Glass2Glass.Mkv

open List Option

def saturatingAdd (a b : Nat) : Nat := min (a + b) (2 ^ 64 - 1)

def saturatingMul (a b : Nat) : Nat := min (a * b) (2 ^ 64 - 1)

structure MkvFrame where
  track : Nat
  ptsNs : Nat
  dtsNs : Option Nat
  data : List UInt8

/-- What the demuxer reads of a track. The reorder depth is known for some codecs only. -/
structure ParsedTrack where
  number : Nat
  defaultDurationNs : Nat
  reorderDepth : Option Nat

/-- The part of the demuxer that stamps frames. -/
structure MatroskaDemuxer where
  decodeTimestampers : List (Nat × DecodeTimestamper MkvFrame)
  reorderShiftNs : Nat
  completed : List MkvFrame

/-- A frame that leaves with its decode time. -/
def MkvFrame.stamped (out : Nat × MkvFrame) : MkvFrame := { out.2 with dtsNs := some out.1 }

/-- The first timestamper of the track takes the frame. There is none if the result has none. -/
def pushTrack (track ptsNs : Nat) (frame : MkvFrame) : List (Nat × DecodeTimestamper MkvFrame) →
      List (Nat × DecodeTimestamper MkvFrame) × Option (Option (Nat × MkvFrame))
  | [] => ([], none)
  | t :: rest =>
    if t.1 = track then ((t.1, (t.2.push ptsNs frame).1) :: rest, some (t.2.push ptsNs frame).2)
    else (t :: (pushTrack track ptsNs frame rest).1, (pushTrack track ptsNs frame rest).2)

namespace MatroskaDemuxer

def new : MatroskaDemuxer where
  decodeTimestampers := []
  reorderShiftNs := 0
  completed := []

variable (m : MatroskaDemuxer)

/-- A track is parsed. It reorders its frames if its depth and its frame duration are known. -/
def addTrack (track : ParsedTrack) : MatroskaDemuxer :=
  match track.reorderDepth with
  | none => m
  | some reorderDepth =>
    if 0 < track.defaultDurationNs then
      { m with
        decodeTimestampers := m.decodeTimestampers ++ [(track.number, .new reorderDepth)]
        reorderShiftNs := max m.reorderShiftNs (saturatingMul track.defaultDurationNs reorderDepth) }
    else m

/-- A frame with its presentation time behind the reorder shift. -/
def shift (frame : MkvFrame) : MkvFrame :=
  { frame with ptsNs := saturatingAdd frame.ptsNs m.reorderShiftNs }

def complete (frame : MkvFrame) : MatroskaDemuxer :=
  let pushed := pushTrack frame.track frame.ptsNs (m.shift frame) m.decodeTimestampers
  match pushed.2 with
  | none => { m with completed := m.completed ++ [m.shift frame] }
  | some out =>
    { m with
      decodeTimestampers := pushed.1
      completed := m.completed ++ out.toList.map MkvFrame.stamped }

/-- At the end of the stream, the frames that are held leave. -/
def finish : MatroskaDemuxer :=
  { m with
    decodeTimestampers := m.decodeTimestampers.map fun t => (t.1, t.2.drain.1)
    completed := m.completed ++ m.decodeTimestampers.flatMap fun t => t.2.drain.2.map MkvFrame.stamped }

end MatroskaDemuxer

/-! ## One track among others -/

open DecodeTimestamper

def timestamperOf (track : Nat) (l : List (Nat × DecodeTimestamper MkvFrame)) : Option (DecodeTimestamper MkvFrame) :=
  (l.find? fun t => t.1 = track).map Prod.snd

/-- A timestamper holds frames of its track only, and no frames if it is not the first one of its track. -/
def Sorts : List (Nat × DecodeTimestamper MkvFrame) → Prop
  | [] => True
  | t :: rest => (∀ frame ∈ t.2.held, frame.track = t.1) ∧ (∀ u ∈ rest, u.1 = t.1 → u.2.held = []) ∧ Sorts rest

namespace DecodeTimestamper

variable {τ : Type} {s : DecodeTimestamper τ} {frame : τ} {ptsNs : Nat}

theorem release_subset (s : DecodeTimestamper τ) :
    (∀ f ∈ s.release.1.held, f ∈ s.held) ∧ ∀ out, s.release.2 = some out → out.2 ∈ s.held := by
  unfold release
  split
  · next frame held dtsNs pendingPtsNs hheld _ =>
    rw [hheld]
    refine ⟨fun f hf => mem_cons_of_mem _ hf, fun out hout => ?_⟩
    obtain rfl := Option.some.inj hout
    exact mem_cons_self
  · exact ⟨fun f hf => hf, fun out hout => absurd hout (some_ne_none out).symm⟩

theorem push_subset (s : DecodeTimestamper τ) (ptsNs : Nat) (frame : τ) :
    (∀ f ∈ (s.push ptsNs frame).1.held, f ∈ s.held ++ [frame]) ∧
      ∀ out, (s.push ptsNs frame).2 = some out → out.2 ∈ s.held ++ [frame] := by
  unfold push
  dsimp only
  split_ifs
  · exact ⟨fun f hf => hf, fun _ hfalse => hfalse.elim⟩
  · exact release_subset _

theorem releaseAll_subset (fuel : Nat) (s : DecodeTimestamper τ) : ∀ out ∈ (s.releaseAll fuel).2, out.2 ∈ s.held := by
  induction fuel generalizing s with
  | zero => exact fun _ hout => absurd hout not_mem_nil
  | succ fuel ih =>
    obtain ⟨hheld, hout⟩ := s.release_subset
    rw [releaseAll]
    split
    · exact fun _ hout => absurd hout not_mem_nil
    · next s' first hrelease =>
      rw [hrelease] at hheld hout
      exact List.forall_mem_cons.2 ⟨hout first rfl, fun out hmem => hheld _ (ih s' out hmem)⟩

theorem drain_nil (h : s.held = []) : s.drain.2 = [] := by
  rw [eq_nil_iff_forall_not_mem]
  intro out hout
  have hmem := releaseAll_subset _ s out hout
  rw [h] at hmem
  exact absurd hmem not_mem_nil

end DecodeTimestamper

section PushTrack

variable {track n ptsNs : Nat} {frame : MkvFrame} {l : List (Nat × DecodeTimestamper MkvFrame)}

theorem timestamperOf_cons (t : Nat × DecodeTimestamper MkvFrame) :
    timestamperOf n (t :: l) = if t.1 = n then some t.2 else timestamperOf n l := by
  unfold timestamperOf
  rw [List.find?_cons]
  by_cases h : t.1 = n
  · rw [if_pos h, decide_eq_true h]
    rfl
  · rw [if_neg h, decide_eq_false h]

theorem timestamperOf_pushTrack : timestamperOf n (pushTrack track ptsNs frame l).1 =
      if n = track then (timestamperOf n l).map fun s => (s.push ptsNs frame).1 else timestamperOf n l := by
  induction l with
  | nil => split_ifs <;> rfl
  | cons t rest ih =>
    rw [pushTrack, timestamperOf_cons]
    by_cases htrack : t.1 = track
    · rw [if_pos htrack, timestamperOf_cons]
      by_cases hn : n = track
      · rw [if_pos hn, if_pos (htrack.trans hn.symm), if_pos (htrack.trans hn.symm)]
        rfl
      · have hne : ¬ t.1 = n := fun heq => hn (heq.symm.trans htrack)
        rw [if_neg hn, if_neg hne, if_neg hne]
    · rw [if_neg htrack, timestamperOf_cons]
      by_cases ht : t.1 = n
      · have hn : ¬ n = track := fun heq => htrack (ht.trans heq)
        rw [if_pos ht, if_pos ht, if_neg hn]
      · rw [if_neg ht, if_neg ht, ih]

theorem pushTrack_snd :
    (pushTrack track ptsNs frame l).2 = (timestamperOf track l).map fun s => (s.push ptsNs frame).2 := by
  induction l with
  | nil => rfl
  | cons t rest ih =>
    rw [pushTrack, timestamperOf_cons]
    by_cases htrack : t.1 = track
    · rw [if_pos htrack, if_pos htrack]
      rfl
    · rw [if_neg htrack, if_neg htrack]
      exact ih

theorem mem_pushTrack {u : Nat × DecodeTimestamper MkvFrame} (h : u ∈ (pushTrack track ptsNs frame l).1)
    (hu : u.1 ≠ track) : u ∈ l := by
  induction l with
  | nil => exact h
  | cons t rest ih =>
    rw [pushTrack] at h
    split_ifs at h with htrack
    · rcases List.mem_cons.1 h with rfl | hmem
      · exact absurd htrack hu
      · exact mem_cons_of_mem _ hmem
    · rcases List.mem_cons.1 h with rfl | hmem
      · exact mem_cons_self
      · exact mem_cons_of_mem _ (ih hmem)

theorem Sorts.pushTrack (h : Sorts l) (hframe : frame.track = track) : Sorts (pushTrack track ptsNs frame l).1 := by
  induction l with
  | nil => exact h
  | cons t rest ih =>
    obtain ⟨hheld, hfirst, hrest⟩ := h
    rw [Mkv.pushTrack]
    split_ifs with htrack
    · refine ⟨fun f hf => ?_, hfirst, hrest⟩
      rcases List.mem_append.1 ((t.2.push_subset ptsNs frame).1 f hf) with hmem | hmem
      · exact hheld f hmem
      · rw [List.mem_singleton.1 hmem, hframe, htrack]
    · exact ⟨hheld, fun u hu heq => hfirst u (mem_pushTrack hu (heq ▸ htrack)) heq, ih hrest⟩

theorem Sorts.forall_held (h : Sorts l) : ∀ u ∈ l, ∀ f ∈ u.2.held, f.track = u.1 := by
  induction l with
  | nil => exact fun _ hu => absurd hu not_mem_nil
  | cons t rest ih => exact List.forall_mem_cons.2 ⟨h.1, ih h.2.2⟩

theorem Sorts.held (h : Sorts l) {s : DecodeTimestamper MkvFrame} (hs : timestamperOf n l = some s) :
    ∀ f ∈ s.held, f.track = n := by
  induction l with
  | nil => exact absurd hs (some_ne_none s).symm
  | cons t rest ih =>
    obtain ⟨hheld, -, hrest⟩ := h
    rw [timestamperOf_cons] at hs
    split_ifs at hs with ht
    · obtain rfl := Option.some.inj hs
      rw [← ht]
      exact hheld
    · exact ih hrest hs

theorem Sorts.filter_drain (h : Sorts l) {s : DecodeTimestamper MkvFrame} (hs : timestamperOf n l = some s) :
    (l.flatMap fun t => t.2.drain.2.map MkvFrame.stamped).filter (fun f => f.track = n) =
      s.drain.2.map MkvFrame.stamped := by
  -- What a timestamper lets go belongs to its track.
  have hdrain (t : Nat × DecodeTimestamper MkvFrame) (ht : ∀ f ∈ t.2.held, f.track = t.1) :
      ∀ f ∈ t.2.drain.2.map MkvFrame.stamped, f.track = t.1 := by
    intro f hf
    obtain ⟨out, hout, rfl⟩ := List.mem_map.1 hf
    exact ht out.2 (releaseAll_subset _ t.2 out hout)
  induction l with
  | nil => exact absurd hs (some_ne_none s).symm
  | cons t rest ih =>
    obtain ⟨hheld, hfirst, hrest⟩ := h
    rw [timestamperOf_cons] at hs
    rw [flatMap_cons, filter_append]
    split_ifs at hs with ht
    · obtain rfl := Option.some.inj hs
      have hlater : (rest.flatMap fun u => u.2.drain.2.map MkvFrame.stamped).filter (fun f => f.track = n) = [] := by
        rw [filter_eq_nil_iff]
        intro f hf heq
        obtain ⟨u, hu, hfu⟩ := List.mem_flatMap.1 hf
        have htrack := hdrain u (hrest.forall_held u hu) f hfu
        have hempty := hfirst u hu (htrack.symm.trans ((of_decide_eq_true heq).trans ht.symm))
        rw [drain_nil hempty] at hfu
        exact absurd hfu not_mem_nil
      rw [hlater, append_nil, filter_eq_self]
      intro f hf
      exact decide_eq_true ((hdrain t hheld f hf).trans ht)
    · have hnone : (t.2.drain.2.map MkvFrame.stamped).filter (fun f => f.track = n) = [] := by
        rw [filter_eq_nil_iff]
        intro f hf heq
        exact ht ((hdrain t hheld f hf).symm.trans (of_decide_eq_true heq))
      rw [hnone, nil_append, ih hrest hs]

end PushTrack

namespace MatroskaDemuxer

variable {n : Nat} {s : DecodeTimestamper MkvFrame}

/-- The frames of a track, with their presentation times and as they are shifted. -/
def arrivals (m : MatroskaDemuxer) (n : Nat) (frames : List MkvFrame) : List (Nat × MkvFrame) :=
  (frames.filter fun f => f.track = n).map fun f => (f.ptsNs, m.shift f)

def outOf (m : MatroskaDemuxer) (n : Nat) : List MkvFrame := m.completed.filter fun f => f.track = n

structure Completes (m : MatroskaDemuxer) (frame : MkvFrame) (extra : List MkvFrame) (m' : MatroskaDemuxer) : Prop where
  sorts : Sorts m'.decodeTimestampers
  reorderShiftNs : m'.reorderShiftNs = m.reorderShiftNs
  completed : m'.completed = m.completed ++ extra
  /-- What leaves belongs to the track of the frame. -/
  track : ∀ f ∈ extra, f.track = frame.track
  timestamper : ∀ n, timestamperOf n m'.decodeTimestampers =
    if n = frame.track then (timestamperOf n m.decodeTimestampers).map fun s => (s.push frame.ptsNs (m.shift frame)).1
    else timestamperOf n m.decodeTimestampers
  extra : ∀ s, timestamperOf frame.track m.decodeTimestampers = some s →
    extra = (s.push frame.ptsNs (m.shift frame)).2.toList.map MkvFrame.stamped

variable {m : MatroskaDemuxer}

theorem complete_spec (h : Sorts m.decodeTimestampers) (frame : MkvFrame) :
    ∃ extra, Completes m frame extra (m.complete frame) := by
  have hsnd : (pushTrack frame.track frame.ptsNs (m.shift frame) m.decodeTimestampers).2 = _ := pushTrack_snd
  unfold complete
  cases hs : timestamperOf frame.track m.decodeTimestampers with
  | none =>
    rw [hs, map_none] at hsnd
    dsimp only
    rw [hsnd]
    refine ⟨[m.shift frame], h, rfl, rfl, List.forall_mem_singleton.2 rfl, fun n => ?_,
      fun s hsome => absurd (hs.symm.trans hsome) (some_ne_none s).symm⟩
    by_cases hn : n = frame.track
    · rw [if_pos hn, hn, hs]
      rfl
    · rw [if_neg hn]
  | some s =>
    rw [hs, map_some] at hsnd
    dsimp only
    rw [hsnd]
    refine ⟨_, h.pushTrack rfl, rfl, rfl, ?_, fun n => timestamperOf_pushTrack,
      fun s' hsome => by rw [Option.some.inj (hs.symm.trans hsome)]⟩
    intro f hf
    obtain ⟨out, hout, rfl⟩ := List.mem_map.1 hf
    rcases List.mem_append.1 ((s.push_subset _ _).2 out (Option.mem_toList.1 hout)) with hmem | hmem
    · exact h.held hs out.2 hmem
    · show out.2.track = _
      rw [List.mem_singleton.1 hmem]
      rfl

/-- A track is stamped as if there were no other. -/
theorem foldl_complete (frames : List MkvFrame) (h : Sorts m.decodeTimestampers)
    (hs : timestamperOf n m.decodeTimestampers = some s) : Sorts (frames.foldl complete m).decodeTimestampers ∧
      timestamperOf n (frames.foldl complete m).decodeTimestampers = some (s.pushAll (m.arrivals n frames)).1 ∧
      (frames.foldl complete m).outOf n = m.outOf n ++ (s.pushAll (m.arrivals n frames)).2.map MkvFrame.stamped := by
  induction frames generalizing m s with
  | nil => exact ⟨h, hs, (append_nil _).symm⟩
  | cons frame frames ih =>
    obtain ⟨extra, hspec⟩ := complete_spec h frame
    have hshift (f : MkvFrame) : (m.complete frame).shift f = m.shift f := by
      unfold shift
      rw [hspec.reorderShiftNs]
    have hrest : (m.complete frame).arrivals n frames = m.arrivals n frames := by
      exact map_congr_left fun f _ => by rw [hshift]
    have hout : (m.complete frame).outOf n = m.outOf n ++ extra.filter (fun f => f.track = n) := by
      unfold outOf
      rw [hspec.completed, filter_append]
    by_cases hn : frame.track = n
    · have hnext : timestamperOf n (m.complete frame).decodeTimestampers =
          some (s.push frame.ptsNs (m.shift frame)).1 := by
        rw [hspec.timestamper, if_pos hn.symm, hs]
        rfl
      obtain ⟨hsorts, hlast, hleft⟩ := ih hspec.sorts hnext
      have harrivals : m.arrivals n (frame :: frames) = (frame.ptsNs, m.shift frame) :: m.arrivals n frames := by
        unfold arrivals
        rw [filter_cons, if_pos (decide_eq_true hn), map_cons]
      have hextra : extra.filter (fun f => f.track = n) =
          (s.push frame.ptsNs (m.shift frame)).2.toList.map MkvFrame.stamped := by
        rw [← hspec.extra s (hn.symm ▸ hs), filter_eq_self]
        exact fun f hf => decide_eq_true ((hspec.track f hf).trans hn)
      rw [hrest] at hlast hleft
      rw [harrivals, DecodeTimestamper.pushAll, map_append, ← append_assoc, ← hextra, ← hout]
      exact ⟨hsorts, hlast, hleft⟩
    · have hnext : timestamperOf n (m.complete frame).decodeTimestampers = some s := by
        rw [hspec.timestamper, if_neg fun heq => hn heq.symm, hs]
      obtain ⟨hsorts, hlast, hleft⟩ := ih hspec.sorts hnext
      have harrivals : m.arrivals n (frame :: frames) = m.arrivals n frames := by
        unfold arrivals
        rw [filter_cons, if_neg fun heq => hn (of_decide_eq_true heq)]
      have hextra : extra.filter (fun f => f.track = n) = [] := by
        rw [filter_eq_nil_iff]
        exact fun f hf heq => hn ((hspec.track f hf).symm.trans (of_decide_eq_true heq))
      rw [hextra, append_nil] at hout
      rw [hrest] at hlast hleft
      rw [harrivals, ← hout]
      exact ⟨hsorts, hlast, hleft⟩

theorem finish_outOf {reorderDepth : Nat} (h : Sorts m.decodeTimestampers)
    (hs : timestamperOf n m.decodeTimestampers = some (.new reorderDepth)) (hcompleted : m.completed = [])
    (frames : List MkvFrame) : (frames.foldl complete m).finish.outOf n =
      (stamp reorderDepth (m.arrivals n frames)).map MkvFrame.stamped := by
  obtain ⟨hsorts, hlast, hout⟩ := foldl_complete frames h hs
  have hnone : m.outOf n = [] := by
    unfold outOf
    rw [hcompleted]
    rfl
  rw [hnone, nil_append] at hout
  unfold stamp
  rw [map_append, ← hout, ← hsorts.filter_drain hlast]
  exact filter_append ..

/-! ## The tracks of a file -/

variable (tracks : List ParsedTrack)

/-- The demuxer once the tracks of a file are parsed. -/
def ofTracks : MatroskaDemuxer := tracks.foldl addTrack new

/-- What holds after the tracks up to some were parsed. -/
structure Opened (m : MatroskaDemuxer) : Prop where
  empty : ∀ t ∈ m.decodeTimestampers, t.2.held = []
  completed : m.completed = []
  /-- The frames of a track go to the timestamper of the first track with its number. -/
  timestamper : ∀ n track reorderDepth, tracks.find? (fun t => t.number = n) = some track →
    track.reorderDepth = some reorderDepth → 0 < track.defaultDurationNs →
    timestamperOf n m.decodeTimestampers = some (.new reorderDepth)
  missing : ∀ n, tracks.find? (fun t => t.number = n) = none → timestamperOf n m.decodeTimestampers = none
  shift : ∀ track ∈ tracks, ∀ reorderDepth, track.reorderDepth = some reorderDepth →
    saturatingMul track.defaultDurationNs reorderDepth ≤ m.reorderShiftNs

theorem Sorts.of_empty {l : List (Nat × DecodeTimestamper MkvFrame)} (h : ∀ t ∈ l, t.2.held = []) : Sorts l := by
  induction l with
  | nil => trivial
  | cons t rest ih =>
    obtain ⟨hheld, hrest⟩ := List.forall_mem_cons.1 h
    refine ⟨fun f hf => ?_, fun u hu _ => hrest u hu, ih hrest⟩
    rw [hheld] at hf
    exact absurd hf not_mem_nil

theorem timestamperOf_append {l l' : List (Nat × DecodeTimestamper MkvFrame)} :
    timestamperOf n (l ++ l') = (timestamperOf n l).or (timestamperOf n l') := by
  unfold timestamperOf
  rw [List.find?_append, map_or]

/-- A timestamper or none is added for a track. -/
theorem Opened.append {tracks : List ParsedTrack} {m m' : MatroskaDemuxer} (h : Opened tracks m) (track : ParsedTrack)
    {extra : List (Nat × DecodeTimestamper MkvFrame)} (hextra : m'.decodeTimestampers = m.decodeTimestampers ++ extra)
    (hcompleted : m'.completed = m.completed) (hempty : ∀ t ∈ extra, t.2.held = [])
    (hnumber : ∀ t ∈ extra, t.1 = track.number)
    (hnew : ∀ reorderDepth, track.reorderDepth = some reorderDepth → 0 < track.defaultDurationNs →
      extra = [(track.number, .new reorderDepth)]) (hle : m.reorderShiftNs ≤ m'.reorderShiftNs)
    (hshift : ∀ reorderDepth, track.reorderDepth = some reorderDepth →
      saturatingMul track.defaultDurationNs reorderDepth ≤ m'.reorderShiftNs) : Opened (tracks ++ [track]) m' where
  empty := by
    rw [hextra]
    exact List.forall_mem_append.2 ⟨h.empty, hempty⟩
  completed := hcompleted.trans h.completed
  timestamper := by
    intro n t reorderDepth hfind hdepth hpos
    rw [List.find?_append] at hfind
    rw [hextra, timestamperOf_append]
    cases hbefore : tracks.find? fun t => t.number = n with
    | some t' =>
      rw [hbefore, some_or] at hfind
      obtain rfl := Option.some.inj hfind
      rw [h.timestamper n t' reorderDepth hbefore hdepth hpos]
      rfl
    | none =>
      rw [hbefore, none_or] at hfind
      obtain rfl := List.mem_singleton.1 (List.mem_of_find?_eq_some hfind)
      have hn : t.number = n := by simpa using List.find?_some hfind
      rw [h.missing n hbefore, hnew reorderDepth hdepth hpos, none_or, timestamperOf_cons, if_pos hn]
  missing := by
    intro n hfind
    rw [List.find?_append, or_eq_none_iff] at hfind
    have hn : track.number ≠ n := fun heq => List.find?_eq_none.1 hfind.2 track mem_cons_self (decide_eq_true heq)
    have hnone : timestamperOf n extra = none := by
      unfold timestamperOf
      rw [map_eq_none_iff, List.find?_eq_none]
      exact fun t ht heq => hn ((hnumber t ht).symm.trans (of_decide_eq_true heq))
    rw [hextra, timestamperOf_append, h.missing n hfind.1, hnone]
    rfl
  shift := by
    intro t ht reorderDepth hdepth
    rcases List.mem_append.1 ht with hmem | hmem
    · exact Nat.le_trans (h.shift t hmem reorderDepth hdepth) hle
    · obtain rfl := List.mem_singleton.1 hmem
      exact hshift reorderDepth hdepth

theorem Opened.addTrack {tracks : List ParsedTrack} (h : Opened tracks m) (track : ParsedTrack) :
    Opened (tracks ++ [track]) (m.addTrack track) := by
  unfold MatroskaDemuxer.addTrack
  cases hdepth : track.reorderDepth with
  | none =>
    exact h.append track (append_nil _).symm rfl (fun _ ht => absurd ht not_mem_nil)
      (fun _ ht => absurd ht not_mem_nil) (fun d hd => absurd (hdepth.symm.trans hd) (some_ne_none d).symm)
      le_rfl fun d hd => absurd (hdepth.symm.trans hd) (some_ne_none d).symm
  | some reorderDepth =>
    have hsame : ∀ d, track.reorderDepth = some d → reorderDepth = d := fun d hd => Option.some.inj (hdepth.symm.trans hd)
    split_ifs with hpos
    · refine h.append track rfl rfl (List.forall_mem_singleton.2 rfl) (List.forall_mem_singleton.2 rfl)
        (fun d hd _ => by rw [hsame d hd]) (le_max_left _ _) fun d hd => ?_
      rw [← hsame d hd]
      exact le_max_right _ _
    · refine h.append track (append_nil _).symm rfl (fun _ ht => absurd ht not_mem_nil)
        (fun _ ht => absurd ht not_mem_nil) (fun d _ hp => absurd hp hpos) le_rfl fun d _ => ?_
      rw [Nat.eq_zero_of_not_pos hpos, saturatingMul, Nat.zero_mul, Nat.zero_min]
      exact Nat.zero_le _

theorem opened_ofTracks : Opened tracks (ofTracks tracks) := by
  have hfold (rest before : List ParsedTrack) (m : MatroskaDemuxer) (h : Opened before m) :
      Opened (before ++ rest) (rest.foldl MatroskaDemuxer.addTrack m) := by
    induction rest generalizing before m with
    | nil => rwa [append_nil]
    | cons track rest ih =>
      have hnext := ih (before ++ [track]) (m.addTrack track) (h.addTrack track)
      rwa [append_assoc] at hnext
  exact hfold tracks [] new ⟨fun _ ht => absurd ht not_mem_nil, rfl,
    fun _ t _ hfind => absurd hfind (some_ne_none t).symm, fun _ _ => rfl, fun _ ht => absurd ht not_mem_nil⟩

end MatroskaDemuxer

open MatroskaDemuxer

/-- The frames of a track, and what left of it. -/
def Stamps (m : MatroskaDemuxer) (frame out : MkvFrame) : Prop :=
  ∃ dtsNs, out = { m.shift frame with dtsNs := some dtsNs } ∧ dtsNs ≤ out.ptsNs

theorem le_saturatingAdd {dts pts shift period d : Nat} (hdts : dts < 2 ^ 64) (hle : dts ≤ pts + d * period)
    (hshift : saturatingMul period d ≤ shift) : dts ≤ saturatingAdd pts shift := by
  unfold saturatingMul at hshift
  unfold saturatingAdd
  rw [Nat.mul_comm] at hle
  omega

/-- Each frame leaves with a time that is one of the presentation times, and with a constant frame period no later than
the depth allows. -/
theorem stamp_forall₂ {τ : Type} {d : Nat} {frames : List (Nat × τ)} {pts : List Nat}
    (hpts : frames.map Prod.fst = pts) (r : Reorder.Ranking pts) (h : r.Within d) {base period : Nat}
    (hperiod : ∀ i, pts.get i = base + r.rank i * period) :
    List.Forall₂ (fun frame out => out.2 = frame.2 ∧ out.1 ∈ pts ∧ out.1 ≤ frame.1 + d * period) frames
      (stamp d frames) := by
  subst hpts
  have hlength : (frames.map Prod.fst).length = frames.length := length_map _
  rw [stamp_eq frames r h]
  refine List.forall₂_iff_get.2 ⟨?_, fun i hi hi' => ?_⟩
  · rw [length_zip, r.length_sorted, length_map, length_map, Nat.min_self]
  · rw [get_eq_getElem, get_eq_getElem, getElem_zip]
    refine ⟨getElem_map _, r.perm_sorted.subset (getElem_mem _), ?_⟩
    have hle := sorted_le r h hperiod ⟨i, hlength.symm ▸ hi⟩
    have hget : (frames.map Prod.fst)[(⟨i, hlength.symm ▸ hi⟩ : Fin _)] = frames[i].1 := getElem_map _
    rwa [hget] at hle

/-- Frames that come no later than the reorder depth after their places in presentation order leave in the order in which
they came, stamped with the presentation times in order. With a constant frame period that is no later than the depth
allows, and in the demuxer no later than the shifted presentation time. -/
theorem decode_times :
    (∀ (τ : Type) (d : Nat) (frames : List (Nat × τ)) (r : Reorder.Ranking (frames.map Prod.fst)), r.Within d →
      (stamp d frames).map Prod.snd = frames.map Prod.snd ∧ ((stamp d frames).map Prod.fst).Perm (frames.map Prod.fst) ∧
      ((stamp d frames).map Prod.fst).Pairwise (· ≤ ·) ∧
      ∀ base period, (∀ i : Fin (frames.map Prod.fst).length, (frames.map Prod.fst)[i] = base + r.rank i * period) →
        List.Forall₂ (fun frame out => out.1 ≤ frame.1 + d * period) frames (stamp d frames)) ∧
    ∀ (tracks : List ParsedTrack) (track : ParsedTrack) (n d : Nat) (frames : List MkvFrame),
      tracks.find? (fun t => t.number = n) = some track → track.reorderDepth = some d → 0 < track.defaultDurationNs →
      (∀ frame ∈ frames, frame.ptsNs < 2 ^ 64) →
      ∀ r : Reorder.Ranking ((frames.filter fun f => f.track = n).map MkvFrame.ptsNs), r.Within d → ∀ base,
        (∀ i : Fin ((frames.filter fun f => f.track = n).map MkvFrame.ptsNs).length,
          ((frames.filter fun f => f.track = n).map MkvFrame.ptsNs)[i] = base + r.rank i * track.defaultDurationNs) →
        List.Forall₂ (Stamps (ofTracks tracks)) (frames.filter fun f => f.track = n)
          ((frames.foldl complete (ofTracks tracks)).finish.outOf n) := by
  refine ⟨fun τ d frames r h => ?_, fun tracks track n d frames hfind hdepth hpos hpts r h base hperiod => ?_⟩
  · have hlength : r.sorted.length = (frames.map Prod.snd).length := by
      rw [r.length_sorted, length_map, length_map]
    refine ⟨?_, ?_, ?_, fun base period hperiod => ?_⟩
    · rw [stamp_eq frames r h, map_snd_zip hlength.ge]
    · rw [stamp_eq frames r h, map_fst_zip hlength.le]
      exact r.perm_sorted
    · rw [stamp_eq frames r h, map_fst_zip hlength.le]
      exact r.pairwise_sorted
    · exact (stamp_forall₂ rfl r h hperiod).imp fun _ _ hout => hout.2.2
  · have hopened := opened_ofTracks tracks
    have harrivals : ((ofTracks tracks).arrivals n frames).map Prod.fst =
        (frames.filter fun f => f.track = n).map MkvFrame.ptsNs := map_map
    have hshift := hopened.shift track (List.mem_of_find?_eq_some hfind) d hdepth
    have hstamped := stamp_forall₂ harrivals r h hperiod
    rw [finish_outOf (Sorts.of_empty hopened.empty) (hopened.timestamper n track d hfind hdepth hpos)
      hopened.completed frames, forall₂_map_right_iff]
    refine (List.forall₂_map_left_iff.1 hstamped).imp fun frame out hout => ?_
    obtain ⟨hframe, hmem, hle⟩ := hout
    obtain ⟨source, hsource, heq⟩ := List.mem_map.1 hmem
    have hdts : out.1 < 2 ^ 64 := heq ▸ hpts source (mem_of_mem_filter hsource)
    unfold MkvFrame.stamped
    rw [hframe]
    exact ⟨out.1, rfl, le_saturatingAdd hdts hle hshift⟩

/-- Three frames, of which the last is presented second. -/
theorem decode_times_three : (stamp 1 [(0, 'I'), (80, 'P'), (40, 'B')]).map Prod.snd = ['I', 'P', 'B'] ∧
      List.Forall₂ (Stamps (ofTracks [⟨1, 40, some 1⟩])) [⟨1, 0, none, [1]⟩, ⟨1, 80, none, [2]⟩, ⟨1, 40, none, [3]⟩]
        (([⟨1, 0, none, [1]⟩, ⟨1, 80, none, [2]⟩, ⟨1, 40, none, [3]⟩].foldl complete
          (ofTracks [⟨1, 40, some 1⟩])).finish.outOf 1) := by
  let ranking : Reorder.Ranking [0, 80, 40] := ⟨Equiv.swap 1 2, by decide⟩
  have hwithin : ranking.Within 1 := by decide
  have hperiod : ∀ i : Fin [0, 80, 40].length, [0, 80, 40][i] = 0 + (ranking.rank i : Nat) * 40 := by decide
  exact ⟨(decode_times.1 Char 1 [(0, 'I'), (80, 'P'), (40, 'B')] ranking hwithin).1,
    decode_times.2 [⟨1, 40, some 1⟩] ⟨1, 40, some 1⟩ 1 1
      [⟨1, 0, none, [1]⟩, ⟨1, 80, none, [2]⟩, ⟨1, 40, none, [3]⟩] rfl rfl (by decide) (by decide) ranking hwithin 0
      hperiod⟩

end Glass2Glass.Mkv
