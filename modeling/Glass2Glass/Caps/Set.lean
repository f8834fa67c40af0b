import Glass2Glass.Caps.Basic

/-!
# Containment, fixation and sets of alternatives

A caps contains another when the overlap of the two is the other one. Concrete caps, with every field
fixed and no wildcard left, are the points of the intersection, and a `CapsSet` stands for the union
of what its alternatives contain. Fixation picks, inside an alternative, caps whose ranged fields are
all fixed.
-/

namespace Glass2Glass

open PartialMeet List

namespace Caps

/-! ## Containment -/

/-- `a` contains `p`: narrowing `a` against `p` leaves `p`. -/
def contains (a p : Caps) : Prop := a.intersect p = .ok p

instance (a p : Caps) : Decidable (a.contains p) :=
  inferInstanceAs (Decidable (a.intersect p = .ok p))

theorem toOption_injective {x y : Except G2gError Caps} (h : x.toOption = y.toOption) : x = y := by
  rcases x with e | a <;> rcases y with e' | b
  · cases e
    cases e'
    rfl
  · simp [Except.toOption] at h
  · simp [Except.toOption] at h
  · rw [Option.some.inj h]

variable {c : Caps}

theorem toOption_eq_some_iff {x : Except G2gError Caps} : x.toOption = some c ↔ x = .ok c := by
  rcases x with e | d <;> simp [Except.toOption]

variable {a : Caps}

theorem meet_eq_some_iff {b : Caps} : meet a b = some c ↔ a.intersect b = .ok c :=
  toOption_eq_some_iff

variable {p : Caps}

theorem contains_iff : a.contains p ↔ Contains meet a p :=
  meet_eq_some_iff.symm

theorem intersect_comm (a b : Caps) : a.intersect b = b.intersect a :=
  toOption_injective ((meet_lawful a).comm b)

theorem toOption_bind_intersect (x : Except G2gError Caps) (f : Caps → Except G2gError Caps) :
    (x >>= f).toOption = x.toOption.bind fun c => (f c).toOption := by
  cases x <;> rfl

theorem intersect_assoc (a b c : Caps) :
    (a.intersect b >>= fun d => d.intersect c) = (b.intersect c >>= fun d => a.intersect d) := by
  have hassoc := (meet_lawful a).assoc b c
  have hopt : (a.intersect b >>= fun d => d.intersect c).toOption =
      (b.intersect c >>= fun d => a.intersect d).toOption := by
    rw [toOption_bind_intersect, toOption_bind_intersect]
    exact hassoc
  exact toOption_injective hopt

theorem exists_contains_iff (a b p : Caps) :
    (∃ c, a.intersect b = .ok c ∧ c.contains p) ↔ a.contains p ∧ b.contains p := by
  constructor
  · rintro ⟨c, hc, hp⟩
    have := (contains_meet_iff meet_lawful (meet_eq_some_iff.2 hc)).1 (contains_iff.1 hp)
    exact ⟨contains_iff.2 this.1, contains_iff.2 this.2⟩
  · rintro ⟨ha, hb⟩
    obtain ⟨c, hc, hp⟩ := exists_meet_of_contains meet_lawful (contains_iff.1 ha) (contains_iff.1 hb)
    exact ⟨c, meet_eq_some_iff.1 hc, contains_iff.2 hp⟩

theorem contains.trans {b : Caps} (hab : a.contains b) (hbp : b.contains p) : a.contains p :=
  contains_iff.2 (Contains.trans meet_lawful (contains_iff.1 hab) (contains_iff.1 hbp))

theorem Variant.contains_iff {β : Type} {mk : β → Caps} {m : β → β → Option β} (hv : Variant mk m)
    (hinj : Function.Injective mk) {x : β} : (mk x).contains p ↔ ∃ y, p = mk y ∧ Contains m x y := by
  rw [Caps.contains_iff]
  constructor
  · intro h
    obtain ⟨y, rfl⟩ := hv.exists_eq x p (kind_of_meet _ _ _ h).1
    obtain ⟨z, hz, hzy⟩ := Option.map_eq_some_iff.1 ((hv.meet_eq x y).symm.trans h)
    obtain rfl := hinj hzy
    exact ⟨z, rfl, hz⟩
  · rintro ⟨y, rfl, hy⟩
    rw [Contains, hv.meet_eq, hy]
    rfl

variable {h w : Dim} {r : Rate}

theorem contains_compressedVideo_iff {c : VideoCodec} {cl : Colorimetry} {al : BitstreamAlignment} :
    (compressedVideo c w h r cl al).contains p ↔ ∃ w' h' r' cl' al',
      p = compressedVideo c w' h' r' cl' al' ∧ Contains Span.intersect w w' ∧
      Contains Span.intersect h h' ∧ Contains Span.intersect r r' ∧
      Contains Colorimetry.intersect cl cl' ∧ Contains BitstreamAlignment.intersect al al' := by
  have hinj : Function.Injective ofCompressed := by
    rintro ⟨c, w, h, r, cl, al⟩ ⟨c', w', h', r', cl', al'⟩ heq
    simpa [ofCompressed] using heq
  have hiff := variant_compressed.contains_iff hinj (x := (c, w, h, r, cl, al)) (p := p)
  simp only [Contains, compressedMeet, prodMeet_eq_some, Prod.exists] at hiff
  rw [show compressedVideo c w h r cl al = ofCompressed (c, w, h, r, cl, al) from rfl, hiff]
  constructor
  · rintro ⟨c', w', h', r', cl', al', rfl, hc, hrest⟩
    obtain rfl : c = c' := by simpa [discrete] using hc
    exact ⟨w', h', r', cl', al', rfl, hrest⟩
  · rintro ⟨w', h', r', cl', al', rfl, hrest⟩
    exact ⟨c, w', h', r', cl', al', rfl, by simp [discrete], hrest⟩

theorem contains_rawVideo_iff {f : RawVideoFormat} {i : Interlace} {cl : Colorimetry} :
    (rawVideo f w h r i cl).contains p ↔ ∃ w' h' r' i' cl',
      p = rawVideo f w' h' r' i' cl' ∧ Contains Span.intersect w w' ∧
      Contains Span.intersect h h' ∧ Contains Span.intersect r r' ∧
      Contains Interlace.intersect i i' ∧ Contains Colorimetry.intersect cl cl' := by
  have hinj : Function.Injective ofRaw := by
    rintro ⟨f, w, h, r, i, cl⟩ ⟨f', w', h', r', i', cl'⟩ heq
    simpa [ofRaw] using heq
  have hiff := variant_raw.contains_iff hinj (x := (f, w, h, r, i, cl)) (p := p)
  simp only [Contains, rawMeet, prodMeet_eq_some, Prod.exists] at hiff
  rw [show rawVideo f w h r i cl = ofRaw (f, w, h, r, i, cl) from rfl, hiff]
  constructor
  · rintro ⟨f', w', h', r', i', cl', rfl, hf, hrest⟩
    obtain rfl : f = f' := by simpa [discrete] using hf
    exact ⟨w', h', r', i', cl', rfl, hrest⟩
  · rintro ⟨w', h', r', i', cl', rfl, hrest⟩
    exact ⟨f, w', h', r', i', cl', rfl, by simp [discrete], hrest⟩

theorem contains_audio_iff {f : AudioFormat} {c : UInt8} {s : UInt32} {l : ChannelLayout} :
    (audio f c s l).contains p ↔ ∃ c' s' l', p = audio f c' s' l' ∧ Contains intersectChannels c c' ∧
      Contains intersectSampleRate s s' ∧ Contains ChannelLayout.intersect l l' := by
  have hinj : Function.Injective ofAudio := by
    rintro ⟨f, c, s, l⟩ ⟨f', c', s', l'⟩ heq
    simpa [ofAudio] using heq
  have hiff := variant_audio.contains_iff hinj (x := (f, c, s, l)) (p := p)
  simp only [Contains, audioMeet, prodMeet_eq_some, Prod.exists] at hiff
  rw [show audio f c s l = ofAudio (f, c, s, l) from rfl, hiff]
  constructor
  · rintro ⟨f', c', s', l', rfl, hf, hrest⟩
    obtain rfl : f = f' := by simpa [discrete] using hf
    exact ⟨c', s', l', rfl, hrest⟩
  · rintro ⟨c', s', l', rfl, hrest⟩
    exact ⟨f, c', s', l', rfl, by simp [discrete], hrest⟩

/-! ## Geometry -/

def dims : Caps → Option (Dim × Dim × Rate)
  | compressedVideo _ w h r _ _ => some (w, h, r)
  | rawVideo _ w h r _ _ => some (w, h, r)
  | _ => none

theorem not_contains_of_inverted (hdims : a.dims = some (w, h, r))
    (hinv : w.isInverted ∨ h.isInverted ∨ r.isInverted) : ¬ a.contains p := by
  intro hp
  have hfields : ∀ {w' h' r' : Span}, Contains Span.intersect w w' → Contains Span.intersect h h' →
      Contains Span.intersect r r' → False := by
    intro w' h' r' hw hh hr
    rcases hinv with hinv | hinv | hinv
    · simp [Contains, Span.intersect_eq_none_of_isInverted hinv] at hw
    · simp [Contains, Span.intersect_eq_none_of_isInverted hinv] at hh
    · simp [Contains, Span.intersect_eq_none_of_isInverted hinv] at hr
  cases a with
  | compressedVideo c w' h' r' cl al =>
    obtain ⟨rfl, rfl, rfl⟩ := hdims
    obtain ⟨_, _, _, _, _, -, hw, hh, hr, -⟩ := contains_compressedVideo_iff.1 hp
    exact hfields hw hh hr
  | rawVideo f w' h' r' i cl =>
    obtain ⟨rfl, rfl, rfl⟩ := hdims
    obtain ⟨_, _, _, _, _, -, hw, hh, hr, -⟩ := contains_rawVideo_iff.1 hp
    exact hfields hw hh hr
  | _ => simp [dims] at hdims

/-! ## Concrete caps -/

mutual

/-- Every field is fixed and no wildcard remains. -/
def isConcrete : Caps → Bool
  | compressedVideo _ w h r cl al =>
    w.isFixed && h.isFixed && r.isFixed && cl.declared && al != .unspecified
  | rawVideo _ w h r i cl => w.isFixed && h.isFixed && r.isFixed && i != .any && cl.declared
  | audio _ c s l => c != ANY_CHANNELS && s != ANY_SAMPLE_RATE && l != ChannelLayout.UNSPECIFIED
  | batch streams => isConcreteStreams streams
  | _ => true

def isConcreteStreams : List Caps → Bool
  | [] => true
  | c :: cs => isConcrete c && isConcreteStreams cs

end

theorem isConcreteStreams_iff (s : List Caps) : isConcreteStreams s = true ↔ ∀ c ∈ s, isConcrete c = true := by
  induction s with
  | nil => simp [isConcreteStreams]
  | cons c s ih => simp [isConcreteStreams, ih]

/-- Concrete caps are points: whatever overlaps them contains them. -/
theorem isPoint_of_isConcrete (p : Caps) (hp : p.isConcrete) : IsPoint meet p := by
  have hspan := @Span.isPoint_of_isFixed
  have hcolor := @Colorimetry.isPoint_of_declared
  induction p using streamInduction with
  | leaf p hleaf =>
    cases p with
    | compressedVideo c w h r cl al =>
      simp only [isConcrete, Bool.and_eq_true, bne_iff_ne, ne_eq] at hp
      obtain ⟨⟨⟨⟨hw, hh⟩, hr⟩, hcl⟩, hal⟩ := hp
      have hal := BitstreamAlignment.intersect_eq ▸ flat_isPoint hal
      exact variant_compressed.isPoint (x := (c, w, h, r, cl, al))
        ((discrete_isPoint c).prod ((hspan hw).prod ((hspan hh).prod ((hspan hr).prod ((hcolor hcl).prod hal)))))
    | rawVideo f w h r i cl =>
      simp only [isConcrete, Bool.and_eq_true, bne_iff_ne, ne_eq] at hp
      obtain ⟨⟨⟨⟨hw, hh⟩, hr⟩, hi⟩, hcl⟩ := hp
      have hi := Interlace.intersect_eq ▸ flat_isPoint hi
      exact variant_raw.isPoint (x := (f, w, h, r, i, cl))
        ((discrete_isPoint f).prod ((hspan hw).prod ((hspan hh).prod ((hspan hr).prod (hi.prod (hcolor hcl))))))
    | audio f c s l =>
      simp only [isConcrete, Bool.and_eq_true, bne_iff_ne, ne_eq] at hp
      obtain ⟨⟨hc, hs⟩, hl⟩ := hp
      have hc := intersectChannels_eq ▸ flat_isPoint hc
      have hs := intersectSampleRate_eq ▸ flat_isPoint hs
      have hl := ChannelLayout.intersect_eq ▸ flat_isPoint hl
      exact variant_audio.isPoint (x := (f, c, s, l)) ((discrete_isPoint f).prod (hc.prod (hs.prod hl)))
    | tensor d s l => exact variant_tensor.isPoint (x := (d, s, l)) (discrete_isPoint _)
    | byteStream e => exact variant_byteStream.isPoint (discrete_isPoint e)
    | text f => exact variant_text.isPoint (discrete_isPoint f)
    | klv => exact variant_klv.isPoint (discrete_isPoint ())
    | closedCaption f => exact variant_closedCaption.isPoint (discrete_isPoint f)
    | subPicture f => exact variant_subPicture.isPoint (discrete_isPoint f)
    | onvifMetadata => exact variant_onvifMetadata.isPoint (discrete_isPoint ())
    | batch s => simp [isLeaf] at hleaf
  | batch s ih =>
    have hs := (isConcreteStreams_iff s).1 hp
    exact variant_batch.isPoint (IsPoint.list fun c hc => ih c hc (hs c hc))

theorem contains_of_isConcrete (hp : p.isConcrete) (h : a.intersect p = .ok c) : a.contains p :=
  contains_iff.2 ((isPoint_of_isConcrete p hp).contains (meet_eq_some_iff.2 h))

end Caps

/-! ## Sets of alternatives -/

/-- A preference-ordered list of alternatives, the preferred one first. -/
structure CapsSet where
  alternatives : List Caps
  deriving DecidableEq

namespace CapsSet

def one (caps : Caps) : CapsSet := ⟨[caps]⟩

def isEmpty (s : CapsSet) : Bool := s.alternatives.isEmpty

/-- The overlaps of the alternatives of both sets, in the first set's order and then the second's,
each kept where it occurs first. -/
def intersect (s t : CapsSet) : CapsSet :=
  ⟨s.alternatives.foldl (fun out a => t.alternatives.foldl (fun out b =>
    match a.intersect b with
    | .ok c => pushNew out c
    | .error _ => out) out) []⟩

/-- The first set's alternatives, then those of the second that are not among them. -/
def union (s t : CapsSet) : CapsSet := ⟨t.alternatives.foldl pushNew s.alternatives⟩

/-- Whether an alternative overlaps `caps`. -/
def accepts (s : CapsSet) (caps : Caps) : Bool :=
  s.alternatives.any fun a => (a.intersect caps).toOption.isSome

def contains (s : CapsSet) (p : Caps) : Prop := ∃ a ∈ s.alternatives, a.contains p

instance (s : CapsSet) (p : Caps) : Decidable (s.contains p) :=
  inferInstanceAs (Decidable (∃ a ∈ s.alternatives, a.contains p))

theorem alternatives_intersect (s t : CapsSet) :
    (s.intersect t).alternatives = (overlaps Caps.meet s.alternatives t.alternatives).eraseDups := by
  have row : ∀ (a : Caps) (l out : List Caps), l.foldl (fun out b => match a.intersect b with
        | .ok c => pushNew out c
        | .error _ => out) out = (l.filterMap a.meet).foldl pushNew out := by
    intro a l
    induction l with
    | nil => exact fun _ => rfl
    | cons b l ih =>
      intro out
      rcases hab : a.intersect b with e | c
      · have : a.meet b = none := by simp [Caps.meet, hab, Except.toOption]
        simp only [foldl_cons, hab, filterMap_cons, this, ih]
      · have : a.meet b = some c := by simp [Caps.meet, hab, Except.toOption]
        simp only [foldl_cons, hab, filterMap_cons, this, ih]
  have rows : ∀ l out : List Caps, l.foldl (fun out a => (t.alternatives.filterMap a.meet).foldl pushNew out) out =
        (overlaps Caps.meet l t.alternatives).foldl pushNew out := by
    intro l
    induction l with
    | nil => exact fun _ => rfl
    | cons a l ih =>
      intro out
      simp only [foldl_cons, overlaps, flatMap_cons, foldl_append]
      exact ih _
  simp only [intersect, row, rows, foldl_pushNew_nil]

theorem nodup_intersect (s t : CapsSet) : (s.intersect t).alternatives.Nodup := by
  rw [alternatives_intersect]
  exact nodup_eraseDups _

theorem mem_intersect {s t : CapsSet} {c : Caps} : c ∈ (s.intersect t).alternatives ↔
      ∃ a ∈ s.alternatives, ∃ b ∈ t.alternatives, a.intersect b = .ok c := by
  rw [alternatives_intersect, mem_eraseDups]
  simp only [overlaps, mem_flatMap, mem_filterMap, Caps.meet_eq_some_iff]

theorem contains_intersect_iff {s t : CapsSet} {p : Caps} :
    (s.intersect t).contains p ↔ s.contains p ∧ t.contains p := by
  have h := exists_overlaps_contains_iff Caps.meet_lawful
    (s := s.alternatives) (t := t.alternatives) (p := p)
  simp only [contains, alternatives_intersect, mem_eraseDups, Caps.contains_iff]
  exact h

/-- The intersection of a concatenation: the overlaps of the earlier alternatives, then the overlaps
of the later ones that are new. -/
theorem alternatives_intersect_append (s₁ s₂ : List Caps) (t : CapsSet) : (intersect ⟨s₁ ++ s₂⟩ t).alternatives =
      (intersect ⟨s₁⟩ t).alternatives ++ (overlaps Caps.meet s₂ t.alternatives |>.removeAll
          (overlaps Caps.meet s₁ t.alternatives)).eraseDups := by
  simp only [alternatives_intersect, overlaps, flatMap_append, eraseDups_append]

theorem idxOf_lt_idxOf_of_derived {s : List Caps} {t : CapsSet} {n : Nat} {c d : Caps}
    (hc : c ∈ (intersect ⟨s.take n⟩ t).alternatives) (hd : d ∉ (intersect ⟨s.take n⟩ t).alternatives) :
    (intersect ⟨s⟩ t).alternatives.idxOf c < (intersect ⟨s⟩ t).alternatives.idxOf d := by
  have hsplit := alternatives_intersect_append (s.take n) (s.drop n) t
  rw [take_append_drop] at hsplit
  rw [hsplit, idxOf_append_of_mem hc, idxOf_append_of_notMem hd]
  have := idxOf_lt_length_of_mem hc
  omega

end CapsSet

/-- Caps intersection is an exact meet, on single caps and lifted to sets of alternatives: it is
commutative and associative with the mismatch absorbing, the overlap contains exactly the concrete
caps both sides contain (caps with an inverted range contain none), and so there is a mismatch only
where they have none in common. On sets the same holds of "some alternative contains", no alternative
is repeated, and a value that the first `n` alternatives of `s` yield with `t` comes before every
value that only later ones yield. -/
theorem intersect_exact_meet : (∀ a b : Caps, a.intersect b = b.intersect a) ∧ (∀ a b c : Caps,
      (a.intersect b >>= fun d => d.intersect c) = (b.intersect c >>= fun d => a.intersect d)) ∧
    (∀ a b p : Caps, p.isConcrete → ((∃ c, a.intersect b = .ok c ∧ c.contains p) ↔ a.contains p ∧ b.contains p)) ∧
    (∀ (a p : Caps) (w h : Dim) (r : Rate), a.dims = some (w, h, r) →
      w.isInverted ∨ h.isInverted ∨ r.isInverted → ¬ a.contains p) ∧
    (∀ a b p : Caps, p.isConcrete → a.intersect b = .error .capsMismatch → ¬ (a.contains p ∧ b.contains p)) ∧
    (∀ (s t : CapsSet) (p : Caps), p.isConcrete → ((s.intersect t).contains p ↔ s.contains p ∧ t.contains p)) ∧
    (∀ s t : CapsSet, (s.intersect t).alternatives.Nodup) ∧
    (∀ (s t : CapsSet) (n : Nat) (c d : Caps),
      (∃ a ∈ s.alternatives.take n, ∃ b ∈ t.alternatives, a.intersect b = .ok c) →
      (¬ ∃ a ∈ s.alternatives.take n, ∃ b ∈ t.alternatives, a.intersect b = .ok d) →
      (s.intersect t).alternatives.idxOf c < (s.intersect t).alternatives.idxOf d) := by
  refine ⟨Caps.intersect_comm, Caps.intersect_assoc, fun a b p _ => Caps.exists_contains_iff a b p,
    fun a p w h r hd hi => Caps.not_contains_of_inverted hd hi, fun a b p _ hab hp => ?_,
    fun s t p _ => CapsSet.contains_intersect_iff, CapsSet.nodup_intersect,
    fun s t n c d hc hd => ?_⟩
  · obtain ⟨c, hc, -⟩ := (Caps.exists_contains_iff a b p).2 hp
    rw [hab] at hc
    cases hc
  · exact CapsSet.idxOf_lt_idxOf_of_derived (CapsSet.mem_intersect.2 hc) (fun h => hd (CapsSet.mem_intersect.1 h))

end Glass2Glass
