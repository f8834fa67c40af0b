import Glass2Glass.Caps.Fixate

/-!
# Speakers and channels

An audio description carries a speaker layout beside its channel count, and the two are narrowed apart
from each other. Consistent descriptions overlap consistently unless one of them knows only the
speakers and the other only a count that differs; a raw stream of any count fixates to the placeholder
count, whatever its speakers.
-/

namespace Glass2Glass

namespace ChannelLayout

def channels (l : ChannelLayout) : UInt8 := UInt8.ofNat ((List.range 16).countP fun i => l.mask.toNat.testBit i)

/-- Front left, right and center, low frequencies, back left and right. -/
def SURROUND_5_1 : ChannelLayout := ⟨0b111111, by decide⟩

theorem eq_of_intersect {a b l : ChannelLayout} (h : a.intersect b = some l) :
    (a = UNSPECIFIED ∧ l = b) ∨ (a ≠ UNSPECIFIED ∧ b = UNSPECIFIED ∧ l = a) ∨ (a ≠ UNSPECIFIED ∧ b = a ∧ l = a) := by
  rw [intersect_eq, PartialMeet.flat] at h
  split_ifs at h with ha hb
  · exact .inl ⟨ha, (Option.some.inj h).symm⟩
  · rcases hb with hb | hb
    · exact .inr (.inl ⟨ha, hb, (Option.some.inj h).symm⟩)
    · exact .inr (.inr ⟨ha, hb.symm, (Option.some.inj h).symm⟩)

end ChannelLayout

theorem eq_of_intersectChannels {a b c : UInt8} (h : intersectChannels a b = some c) :
    (a = ANY_CHANNELS ∧ c = b) ∨ (a ≠ ANY_CHANNELS ∧ c = a ∧ (b = ANY_CHANNELS ∨ b = a)) := by
  unfold intersectChannels at h
  split_ifs at h with ha hb hab
  · exact .inl ⟨ha, (Option.some.inj h).symm⟩
  · exact .inr ⟨ha, (Option.some.inj h).symm, .inl hb⟩
  · exact .inr ⟨ha, (Option.some.inj h).symm, .inr hab.symm⟩

namespace Caps

open ChannelLayout (UNSPECIFIED)

/-- A count and a layout agree unless both are declared and they differ. -/
def speakersAgree (channels : UInt8) (layout : ChannelLayout) : Prop :=
  layout = UNSPECIFIED ∨ channels = ANY_CHANNELS ∨ layout.channels = channels

instance (channels : UInt8) (layout : ChannelLayout) : Decidable (speakersAgree channels layout) :=
  inferInstanceAs (Decidable (_ ∨ _ ∨ _))

def isConsistent : Caps → Prop
  | audio _ channels _ layout => speakersAgree channels layout
  | _ => True

/-- The first side knows only its speakers, and the second only a count that differs from theirs. -/
def layoutMeetsCount (ca : UInt8) (la : ChannelLayout) (cb : UInt8) (lb : ChannelLayout) : Prop :=
  la ≠ UNSPECIFIED ∧ ca = ANY_CHANNELS ∧ lb = UNSPECIFIED ∧ cb ≠ ANY_CHANNELS ∧ la.channels ≠ cb

/-- A raw stream of any count that declares its speakers, and does not declare two. -/
def outnumbersPlaceholder (format : AudioFormat) (channels : UInt8) (layout : ChannelLayout) : Prop :=
  isPcm format = true ∧ channels = ANY_CHANNELS ∧ layout ≠ UNSPECIFIED ∧
    layout.channels ≠ FIXATE_CHANNELS_PLACEHOLDER

variable {fa fb : AudioFormat} {ca cb : UInt8} {sa sb : UInt32} {la lb : ChannelLayout}

theorem eq_of_intersect_audio {c : Caps} (h : (audio fa ca sa la).intersect (audio fb cb sb lb) = .ok c) :
    ∃ channels sampleRate layout, c = audio fa channels sampleRate layout ∧
      intersectChannels ca cb = some channels ∧ la.intersect lb = some layout := by
  rw [intersect] at h
  split_ifs at h with hformat
  · split at h
    · next channels sampleRate layout hc hs hl =>
      exact ⟨channels, sampleRate, layout, (Except.ok.inj h).symm, hc, hl⟩
    · cases h

theorem speakersAgree_intersect_iff (ha : speakersAgree ca la) (hb : speakersAgree cb lb) {channels : UInt8}
    {layout : ChannelLayout} (hc : intersectChannels ca cb = some channels) (hl : la.intersect lb = some layout) :
    speakersAgree channels layout ↔ ¬layoutMeetsCount ca la cb lb ∧ ¬layoutMeetsCount cb lb ca la := by
  unfold speakersAgree layoutMeetsCount at *
  obtain ⟨hla, rfl⟩ | ⟨hla, hlb, rfl⟩ | ⟨hla, rfl, rfl⟩ := ChannelLayout.eq_of_intersect hl <;>
    obtain ⟨hca, rfl⟩ | ⟨hca, rfl, hcb⟩ := eq_of_intersectChannels hc <;> grind

theorem eq_of_fixate_audio {c : Caps} (h : (audio fa ca sa la).fixate = .ok c) :
    (isPcm fa = true ∧ ca = ANY_CHANNELS ∧ c = audio fa FIXATE_CHANNELS_PLACEHOLDER sa la) ∨
      (¬(isPcm fa = true ∧ ca = ANY_CHANNELS) ∧ c = audio fa ca sa la) := by
  rw [fixate] at h
  split_ifs at h with hrate hcount
  · simp only [Bool.and_eq_true, beq_iff_eq] at hcount
    exact .inl ⟨hcount.1, hcount.2, (Except.ok.inj h).symm⟩
  · simp only [Bool.and_eq_true, beq_iff_eq] at hcount
    exact .inr ⟨hcount, (Except.ok.inj h).symm⟩

theorem fixateToward_audio (preferred : Caps) :
    (audio fa ca sa la).fixateToward preferred = (audio fa ca sa la).fixate := rfl

theorem isConsistent_fixate_iff (ha : speakersAgree ca la) {c : Caps} (h : (audio fa ca sa la).fixate = .ok c) :
    c.isConsistent ↔ ¬outnumbersPlaceholder fa ca la := by
  have htwo : FIXATE_CHANNELS_PLACEHOLDER ≠ ANY_CHANNELS := by decide
  unfold outnumbersPlaceholder
  obtain ⟨hpcm, hany, rfl⟩ | ⟨hother, rfl⟩ := eq_of_fixate_audio h
  · unfold isConsistent speakersAgree
    grind
  · unfold isConsistent
    grind

/-- Consistent audio descriptions overlap consistently, unless one of them knows only its speakers and the other
only a count that differs. A consistent description fixates consistently, unless it is raw, of any count, and of a
number of speakers that is not the placeholder count; then it takes that count and keeps its speakers. -/
theorem isConsistent_narrowed_iff (ha : speakersAgree ca la) (hb : speakersAgree cb lb) :
    (∀ c, (audio fa ca sa la).intersect (audio fb cb sb lb) = .ok c →
      (c.isConsistent ↔ ¬layoutMeetsCount ca la cb lb ∧ ¬layoutMeetsCount cb lb ca la)) ∧
    (∀ c preferred, (audio fa ca sa la).fixate = .ok c ∨ (audio fa ca sa la).fixateToward preferred = .ok c →
      (c.isConsistent ↔ ¬outnumbersPlaceholder fa ca la) ∧
      (outnumbersPlaceholder fa ca la → c = audio fa FIXATE_CHANNELS_PLACEHOLDER sa la)) := by
  constructor
  · intro c h
    obtain ⟨channels, sampleRate, layout, rfl, hc, hl⟩ := eq_of_intersect_audio h
    exact speakersAgree_intersect_iff ha hb hc hl
  · intro c preferred h
    rw [fixateToward_audio, or_self] at h
    refine ⟨isConsistent_fixate_iff ha h, ?_⟩
    rintro ⟨hpcm, hany, -⟩
    obtain ⟨-, -, hc⟩ | ⟨hother, -⟩ := eq_of_fixate_audio h
    · exact hc
    · exact absurd ⟨hpcm, hany⟩ hother

/-- Six declared speakers and a count of six. -/
theorem isConsistent_narrowed_six :
    (∀ c, (audio .pcmS16Le 6 48000 .SURROUND_5_1).intersect (audio .pcmS16Le 6 48000 UNSPECIFIED) = .ok c →
      (c.isConsistent ↔ ¬layoutMeetsCount 6 .SURROUND_5_1 6 UNSPECIFIED ∧
        ¬layoutMeetsCount 6 UNSPECIFIED 6 .SURROUND_5_1)) ∧
    (∀ c preferred, (audio .pcmS16Le 6 48000 .SURROUND_5_1).fixate = .ok c ∨
        (audio .pcmS16Le 6 48000 .SURROUND_5_1).fixateToward preferred = .ok c →
      (c.isConsistent ↔ ¬outnumbersPlaceholder .pcmS16Le 6 .SURROUND_5_1) ∧
      (outnumbersPlaceholder .pcmS16Le 6 .SURROUND_5_1 →
        c = audio .pcmS16Le FIXATE_CHANNELS_PLACEHOLDER 48000 .SURROUND_5_1)) :=
  isConsistent_narrowed_iff (by decide) (by decide)

/-- Six declared speakers of any count meet a count of two, or fixate to it. -/
theorem not_isConsistent_narrowed : (audio .pcmS16Le ANY_CHANNELS 48000 .SURROUND_5_1).isConsistent ∧
      (audio .pcmS16Le 2 48000 UNSPECIFIED).isConsistent ∧
      (audio .pcmS16Le ANY_CHANNELS 48000 .SURROUND_5_1).intersect (audio .pcmS16Le 2 48000 UNSPECIFIED) =
        .ok (audio .pcmS16Le 2 48000 .SURROUND_5_1) ∧
      (audio .pcmS16Le ANY_CHANNELS 48000 .SURROUND_5_1).fixate = .ok (audio .pcmS16Le 2 48000 .SURROUND_5_1) ∧
      ¬(audio .pcmS16Le 2 48000 .SURROUND_5_1).isConsistent := by
  unfold isConsistent
  decide

end Caps

end Glass2Glass
