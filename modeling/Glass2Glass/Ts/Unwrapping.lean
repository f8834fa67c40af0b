import Glass2Glass.Ts.Timestamps

/-!
# Timestamps are unwrapped

Units whose timestamps stay near each other come out with their true timestamps, less the cycles that lie before the
first unit (`timestamps_unwrapped`). The first unit has nothing to be held against, so its own two timestamps must lie in
one cycle.
-/

namespace Glass2Glass.Ts

open List Option

/-- Every timestamp of a PID's units is near the reference of the unit before it, and none lies before the cycle of the
first one. -/
structure Steady (us : List PesUnit) : Prop where
  near : us.IsChain fun u v => ∀ t ∈ v.stamps, Near t u.reference
  floor : ∀ first ∈ us.head?, ∀ u ∈ us, ∀ t ∈ u.stamps,
    first.reference / pesTimestampCycle90khz * pesTimestampCycle90khz ≤ t
  words : ∀ u ∈ us, ∀ t ∈ u.stamps, t < 2 ^ 64

/-- The timestamps that come out are the true ones, less `k` cycles. -/
def Shifted (k : ℤ) (u : PesUnit) (out : Option Nat × Option Nat) : Prop :=
  out.1.map (fun t : Nat => (t : ℤ)) = some (u.pts - k * pesTimestampCycle90khz) ∧
    out.2.map (fun t : Nat => (t : ℤ)) = u.dts.map fun d : Nat => (d : ℤ) - k * pesTimestampCycle90khz

/-! ## After the first unit -/

theorem extendOne_near {c t before reference : Nat} (hreference : reference + c * pesTimestampCycle90khz = before)
    (hbefore : before < 2 ^ 64) (hfloor : c * pesTimestampCycle90khz ≤ t) (ht : t < 2 ^ 64) (hnear : Near t before) :
    extendOne (some reference) t = t - c * pesTimestampCycle90khz := by
  have hmod : t % pesTimestampCycle90khz = (t - c * pesTimestampCycle90khz) % pesTimestampCycle90khz := by
    rw [Nat.mul_comm] at hfloor ⊢
    exact (Nat.sub_mul_mod hfloor).symm
  have hnear' : Near (t - c * pesTimestampCycle90khz) reference := by
    unfold Near at hnear ⊢
    omega
  unfold extendOne
  rw [hmod]
  exact extendTimestamp_near (by omega) (by omega) hnear'

/-- The units after the first are held against its reference. -/
theorem extendStream_shifted {c : Nat} (us : List PesUnit) (before : PesUnit) {reference : Nat}
    (hreference : reference + c * pesTimestampCycle90khz = before.reference) (hbefore : before.reference < 2 ^ 64)
    (hnear : (before :: us).IsChain fun u v => ∀ t ∈ v.stamps, Near t u.reference)
    (hfloor : ∀ u ∈ us, ∀ t ∈ u.stamps, c * pesTimestampCycle90khz ≤ t)
    (hwords : ∀ u ∈ us, ∀ t ∈ u.stamps, t < 2 ^ 64) :
    ∀ pair ∈ us.zip (extendStream (some reference) us), Shifted c pair.1 pair.2 := by
  induction us generalizing before reference with
  | nil => exact fun pair h => absurd h not_mem_nil
  | cons u us ih =>
    obtain ⟨hfirst, hrest⟩ := List.isChain_cons_cons.1 hnear
    obtain ⟨hfloor0, hfloor⟩ := List.forall_mem_cons.1 hfloor
    obtain ⟨hwords0, hwords⟩ := List.forall_mem_cons.1 hwords
    have hone : ∀ t ∈ u.stamps, extendOne (some reference) t = t - c * pesTimestampCycle90khz :=
      fun t ht => extendOne_near hreference hbefore (hfloor0 t ht) (hwords0 t ht) (hfirst t ht)
    have hnext : extendOne (some reference) u.reference + c * pesTimestampCycle90khz = u.reference := by
      have hle := hfloor0 u.reference u.reference_mem
      rw [hone u.reference u.reference_mem]
      omega
    refine List.forall_mem_cons.2 ⟨⟨?_, ?_⟩, ih u hnext (hwords0 u.reference u.reference_mem) hrest hfloor hwords⟩
    · have hle := hfloor0 u.pts mem_cons_self
      rw [hone u.pts mem_cons_self, map_some, Int.ofNat_sub hle, Int.natCast_mul]
    · dsimp only
      rw [Option.map_map]
      refine Option.map_congr fun d hd => ?_
      have hmem : d ∈ u.stamps := mem_cons_of_mem _ (Option.mem_toList.2 hd)
      rw [Function.comp_apply, hone d hmem, Int.ofNat_sub (hfloor0 d hmem), Int.natCast_mul]

/-! ## The first unit -/

theorem mod_eq_shift_iff (t : Nat) (k : ℤ) : ((t % pesTimestampCycle90khz : Nat) : ℤ) = t - k * pesTimestampCycle90khz ↔
      ((t / pesTimestampCycle90khz : Nat) : ℤ) = k := by
  unfold pesTimestampCycle90khz
  omega

theorem shifted_raw_iff (u : PesUnit) (k : ℤ) : Shifted k u (some (extendOne none u.pts), u.dts.map (extendOne none)) ↔
      ((u.pts / pesTimestampCycle90khz : Nat) : ℤ) = k ∧ ((u.reference / pesTimestampCycle90khz : Nat) : ℤ) = k := by
  unfold Shifted PesUnit.reference extendOne
  rw [map_some, Option.some.injEq, mod_eq_shift_iff]
  refine and_congr_right fun hpts => ?_
  cases u.dts with
  | none => exact iff_of_true rfl hpts
  | some d =>
    rw [map_some, map_some, map_some, Option.some.injEq, mod_eq_shift_iff]
    rfl

theorem stream_shifted_iff {us : List PesUnit} (h : Steady us) (k : ℤ) :
    (∀ pair ∈ us.zip (extendStream none us), Shifted k pair.1 pair.2) ↔
      ∀ first ∈ us.head?, ((first.pts / pesTimestampCycle90khz : Nat) : ℤ) = k ∧
        ((first.reference / pesTimestampCycle90khz : Nat) : ℤ) = k := by
  cases us with
  | nil => exact iff_of_true (fun pair h => absurd h not_mem_nil) fun first h => absurd h.symm (some_ne_none _)
  | cons first us =>
    have hhead : ∀ P : PesUnit → Prop, (∀ u ∈ (first :: us).head?, P u) ↔ P first := by
      intro P
      exact ⟨fun h => h first rfl, fun h u hu => Option.some.inj hu ▸ h⟩
    rw [hhead, extendStream, zip_cons_cons, forall_mem_cons]
    rw [shifted_raw_iff]
    refine and_iff_left_of_imp fun hfirst => ?_
    obtain ⟨hwords0, hwords⟩ := List.forall_mem_cons.1 h.words
    obtain ⟨-, hfloor⟩ := List.forall_mem_cons.1 (h.floor first rfl)
    have hmod : extendOne none first.reference +
        first.reference / pesTimestampCycle90khz * pesTimestampCycle90khz = first.reference := by
      rw [Nat.mul_comm]
      exact Nat.mod_add_div _ _
    rw [← hfirst.2]
    exact extendStream_shifted us first hmod (hwords0 _ first.reference_mem) h.near hfloor hwords

/-! ## Jumps -/

/-- No other value with these 33 bits is near the reference. -/
def Jumped (raw reference : Nat) : Prop :=
  ∀ w < 2 ^ 64, w % pesTimestampCycle90khz = raw → Near w reference → w = raw

theorem extendTimestamp_eq_raw_iff {raw reference : Nat} (hraw : raw < pesTimestampCycle90khz) (hreference : reference < 2 ^ 64) :
    extendTimestamp raw reference = raw ↔ Jumped raw reference := by
  constructor
  · rintro heq w hw rfl hnear
    rw [extendTimestamp_near hw hreference hnear] at heq
    exact heq
  · intro hjump
    by_cases hfar : ∀ w < 2 ^ 64, w % pesTimestampCycle90khz = raw → ¬ Near w reference
    · exact extendTimestamp_far hraw hfar
    · simp only [not_forall, not_not] at hfar
      obtain ⟨w, hw, rfl, hnear⟩ := hfar
      rw [extendTimestamp_near hw hreference hnear]
      exact hjump w hw rfl hnear

theorem map_eq_self_iff {f : Nat → Nat} (o : Option Nat) : o.map f = o ↔ ∀ t ∈ o, f t = t := by
  cases o with
  | none => exact iff_of_true rfl fun t h => absurd h.symm (some_ne_none _)
  | some t =>
    rw [map_some, Option.some.injEq]
    exact ⟨fun h t' ht => Option.some.inj ht ▸ h, fun h => h t rfl⟩

/-- A unit is taken as it is exactly where its timestamps jumped. Its PID goes on from there, and the other PIDs are not
touched. -/
theorem extendPesTimestamps_jump {last : LastTimestamps} {pid reference : Nat} {pts dts : Option Nat}
    (hlast : last.of pid = some reference) (hreference : reference < 2 ^ 64)
    (hpts : ∀ raw ∈ pts, raw < pesTimestampCycle90khz) (hdts : ∀ raw ∈ dts, raw < pesTimestampCycle90khz) :
    ((extendPesTimestamps last pid pts dts).2 = (pts, dts) ↔
      (∀ raw ∈ pts, Jumped raw reference) ∧ ∀ raw ∈ dts, Jumped raw reference) ∧
    ((extendPesTimestamps last pid pts dts).2 = (pts, dts) →
      ∀ latest ∈ dts.or pts, (extendPesTimestamps last pid pts dts).1.of pid = some latest) ∧
    ∀ other, other ≠ pid → (extendPesTimestamps last pid pts dts).1.of other = last.of other := by
  have hresult : (extendPesTimestamps last pid pts dts).2 =
      (pts.map (extendTimestamp · reference), dts.map (extendTimestamp · reference)) := by
    unfold extendPesTimestamps
    rw [hlast]
    cases pts <;> cases dts <;> rfl
  refine ⟨?_, fun heq latest hlatest => ?_, fun other hother => ?_⟩
  · rw [hresult, Prod.mk.injEq, map_eq_self_iff, map_eq_self_iff]
    exact and_congr (forall₂_congr fun raw h => extendTimestamp_eq_raw_iff (hpts raw h) hreference)
      (forall₂_congr fun raw h => extendTimestamp_eq_raw_iff (hdts raw h) hreference)
  · rw [hresult, Prod.mk.injEq] at heq
    have hset : (extendPesTimestamps last pid pts dts).1 = last.set pid latest := by
      unfold extendPesTimestamps
      rw [hlast]
      dsimp only
      rw [heq.1, heq.2, Option.mem_def.1 hlatest]
    rw [hset, LastTimestamps.of_set, if_pos rfl]
  · unfold extendPesTimestamps
    dsimp only
    split
    · rfl
    · rw [LastTimestamps.of_set, if_neg hother]

/-! ## All units -/

/-- The timestamps of a PID come out less one number of cycles exactly where those of its first unit lie in one cycle,
those of all PIDs where those of all first units do. A timestamp that jumped is taken as it is. -/
theorem timestamps_unwrapped (units : List PesUnit) (hsteady : ∀ pid, Steady (units.filter fun u => u.pid = pid)) :
    (∀ pid, (∃ k : ℤ, ∀ pair ∈ units.zip (extendAll [] units), pair.1.pid = pid → Shifted k pair.1 pair.2) ↔
      ∀ first ∈ (units.filter fun u => u.pid = pid).head?,
        first.pts / pesTimestampCycle90khz = first.reference / pesTimestampCycle90khz) ∧
    ((∃ k : ℤ, ∀ pair ∈ units.zip (extendAll [] units), Shifted k pair.1 pair.2) ↔
      ∃ k : ℤ, ∀ pid, ∀ first ∈ (units.filter fun u => u.pid = pid).head?,
        ((first.pts / pesTimestampCycle90khz : Nat) : ℤ) = k ∧
          ((first.reference / pesTimestampCycle90khz : Nat) : ℤ) = k) ∧
    ∀ (last : LastTimestamps) (pid reference : Nat) (pts dts : Option Nat), last.of pid = some reference →
      reference < 2 ^ 64 → (∀ raw ∈ pts, raw < pesTimestampCycle90khz) → (∀ raw ∈ dts, raw < pesTimestampCycle90khz) →
      ((extendPesTimestamps last pid pts dts).2 = (pts, dts) ↔
        (∀ raw ∈ pts, Jumped raw reference) ∧ ∀ raw ∈ dts, Jumped raw reference) ∧
      ((extendPesTimestamps last pid pts dts).2 = (pts, dts) →
        ∀ latest ∈ dts.or pts, (extendPesTimestamps last pid pts dts).1.of pid = some latest) ∧
      ∀ other, other ≠ pid → (extendPesTimestamps last pid pts dts).1.of other = last.of other := by
  have hpid : ∀ (pid : Nat) (k : ℤ),
      (∀ pair ∈ units.zip (extendAll [] units), pair.1.pid = pid → Shifted k pair.1 pair.2) ↔
        ∀ first ∈ (units.filter fun u => u.pid = pid).head?, ((first.pts / pesTimestampCycle90khz : Nat) : ℤ) = k ∧
            ((first.reference / pesTimestampCycle90khz : Nat) : ℤ) = k := by
    intro pid k
    rw [← stream_shifted_iff (hsteady pid) k]
    have hstream := extendAll_pid [] units pid
    rw [show LastTimestamps.of [] pid = none from rfl] at hstream
    rw [← hstream]
    simp only [List.mem_filter, decide_eq_true_eq, and_imp]
  refine ⟨fun pid => ?_, ?_, fun last pid reference pts dts => extendPesTimestamps_jump⟩
  · simp only [hpid]
    constructor
    · rintro ⟨k, hk⟩ first hfirst
      obtain ⟨h1, h2⟩ := hk first hfirst
      exact Int.ofNat.inj (h1.trans h2.symm)
    · intro h
      cases hhead : (units.filter fun u => u.pid = pid).head? with
      | none => exact ⟨0, fun first hfirst => absurd hfirst.symm (some_ne_none _)⟩
      | some u =>
        refine ⟨((u.reference / pesTimestampCycle90khz : Nat) : ℤ), fun first hfirst => ?_⟩
        obtain rfl := Option.some.inj hfirst
        exact ⟨congrArg Nat.cast (h u hhead), rfl⟩
  · refine exists_congr fun k => ?_
    simp only [← hpid]
    exact ⟨fun h pid pair hpair _ => h pair hpair, fun h pair hpair => h pair.1.pid pair hpair rfl⟩

theorem Steady.nil : Steady [] where
  near := isChain_nil
  floor _ h := absurd h.symm (some_ne_none _)
  words _ h := absurd h not_mem_nil

theorem Steady.filter {units : List PesUnit} {pid : Nat} (hpid : ∀ u ∈ units, u.pid = pid) (h : Steady units) (other : Nat) :
    Steady (units.filter fun u => u.pid = other) := by
  by_cases hother : pid = other
  · rw [List.filter_eq_self.2 fun u hu => decide_eq_true ((hpid u hu).trans hother)]
    exact h
  · rw [List.filter_eq_nil_iff.2 fun u hu heq => hother ((hpid u hu).symm.trans (of_decide_eq_true heq))]
    exact Steady.nil

/-- Two units on both sides of the wrap. -/
theorem timestamps_unwrapped_wrap :
    ∃ k : ℤ, ∀ pair ∈ [(⟨256, 2 ^ 33 - 3000, none⟩ : PesUnit), ⟨256, 2 ^ 33 + 3000, some (2 ^ 33)⟩].zip
      (extendAll [] [⟨256, 2 ^ 33 - 3000, none⟩, ⟨256, 2 ^ 33 + 3000, some (2 ^ 33)⟩]),
      pair.1.pid = 256 → Shifted k pair.1 pair.2 :=
  ((timestamps_unwrapped [⟨256, 2 ^ 33 - 3000, none⟩, ⟨256, 2 ^ 33 + 3000, some (2 ^ 33)⟩]
    (@Steady.filter _ 256 (by decide)
      { near := List.isChain_pair.2 (by decide)
        floor := by decide
        words := by decide })).1 256).2 (by decide)

/-- The PTS and the DTS of a first unit on different sides of the wrap are not 3000 ticks apart any more. -/
theorem first_unit_astride : Steady [⟨256, 2 ^ 33, some (2 ^ 33 - 3000)⟩] ∧
      ¬ ∃ k : ℤ, ∀ pair ∈ [(⟨256, 2 ^ 33, some (2 ^ 33 - 3000)⟩ : PesUnit)].zip
        (extendAll [] [⟨256, 2 ^ 33, some (2 ^ 33 - 3000)⟩]), Shifted k pair.1 pair.2 := by
  have hsteady : Steady [⟨256, 2 ^ 33, some (2 ^ 33 - 3000)⟩] :=
    { near := isChain_singleton _
      floor := by decide
      words := by decide }
  refine ⟨hsteady, ?_⟩
  rintro ⟨k, hk⟩
  obtain ⟨hpts, hdts⟩ := (shifted_raw_iff _ k).1 (hk (⟨256, 2 ^ 33, some (2 ^ 33 - 3000)⟩, _) mem_cons_self)
  exact absurd (hpts.trans hdts.symm) (by decide)

end Glass2Glass.Ts
