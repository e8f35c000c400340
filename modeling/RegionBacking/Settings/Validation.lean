import RegionBacking.Settings
import RegionBacking.Settings.Error

/-!
# Validation of settings

Settings are tested once, before anything is reserved. The tests run in a fixed order and the first
that fails is the error.
-/

namespace RegionBacking.Settings

/-- Stops with an error unless a condition holds. -/
private def demand (condition : Bool) (error : SettingsError) : Except SettingsError Unit :=
  if condition then .ok () else .error error

/-- Whether one of two numbers, not both zero, is a multiple of the other. -/
def dividesEitherWay (a b : Nat) : Bool := if b ≤ a then a % b == 0 else b % a == 0

/-- The first thing that is wrong with the settings, if there is one. -/
def validate (settings : Settings) : Except SettingsError Unit := do
  demand (Word.isPowerOfTwo settings.pageSize) (.pageSizeNotPowerOfTwo settings.pageSize)
  demand (Word.isPowerOfTwo settings.regionSize) (.regionSizeNotPowerOfTwo settings.regionSize)
  demand (settings.commitFactor != 0) .commitFactorZero
  match settings.granule? with
  | none => .error (.granuleOverflow settings.pageSize settings.commitFactor)
  | some granule =>
    demand (dividesEitherWay settings.regionSize granule)
      (.granularitiesIncompatible settings.regionSize granule)
    demand (settings.reservedSize != 0 && settings.reservedSize % settings.pageSize == 0)
      (.reservedSizeNotPages settings.reservedSize settings.pageSize)
    demand (settings.usedSize ≤ settings.reservedSize)
      (.usedSizeTooLarge settings.usedSize settings.reservedSize)
    demand (settings.regionCount != 0) (.noRegion settings.reservedSize settings.regionSize)
    demand (settings.pretouchThreads != some 0) .pretouchThreadsZero
    demand (settings.pretouchChunkSize != 0) .pretouchChunkSizeZero

/-! ## Settings that are right -/

/-- What settings have to be like. -/
structure Valid (settings : Settings) : Prop where
  pageSize_power : settings.pageSize.isPowerOfTwo
  regionSize_power : settings.regionSize.isPowerOfTwo
  commitFactor_pos : 0 < settings.commitFactor
  granule_lt : settings.pageSize * settings.commitFactor < Word.limit
  /-- A region is a whole number of granules, or a granule one of regions. -/
  divides : settings.regionSize ∣ settings.pageSize * settings.commitFactor ∨
    settings.pageSize * settings.commitFactor ∣ settings.regionSize
  reservedSize_pos : 0 < settings.reservedSize
  pageSize_dvd : settings.pageSize ∣ settings.reservedSize
  usedSize_le : settings.usedSize ≤ settings.reservedSize
  regionCount_pos : 0 < settings.regionCount
  pretouchThreads_ne : settings.pretouchThreads ≠ some 0
  pretouchChunkSize_pos : 0 < settings.pretouchChunkSize

private theorem demand_eq_ok_iff {condition : Bool} {error : SettingsError} :
    demand condition error = .ok () ↔ condition = true := by
  cases condition <;> simp [demand]

private theorem demand_bind_eq_ok_iff {condition : Bool} {error : SettingsError}
    {next : Unit → Except SettingsError Unit} :
    demand condition error >>= next = .ok () ↔ condition = true ∧ next () = .ok () := by
  cases condition
  · exact ⟨nofun, fun h => absurd h.1 Bool.false_ne_true⟩
  · exact ⟨fun h => ⟨rfl, h⟩, And.right⟩

theorem dividesEitherWay_iff {a b : Nat} (ha : 0 < a) (hb : 0 < b) :
    dividesEitherWay a b = true ↔ a ∣ b ∨ b ∣ a := by
  unfold dividesEitherWay
  split
  · next hle =>
    rw [beq_iff_eq, ← Nat.dvd_iff_mod_eq_zero]
    constructor
    · exact Or.inr
    · rintro (hdvd | hdvd)
      · obtain rfl := Nat.le_antisymm hle (Nat.le_of_dvd hb hdvd)
        exact Nat.dvd_refl _
      · exact hdvd
  · next hlt =>
    rw [beq_iff_eq, ← Nat.dvd_iff_mod_eq_zero]
    constructor
    · exact Or.inl
    · rintro (hdvd | hdvd)
      · exact hdvd
      · exact absurd (Nat.le_of_dvd ha hdvd) hlt

/-- Nothing is wrong with settings just if they are as they have to be. -/
theorem validate_eq_ok_iff (settings : Settings) :
    settings.validate = .ok () ↔ settings.Valid := by
  constructor
  · intro h
    unfold validate at h
    obtain ⟨hpage, h⟩ := demand_bind_eq_ok_iff.mp h
    obtain ⟨hregion, h⟩ := demand_bind_eq_ok_iff.mp h
    obtain ⟨hfactor, h⟩ := demand_bind_eq_ok_iff.mp h
    -- The checks of the granule are made where it is a word.
    cases hgranule : settings.granule? with
    | none =>
      rw [hgranule] at h
      cases h
    | some granule =>
      rw [hgranule] at h
      obtain ⟨hlimit, rfl⟩ := granule?_eq_some_iff.mp hgranule
      obtain ⟨hdivides, h⟩ := demand_bind_eq_ok_iff.mp h
      obtain ⟨hreserved, h⟩ := demand_bind_eq_ok_iff.mp h
      obtain ⟨hused, h⟩ := demand_bind_eq_ok_iff.mp h
      obtain ⟨hregions, h⟩ := demand_bind_eq_ok_iff.mp h
      obtain ⟨hthreads, h⟩ := demand_bind_eq_ok_iff.mp h
      have hchunk := demand_eq_ok_iff.mp h
      rw [Word.isPowerOfTwo_iff] at hpage hregion
      rw [bne_iff_ne] at hfactor hregions hthreads hchunk
      rw [Bool.and_eq_true, bne_iff_ne, beq_iff_eq] at hreserved
      have hpos := Nat.mul_pos (Nat.pos_of_isPowerOfTwo hpage) (Nat.pos_of_ne_zero hfactor)
      exact ⟨hpage, hregion, Nat.pos_of_ne_zero hfactor, hlimit,
        (dividesEitherWay_iff (Nat.pos_of_isPowerOfTwo hregion) hpos).mp hdivides,
        Nat.pos_of_ne_zero hreserved.1, Nat.dvd_of_mod_eq_zero hreserved.2,
        of_decide_eq_true hused, Nat.pos_of_ne_zero hregions, hthreads, Nat.pos_of_ne_zero hchunk⟩
  · intro valid
    have hgranule := granule?_eq_some_iff.mpr ⟨valid.granule_lt, rfl⟩
    have hpos := Nat.mul_pos (Nat.pos_of_isPowerOfTwo valid.pageSize_power) valid.commitFactor_pos
    have hregion := Nat.pos_of_isPowerOfTwo valid.regionSize_power
    unfold validate
    rw [demand_bind_eq_ok_iff, demand_bind_eq_ok_iff, demand_bind_eq_ok_iff, hgranule]
    refine ⟨Word.isPowerOfTwo_iff.mpr valid.pageSize_power,
      Word.isPowerOfTwo_iff.mpr valid.regionSize_power,
      bne_iff_ne.mpr (Nat.ne_of_gt valid.commitFactor_pos), ?_⟩
    simp only [demand_bind_eq_ok_iff, demand_eq_ok_iff, bne_iff_ne, Bool.and_eq_true, beq_iff_eq,
      decide_eq_true_eq]
    exact ⟨(dividesEitherWay_iff hregion hpos).mpr valid.divides,
      ⟨Nat.ne_of_gt valid.reservedSize_pos, Nat.mod_eq_zero_of_dvd valid.pageSize_dvd⟩,
      valid.usedSize_le, Nat.ne_of_gt valid.regionCount_pos, valid.pretouchThreads_ne,
      Nat.ne_of_gt valid.pretouchChunkSize_pos⟩

end RegionBacking.Settings
