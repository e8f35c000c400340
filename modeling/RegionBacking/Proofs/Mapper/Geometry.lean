import RegionBacking.Proofs.Mapper.Spaces

/-!
# The geometry of settings that are right

Page size, region size and commit factor are related by divisions that are taken in different
places. For settings that are right they fit together: a mapper can be set up by each strategy that
suits the two sizes, every region has its pages, and no index or size on the way to them leaves the
machine words. One bound is no matter of geometry. The table of references is laid out for the
reservation rounded up to pages, and the sum that is rounded has to be a word.
-/

namespace RegionBacking

/-! ## Divisions -/

/-- Of two numbers one of which divides the other, the smaller one does. -/
theorem dvd_of_le_of_divides {a b : Nat} (hpos : 0 < a) (hle : a ≤ b) (h : b ∣ a ∨ a ∣ b) :
    a ∣ b := by
  rcases h with hdvd | hdvd
  · rw [Nat.le_antisymm hle (Nat.le_of_dvd hpos hdvd)]
  · exact hdvd

/-- A number that is round already stays as it is, but the sum that is rounded has to be a word. -/
theorem Word.alignUp_eq_of_dvd {value alignment : Nat} (hpower : alignment.isPowerOfTwo)
    (hdvd : alignment ∣ value) :
    Word.alignUp value alignment =
      if value + alignment < Word.limit then .ok value else .error .addOverflow := by
  have hceil := Word.divCeil_of_dvd (Nat.pos_of_isPowerOfTwo hpower) hdvd
  unfold Word.alignUp Word.add
  rw [if_pos (Word.isPowerOfTwo_iff.mpr hpower)]
  split
  · show Except.ok (Word.divCeil value alignment * alignment) = _
    rw [hceil, Nat.div_mul_cancel hdvd]
  · rfl

/-- A power of two that is a word divides the limit of the words. -/
theorem Word.dvd_limit_of_isPowerOfTwo {n : Nat} (hpower : n.isPowerOfTwo) (h : n < Word.limit) :
    n ∣ Word.limit := by
  obtain ⟨k, rfl⟩ := hpower
  have hlimit : Word.limit = 2 ^ 64 := rfl
  rw [hlimit] at h ⊢
  exact Nat.pow_dvd_pow 2 (Nat.le_of_lt ((Nat.pow_lt_pow_iff_right Nat.one_lt_two).mp h))

theorem GranuleTable.exists_create {base stop granule : Nat} (hpower : granule.isPowerOfTwo)
    (hstop : base ≤ stop)
    (hsize : Word.divCeil (stop - base) granule * entryBytes ≤ Word.maxAllocation) :
    ∃ table, create base stop granule = .ok table := by
  unfold create
  rw [Word.isPowerOfTwo_iff.mpr hpower, Bool.not_true, if_neg Bool.false_ne_true,
    if_neg (Nat.not_lt.mpr hstop)]
  simp only [if_neg (Nat.not_lt.mpr hsize)]
  exact ⟨_, rfl⟩

/-! ## Strategies that suit -/

namespace Settings

variable {settings : Settings}

theorem Valid.pageSize_pos (valid : settings.Valid) : 0 < settings.pageSize :=
  Nat.pos_of_isPowerOfTwo valid.pageSize_power

theorem Valid.granule_pos (valid : settings.Valid) :
    0 < settings.pageSize * settings.commitFactor :=
  Nat.mul_pos valid.pageSize_pos valid.commitFactor_pos

/-- Regions have pages of their own where they are as large as a granule. -/
theorem Valid.exists_pagesPerRegion_iff (valid : settings.Valid) :
    (∃ pages, Strategy.pagesPerRegion? settings.regionSize
        (settings.pageSize * settings.commitFactor) = .ok pages) ↔
      settings.pageSize * settings.commitFactor ≤ settings.regionSize := by
  constructor
  · rintro ⟨pages, hpages⟩
    obtain ⟨-, hpos, hmul⟩ := Strategy.pagesPerRegion?_eq_ok hpages
    exact hmul ▸ Nat.le_mul_of_pos_left _ hpos
  · intro hle
    have hpos := valid.granule_pos
    have hmod := Nat.mod_eq_zero_of_dvd (dvd_of_le_of_divides hpos hle valid.divides)
    exact ⟨_, if_neg (by omega)⟩

/-- Regions share pages where they are no larger than a granule. -/
theorem Valid.exists_regionsPerPage_iff (valid : settings.Valid) :
    (∃ regions, Strategy.regionsPerPage? settings.regionSize
        (settings.pageSize * settings.commitFactor) = .ok regions) ↔
      settings.regionSize ≤ settings.pageSize * settings.commitFactor := by
  constructor
  · rintro ⟨regions, hregions⟩
    obtain ⟨-, hpos, hmul, -⟩ := Strategy.regionsPerPage?_eq_ok hregions
    exact hmul ▸ Nat.le_mul_of_pos_left _ hpos
  · intro hle
    have hpos := Nat.pos_of_isPowerOfTwo valid.regionSize_power
    have hmod := Nat.mod_eq_zero_of_dvd (dvd_of_le_of_divides hpos hle valid.divides.symm)
    exact ⟨_, if_neg (by omega)⟩

theorem Valid.usesLargeRegions_eq (valid : settings.Valid) :
    settings.usesLargeRegions =
      decide (settings.pageSize * settings.commitFactor ≤ settings.regionSize) := by
  have hgranule := granule?_eq_some_iff.mpr ⟨valid.granule_lt, rfl⟩
  rw [usesLargeRegions, hgranule]

/-- A store is such as settings ask for: its pages and its reservation have their sizes, all its
addresses are words, and a table with an entry for each page can be allocated. -/
structure Describes {σ : Type} [PageStore σ] (settings : Settings) (store : σ) (base : Nat) :
    Prop where
  pageSize_eq : PageStore.pageSize store = settings.pageSize
  reservedSize_eq : PageStore.reservedSize store = settings.reservedSize
  pageStart_eq : PageStore.pageStart store 0 = .ok base
  limit_lt : base + settings.reservedSize < Word.limit
  table_le : settings.reservedSize / settings.pageSize * entryBytes ≤ Word.maxAllocation

namespace Describes

variable {σ : Type} [PageStore σ] {store : σ} {base : Nat}

theorem noReferences_eq (describes : settings.Describes store base) (valid : settings.Valid) :
    Strategy.noReferences store =
      if settings.reservedSize + settings.pageSize < Word.limit then
        GranuleTable.create base (base + settings.reservedSize) settings.pageSize
      else .error .addOverflow := by
  have hround := Word.alignUp_eq_of_dvd valid.pageSize_power valid.pageSize_dvd
  have hstop : Word.add base settings.reservedSize = .ok (base + settings.reservedSize) :=
    Word.add_eq_ok_iff.mpr ⟨describes.limit_lt, rfl⟩
  unfold Strategy.noReferences
  rw [describes.pageSize_eq, describes.reservedSize_eq, describes.pageStart_eq]
  show (Word.alignUp settings.reservedSize settings.pageSize >>= fun size =>
    Word.add base size >>= fun stop => GranuleTable.create base stop settings.pageSize) = _
  rw [hround]
  split
  · show (Word.add base settings.reservedSize >>= _) = _
    rw [hstop]
    rfl
  · rfl

/-- The table of references can be laid out if the sum that is rounded up to pages is a word. -/
theorem exists_noReferences (describes : settings.Describes store base) (valid : settings.Valid)
    (hlimit : settings.reservedSize + settings.pageSize < Word.limit) :
    ∃ references, Strategy.noReferences store = .ok references := by
  rw [describes.noReferences_eq valid, if_pos hlimit]
  refine GranuleTable.exists_create valid.pageSize_power (Nat.le_add_right _ _) ?_
  rw [Nat.add_sub_cancel_left, Word.divCeil_of_dvd valid.pageSize_pos valid.pageSize_dvd]
  exact describes.table_le

/-- A mapper can be set up by a strategy just if the strategy can, and a fault of the strategy is
one of the mapper. -/
theorem createWith_result (describes : settings.Describes store base) (valid : settings.Valid)
    (kind : StrategyKind) {τ : Type} (state : τ) :
    (∀ strategy, (Strategy.create store settings.regionSize
        (settings.pageSize * settings.commitFactor) kind state).result = .ok strategy →
      ∃ mapper, (Mapper.createWith store settings kind state).result = .ok mapper) ∧
    (∀ stop, (Strategy.create store settings.regionSize
        (settings.pageSize * settings.commitFactor) kind state).result = .error stop →
      (Mapper.createWith store settings kind state).result = .error stop) := by
  have hgranule := granule?_eq_some_iff.mpr ⟨valid.granule_lt, rfl⟩
  unfold Mapper.createWith
  rw [(validate_eq_ok_iff settings).mpr valid, hgranule]
  simp only [describes.pageSize_eq, describes.reservedSize_eq, ne_eq, not_true_eq_false, if_false]
  match hrun : Strategy.create store settings.regionSize
    (settings.pageSize * settings.commitFactor) kind state with
  | ⟨.ok strategy, after, trace⟩ =>
    rw [Op.bind_eq_after hrun]
    exact ⟨fun _ _ => ⟨_, rfl⟩, fun _ => nofun⟩
  | ⟨.error stop, after, trace⟩ =>
    rw [Op.bind_run_error hrun]
    exact ⟨fun _ => nofun, fun _ h => by cases h; rfl⟩

/-- Where regions have pages of their own, a mapper can be set up just if they are as large as a
granule. -/
theorem exists_createWith_large_iff (describes : settings.Describes store base)
    (valid : settings.Valid) {τ : Type} (state : τ) :
    (∃ mapper, (Mapper.createWith store settings .large state).result = .ok mapper) ↔
      settings.pageSize * settings.commitFactor ≤ settings.regionSize := by
  rw [← valid.exists_pagesPerRegion_iff]
  obtain ⟨hok, hstop⟩ := describes.createWith_result valid .large state
  unfold Strategy.create at hok hstop
  cases hpages : Strategy.pagesPerRegion? settings.regionSize
      (settings.pageSize * settings.commitFactor) with
  | ok pages =>
    rw [hpages] at hok
    exact ⟨fun _ => ⟨pages, rfl⟩, fun _ => hok _ rfl⟩
  | error refusal =>
    rw [hpages] at hstop
    rw [hstop _ rfl]
    exact ⟨nofun, nofun⟩

/-- Where they share pages, a mapper can be set up just if they are no larger than a granule and the
table of references can be laid out. -/
theorem exists_createWith_small_iff (describes : settings.Describes store base)
    (valid : settings.Valid) {τ : Type} (state : τ) :
    (∃ mapper, (Mapper.createWith store settings .small state).result = .ok mapper) ↔
      settings.regionSize ≤ settings.pageSize * settings.commitFactor ∧
        settings.reservedSize + settings.pageSize < Word.limit := by
  rw [← valid.exists_regionsPerPage_iff]
  obtain ⟨hok, hstop⟩ := describes.createWith_result valid .small state
  unfold Strategy.create at hok hstop
  cases hregions : Strategy.regionsPerPage? settings.regionSize
      (settings.pageSize * settings.commitFactor) with
  | ok regions =>
    rw [hregions] at hok hstop
    by_cases hlimit : settings.reservedSize + settings.pageSize < Word.limit
    · obtain ⟨references, hreferences⟩ := describes.exists_noReferences valid hlimit
      rw [hreferences] at hok
      exact ⟨fun _ => ⟨⟨regions, rfl⟩, hlimit⟩, fun _ => hok _ rfl⟩
    · rw [describes.noReferences_eq valid, if_neg hlimit] at hstop
      rw [hstop _ rfl]
      exact ⟨nofun, fun h => absurd h.2 hlimit⟩
  | error refusal =>
    rw [hregions] at hstop
    rw [hstop _ rfl]
    exact ⟨nofun, nofun⟩

end Describes

end Settings

namespace Mapper

variable {σ : Type} [PageStore σ] {settings : Settings} {store : σ} {base : Nat}
  {kind : StrategyKind} {mapper : Mapper σ}

/-! ## Regions and their pages -/

/-- Every index and every size on the way from the regions of a mapper to their pages is a word, and
these are pages of a store of so many. -/
def Addresses (mapper : Mapper σ) (pages : Nat) : Prop :=
  match mapper.strategy with
  | .large pagesPerRegion =>
    Word.mul (PageStore.pageSize mapper.store) pagesPerRegion =
      .ok (PageStore.pageSize mapper.store * pagesPerRegion) ∧
    ∀ start count, start + count ≤ mapper.regionCount →
      Word.mul start pagesPerRegion = .ok (start * pagesPerRegion) ∧
      Word.mul count pagesPerRegion = .ok (count * pagesPerRegion) ∧
      start * pagesPerRegion + count * pagesPerRegion ≤ pages ∧
      ∀ region, start ≤ region → region < start + count →
        Word.mul region pagesPerRegion = .ok (region * pagesPerRegion)
  | .small regionsPerPage references =>
    references.size = pages ∧
    ∀ region, region < mapper.regionCount → region / regionsPerPage < references.size

/-- A mapper that was set up addresses the pages of its store. -/
theorem Created.addresses (created : Created store settings kind mapper)
    (hsize : settings.reservedSize < Word.limit) :
    mapper.Addresses (settings.reservedSize / settings.pageSize) := by
  have valid := (Settings.validate_eq_ok_iff settings).mp created.valid
  have hpages : PageStore.pages store = settings.reservedSize / settings.pageSize := by
    rw [PageStore.pages, created.reservedSize_eq, created.pageSize_eq]
  have hregions := created.regionCount_eq
  have hstrategy := created.strategy_of
  unfold Addresses
  cases kind with
  | large =>
    obtain ⟨pages, hlarge, hown⟩ := hstrategy
    have hcount := created.regionCount_mul_le hown
    rw [hpages] at hcount
    rw [hlarge, hregions, created.store_eq, created.pageSize_eq]
    have hlimit : settings.reservedSize / settings.pageSize < Word.limit :=
      Nat.lt_of_le_of_lt (Nat.div_le_self _ _) hsize
    constructor
    -- There is a region, so the bytes of one are no more than those of the reservation.
    · have hone : pages ≤ settings.reservedSize / settings.pageSize :=
        Nat.le_trans (Nat.le_mul_of_pos_left pages valid.regionCount_pos) hcount
      have hbytes : settings.pageSize * pages ≤ settings.reservedSize :=
        Nat.le_trans (Nat.mul_le_mul_left _ hone) (Nat.mul_div_le _ _)
      exact Word.mul_eq_ok_iff.mpr ⟨Nat.lt_of_le_of_lt hbytes hsize, rfl⟩
    · intro start count hstop
      have hrange : (start + count) * pages ≤ settings.reservedSize / settings.pageSize :=
        Nat.le_trans (Nat.mul_le_mul_right pages hstop) hcount
      have hwords : ∀ index, index ≤ start + count →
          Word.mul index pages = .ok (index * pages) := by
        intro index hindex
        have hmul := Nat.mul_le_mul_right pages hindex
        exact Word.mul_eq_ok_iff.mpr ⟨by omega, rfl⟩
      refine ⟨hwords start (Nat.le_add_right _ _), hwords count (Nat.le_add_left _ _), ?_, ?_⟩
      · rwa [← Nat.add_mul]
      · intro region _ hlast
        exact hwords region (Nat.le_of_lt hlast)
  | small =>
    obtain ⟨regions, references, hsmall, hshare, hreferences⟩ := hstrategy
    have hcount := created.regionCount_le_mul hshare
    obtain ⟨htable, -⟩ := Strategy.noReferences_eq_ok hreferences created.page_dvd
    rw [hsmall, hregions]
    refine ⟨htable.trans hpages, ?_⟩
    intro region hregion
    rw [htable]
    exact Nat.div_lt_of_lt_mul (Nat.lt_of_lt_of_le hregion hcount)

/-- What settings that are right make of a store that is such as they ask for. By either strategy a
mapper can be set up just if that suits the two sizes, and by the strategy that they ask for it
always can, as long as the table of references can be laid out; and a mapper that was set up
addresses the pages of its store. -/
theorem geometry_sound {τ : Type} (valid : settings.validate = .ok ())
    (describes : settings.Describes store base) (state : τ) :
    ((∃ mapper, (createWith store settings .large state).result = .ok mapper) ↔
      settings.pageSize * settings.commitFactor ≤ settings.regionSize) ∧
    ((∃ mapper, (createWith store settings .small state).result = .ok mapper) ↔
      settings.regionSize ≤ settings.pageSize * settings.commitFactor ∧
        settings.reservedSize + settings.pageSize < Word.limit) ∧
    ((∃ mapper, (create store settings state).result = .ok mapper) ↔
      settings.pageSize * settings.commitFactor ≤ settings.regionSize ∨
        settings.reservedSize + settings.pageSize < Word.limit) ∧
    ∀ (kind : StrategyKind) (mapper : Mapper σ),
      (createWith store settings kind state).result = .ok mapper →
      mapper.regionCount = settings.regionCount ∧
        mapper.Addresses (settings.reservedSize / settings.pageSize) := by
  have valid := (Settings.validate_eq_ok_iff settings).mp valid
  refine ⟨describes.exists_createWith_large_iff valid state,
    describes.exists_createWith_small_iff valid state, ?_, ?_⟩
  · unfold create Settings.strategyKind
    rw [valid.usesLargeRegions_eq]
    by_cases hlarge : settings.pageSize * settings.commitFactor ≤ settings.regionSize
    · rw [decide_eq_true hlarge, if_pos rfl, describes.exists_createWith_large_iff valid]
      exact ⟨Or.inl, fun _ => hlarge⟩
    -- A region that is not as large as a granule is smaller, so only the table is in question.
    · have hsmall := Nat.le_of_not_le hlarge
      rw [decide_eq_false hlarge, if_neg Bool.false_ne_true,
        describes.exists_createWith_small_iff valid]
      exact ⟨fun h => Or.inr h.2, fun h => ⟨hsmall, h.resolve_left hlarge⟩⟩
  · intro kind mapper hmapper
    have created := Mapper.created hmapper
    exact ⟨created.regionCount_eq, created.addresses (Nat.lt_of_le_of_lt (Nat.le_add_left _ _)
      describes.limit_lt)⟩

/-- Four regions on two pages: the strategy that suits them is that of shared pages. -/
theorem geometry_sound_of_four_regions :
    ∃ mapper : Mapper ScriptedStore, (create (⟨8192, 4096, 65536, true, [], [], [], ∅⟩ :
        ScriptedStore) .fourRegions ()).result = .ok mapper ∧
      mapper.regionCount = 4 ∧ mapper.Addresses 2 := by
  have hsound := @geometry_sound ScriptedStore _ .fourRegions
    ⟨8192, 4096, 65536, true, [], [], [], ∅⟩ 65536 Unit rfl ⟨rfl, rfl, rfl, by decide, by decide⟩ ()
  obtain ⟨mapper, hmapper⟩ := hsound.2.2.1.mpr (.inr (by decide))
  exact ⟨mapper, hmapper, hsound.2.2.2 .small mapper hmapper⟩

end Mapper

/-- A single page as large as half of the address space, with two regions on it. -/
def Settings.halfSpace : Settings :=
  { Settings.fourRegions with
    reservedSize := 2 ^ 63, usedSize := 2 ^ 63, pageSize := 2 ^ 63, regionSize := 2 ^ 62,
    memoryKind := .auxiliary, alwaysPretouch := false }

/-- Although its settings are right and all its addresses are words, a page as large as half of the
address space cannot be shared by two regions: to lay out the table of references is a fault. -/
theorem Mapper.create_faults_of_half_space :
    Settings.halfSpace.validate = .ok () ∧
    Settings.halfSpace.Describes (⟨2 ^ 63, 2 ^ 63, 0, true, [], [], [], ∅⟩ : ScriptedStore) 0 ∧
    (create (⟨2 ^ 63, 2 ^ 63, 0, true, [], [], [], ∅⟩ : ScriptedStore)
      Settings.halfSpace ()).result = .error (.fault .addOverflow) :=
  ⟨rfl, ⟨rfl, rfl, rfl, by decide, by decide⟩, rfl⟩

end RegionBacking
