import RegionBacking.Proofs.Mapper.Books
import RegionBacking.Proofs.PageSpace.Reserve
import RegionBacking.Proofs.Stores.Scripted

/-!
# Mappers that were just set up

Settings that are right fix how regions are divided into pages. A mapper that was set up by them
over a store none of whose pages is backed has its books in order: no region is committed, every
region has its pages, and there is an entry for every page.
-/

namespace RegionBacking

/-! ## Settings that are right -/

namespace Settings

variable {settings : Settings}

/-- The reservation of settings that are right is cut into pages. -/
theorem pageSize_dvd_reservedSize (h : settings.validate = .ok ()) :
    0 < settings.pageSize ∧ settings.pageSize ∣ settings.reservedSize := by
  have valid := (validate_eq_ok_iff settings).mp h
  exact ⟨Nat.pos_of_isPowerOfTwo valid.pageSize_power, valid.pageSize_dvd⟩

/-- The regions do not reach beyond the region space. -/
theorem regionCount_mul_le (settings : Settings) :
    settings.regionCount * settings.regionSize ≤
      settings.reservedSize * settings.commitFactor := by
  unfold regionCount
  split
  · next hzero =>
    rw [hzero, Nat.mul_zero]
    exact Nat.zero_le _
  · calc Word.saturatingMul settings.reservedSize settings.commitFactor / settings.regionSize *
          settings.regionSize
        ≤ Word.saturatingMul settings.reservedSize settings.commitFactor := Nat.div_mul_le_self _ _
      _ ≤ settings.reservedSize * settings.commitFactor := Nat.min_le_left _ _

end Settings

/-! ## Tables without references -/

/-- A number that is a multiple already is not rounded. -/
theorem Word.alignUp_of_dvd {value alignment rounded : Nat}
    (h : Word.alignUp value alignment = .ok rounded) (hdvd : alignment ∣ value) :
    rounded = value := by
  -- The rounded number is the `a`-th multiple, the given one the `b`-th, and `b ≤ a < b + 1`.
  obtain ⟨-, hpos, ⟨a, rfl⟩, hle, hlt⟩ := Word.alignUp_eq_ok h
  obtain ⟨b, rfl⟩ := hdvd
  have hba : b ≤ a := Nat.le_of_mul_le_mul_left hle hpos
  have hab : a < b + 1 := Nat.lt_of_mul_lt_mul_left (Nat.lt_of_lt_of_eq hlt (Nat.mul_succ _ _).symm)
  rw [Nat.le_antisymm (Nat.le_of_lt_succ hab) hba]

theorem Word.divCeil_of_dvd {value part : Nat} (hpos : 0 < part) (h : part ∣ value) :
    Word.divCeil value part = value / part := by
  obtain ⟨k, rfl⟩ := h
  rw [Word.divCeil, Nat.mul_div_cancel_left _ hpos, Nat.add_sub_assoc hpos,
    Nat.mul_add_div hpos, Nat.div_eq_of_lt (by omega), Nat.add_zero]

theorem GranuleTable.of_create_ok {base stop granule : Nat} {table : GranuleTable}
    (h : GranuleTable.create base stop granule = .ok table) :
    table.size = Word.divCeil (stop - base) granule ∧ ∀ index, table.entry index = 0 := by
  unfold create at h
  simp only [] at h
  split at h
  · cases h
  · split at h
    · cases h
    · split at h
      · cases h
      · cases h
        exact ⟨rfl, fun index => Std.TreeMap.getD_emptyc⟩

/-! ## Strategies -/

namespace Strategy

/-- A page of its own for a region means a whole number of pages. -/
theorem pagesPerRegion?_eq_ok {regionSize granule pages : Nat}
    (h : pagesPerRegion? regionSize granule = .ok pages) :
    0 < granule ∧ 0 < pages ∧ pages * granule = regionSize := by
  unfold pagesPerRegion? at h
  split at h
  · cases h
  · next hwhole =>
    cases h
    have hgranule : 0 < granule := by omega
    have hregion : granule ∣ regionSize := Nat.dvd_of_mod_eq_zero (by omega)
    exact ⟨hgranule, Nat.div_pos (by omega) hgranule, Nat.div_mul_cancel hregion⟩

theorem regionsPerPage?_eq_ok {regionSize granule regions : Nat}
    (h : regionsPerPage? regionSize granule = .ok regions) :
    0 < regionSize ∧ 0 < regions ∧ regions * regionSize = granule ∧
      regions = granule / regionSize := by
  unfold regionsPerPage? at h
  split at h
  · cases h
  · next hwhole =>
    cases h
    have hregion : 0 < regionSize := by omega
    have hgranule : regionSize ∣ granule := Nat.dvd_of_mod_eq_zero (by omega)
    exact ⟨hregion, Nat.div_pos (by omega) hregion, Nat.div_mul_cancel hgranule, rfl⟩

/-- A new table has an entry for each page of the store, zero for all of them, and the addresses of
the pages are words. -/
theorem noReferences_eq_ok {σ : Type} [PageStore σ] {store : σ} {references : GranuleTable}
    (h : noReferences store = .ok references)
    (hpages : PageStore.pageSize store ∣ PageStore.reservedSize store) :
    references.size = PageStore.pages store ∧ (∀ page, references.entry page = 0) ∧
      ∃ base, PageStore.pageStart store 0 = .ok base ∧
        base + PageStore.reservedSize store < Word.limit := by
  unfold noReferences at h
  obtain ⟨base, hbase, h⟩ := Except.of_bind_ok h
  obtain ⟨size, hsize, h⟩ := Except.of_bind_ok h
  obtain ⟨stop, hstop, h⟩ := Except.of_bind_ok h
  -- The reservation is cut into pages, so rounding it up to a page leaves it as it is.
  obtain ⟨-, hpos, -⟩ := Word.alignUp_eq_ok hsize
  obtain rfl := Word.alignUp_of_dvd hsize hpages
  obtain ⟨hlimit, rfl⟩ := Word.add_eq_ok_iff.mp hstop
  obtain ⟨htable, hentry⟩ := GranuleTable.of_create_ok h
  refine ⟨?_, hentry, base, hbase, hlimit⟩
  rw [htable, Nat.add_sub_cancel_left, Word.divCeil_of_dvd hpos hpages, PageStore.pages]

/-- A strategy of a kind fits the pages of a store, and nothing is counted yet. -/
def Suits {σ : Type} [PageStore σ] (strategy : Strategy) (kind : StrategyKind) (store : σ)
    (regionSize granule : Nat) : Prop :=
  match kind with
  | .large => ∃ pages, strategy = .large pages ∧
      pagesPerRegion? regionSize granule = .ok pages
  | .small => ∃ regions references, strategy = .small regions references ∧
      regionsPerPage? regionSize granule = .ok regions ∧ noReferences store = .ok references

theorem of_create_ok {σ τ : Type} [PageStore σ] {store : σ} {regionSize granule : Nat}
    {kind : StrategyKind} {state after : τ} {strategy : Strategy} {trace : List Effect}
    (h : create store regionSize granule kind state = ⟨.ok strategy, after, trace⟩) :
    strategy.Suits kind store regionSize granule := by
  cases kind with
  | large =>
    unfold create at h
    cases hpages : pagesPerRegion? regionSize granule with
    | error refusal =>
      rw [hpages] at h
      cases h
    | ok pages =>
      rw [hpages] at h
      cases h
      exact ⟨pages, rfl, hpages⟩
  | small =>
    unfold create at h
    cases hregions : regionsPerPage? regionSize granule with
    | error refusal =>
      rw [hregions] at h
      cases h
    | ok regions =>
      rw [hregions] at h
      obtain ⟨references, _, _, hreferences, hrest⟩ := Op.of_bind_ok (congrArg Run.result h)
      cases hrest
      exact ⟨regions, references, rfl, hregions, (Op.of_checked_ok hreferences).1⟩

end Strategy

/-! ## Fresh mappers -/

namespace Mapper

variable {σ : Type} [PageStore σ] {store : σ} {settings : Settings} {kind : StrategyKind}
  {mapper : Mapper σ}

/-- What is sure of a mapper that was just set up. -/
structure Created (store : σ) (settings : Settings) (kind : StrategyKind) (mapper : Mapper σ) :
    Prop where
  valid : settings.validate = .ok ()
  pageSize_eq : PageStore.pageSize store = settings.pageSize
  reservedSize_eq : PageStore.reservedSize store = settings.reservedSize
  store_eq : mapper.store = store
  committed_eq : mapper.committed = .empty settings.regionCount
  strategy_of : mapper.strategy.Suits kind store settings.regionSize
    (settings.pageSize * settings.commitFactor)
  activity_eq : mapper.activity = .none

/-- The mapper that is set up over a store by settings. -/
def fresh (store : σ) (settings : Settings) (strategy : Strategy) : Mapper σ where
  store := store
  strategy := strategy
  committed := .empty settings.regionCount
  regionSize := settings.regionSize
  memoryKind := settings.memoryKind
  alwaysPretouch := settings.alwaysPretouch
  nodes := .single
  activity := .none
  listener := .unbound

theorem of_createWith_ok {τ : Type} {state : τ}
    (h : (createWith store settings kind state).result = .ok mapper) :
    Created store settings kind mapper ∧ ∃ strategy, mapper = fresh store settings strategy := by
  unfold createWith at h
  cases valid : settings.validate with
  | error error =>
    rw [valid] at h
    cases h
  | ok =>
    rw [valid] at h
    simp only [] at h
    split at h
    · cases h
    · next hpage =>
      split at h
      · cases h
      · next hreserved =>
        cases hgranule : settings.granule? with
        | none =>
          rw [hgranule] at h
          cases h
        | some granule =>
          rw [hgranule] at h
          obtain ⟨-, rfl⟩ := Settings.granule?_eq_some_iff.mp hgranule
          obtain ⟨strategy, _, _, hstrategy, h⟩ := Op.of_bind_ok h
          cases h
          exact ⟨⟨valid, Classical.not_not.mp hpage, Classical.not_not.mp hreserved, rfl, rfl,
            Strategy.of_create_ok hstrategy, rfl⟩, strategy, rfl⟩

theorem created {τ : Type} {state : τ}
    (h : (createWith store settings kind state).result = .ok mapper) :
    Created store settings kind mapper := (of_createWith_ok h).1

namespace Created

theorem page_dvd (created : Created store settings kind mapper) :
    PageStore.pageSize store ∣ PageStore.reservedSize store := by
  rw [created.pageSize_eq, created.reservedSize_eq]
  exact (Settings.pageSize_dvd_reservedSize created.valid).2

/-- The pages of the store back as many bytes of region space as the settings ask for. -/
theorem pages_mul (created : Created store settings kind mapper) :
    PageStore.pages store * (settings.pageSize * settings.commitFactor) =
      settings.reservedSize * settings.commitFactor := by
  rw [PageStore.pages, created.pageSize_eq, created.reservedSize_eq, ← Nat.mul_assoc,
    Nat.div_mul_cancel (Settings.pageSize_dvd_reservedSize created.valid).2]

/-- A mapper has the regions that its settings ask for. -/
theorem regionCount_eq (created : Created store settings kind mapper) :
    mapper.regionCount = settings.regionCount := by
  rw [regionCount, created.committed_eq]
  rfl

/-- Where regions have pages of their own, the store has them all. Compared in bytes of region
space: a region space that is not cut evenly has the smaller number of regions. -/
theorem regionCount_mul_le (created : Created store settings kind mapper) {pages : Nat}
    (hpages : Strategy.pagesPerRegion? settings.regionSize
      (settings.pageSize * settings.commitFactor) = .ok pages) :
    settings.regionCount * pages ≤ PageStore.pages store := by
  obtain ⟨hgranule, -, hmul⟩ := Strategy.pagesPerRegion?_eq_ok hpages
  refine Nat.le_of_mul_le_mul_right ?_ hgranule
  calc settings.regionCount * pages * (settings.pageSize * settings.commitFactor)
      = settings.regionCount * settings.regionSize := by rw [Nat.mul_assoc, hmul]
    _ ≤ settings.reservedSize * settings.commitFactor := settings.regionCount_mul_le
    _ = PageStore.pages store * (settings.pageSize * settings.commitFactor) :=
      created.pages_mul.symm

/-- Where pages are shared, they have room for all regions. -/
theorem regionCount_le_mul (created : Created store settings kind mapper) {regions : Nat}
    (hregions : Strategy.regionsPerPage? settings.regionSize
      (settings.pageSize * settings.commitFactor) = .ok regions) :
    settings.regionCount ≤ regions * PageStore.pages store := by
  obtain ⟨hregion, -, hmul, -⟩ := Strategy.regionsPerPage?_eq_ok hregions
  refine Nat.le_of_mul_le_mul_right ?_ hregion
  calc settings.regionCount * settings.regionSize
      ≤ settings.reservedSize * settings.commitFactor := settings.regionCount_mul_le
    _ = PageStore.pages store * (settings.pageSize * settings.commitFactor) :=
      created.pages_mul.symm
    _ = PageStore.pages store * (regions * settings.regionSize) := by rw [hmul]
    _ = regions * PageStore.pages store * settings.regionSize := by
      rw [← Nat.mul_assoc, Nat.mul_comm (PageStore.pages store)]

/-- Where pages are shared, the references of a fresh mapper are right, over any store. -/
theorem sharedTable (created : Created store settings .small mapper) :
    ∃ references, SharedTable (settings.pageSize * settings.commitFactor / settings.regionSize)
      references mapper ∧ references.size = PageStore.pages store := by
  obtain ⟨regions, references, hstrategy, hregions, hreferences⟩ := created.strategy_of
  have hcount := created.regionCount_le_mul hregions
  obtain ⟨-, hpos, -, rfl⟩ := Strategy.regionsPerPage?_eq_ok hregions
  obtain ⟨hsize, hentry, -⟩ := Strategy.noReferences_eq_ok hreferences created.page_dvd
  refine ⟨references, ⟨hstrategy, hpos, ?_, ?_, ?_⟩, hsize⟩
  · rw [created.committed_eq, hsize]
    exact hcount
  · rw [created.committed_eq]
    exact Bitmap.tidy_empty _
  · intro page
    rw [created.committed_eq, hentry, Bitmap.residents_empty]

variable [LawfulStore σ]

/-- Where pages are shared, the books of a fresh mapper are in order. -/
theorem sound_small (created : Created store settings .small mapper)
    (hstore : StoreView.Sound store) (hclear : ∀ page, backed store page = false) :
    mapper.Sound := by
  obtain ⟨references, table, hsize⟩ := created.sharedTable
  have hentry : ∀ page, references.entry page = 0 := by
    intro page
    rw [table.entry_eq, created.committed_eq, Bitmap.residents_empty]
  refine .small _ references ⟨table.strategy_eq, table.share_pos, ?_, ?_, table.size_le, table.tidy,
    ?_, table.entry_eq, ?_⟩
  · intro page
    rw [hentry]
    decide
  · rw [created.store_eq, hsize]
  · rw [created.store_eq]
    exact hstore
  · intro page
    rw [created.store_eq, hclear, hentry]
    rfl

/-- Where regions have pages of their own, the books of a fresh mapper are in order. -/
theorem sound_large (created : Created store settings .large mapper)
    (hlimit : PageStore.pages store < Word.limit)
    (hstore : StoreView.Sound store) (hclear : ∀ page, backed store page = false) :
    mapper.Sound := by
  obtain ⟨pages, hstrategy, hpages⟩ := created.strategy_of
  have hcount := created.regionCount_mul_le hpages
  obtain ⟨-, hpos, -⟩ := Strategy.pagesPerRegion?_eq_ok hpages
  refine .large pages ⟨hstrategy, hpos, ?_, ?_, ?_, ?_, ?_⟩
  · rw [created.store_eq]
    exact hlimit
  · rw [created.committed_eq, created.store_eq]
    exact hcount
  · rw [created.committed_eq]
    exact Bitmap.tidy_empty _
  · rw [created.store_eq]
    exact hstore
  · intro page
    rw [created.store_eq, hclear, created.committed_eq, Bitmap.bit_empty]

end Created

end Mapper

end RegionBacking
