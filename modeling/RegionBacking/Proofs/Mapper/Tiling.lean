import RegionBacking.Proofs.Mapper.Geometry

/-!
# Regions and pages that tile a reservation

The region space is the reservation as often as the commit factor says, and it is divided into
regions. As long as its bytes are a word, nothing but an incomplete last region is lost: with pages
of their own for regions, fewer pages are left over than a region has, and with shared pages none
has room left. The number of regions is taken of a product that saturates, and the largest word is
no multiple of a region. So from the limit of the words on a region is lost that would have been
whole, and the tiling has a gap.
-/

namespace RegionBacking

open Finset

/-! ## Counting pages and regions -/

namespace Strategy

/-- The number of pages, of so many, that host none of so many regions. -/
def idlePages (strategy : Strategy) (pages regions : Nat) : Nat :=
  #{page ∈ range pages | ∀ region ∈ range regions, ¬ strategy.Hosts page region}

/-- The number of regions, of so many, that a page hosts. -/
def hosted (strategy : Strategy) (page regions : Nat) : Nat :=
  #{region ∈ range regions | strategy.Hosts page region}

/-- Where regions have pages of their own, those behind the last region are idle. -/
theorem idlePages_large {pagesPerRegion : Nat} (hpos : 0 < pagesPerRegion) (pages regions : Nat) :
    (large pagesPerRegion).idlePages pages regions = pages - regions * pagesPerRegion := by
  have hidle : {page ∈ range pages |
        ∀ region ∈ range regions, ¬ (large pagesPerRegion).Hosts page region} =
      Ico (regions * pagesPerRegion) pages := by
    ext page
    rw [mem_filter, mem_range, mem_Ico, and_comm, ← Nat.le_div_iff_mul_le hpos]
    refine and_congr_left fun _ => ⟨fun h => ?_, fun hle region hregion hhosts => ?_⟩
    · exact Nat.le_of_not_lt fun hlt => h _ (mem_range.mpr hlt) rfl
    · exact absurd (hhosts ▸ mem_range.mp hregion) (Nat.not_lt.mpr hle)
  rw [idlePages, hidle, Nat.card_Ico]

/-- A page is shared by as many regions as there are, from the first on that it has room for. -/
theorem hosted_small (regionsPerPage : Nat) (references : GranuleTable) (page regions : Nat) :
    (small regionsPerPage references).hosted page regions =
      Bitmap.newcomers regionsPerPage page 0 regions := by
  rw [hosted, Bitmap.newcomers, range_eq_Ico]
  rfl

end Strategy

/-- A range that begins at the first index has a whole window just if it reaches to its end. -/
theorem Bitmap.newcomers_eq_share_iff {share : Nat} (hpos : 0 < share) (window stop : Nat) :
    newcomers share window 0 stop = share ↔ (window + 1) * share ≤ stop := by
  have hfilter : ({index ∈ Ico 0 stop | index / share = window} : Finset Nat) =
      Ico (window * share) (min stop ((window + 1) * share)) := by
    ext index
    rw [mem_filter, mem_Ico, mem_Ico, Nat.div_eq_iff hpos, Nat.lt_min, Nat.succ_mul]
    omega
  rw [newcomers, hfilter, Nat.card_Ico, Nat.succ_mul]
  omega

/-! ## The number of regions -/

namespace Settings

variable {settings : Settings}

/-- As long as the bytes of the region space are a word, all whole regions of it are counted. -/
theorem regionCount_eq_div (h : settings.reservedSize * settings.commitFactor < Word.limit) :
    settings.regionCount =
      settings.reservedSize * settings.commitFactor / settings.regionSize := by
  unfold regionCount
  split
  · next hzero => rw [hzero, Nat.div_zero]
  · rw [Word.saturatingMul, Nat.min_eq_left (Nat.le_sub_one_of_lt h)]

/-- No more regions are counted than there are whole ones. -/
theorem regionCount_le_div (settings : Settings) :
    settings.regionCount ≤
      settings.reservedSize * settings.commitFactor / settings.regionSize := by
  unfold regionCount
  split
  · exact Nat.zero_le _
  · exact Nat.div_le_div_right (Nat.min_le_left _ _)

/-- The size of a region divides the limit of the words, since there is a region. -/
theorem Valid.regionSize_dvd_limit (valid : settings.Valid) :
    settings.regionSize ∣ Word.limit := by
  have hcount := valid.regionCount_pos
  unfold regionCount at hcount
  rw [if_neg (Nat.ne_of_gt (Nat.pos_of_isPowerOfTwo valid.regionSize_power))] at hcount
  refine Word.dvd_limit_of_isPowerOfTwo valid.regionSize_power ?_
  calc settings.regionSize
      ≤ Word.saturatingMul settings.reservedSize settings.commitFactor :=
        (Nat.div_pos_iff.mp hcount).2
    _ ≤ Word.limit - 1 := Nat.min_le_right _ _
    _ < Word.limit := by decide

/-- Of a region space of more bytes than the largest word, one region is counted less than the words
have room for. -/
theorem Valid.regionCount_add_one (valid : settings.Valid)
    (h : Word.limit ≤ settings.reservedSize * settings.commitFactor) :
    settings.regionCount + 1 = Word.limit / settings.regionSize := by
  have hpos := Nat.pos_of_isPowerOfTwo valid.regionSize_power
  obtain ⟨regions, hregions⟩ := valid.regionSize_dvd_limit
  have hsome : 0 < regions := Nat.pos_of_ne_zero fun hzero => by
    rw [hzero, Nat.mul_zero] at hregions
    exact absurd hregions (by decide)
  have hsub : (settings.regionSize * regions - 1) / settings.regionSize = regions - 1 := by
    rw [Nat.mul_sub_div 0 _ _ (Nat.mul_pos hpos hsome), Nat.zero_div]
  unfold regionCount
  rw [if_neg (Nat.ne_of_gt hpos), Word.saturatingMul,
    Nat.min_eq_right (Nat.le_trans (Nat.sub_le _ _) h), hregions, hsub,
    Nat.mul_div_cancel_left _ hpos, Nat.sub_add_cancel hsome]

/-- All whole regions are counted just if the bytes of the region space are a word. -/
theorem Valid.regionCount_eq_iff (valid : settings.Valid) :
    settings.regionCount = settings.reservedSize * settings.commitFactor / settings.regionSize ↔
      settings.reservedSize * settings.commitFactor < Word.limit := by
  refine ⟨fun hcount => Nat.lt_of_not_le fun hlarge => ?_, regionCount_eq_div⟩
  have hfewer := valid.regionCount_add_one hlarge
  have hle : Word.limit / settings.regionSize ≤
      settings.reservedSize * settings.commitFactor / settings.regionSize :=
    Nat.div_le_div_right hlarge
  omega

/-- The region space, granule by granule. -/
theorem Valid.pages_mul_granule (valid : settings.Valid) :
    settings.reservedSize / settings.pageSize * (settings.pageSize * settings.commitFactor) =
      settings.reservedSize * settings.commitFactor := by
  rw [← Nat.mul_assoc, Nat.div_mul_cancel valid.pageSize_dvd]

/-- With pages of their own for regions, fewer pages than a region has are idle just if all whole
regions are counted. -/
theorem Valid.idlePages_lt_iff (valid : settings.Valid) {pages : Nat}
    (hpages : Strategy.pagesPerRegion? settings.regionSize
      (settings.pageSize * settings.commitFactor) = .ok pages) :
    (Strategy.large pages).idlePages (settings.reservedSize / settings.pageSize)
        settings.regionCount < pages ↔
      settings.reservedSize * settings.commitFactor < Word.limit := by
  obtain ⟨hgranule, hpos, hmul⟩ := Strategy.pagesPerRegion?_eq_ok hpages
  have hwhole : settings.reservedSize * settings.commitFactor / settings.regionSize =
      settings.reservedSize / settings.pageSize / pages := by
    rw [← valid.pages_mul_granule, ← hmul, Nat.mul_div_mul_right _ _ hgranule]
  have hle : settings.regionCount ≤ settings.reservedSize / settings.pageSize / pages :=
    hwhole ▸ Settings.regionCount_le_div settings
  rw [← valid.regionCount_eq_iff, hwhole, Strategy.idlePages_large hpos]
  calc settings.reservedSize / settings.pageSize - settings.regionCount * pages < pages
      ↔ settings.reservedSize / settings.pageSize < (settings.regionCount + 1) * pages := by
        rw [Nat.succ_mul]
        omega
    _ ↔ settings.reservedSize / settings.pageSize / pages < settings.regionCount + 1 :=
      (Nat.div_lt_iff_lt_mul hpos).symm
    _ ↔ settings.regionCount = settings.reservedSize / settings.pageSize / pages := by omega

/-- With shared pages, every page hosts as many regions as it has room for just if all whole regions
are counted. -/
theorem Valid.hosted_eq_iff (valid : settings.Valid) {regions : Nat}
    (hregions : Strategy.regionsPerPage? settings.regionSize
      (settings.pageSize * settings.commitFactor) = .ok regions) (references : GranuleTable) :
    (∀ page < settings.reservedSize / settings.pageSize,
        (Strategy.small regions references).hosted page settings.regionCount = regions) ↔
      settings.reservedSize * settings.commitFactor < Word.limit := by
  obtain ⟨hregion, hpos, hmul, -⟩ := Strategy.regionsPerPage?_eq_ok hregions
  have hwhole : settings.reservedSize * settings.commitFactor / settings.regionSize =
      settings.reservedSize / settings.pageSize * regions := by
    rw [← valid.pages_mul_granule, ← hmul, ← Nat.mul_assoc, Nat.mul_div_cancel _ hregion]
  have hle : settings.regionCount ≤ settings.reservedSize / settings.pageSize * regions :=
    hwhole ▸ Settings.regionCount_le_div settings
  have hsome : 0 < settings.reservedSize / settings.pageSize :=
    Nat.div_pos (Nat.le_of_dvd valid.reservedSize_pos valid.pageSize_dvd) valid.pageSize_pos
  rw [← valid.regionCount_eq_iff, hwhole]
  simp only [Strategy.hosted_small, Bitmap.newcomers_eq_share_iff hpos]
  constructor
  -- The last page says it for all.
  · intro hall
    have hlast := hall _ (Nat.sub_lt hsome Nat.one_pos)
    rw [Nat.sub_add_cancel hsome] at hlast
    exact Nat.le_antisymm hle hlast
  · intro hcount page hpage
    rw [hcount]
    exact Nat.mul_le_mul_right _ hpage

/-- When regions tile the reservation. For settings that are right, all whole regions of the region
space are counted just if its bytes are a word. This is when by pages of their own fewer pages are
idle than a region has, and when by shared pages every page hosts as many regions as it has room
for; one of the two is what the settings ask for. Where the bytes are no word, the regions are one
less than the words have room for. -/
theorem regions_tile_iff (valid : settings.validate = .ok ()) :
    (settings.regionCount =
        settings.reservedSize * settings.commitFactor / settings.regionSize ↔
      settings.reservedSize * settings.commitFactor < Word.limit) ∧
    (∀ pages, Strategy.pagesPerRegion? settings.regionSize
        (settings.pageSize * settings.commitFactor) = .ok pages →
      ((Strategy.large pages).idlePages (settings.reservedSize / settings.pageSize)
          settings.regionCount < pages ↔
        settings.reservedSize * settings.commitFactor < Word.limit)) ∧
    (∀ regions references, Strategy.regionsPerPage? settings.regionSize
        (settings.pageSize * settings.commitFactor) = .ok regions →
      ((∀ page < settings.reservedSize / settings.pageSize,
          (Strategy.small regions references).hosted page settings.regionCount = regions) ↔
        settings.reservedSize * settings.commitFactor < Word.limit)) ∧
    (match settings.strategyKind with
      | .large => ∃ pages, Strategy.pagesPerRegion? settings.regionSize
          (settings.pageSize * settings.commitFactor) = .ok pages
      | .small => ∃ regions, Strategy.regionsPerPage? settings.regionSize
          (settings.pageSize * settings.commitFactor) = .ok regions) ∧
    (Word.limit ≤ settings.reservedSize * settings.commitFactor →
      settings.regionCount + 1 = Word.limit / settings.regionSize) := by
  have valid := (validate_eq_ok_iff settings).mp valid
  refine ⟨valid.regionCount_eq_iff, fun _ => valid.idlePages_lt_iff,
    fun _ references hregions => valid.hosted_eq_iff hregions references, ?_,
    valid.regionCount_add_one⟩
  unfold strategyKind
  rw [valid.usesLargeRegions_eq]
  by_cases hlarge : settings.pageSize * settings.commitFactor ≤ settings.regionSize
  · rw [decide_eq_true hlarge, if_pos rfl]
    exact valid.exists_pagesPerRegion_iff.mpr hlarge
  · rw [decide_eq_false hlarge, if_neg Bool.false_ne_true]
    exact valid.exists_regionsPerPage_iff.mpr (Nat.le_of_not_le hlarge)

/-- Four regions, two on each of the two pages. -/
theorem regions_tile_of_four_regions :
    Settings.fourRegions.regionCount = 4 ∧
    ∀ references, ∀ page < 2, (Strategy.small 2 references).hosted page 4 = 2 := by
  obtain ⟨hcount, -, hsmall, -⟩ := @regions_tile_iff .fourRegions rfl
  exact ⟨hcount.mpr (by decide), fun references => (hsmall 2 references rfl).mpr (by decide)⟩

/-- Two pages, each of which backs half of a region space that is just too large for a word. -/
def fullSpace : Settings :=
  { Settings.fourRegions with regionSize := 2 ^ 62, commitFactor := 2 ^ 51 }

/-- Two regions fit on a page, but of the four there are only three, so the last page hosts one. Of
two regions as large as a page, only one is there, so a whole page is idle. -/
theorem regions_leave_gap_of_full_space :
    fullSpace.validate = .ok () ∧ fullSpace.strategyKind = .small ∧
    fullSpace.regionCount = 3 ∧
    fullSpace.reservedSize * fullSpace.commitFactor / fullSpace.regionSize = 4 ∧
    Strategy.regionsPerPage? fullSpace.regionSize
      (fullSpace.pageSize * fullSpace.commitFactor) = .ok 2 ∧
    (∀ references, (Strategy.small 2 references).hosted 1 fullSpace.regionCount = 1) ∧
    { fullSpace with regionSize := 2 ^ 63 }.validate = .ok () ∧
    Strategy.pagesPerRegion? (2 ^ 63) (fullSpace.pageSize * fullSpace.commitFactor) = .ok 1 ∧
    (Strategy.large 1).idlePages 2 { fullSpace with regionSize := 2 ^ 63 }.regionCount = 1 := by
  refine ⟨rfl, by decide, by decide, by decide, by rfl, ?_, rfl, by rfl, by decide⟩
  intro references
  rw [Strategy.hosted_small]
  decide

end Settings

end RegionBacking
