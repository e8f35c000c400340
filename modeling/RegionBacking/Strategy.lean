import RegionBacking.GranuleTable
import RegionBacking.PageStore
import RegionBacking.Settings

/-!
# Strategies

A granule is the part of the region space that one page backs. Where a region is at least as large
as a granule, it has whole pages of its own. Where it is smaller, several regions share a page, and
a table counts for each page how many regions on it are committed; the page is committed as long as
there is one.
-/

namespace RegionBacking

/-- How regions are divided into pages. -/
inductive Strategy where
  /-- Every region has so many pages of its own. -/
  | large (pagesPerRegion : Nat)
  /-- So many regions share a page; for each page, how many of them are committed. -/
  | small (regionsPerPage : Nat) (references : GranuleTable)

/-- The strategy that settings ask for. -/
def Settings.strategyKind (settings : Settings) : StrategyKind :=
  if settings.usesLargeRegions then .large else .small

namespace Strategy

/-- Which of the two strategies it is. -/
def kind : Strategy → StrategyKind
  | large _ => .large
  | small .. => .small

/-- The pages of a region, which has to be a whole number of granules. -/
def pagesPerRegion? (regionSize granule : Nat) : Except Refusal Nat :=
  if granule = 0 ∨ regionSize < granule ∨ regionSize % granule ≠ 0 then
    .error (.configuration (.regionNotGranules regionSize granule))
  else .ok (regionSize / granule)

/-- The regions on a page; a granule has to be a whole number of regions. -/
def regionsPerPage? (regionSize granule : Nat) : Except Refusal Nat :=
  if regionSize = 0 ∨ granule < regionSize ∨ granule % regionSize ≠ 0 then
    .error (.configuration (.granuleNotRegions granule regionSize))
  else .ok (granule / regionSize)

/-- A table without references for the pages of a store. -/
def noReferences {σ : Type} [PageStore σ] (store : σ) : Except Fault GranuleTable := do
  let pageSize := PageStore.pageSize store
  let base ← PageStore.pageStart store 0
  let size ← Word.alignUp (PageStore.reservedSize store) pageSize
  let stop ← Word.add base size
  GranuleTable.create base stop pageSize

/-- The strategy of a kind for the pages of a store. -/
def create {σ τ : Type} [PageStore σ] (store : σ) (regionSize granule : Nat) :
    StrategyKind → Op Refusal τ Strategy
  | .large =>
    match pagesPerRegion? regionSize granule with
    | .ok pages => pure (.large pages)
    | .error refusal => Op.refuse refusal
  | .small =>
    match regionsPerPage? regionSize granule with
    | .ok regions => do
      let references ← Op.checked (noReferences store)
      pure (.small regions references)
    | .error refusal => Op.refuse refusal

/-- The references of the pages; where no page is shared there are none. -/
def references : Strategy → Option GranuleTable
  | large _ => none
  | small _ references => some references

/-- The strategy with other references, where there are any. -/
def withReferences (strategy : Strategy) (references : GranuleTable) : Strategy :=
  match strategy with
  | large pages => large pages
  | small regions _ => small regions references

end Strategy

end RegionBacking
