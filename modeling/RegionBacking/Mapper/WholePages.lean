import RegionBacking.Mapper.Steps

/-!
# Regions with whole pages of their own

Region `r` has the pages from `r * n` on, where `n` is the number of pages of a region. So a range
of regions has one range of pages, and the store is called once for all of them. The bits of the
regions change last.
-/

namespace RegionBacking.Mapper

variable {σ : Type} [PageStore σ]

/-- Places the pages of one region. -/
def placeRegion (pagesPerRegion region : Nat) : Op Refusal (Mapper σ) Unit := do
  let first ← Op.checked (Word.mul region pagesPerRegion)
  placePages first pagesPerRegion region

/-- Commits the regions `[start, start + count)`. -/
def commitWhole (pagesPerRegion start count : Nat) (pretoucher : Option Pretoucher) :
    Op Refusal (Mapper σ) Backing := do
  let startPage ← Op.checked (Word.mul start pagesPerRegion)
  let pages ← Op.checked (Word.mul count pagesPerRegion)
  let zeroFilled ← commitPages startPage pages
  Op.forEach (List.range' start count) (placeRegion pagesPerRegion)
  pretouchPages startPage pages pretoucher
  changeBits fun bits => bits.setRangeSteps start (start + count)
  let mapper ← Op.get
  let placements := if mapper.memoryKind.isPlaced then count else 0
  let regionBytes := PageStore.pageSize mapper.store * pagesPerRegion
  pure ⟨pages, zeroFilled, placements, placements * regionBytes⟩

/-- Uncommits the regions `[start, start + count)`. The value is the number of pages given up. -/
def uncommitWhole (pagesPerRegion start count : Nat) : Op Refusal (Mapper σ) Nat := do
  let startPage ← Op.checked (Word.mul start pagesPerRegion)
  let pages ← Op.checked (Word.mul count pagesPerRegion)
  uncommitPages startPage pages
  changeBits fun bits => bits.clearRangeSteps start (start + count)
  pure pages

end RegionBacking.Mapper
