import RegionBacking.Mapper.Steps

/-!
# Regions that share a page

Region `r` lies on page `r / n`, where `n` is the number of regions of a page. The regions of a
range are taken one by one, in ascending order. A page is committed for the first region on it and
uncommitted with the last, and the bit of a region changes together with the references of its page.
So a batch that stops in its middle leaves the regions before that point done.
-/

namespace RegionBacking.Mapper

variable {σ : Type} [PageStore σ]

/-! ## Committing -/

/-- What a batch did so far. -/
structure Progress where
  /-- The pages that it committed, the latest first. -/
  fresh : List Nat
  /-- Whether all that it committed reads as zero. -/
  zeroFilled : Bool
deriving DecidableEq, Repr

/-- A batch that did nothing yet. -/
def Progress.start : Progress := ⟨[], true⟩

/-- Commits the page of a region that nothing refers to yet. -/
def acquirePage (page region : Nat) (progress : Progress) : Op Refusal (Mapper σ) Progress := do
  let zeroFilled ← commitPages page 1
  placePages page 1 region
  let mapper ← Op.get
  Op.note (.pageAcquired page (mapper.pageAddress page) region)
  pure ⟨page :: progress.fresh, progress.zeroFilled && zeroFilled⟩

/-- Commits one region. A page that was committed before the batch may hold anything. -/
def commitRegion (regionsPerPage : Nat) (progress : Progress) (region : Nat) :
    Op Refusal (Mapper σ) Progress := do
  let page := region / regionsPerPage
  let references ← readReferences page
  let progress ←
    if references = 0 then acquirePage page region progress
    else if progress.fresh.head? = some page then pure progress
    else pure { progress with zeroFilled := false }
  if references + 1 < entryLimit then writeReferences page (references + 1)
  else Op.fail .addOverflow
  changeBits fun bits => bits.setBitSteps region
  pure progress

/-- Pretouches from the first to the last fresh page of a batch. -/
def pretouchFresh (fresh : List Nat) (pretoucher : Option Pretoucher) :
    Op Refusal (Mapper σ) Unit :=
  match fresh.getLast?, fresh.head? with
  | some first, some last => pretouchPages first (last - first + 1) pretoucher
  | _, _ => pure ()

/-- Commits the regions `[start, start + count)`. -/
def commitShared (regionsPerPage start count : Nat) (pretoucher : Option Pretoucher) :
    Op Refusal (Mapper σ) Backing := do
  let progress ← Op.fold (commitRegion regionsPerPage) Progress.start (List.range' start count)
  pretouchFresh progress.fresh pretoucher
  let mapper ← Op.get
  let pages := progress.fresh.length
  let placements := if mapper.memoryKind.isPlaced then pages else 0
  pure ⟨pages, progress.zeroFilled, placements, placements * PageStore.pageSize mapper.store⟩

/-! ## Uncommitting -/

/-- Uncommits the page of the last region that refers to it. -/
def releasePage (page region : Nat) : Op Refusal (Mapper σ) Unit := do
  uncommitPages page 1
  let mapper ← Op.get
  Op.note (.pageReleased page (mapper.pageAddress page) region)

/-- Uncommits one region and counts the pages given up. -/
def uncommitRegion (regionsPerPage released region : Nat) : Op Refusal (Mapper σ) Nat := do
  let page := region / regionsPerPage
  let references ← readReferences page
  Op.require (references != 0) (.unreferencedPage page region)
  if references = 1 then releasePage page region
  writeReferences page (references - 1)
  changeBits fun bits => bits.clearBitSteps region
  pure (if references = 1 then released + 1 else released)

/-- Uncommits the regions `[start, start + count)`. The value is the number of pages given up. -/
def uncommitShared (regionsPerPage start count : Nat) : Op Refusal (Mapper σ) Nat :=
  Op.fold (uncommitRegion regionsPerPage) 0 (List.range' start count)

end RegionBacking.Mapper
