import RegionBacking.Mapper.SharedPages
import RegionBacking.Mapper.WholePages

/-!
# Batches of regions

A batch commits or uncommits a range of regions. The range has to lie in the mapper, and none of its
regions may be in the state that the batch brings about; otherwise the batch is a fault and does
nothing. Where the store refuses, the batch is refused as well and stays as far as it came.

A commit that comes to its end is counted, written to the log and to the trail, and last of all the
listener hears of it.
-/

namespace RegionBacking.Mapper

variable {σ : Type} [PageStore σ]

/-! ## Before and after -/

/-- The end of a range of regions, which has to lie in the mapper. -/
def checkRegions (start count : Nat) : Op Refusal (Mapper σ) Nat := do
  let mapper ← Op.get
  Op.require (start + count ≤ mapper.regionCount)
    (.regionsOutOfRange start count mapper.regionCount)
  pure (start + count)

/-- Changes the counters. -/
def count (change : Activity → Activity) : Op Refusal (Mapper σ) Unit :=
  Op.modify fun mapper => { mapper with activity := change mapper.activity }

/-- Tells the listener that regions are committed. -/
def notify (start count : Nat) (zeroFilled : Bool) : Op Refusal (Mapper σ) Unit := do
  let mapper ← Op.get
  if mapper.listener = .live then Op.emit (.notification ⟨start, count, zeroFilled⟩)

/-! ## Committing -/

/-- Commits the pages of a range of regions by the strategy of the mapper. -/
def backRegions (start count : Nat) (pretoucher : Option Pretoucher) :
    Op Refusal (Mapper σ) Backing := do
  let mapper ← Op.get
  match mapper.strategy with
  | .large pagesPerRegion => commitWhole pagesPerRegion start count pretoucher
  | .small regionsPerPage _ => commitShared regionsPerPage start count pretoucher

/-- Counts and reports a commit that the store refused, and passes the refusal on. -/
def reportFailure (start regions : Nat) (refusal : Refusal) :
    Op Refusal (Mapper σ) Backing := do
  let mapper ← Op.get
  count Activity.commitFailure
  Op.emit (.event (.commitFailure mapper.memoryKind start regions refusal.message))
  Op.refuse refusal

/-- Counts and reports a commit. -/
def reportCommit (start regions : Nat) (backing : Backing) : Op Refusal (Mapper σ) Unit := do
  let mapper ← Op.get
  count fun activity => activity.commit regions backing.pages
  if backing.placements ≠ 0 then
    count fun activity => activity.place backing.placements
    Op.emit (.event (.placement backing.placements backing.placedBytes))
  Op.note (.regionsCommitted mapper.memoryKind start (start + regions) backing.pages
    backing.zeroFilled)
  Op.emit (.event (.commit mapper.memoryKind start regions backing.pages backing.zeroFilled))

/-- Commits the regions `[start, start + regions)`, none of which may be committed. A commit of no
regions is counted and heard, and does nothing else. -/
def commitRegions (start regions : Nat) (pretoucher : Option Pretoucher) :
    Op Refusal (Mapper σ) Unit := do
  let stop ← checkRegions start regions
  let mapper ← Op.get
  let clear ← Op.checked (mapper.committed.isRangeClear start stop)
  Op.require clear
    (.regionCommitted ((mapper.committed.findSet? start stop).getD start) start stop)
  if regions = 0 then
    count fun activity => activity.commit 0 0
    notify start 0 true
  else
    let backing ← (backRegions start regions pretoucher).recover (reportFailure start regions)
    reportCommit start regions backing
    notify start regions backing.zeroFilled

/-! ## Uncommitting -/

/-- Uncommits the pages of a range of regions by the strategy of the mapper. -/
def unbackRegions (start count : Nat) : Op Refusal (Mapper σ) Nat := do
  let mapper ← Op.get
  match mapper.strategy with
  | .large pagesPerRegion => uncommitWhole pagesPerRegion start count
  | .small regionsPerPage _ => uncommitShared regionsPerPage start count

/-- Uncommits the regions `[start, start + regions)`, all of which have to be committed. A refused
uncommit is not counted. -/
def uncommitRegions (start regions : Nat) : Op Refusal (Mapper σ) Unit := do
  let stop ← checkRegions start regions
  let mapper ← Op.get
  let set ← Op.checked (mapper.committed.isRangeSet start stop)
  Op.require set
    (.regionNotCommitted ((mapper.committed.findClear? start stop).getD start) start stop)
  let pages ← unbackRegions start regions
  count fun activity => activity.uncommit regions pages
  Op.note (.regionsUncommitted mapper.memoryKind start stop pages)
  Op.emit (.event (.uncommit mapper.memoryKind start regions pages))

end RegionBacking.Mapper
