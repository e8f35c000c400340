import RegionBacking.MemoryKind
import RegionBacking.Word

/-!
# Settings

The settings of a mapper fix its geometry. A page is the unit in which memory is backed; the granule
is the part of the region space that one page backs, the page size times the commit factor. So the
region space is as large as the reservation times the commit factor, and it is divided into regions
of one size.
-/

namespace RegionBacking

/-- The settings of a mapper. -/
structure Settings where
  /-- Bytes of address space. -/
  reservedSize : Nat
  /-- Bytes at the start of the reservation that may be committed. -/
  usedSize : Nat
  /-- Bytes of a page. -/
  pageSize : Nat
  /-- Bytes of a region in the region space. -/
  regionSize : Nat
  /-- Bytes of region space that one byte of the reservation backs. -/
  commitFactor : Nat
  /-- What the memory holds. -/
  memoryKind : MemoryKind
  /-- Whether fresh pages are pretouched. -/
  alwaysPretouch : Bool
  /-- Workers of a pretouch, or none to take as many as the machine offers. -/
  pretouchThreads : Option Nat
  /-- Bytes that a worker of a pretouch takes at a time. -/
  pretouchChunkSize : Nat
  /-- Whether the nodes of the machine are looked up. -/
  nodeAware : Bool
  /-- Whether all memory is committed when the space is set up. -/
  preCommitted : Bool
deriving DecidableEq, Repr

namespace Settings

/-- Bytes of a mebibyte. -/
def mebibyte : Nat := 1024 * 1024

/-- Bytes that a worker of a pretouch takes at a time unless it is told otherwise. -/
def standardChunkSize : Nat := 4 * mebibyte

/-- The number of workers on a machine with so many processors: at least one and at most eight. -/
def workersFor (processors : Nat) : Nat := max 1 (min processors 8)

/-- The settings that hold where nothing else is said, on a machine with so many processors. -/
def standard (processors : Nat) : Settings where
  reservedSize := 64 * mebibyte
  usedSize := 64 * mebibyte
  pageSize := Word.osPage
  regionSize := 2 * mebibyte
  commitFactor := 1
  memoryKind := .heap
  alwaysPretouch := false
  pretouchThreads := some (workersFor processors)
  pretouchChunkSize := standardChunkSize
  nodeAware := true
  preCommitted := false

/-- Bytes of region space that one page backs, if that is a word. -/
def granule? (settings : Settings) : Option Nat :=
  if settings.pageSize * settings.commitFactor < Word.limit then
    some (settings.pageSize * settings.commitFactor)
  else none

theorem granule?_eq_some_iff {settings : Settings} {granule : Nat} :
    settings.granule? = some granule ↔
      settings.pageSize * settings.commitFactor < Word.limit ∧
        settings.pageSize * settings.commitFactor = granule := by
  unfold granule?
  split <;> simp [*]

/-- The number of whole regions in the region space. A region space of more bytes than the largest
word counts as that word. -/
def regionCount (settings : Settings) : Nat :=
  if settings.regionSize = 0 then 0
  else Word.saturatingMul settings.reservedSize settings.commitFactor / settings.regionSize

/-- Whether a region has whole pages of its own. -/
def usesLargeRegions (settings : Settings) : Bool :=
  match settings.granule? with
  | some granule => decide (granule ≤ settings.regionSize)
  | none => false

/-- The number of workers of a pretouch, on a machine with so many processors. -/
def pretouchWorkers (settings : Settings) (processors : Nat) : Nat :=
  max 1 (settings.pretouchThreads.getD (workersFor processors))

end Settings

end RegionBacking
