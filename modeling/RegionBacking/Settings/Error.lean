/-!
# Errors of settings

Each constructor is one way in which settings are wrong. `SettingsError.category` groups them as
callers tell them apart, and `SettingsError.message` is their text: the heading of the category and
the detail of the cause.
-/

namespace RegionBacking

/-- The part of the settings that an error is about. -/
inductive SettingsCategory where
  | pageSize
  | regionSize
  | commitFactor
  | granularity
  | reservation
  | pretouch
  | storage
deriving DecidableEq, Repr

/-- The heading of a category. -/
def SettingsCategory.heading : SettingsCategory → String
  | pageSize => "Invalid page size"
  | regionSize => "Invalid region size"
  | commitFactor => "Invalid commit factor"
  | granularity => "Incompatible granularity"
  | reservation => "Invalid reservation"
  | pretouch => "Invalid pretouch setting"
  | storage => "Storage does not match configuration"

/-- Why settings are no use. -/
inductive SettingsError where
  /-- The page size is no power of two. -/
  | pageSizeNotPowerOfTwo (pageSize : Nat)
  /-- The region size is no power of two. -/
  | regionSizeNotPowerOfTwo (regionSize : Nat)
  /-- The commit factor is zero. -/
  | commitFactorZero
  /-- The granule is no word. -/
  | granuleOverflow (pageSize commitFactor : Nat)
  /-- Neither of the region size and the granule divides the other. -/
  | granularitiesIncompatible (regionSize granule : Nat)
  /-- The reservation is empty or no whole number of pages. -/
  | reservedSizeNotPages (reservedSize pageSize : Nat)
  /-- More is used than reserved. -/
  | usedSizeTooLarge (usedSize reservedSize : Nat)
  /-- The region space is smaller than one region. -/
  | noRegion (reservedSize regionSize : Nat)
  /-- A pretouch has no workers. -/
  | pretouchThreadsZero
  /-- A worker of a pretouch takes nothing at a time. -/
  | pretouchChunkSizeZero
  /-- The store has pages of another size. -/
  | storePageSize (store settings : Nat)
  /-- The store has another size. -/
  | storeSize (store settings : Nat)
  /-- An error that somebody else found, in words. -/
  | reported (category : SettingsCategory) (detail : String)
deriving DecidableEq, Repr

namespace SettingsError

/-- The part of the settings that an error is about. -/
def category : SettingsError → SettingsCategory
  | pageSizeNotPowerOfTwo .. => .pageSize
  | regionSizeNotPowerOfTwo .. => .regionSize
  | commitFactorZero | granuleOverflow .. => .commitFactor
  | granularitiesIncompatible .. => .granularity
  | reservedSizeNotPages .. | usedSizeTooLarge .. | noRegion .. => .reservation
  | pretouchThreadsZero | pretouchChunkSizeZero => .pretouch
  | storePageSize .. | storeSize .. => .storage
  | reported category _ => category

/-- What is wrong, without the heading. -/
def detail : SettingsError → String
  | pageSizeNotPowerOfTwo pageSize => s!"page_size {pageSize} must be a power of two"
  | regionSizeNotPowerOfTwo regionSize =>
    s!"region_granularity {regionSize} must be a power of two"
  | commitFactorZero => "commit_factor must be > 0"
  | granuleOverflow pageSize commitFactor =>
    s!"page_size * commit_factor overflows ({pageSize} * {commitFactor})"
  | granularitiesIncompatible regionSize granule =>
    s!"region_granularity {regionSize} and commit granule {granule} do not divide each other"
  | reservedSizeNotPages reservedSize pageSize =>
    s!"reserved_size {reservedSize} must be a non-zero multiple of page_size {pageSize}"
  | usedSizeTooLarge usedSize reservedSize =>
    s!"used_size {usedSize} exceeds reserved_size {reservedSize}"
  | noRegion reservedSize regionSize =>
    s!"reservation of {reservedSize} bytes holds no region of {regionSize} bytes"
  | pretouchThreadsZero => "pretouch_threads must be > 0"
  | pretouchChunkSizeZero => "pretouch_chunk_size must be > 0"
  | storePageSize store settings =>
    s!"storage page size {store} differs from configured {settings}"
  | storeSize store settings => s!"storage reserves {store} bytes, configuration {settings}"
  | reported _ detail => detail

/-- The text of an error. -/
def message (error : SettingsError) : String := s!"{error.category.heading}: {error.detail}"

end SettingsError

end RegionBacking
