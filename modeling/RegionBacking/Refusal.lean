import RegionBacking.Os.Request
import RegionBacking.Record
import RegionBacking.Settings.Error

/-!
# Refusals

A refusal is an error that a mapper or a page store returns to its caller: the settings are no use,
memory or address space is not to be had, or memory cannot be given back. It carries its cause as
data, and `Refusal.message` is its text.
-/

namespace RegionBacking

/-- What is wrong with the arguments of a mapper or a store. -/
inductive Misfit where
  /-- The settings are wrong. -/
  | settings (error : SettingsError)
  /-- The granule is no word. -/
  | granuleOverflow
  /-- A region is no whole number of granules. -/
  | regionNotGranules (regionSize granule : Nat)
  /-- A granule is no whole number of regions. -/
  | granuleNotRegions (granule regionSize : Nat)
  /-- More is used than reserved. -/
  | usedSizeTooLarge (usedSize reservedSize : Nat)
  /-- A page is smaller than a page of the operating system. -/
  | pageSizeTooSmall (pageSize osPage : Nat)
  /-- An error that somebody else found, in words. -/
  | reported (detail : String)
deriving DecidableEq, Repr

/-- The text of a misfit. -/
def Misfit.message : Misfit → String
  | settings error => error.message
  | granuleOverflow => "commit granule overflows"
  | regionNotGranules regionSize granule =>
    s!"region size {regionSize} is not a multiple of the commit granule {granule}"
  | granuleNotRegions granule regionSize =>
    s!"commit granule {granule} is not a multiple of the region size {regionSize}"
  | usedSizeTooLarge usedSize reservedSize =>
    s!"used_size {usedSize} exceeds reserved_size {reservedSize}"
  | pageSizeTooSmall pageSize osPage =>
    s!"page size {pageSize} is smaller than the OS page size {osPage}"
  | reported detail => detail

/-- Why memory could not be given back. -/
inductive UncommitCause where
  /-- The operating system refused for the pages `[start, stop)`. -/
  | pages (start stop address : Nat) (cause : OsError)
  /-- A scripted store refused for a page. -/
  | page (page : Nat)
  /-- An error that somebody else found, in words. -/
  | reported (detail : String)
deriving DecidableEq, Repr

/-- The text of a cause. -/
def UncommitCause.message : UncommitCause → String
  | pages start stop address cause =>
    s!"pages [{start}, {stop}) at {hexText address}: {cause.message}"
  | page number => s!"page {number} refused"
  | reported detail => detail

/-- Why address space is not to be had. -/
inductive AddressSpaceCause where
  /-- No size or no page size that can be reserved. -/
  | invalidRequest (size pageSize : Nat)
  /-- The size with the slack for its alignment is no word. -/
  | overflow (size : Nat)
  /-- The operating system has no range of so many bytes. -/
  | unavailable (total : Nat) (cause : OsError)
  /-- The operating system did not make the range inaccessible. -/
  | unprotected (cause : OsError)
  /-- An error that somebody else found, in words. -/
  | reported (detail : String)
deriving DecidableEq, Repr

/-- The text of a cause. -/
def AddressSpaceCause.message : AddressSpaceCause → String
  | invalidRequest size pageSize => s!"cannot reserve {size} bytes with page size {pageSize}"
  | overflow size => s!"reservation of {size} bytes overflows"
  | unavailable total cause => s!"Failed to reserve {total} bytes: {cause.message}"
  | unprotected cause => s!"Failed to protect reservation: {cause.message}"
  | reported detail => detail

/-- An error that a mapper or a page store returns. -/
inductive Refusal where
  /-- The arguments do not fit. -/
  | configuration (misfit : Misfit)
  /-- So many bytes could not be backed; the first page of them. -/
  | outOfMemory (requested page : Nat)
  /-- Memory could not be given back. -/
  | uncommit (cause : UncommitCause)
  /-- Address space is not to be had. -/
  | addressSpace (cause : AddressSpaceCause)
deriving DecidableEq, Repr

namespace Refusal

/-- The text of a refusal. -/
def message : Refusal → String
  | configuration misfit => s!"Configuration error: {misfit.message}"
  | outOfMemory requested page =>
    s!"Out of memory: failed to commit {requested} bytes at page {page}"
  | uncommit cause => s!"Uncommit failed: {cause.message}"
  | addressSpace cause => s!"Virtual memory error: {cause.message}"

/-- Whether a mapper is of no more use; every refusal is taken for that. -/
def isFatal (_ : Refusal) : Bool := true

/-- Whether memory is what is missing. -/
def isOutOfMemory : Refusal → Bool
  | outOfMemory .. => true
  | _ => false

/-- The refusal for wrong settings. -/
def ofSettings (error : SettingsError) : Refusal := .configuration (.settings error)

end Refusal

end RegionBacking
