import RegionBacking.Settings.ReadError
import RegionBacking.Settings.Written

/-!
# Settings in the making

While settings are read, some of their fields are known and others are not. A draft keeps the fields
that are known; it becomes settings once none is missing but the number of pretouch workers, which
is then left to the machine.
-/

namespace RegionBacking.Settings

/-! ## Fields -/

/-- A field of settings. -/
inductive Field where
  | reservedSize
  | usedSize
  | pageSize
  | regionSize
  | commitFactor
  | memoryKind
  | alwaysPretouch
  | pretouchThreads
  | pretouchChunkSize
  | nodeAware
  | preCommitted
deriving DecidableEq, Repr

namespace Field

/-- The fields, in their order. -/
def all : List Field :=
  [reservedSize, usedSize, pageSize, regionSize, commitFactor, memoryKind, alwaysPretouch,
    pretouchThreads, pretouchChunkSize, nodeAware, preCommitted]

/-- The name of a field. -/
def name : Field → String
  | reservedSize => "reserved_size"
  | usedSize => "used_size"
  | pageSize => "page_size"
  | regionSize => "region_granularity"
  | commitFactor => "commit_factor"
  | memoryKind => "memory_type"
  | alwaysPretouch => "always_pretouch"
  | pretouchThreads => "pretouch_threads"
  | pretouchChunkSize => "pretouch_chunk_size"
  | nodeAware => "numa_aware"
  | preCommitted => "pre_committed"

/-- The field of a name. -/
def ofName? (text : List Char) : Option Field := all.find? fun field => field.name.toList == text

theorem map_name_all : all.map name = fieldNames := rfl

end Field

/-- Settings of which some fields are not known yet. -/
structure Draft where
  reservedSize : Option Nat
  usedSize : Option Nat
  pageSize : Option Nat
  regionSize : Option Nat
  commitFactor : Option Nat
  memoryKind : Option MemoryKind
  alwaysPretouch : Option Bool
  pretouchThreads : Option (Option Nat)
  pretouchChunkSize : Option Nat
  nodeAware : Option Bool
  preCommitted : Option Bool

namespace Draft

/-- Settings of which no field is known. -/
def blank : Draft := ⟨none, none, none, none, none, none, none, none, none, none, none⟩

/-- Whether a field is known. -/
def has (draft : Draft) : Field → Bool
  | .reservedSize => draft.reservedSize.isSome
  | .usedSize => draft.usedSize.isSome
  | .pageSize => draft.pageSize.isSome
  | .regionSize => draft.regionSize.isSome
  | .commitFactor => draft.commitFactor.isSome
  | .memoryKind => draft.memoryKind.isSome
  | .alwaysPretouch => draft.alwaysPretouch.isSome
  | .pretouchThreads => draft.pretouchThreads.isSome
  | .pretouchChunkSize => draft.pretouchChunkSize.isSome
  | .nodeAware => draft.nodeAware.isSome
  | .preCommitted => draft.preCommitted.isSome

/-- A known field, or the error that it is missing. -/
def demand {α : Type} (field : Field) : Option α → Except ReadError α
  | some value => .ok value
  | none => .error (.missingField field.name)

/-- The settings, if no field is missing. -/
def finish (draft : Draft) : Except ReadError Settings := do
  let reservedSize ← demand .reservedSize draft.reservedSize
  let usedSize ← demand .usedSize draft.usedSize
  let pageSize ← demand .pageSize draft.pageSize
  let regionSize ← demand .regionSize draft.regionSize
  let commitFactor ← demand .commitFactor draft.commitFactor
  let memoryKind ← demand .memoryKind draft.memoryKind
  let alwaysPretouch ← demand .alwaysPretouch draft.alwaysPretouch
  let pretouchThreads := draft.pretouchThreads.getD none
  let pretouchChunkSize ← demand .pretouchChunkSize draft.pretouchChunkSize
  let nodeAware ← demand .nodeAware draft.nodeAware
  let preCommitted ← demand .preCommitted draft.preCommitted
  pure
    { reservedSize, usedSize, pageSize, regionSize, commitFactor, memoryKind, alwaysPretouch
      pretouchThreads, pretouchChunkSize, nodeAware, preCommitted }

end Draft

end RegionBacking.Settings
