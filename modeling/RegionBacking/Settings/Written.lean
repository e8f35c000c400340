import RegionBacking.Settings
import RegionBacking.Text.Json

/-!
# Written settings

Settings are written as a JSON object with one field for each setting, in a fixed order. The number
of pretouch workers is `null` where it is left to the machine.
-/

namespace RegionBacking.Settings

/-- The names of the fields, in their order. -/
def fieldNames : List String :=
  ["reserved_size", "used_size", "page_size", "region_granularity", "commit_factor", "memory_type",
    "always_pretouch", "pretouch_threads", "pretouch_chunk_size", "numa_aware", "pre_committed"]

/-- The values of the fields, in their order. -/
def fieldValues (settings : Settings) : List Json :=
  [.nat settings.reservedSize, .nat settings.usedSize, .nat settings.pageSize,
    .nat settings.regionSize, .nat settings.commitFactor, .text settings.memoryKind.name,
    .bool settings.alwaysPretouch, (settings.pretouchThreads.map Json.nat).getD .null,
    .nat settings.pretouchChunkSize, .bool settings.nodeAware, .bool settings.preCommitted]

/-- The settings as an object. -/
def json (settings : Settings) : Json := .object (fieldNames.zip settings.fieldValues)

end RegionBacking.Settings
