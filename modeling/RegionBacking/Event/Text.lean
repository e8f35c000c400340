import RegionBacking.Decimal.Places
import RegionBacking.Decimal.Shortest
import RegionBacking.Event
import RegionBacking.Text.Json
import RegionBacking.Word

/-!
# Events as text

An event is written for people as one line, and for programs as a JSON object whose fields are
sorted by name. The line names the end of a range of regions, which has to be a word; the object
names the count.
-/

namespace RegionBacking

/-- A span of time in milliseconds, as a double. -/
def Duration.milliseconds (elapsed : Duration) : Float :=
  ((UInt64.ofNat elapsed.seconds).toFloat + (UInt64.ofNat elapsed.nanos).toFloat / 1e9) * 1000.0

namespace Event

/-- The line of an event for people. -/
def human : Event → Except Fault String
  | reserve kind reservedBytes pageSize regions =>
    pure <| s!"[Mapper] {kind.name}: reserved {reservedBytes} bytes, page size {pageSize}, " ++
      s!"{regions} regions"
  | commit kind start count pages zeroFilled => do
    let stop ← Word.add start count
    pure <| s!"[Mapper] {kind.name}: committed regions [{start}, {stop}) " ++
      s!"({pages} pages, zero_filled={zeroFilled})"
  | uncommit kind start count pages => do
    let stop ← Word.add start count
    pure s!"[Mapper] {kind.name}: uncommitted regions [{start}, {stop}) ({pages} pages)"
  | commitFailure kind start count reason => do
    let stop ← Word.add start count
    pure s!"[Mapper] {kind.name}: commit of regions [{start}, {stop}) failed: {reason}"
  | pretouch pages workers elapsed =>
    let milliseconds := Places.text 2 elapsed.milliseconds
    pure s!"[Mapper] Pretouched {pages} pages with {workers} workers ({milliseconds}ms)"
  | placement requests bytes =>
    pure s!"[Mapper] NUMA: {requests} placement requests, {bytes} bytes"

/-- The fields of an event. -/
def fields : Event → List (String × Json)
  | reserve kind reservedBytes pageSize regions =>
    [("type", .text "reserve"), ("memory_type", .text kind.name),
      ("reserved_bytes", .nat reservedBytes), ("page_size", .nat pageSize),
      ("num_regions", .nat regions)]
  | commit kind start count pages zeroFilled =>
    [("type", .text "commit"), ("memory_type", .text kind.name), ("start", .nat start),
      ("count", .nat count), ("pages", .nat pages), ("zero_filled", .bool zeroFilled)]
  | uncommit kind start count pages =>
    [("type", .text "uncommit"), ("memory_type", .text kind.name), ("start", .nat start),
      ("count", .nat count), ("pages", .nat pages)]
  | commitFailure kind start count reason =>
    [("type", .text "commit_failure"), ("memory_type", .text kind.name), ("start", .nat start),
      ("count", .nat count), ("reason", .text reason)]
  | pretouch pages workers elapsed =>
    [("type", .text "pretouch"), ("pages", .nat pages), ("workers", .nat workers),
      ("duration_ms", .number (Shortest.chars elapsed.milliseconds))]
  | placement requests bytes =>
    [("type", .text "numa_placement"), ("requests", .nat requests), ("bytes", .nat bytes)]

/-- The object of an event for programs, its fields sorted by name. -/
def json (event : Event) : Json := .sorted event.fields

end Event

end RegionBacking
