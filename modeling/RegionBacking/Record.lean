import RegionBacking.Fault
import RegionBacking.Level
import RegionBacking.Os.Request

/-!
# Records

A record is a line of the diagnostic log. Where an event says what a mapper did as a whole, records
follow each step down to the requests to the operating system. A record is kept as data; its text is
`Record.message`.
-/

namespace RegionBacking

/-- How a mapper divides regions into pages. -/
inductive StrategyKind where
  /-- A region has whole pages of its own. -/
  | large
  /-- Several regions share a page. -/
  | small
deriving DecidableEq, Repr

/-- The name under which a strategy is written. -/
def StrategyKind.name : StrategyKind → String
  | large => "LargeRegions"
  | small => "SmallRegions"

/-- A line of the diagnostic log. -/
inductive Record where
  /-- Address space was obtained. -/
  | reserved (size base pageSize : Nat)
  /-- A page space was set up. -/
  | spaceCreated (kind : MemoryKind) (size used pageSize : Nat) (pinned : Bool)
  /-- The operating system refused to back pages. -/
  | commitRefused (bytes page : Nat) (cause : OsError)
  /-- A page space committed the pages `[start, stop)`. -/
  | pagesCommitted (start stop address : Nat) (zeroFilled : Bool)
  /-- A page space uncommitted the pages `[start, stop)`. -/
  | pagesUncommitted (start stop address : Nat)
  /-- A shared page was committed for the first region on it. -/
  | pageAcquired (page address region : Nat)
  /-- A shared page was uncommitted with the last region on it. -/
  | pageReleased (page address region : Nat)
  /-- Several workers pretouched pages. -/
  | pretouched (pages start workers : Nat)
  /-- A mapper was set up. -/
  | mapperCreated (kind : MemoryKind) (regions regionSize pageSize : Nat) (strategy : StrategyKind)
  /-- A mapper committed the regions `[start, stop)`. -/
  | regionsCommitted (kind : MemoryKind) (start stop pages : Nat) (zeroFilled : Bool)
  /-- A mapper uncommitted the regions `[start, stop)`. -/
  | regionsUncommitted (kind : MemoryKind) (start stop pages : Nat)
deriving DecidableEq, Repr

namespace Record

/-- The level of a record. -/
def level : Record → Level
  | commitRefused .. => .error
  | spaceCreated .. | mapperCreated .. => .info
  | reserved .. | regionsCommitted .. | regionsUncommitted .. => .debug
  | pagesCommitted .. | pagesUncommitted .. | pageAcquired .. | pageReleased ..
  | pretouched .. => .trace

/-- The text of a record. The time that a pretouch takes is not modelled, so its record holds a
placeholder for it. -/
def message : Record → String
  | reserved size base pageSize =>
    s!"reserved {size} bytes at {hexText base} (page size {pageSize})"
  | spaceCreated kind size used pageSize pinned =>
    let pin := if pinned then ", pinned" else ""
    s!"virtual space for {kind.name}: {size} bytes reserved, {used} used, page size {pageSize}"
      ++ pin
  | commitRefused bytes page cause =>
    s!"OS refused to commit {bytes} bytes at page {page}: {cause.message}"
  | pagesCommitted start stop address zeroFilled =>
    s!"committed pages [{start}, {stop}) at {hexText address}, zero_filled={zeroFilled}"
  | pagesUncommitted start stop address =>
    s!"uncommitted pages [{start}, {stop}) at {hexText address}"
  | pageAcquired page address region =>
    s!"committed page {page} at {hexText address} for region {region}"
  | pageReleased page address region =>
    s!"uncommitted page {page} at {hexText address} with region {region}"
  | pretouched pages start workers =>
    s!"pretouched {pages} pages from page {start} with {workers} workers in DURATION"
  | mapperCreated kind regions regionSize pageSize strategy =>
    s!"{kind.name} mapper: {regions} regions of {regionSize} bytes over {pageSize} byte pages " ++
      s!"({strategy.name})"
  | regionsCommitted kind start stop pages zeroFilled =>
    s!"{kind.name}: committed regions [{start}, {stop}), {pages} new pages, " ++
      s!"zero_filled={zeroFilled}"
  | regionsUncommitted kind start stop pages =>
    s!"{kind.name}: uncommitted regions [{start}, {stop}), {pages} pages released"

/-- The line of a record in the log. -/
def line (record : Record) : String := record.level.label ++ " " ++ record.message

end Record

end RegionBacking
