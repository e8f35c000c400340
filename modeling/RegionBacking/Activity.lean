import RegionBacking.Text.Json

/-!
# Activity counters

Nine counters of what a mapper did since it was set up. They count modulo `2 ^ 64`: a counter that
passes the largest word goes on from zero.
-/

namespace RegionBacking

/-- What a mapper did since it was set up. -/
structure Activity where
  /-- Commits that came to their end, those of no regions included. -/
  commitCalls : UInt64
  /-- Uncommits that came to their end. -/
  uncommitCalls : UInt64
  /-- Pages that became committed. -/
  pagesCommitted : UInt64
  /-- Pages that became uncommitted. -/
  pagesUncommitted : UInt64
  /-- Pages that were pretouched. -/
  pretouchedPages : UInt64
  /-- Requests to place pages on nodes. -/
  placements : UInt64
  /-- Commits that the store refused. -/
  commitFailures : UInt64
  /-- Regions that became committed. -/
  regionsCommitted : UInt64
  /-- Regions that became uncommitted. -/
  regionsUncommitted : UInt64
deriving DecidableEq, Repr

namespace Activity

/-- No activity. -/
def none : Activity := ⟨0, 0, 0, 0, 0, 0, 0, 0, 0⟩

/-- One more commit, of so many regions on so many fresh pages. -/
def commit (activity : Activity) (regions pages : Nat) : Activity :=
  { activity with
    commitCalls := activity.commitCalls + 1
    pagesCommitted := activity.pagesCommitted + UInt64.ofNat pages
    regionsCommitted := activity.regionsCommitted + UInt64.ofNat regions }

/-- One more uncommit, of so many regions that gave up so many pages. -/
def uncommit (activity : Activity) (regions pages : Nat) : Activity :=
  { activity with
    uncommitCalls := activity.uncommitCalls + 1
    pagesUncommitted := activity.pagesUncommitted + UInt64.ofNat pages
    regionsUncommitted := activity.regionsUncommitted + UInt64.ofNat regions }

/-- One more refused commit. -/
def commitFailure (activity : Activity) : Activity :=
  { activity with commitFailures := activity.commitFailures + 1 }

/-- One more pretouch pass. -/
def pretouch (activity : Activity) (pages : Nat) : Activity :=
  { activity with pretouchedPages := activity.pretouchedPages + UInt64.ofNat pages }

/-- More requests to place pages. -/
def place (activity : Activity) (requests : Nat) : Activity :=
  { activity with placements := activity.placements + UInt64.ofNat requests }

/-- The counters with their names, in the order of a report. -/
def fields (activity : Activity) : List (String × UInt64) :=
  [("commit_calls", activity.commitCalls), ("uncommit_calls", activity.uncommitCalls),
    ("pages_committed", activity.pagesCommitted), ("pages_uncommitted", activity.pagesUncommitted),
    ("pretouched_pages", activity.pretouchedPages), ("numa_requests", activity.placements),
    ("commit_failures", activity.commitFailures), ("regions_committed", activity.regionsCommitted),
    ("regions_uncommitted", activity.regionsUncommitted)]

/-- The counters as an object. -/
def json (activity : Activity) : Json :=
  .object (activity.fields.map fun (name, value) => (name, .nat value.toNat))

end Activity

end RegionBacking
