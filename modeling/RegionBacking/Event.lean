import RegionBacking.Level
import RegionBacking.Word

/-!
# Events

An event says what a mapper did, as data: it is kept in a trail and written as text only on demand
(`RegionBacking.Event.Text`).
-/

namespace RegionBacking

/-- Nanoseconds of a second. -/
def nanosPerSecond : Nat := 1000000000

/-- A span of time, as whole seconds and the nanoseconds beyond them. -/
structure Duration where
  seconds : Nat
  nanos : Nat
  /-- The nanoseconds do not fill a second. -/
  nanos_lt : nanos < nanosPerSecond
deriving DecidableEq, Repr

namespace Duration

/-- The span of so many seconds and nanoseconds. Full seconds among the nanoseconds are carried over
to the seconds, which have to stay a word. -/
def create (seconds nanos : Nat) : Except Fault Duration :=
  let total := seconds + nanos / nanosPerSecond
  if total < Word.limit then
    .ok ⟨total, nanos % nanosPerSecond, Nat.mod_lt nanos (by decide)⟩
  else .error .spanOverflow

/-- No time at all, which is what every pass of this model takes. -/
def zero : Duration := ⟨0, 0, by decide⟩

end Duration

/-- What a mapper did. -/
inductive Event where
  /-- A mapper was set up over a reservation. -/
  | reserve (kind : MemoryKind) (reservedBytes pageSize regions : Nat)
  /-- The regions `[start, start + count)` were committed. -/
  | commit (kind : MemoryKind) (start count pages : Nat) (zeroFilled : Bool)
  /-- The regions `[start, start + count)` were uncommitted. -/
  | uncommit (kind : MemoryKind) (start count pages : Nat)
  /-- The regions `[start, start + count)` could not be committed. -/
  | commitFailure (kind : MemoryKind) (start count : Nat) (reason : String)
  /-- Pages were pretouched. -/
  | pretouch (pages workers : Nat) (elapsed : Duration)
  /-- Fresh pages were placed on nodes. -/
  | placement (requests bytes : Nat)
deriving DecidableEq, Repr

/-- The level of an event. -/
def Event.level : Event → Level
  | commitFailure .. => .error
  | reserve .. => .info
  | commit .. | uncommit .. => .debug
  | pretouch .. | placement .. => .trace

end RegionBacking
