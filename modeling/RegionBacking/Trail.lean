import RegionBacking.Event.Text
import RegionBacking.Op

/-!
# Trails

A trail keeps the latest events whose level is at most its own, up to its capacity; the oldest event
makes room for a new one. A capacity of zero is no bound at all. A trail may also write every event
that it keeps to the console, in the form for people or for programs, failures to the error stream
and all else to the output stream.

An event whose line for people cannot be written is a fault, and it is not kept.
-/

namespace RegionBacking

/-- What a trail keeps and how it writes. -/
structure TrailSettings where
  /-- The most detailed level that is kept. -/
  level : Level
  /-- Whether events are written to the console. -/
  console : Bool
  /-- Whether they are written for programs. -/
  json : Bool
  /-- Whether the time stands in front of a line. -/
  timestamps : Bool
  /-- The number of events that are kept, zero for no bound. -/
  capacity : Nat
deriving DecidableEq, Repr

/-- The settings that hold where nothing else is said. -/
def TrailSettings.standard : TrailSettings := ⟨.info, false, false, true, 4096⟩

/-- The two streams of a console. -/
inductive Stream where
  | output
  | error
deriving DecidableEq, Repr

/-- A line on the console. -/
structure ConsoleLine where
  stream : Stream
  text : String
deriving DecidableEq, Repr

/-- The latest events, the oldest first. -/
structure Trail where
  settings : TrailSettings
  events : List Event
  enabled : Bool
deriving DecidableEq, Repr

namespace Trail

/-- An empty trail that takes events. -/
def create (settings : TrailSettings) : Trail := ⟨settings, [], true⟩

/-- The trail, taking events again. -/
def enable (trail : Trail) : Trail := { trail with enabled := true }

/-- The trail, taking no events. -/
def disable (trail : Trail) : Trail := { trail with enabled := false }

/-- The trail without its events. -/
def clear (trail : Trail) : Trail := { trail with events := [] }

/-- Whether an event is taken. -/
def accepts (trail : Trail) (event : Event) : Bool :=
  trail.enabled && decide (event.level ≤ trail.settings.level)

/-- The stream that an event is written to. -/
def stream : Event → Stream
  | .commitFailure .. => .error
  | _ => .output

/-- The line that an event is written as at the time `stamp`. -/
def consoleLine (settings : TrailSettings) (stamp : String) (event : Event) :
    Except Fault ConsoleLine := do
  let front := if settings.timestamps then "[" ++ stamp ++ "] " else ""
  let line ← if settings.json then pure event.json.compact else event.human
  pure ⟨stream event, front ++ line ++ "\n"⟩

/-- The events with a new one behind them and, where there is no room, without the oldest. -/
def push (capacity : Nat) (events : List Event) (event : Event) : List Event :=
  if 0 < capacity ∧ capacity ≤ events.length then events.tail ++ [event] else events ++ [event]

/-- Takes an event at the time `stamp`. The value is the line on the console, if there is one. -/
def log {ε : Type} (stamp : String) (event : Event) : Op ε Trail (Option ConsoleLine) := do
  let trail ← Op.get
  if !trail.accepts event then pure none
  else
    let line ←
      if trail.settings.console then
        some <$> Op.checked (consoleLine trail.settings stamp event)
      else pure none
    Op.modify fun trail =>
      { trail with events := push trail.settings.capacity trail.events event }
    pure line

end Trail

end RegionBacking
