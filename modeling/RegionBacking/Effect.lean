import RegionBacking.Event
import RegionBacking.Record

/-!
# Effects

What an operation shows to the outside while it runs, apart from its result and its new state. The
effects of an operation form one list, in order, so that a statement can say which of two came
first. Each kind of effect has a view that picks it out of a trace.
-/

namespace RegionBacking

/-- A request to place the range of `size` bytes from `address` on the node of a region. -/
structure Placement where
  address : Nat
  size : Nat
  region : Nat
deriving DecidableEq, Repr

/-- What a listener hears: the regions `[start, start + count)` are committed, and whether every
byte of them reads as zero. -/
structure Notification where
  start : Nat
  count : Nat
  zeroFilled : Bool
deriving DecidableEq, Repr

/-- What a page store is asked to do. -/
inductive StoreCallKind where
  | commit
  | uncommit
  | pretouch
deriving DecidableEq, Repr

/-- A call of a page store, for the `count` pages from `start`. -/
structure StoreCall where
  kind : StoreCallKind
  start : Nat
  count : Nat
deriving DecidableEq, Repr

/-- Something that is seen outside of the state. -/
inductive Effect where
  /-- A call of a page store. -/
  | call (call : StoreCall)
  /-- A request to the operating system, granted or refused. -/
  | request (request : Request)
  /-- A line of the diagnostic log. -/
  | record (record : Record)
  /-- An event for the trail. -/
  | event (event : Event)
  /-- A request to place fresh pages. -/
  | placement (placement : Placement)
  /-- A notification of the listener. -/
  | notification (notification : Notification)
deriving DecidableEq, Repr

namespace Effect

/-- The calls of a page store in a trace. -/
def calls (trace : List Effect) : List StoreCall :=
  trace.filterMap fun
    | .call c => some c
    | _ => none

/-- The requests to the operating system in a trace. -/
def requests (trace : List Effect) : List Request :=
  trace.filterMap fun
    | .request r => some r
    | _ => none

/-- The lines of the diagnostic log in a trace. -/
def records (trace : List Effect) : List Record :=
  trace.filterMap fun
    | .record r => some r
    | _ => none

/-- The events in a trace. -/
def events (trace : List Effect) : List Event :=
  trace.filterMap fun
    | .event e => some e
    | _ => none

/-- The placements in a trace. -/
def placements (trace : List Effect) : List Placement :=
  trace.filterMap fun
    | .placement p => some p
    | _ => none

/-- The notifications in a trace. -/
def notifications (trace : List Effect) : List Notification :=
  trace.filterMap fun
    | .notification n => some n
    | _ => none

/-! ## The views of a joined trace -/

theorem calls_append (a b : List Effect) : calls (a ++ b) = calls a ++ calls b :=
  List.filterMap_append

theorem events_append (a b : List Effect) : events (a ++ b) = events a ++ events b :=
  List.filterMap_append

theorem placements_append (a b : List Effect) :
    placements (a ++ b) = placements a ++ placements b :=
  List.filterMap_append

theorem notifications_append (a b : List Effect) :
    notifications (a ++ b) = notifications a ++ notifications b :=
  List.filterMap_append

end Effect

end RegionBacking
