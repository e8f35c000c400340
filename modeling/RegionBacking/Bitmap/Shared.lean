import Mathlib.Logic.Function.Basic
import RegionBacking.Bitmap.Edit

/-!
# A bitmap that is shared

Several callers edit one bitmap, each with an edit of its own. A word is changed in one piece, but an
edit of a range is not: between two of its steps other callers may change words, its own among them.
So what the callers do is an interleaving of their steps. The size of a bitmap never changes, and it
is all that an edit is checked against, so the check is a step as well.
-/

namespace RegionBacking.Bitmap

/-- Where a caller is with its edit. -/
inductive Caller where
  /-- It checks its edit next. -/
  | waiting (edit : Edit)
  /-- Its edit was checked, and these steps of it are left. -/
  | underway (steps : List WordStep)
  | failed (fault : Fault)

namespace Caller

/-- A caller that makes no more steps. -/
def hasStopped : Caller → Bool
  | underway [] | failed _ => true
  | waiting _ | underway (_ :: _) => false

/-- The next step of a caller. -/
def step (bitmap : Bitmap) : Caller → Option (Bitmap × Caller)
  | waiting edit =>
    match edit.steps bitmap with
    | .ok steps => some (bitmap, underway steps)
    | .error fault => some (bitmap, failed fault)
  | underway (step :: later) => some (bitmap.apply step, underway later)
  | underway [] | failed _ => none

end Caller

/-- A bitmap, and those who edit it. -/
structure Shared (callers : Nat) where
  bitmap : Bitmap
  caller : Fin callers → Caller

namespace Shared

variable {callers : Nat}

/-- Callers that have not begun. -/
def start (bitmap : Bitmap) (edits : Fin callers → Edit) : Shared callers :=
  ⟨bitmap, fun index => .waiting (edits index)⟩

/-- What is shared after a step of one caller. -/
def put (shared : Shared callers) (index : Fin callers) (next : Bitmap × Caller) :
    Shared callers :=
  ⟨next.1, Function.update shared.caller index next.2⟩

/-- A step of one caller. -/
def step (shared : Shared callers) (index : Fin callers) : Option (Shared callers) :=
  ((shared.caller index).step shared.bitmap).map (shared.put index)

/-- Steps of the callers that a schedule names, each of which makes one when its turn comes. -/
def run : Shared callers → List (Fin callers) → Option (Shared callers)
  | shared, [] => some shared
  | shared, index :: later => (shared.step index).bind fun next => next.run later

/-- No caller makes a step any more. -/
def Finished (shared : Shared callers) : Prop :=
  ∀ index, (shared.caller index).hasStopped = true

instance (shared : Shared callers) : Decidable shared.Finished :=
  inferInstanceAs (Decidable (∀ _, _))

end Shared

end RegionBacking.Bitmap
