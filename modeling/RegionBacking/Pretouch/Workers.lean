import Mathlib.Logic.Function.Basic
import RegionBacking.Fault
import RegionBacking.Pretouch

/-!
# Workers of a pass

A pass of several workers, worker by worker. The workers share two words: a cursor, which is the
next chunk to take, and the total of the pages that were touched. Both are changed by atomic
additions only, which wrap, and the total is read when all workers are gone. So a pass is an
interleaving of steps of its workers, and a step takes a chunk, touches a page, closes a chunk that
is done, or adds to the total what the worker counted. A cursor that has wrapped gives out the first
chunks again.
-/

namespace RegionBacking.Pretoucher

/-- What the workers of a pass are given. -/
structure Job where
  start : Nat
  count : Nat
  chunkPages : Nat
  /-- The fault of a touch that fails. -/
  touch : Nat → Option Fault

namespace Job

/-- The number of chunks. -/
def chunks (job : Job) : Nat := Word.divCeil job.count job.chunkPages

/-- The pages of a chunk. -/
def chunk (job : Job) (index : Nat) : Except Fault PageRange := do
  let stop ← Word.add job.start job.count
  chunkRange job.start stop job.chunkPages index

end Job

/-- The job of a pass. -/
def job (pretoucher : Pretoucher) (start count pageSize : Nat) (touch : Nat → Option Fault) : Job :=
  ⟨start, count, pretoucher.chunkPages pageSize, touch⟩

/-- Where a worker is, and how many pages of earlier chunks it counted. -/
inductive Worker where
  /-- It takes a chunk next. -/
  | idle (counted : Nat)
  /-- It took a chunk, of which it touches `page` next. -/
  | busy (counted : Nat) (range : PageRange) (page : Nat)
  /-- It found no chunk. -/
  | leaving (counted : Nat)
  | gone
  | failed (fault : Fault)
deriving DecidableEq, Repr

/-- What the workers share. The pages that were touched are listed in the order of the touches. -/
structure Shared where
  cursor : Nat
  total : Nat
  touched : List Nat
deriving DecidableEq, Repr

namespace Worker

/-- The fault of a worker that failed. -/
def fault? : Worker → Option Fault
  | failed fault => some fault
  | _ => none

/-- A worker that makes no more steps. -/
def hasStopped : Worker → Bool
  | gone | failed _ => true
  | _ => false

/-- A worker that counts its chunk. -/
def close (counted : Nat) (range : PageRange) : Worker :=
  match Word.sub range.stop range.start >>= Word.add counted with
  | .ok counted => idle counted
  | .error fault => failed fault

/-- The next step of a worker. -/
def step (job : Job) (shared : Shared) : Worker → Option (Shared × Worker)
  | idle counted =>
    some ({ shared with cursor := (shared.cursor + 1) % Word.limit },
      if job.chunks ≤ shared.cursor then leaving counted
      else match job.chunk shared.cursor with
        | .ok range => busy counted range range.start
        | .error fault => failed fault)
  | busy counted range page =>
    if page < range.stop then
      match job.touch page with
      | none => some ({ shared with touched := shared.touched ++ [page] },
        busy counted range (page + 1))
      | some fault => some (shared, failed fault)
    else some (shared, close counted range)
  | leaving counted =>
    some ({ shared with total := (shared.total + counted) % Word.limit }, gone)
  | gone | failed _ => none

end Worker

/-- The workers of a pass, and what they share. -/
structure Crew (workers : Nat) where
  shared : Shared
  worker : Fin workers → Worker

namespace Crew

variable {workers : Nat}

/-- Workers that have not begun. -/
def fresh (workers : Nat) : Crew workers := ⟨⟨0, 0, []⟩, fun _ => .idle 0⟩

/-- The crew after a step of one worker. -/
def put (crew : Crew workers) (index : Fin workers) (next : Shared × Worker) : Crew workers :=
  ⟨next.1, Function.update crew.worker index next.2⟩

@[simp] theorem put_worker_self (crew : Crew workers) (index : Fin workers)
    (next : Shared × Worker) : (crew.put index next).worker index = next.2 :=
  Function.update_self ..

@[simp] theorem put_worker_of_ne {index other : Fin workers} (h : other ≠ index)
    (crew : Crew workers) (next : Shared × Worker) :
    (crew.put index next).worker other = crew.worker other :=
  Function.update_of_ne h ..

@[simp] theorem put_put (crew : Crew workers) (index : Fin workers) (first next : Shared × Worker) :
    (crew.put index first).put index next = crew.put index next :=
  congrArg (mk next.1) (Function.update_idem ..)

/-- A step of one worker. -/
def step (job : Job) (crew : Crew workers) (index : Fin workers) : Option (Crew workers) :=
  ((crew.worker index).step job crew.shared).map (crew.put index)

/-- Steps of the workers that a schedule names, each of which makes one when its turn comes. -/
def run (job : Job) : Crew workers → List (Fin workers) → Option (Crew workers)
  | crew, [] => some crew
  | crew, index :: later => (crew.step job index).bind fun next => next.run job later

/-- No worker makes a step any more. -/
def Finished (crew : Crew workers) : Prop := ∀ index, (crew.worker index).hasStopped = true

instance (crew : Crew workers) : Decidable crew.Finished :=
  inferInstanceAs (Decidable (∀ _, _))

/-- The report of a crew, or the faults of its workers. -/
def result (crew : Crew workers) : Except Fault PretouchReport :=
  match Fault.inOrder ((List.finRange workers).filterMap fun index => (crew.worker index).fault?) with
  | fault :: others => .error (.inWorkers (fault.together others))
  | [] => .ok ⟨crew.shared.total, workers⟩

end Crew

end RegionBacking.Pretoucher
