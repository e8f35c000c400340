import RegionBacking.Op
import RegionBacking.Settings
import RegionBacking.Word

/-!
# Pretouching pages

A pass touches every page of a range once. The range is cut into chunks of a fixed number of pages.
With one worker or one chunk the pages are touched in order by the caller; otherwise the workers
take chunks until none is left, so which worker touches a chunk is left open, but what is done to a
chunk is not. A pass is therefore described chunk by chunk.

Touching a page may fail, and so may the arithmetic on a chunk. Then the rest of that chunk is left
out and the worker that took it stops. The workers that are left go on with the other chunks, so a
chunk is left out as a whole only if as many chunks before it fail as there are workers. The faults
of all workers together are the fault of the pass. Which worker finds which of them is left open, so
they are listed in the order of their texts.

The next chunk to take is told by a word that wraps. If the chunks and the workers are together more
than there are words, it can come round to the first chunk again, and then what is done depends on
how the steps of the workers interleave. A pass of several workers is described here as long as the
word does not come round.
-/

namespace RegionBacking

/-- How many workers a pass has at most and how many bytes a worker takes at a time; neither is
zero. -/
structure Pretoucher where
  workers : Nat
  chunkSize : Nat
deriving DecidableEq, Repr

/-- A half-open range of pages. -/
structure PageRange where
  start : Nat
  stop : Nat
deriving DecidableEq, Repr

/-- The number of pages of a range. -/
def PageRange.length (range : PageRange) : Nat := range.stop - range.start

/-- What came out of a pass. -/
structure PretouchReport where
  /-- Pages that were touched. -/
  pages : Nat
  /-- Workers that took part. -/
  workers : Nat
deriving DecidableEq, Repr

/-- A pass: the pages that were touched, chunk by chunk, and the report or the fault. -/
structure PretouchPass where
  touched : List PageRange
  result : Except Fault PretouchReport

namespace Pretoucher

/-- A pretoucher; zero stands for one. -/
def create (workers chunkSize : Nat) : Pretoucher := ⟨max workers 1, max chunkSize 1⟩

/-- A pretoucher with so many workers and chunks of the usual size. -/
def ofWorkers (workers : Nat) : Pretoucher := create workers Settings.standardChunkSize

/-- The pretoucher of settings, on a machine with so many processors. -/
def ofSettings (settings : Settings) (processors : Nat) : Pretoucher :=
  create (settings.pretouchWorkers processors) settings.pretouchChunkSize

/-- The pages of a chunk: at least one. -/
def chunkPages (pretoucher : Pretoucher) (pageSize : Nat) : Nat :=
  max (pretoucher.chunkSize / max pageSize 1) 1

/-- The number of chunks of a range. -/
def chunkCount (pretoucher : Pretoucher) (count pageSize : Nat) : Nat :=
  Word.divCeil count (pretoucher.chunkPages pageSize)

/-- The workers that take part in a pass over a range. -/
def workersFor (pretoucher : Pretoucher) (count pageSize : Nat) : Nat :=
  min pretoucher.workers (pretoucher.chunkCount count pageSize)

/-! ## One chunk -/

/-- The first of the `count` pages from `page` whose touch fails. -/
def firstFailure? (touch : Nat → Option Fault) (page : Nat) : Nat → Option Nat
  | 0 => none
  | count + 1 =>
    if (touch page).isSome then some page else firstFailure? touch (page + 1) count

/-- The pages of a range before the first whose touch fails, and its fault. -/
def touchRange (touch : Nat → Option Fault) (range : PageRange) : PageRange × Option Fault :=
  match firstFailure? touch range.start range.length with
  | some page => (⟨range.start, page⟩, touch page)
  | none => (range, none)

/-- The pages of chunk `chunk` of the range `[start, stop)`. -/
def chunkRange (start stop chunkPages chunk : Nat) : Except Fault PageRange := do
  let offset ← Word.mul chunk chunkPages
  let first ← Word.add start offset
  let beyond ← Word.add first chunkPages
  pure ⟨first, min beyond stop⟩

/-- What is done to a chunk: the pages that are touched, and the fault that ends it. -/
def touchChunk (touch : Nat → Option Fault) (start stop chunkPages chunk : Nat) :
    PageRange × Option Fault :=
  match chunkRange start stop chunkPages chunk with
  | .ok range => touchRange touch range
  | .error fault => (⟨start, start⟩, some fault)

/-! ## Whole passes -/

/-- A pass on the thread of the caller. -/
def serialPass (start count : Nat) (touch : Nat → Option Fault) : PretouchPass :=
  match Word.add start count with
  | .error fault => ⟨[], .error fault⟩
  | .ok stop =>
    match touchRange touch ⟨start, stop⟩ with
    | (touched, some fault) => ⟨[touched], .error fault⟩
    | (touched, none) => ⟨[touched], .ok ⟨count, 1⟩⟩

/-- How many of the chunks are taken: all of them, or those up to the one that stops the last of the
workers. Chunks are taken in ascending order, each of them once, as long as their numbers do not come
round, and each that fails stops one worker. -/
def takenChunks (fails : Nat → Bool) (chunks workers : Nat) : Nat :=
  match ((List.range chunks).filter fails)[workers - 1]? with
  | some last => last + 1
  | none => chunks

/-- A pass of several workers, of which there are at most as many as chunks, and whose chunks do not
come round. Where the end of the range is no word, every chunk fails before it touches a page, and so
every worker stops. -/
def parallelPass (start count chunkPages chunks workers : Nat) (touch : Nat → Option Fault) :
    PretouchPass :=
  match Word.add start count with
  | .error fault => ⟨[], .error (.inWorkers (fault.together (List.replicate (workers - 1) fault)))⟩
  | .ok stop =>
    let run := touchChunk touch start stop chunkPages
    let taken := takenChunks (fun chunk => (run chunk).2.isSome) chunks workers
    let done := (List.range taken).map run
    { touched := done.map (·.1)
      result :=
        match Fault.inOrder (done.filterMap (·.2)) with
        | fault :: others => .error (.inWorkers (fault.together others))
        | [] => .ok ⟨done.foldr (fun chunk total => chunk.1.length + total) 0, workers⟩ }

/-- Whether several workers take part in a pass. -/
def isParallel (pretoucher : Pretoucher) (count pageSize : Nat) : Bool :=
  decide (1 < pretoucher.workersFor count pageSize)

/-- A pass over the `count` pages from `start`, which have `pageSize` bytes. -/
def pass (pretoucher : Pretoucher) (start count pageSize : Nat) (touch : Nat → Option Fault) :
    PretouchPass :=
  if count = 0 then ⟨[], .ok ⟨0, 0⟩⟩
  else if pretoucher.isParallel count pageSize then
    parallelPass start count (pretoucher.chunkPages pageSize)
      (pretoucher.chunkCount count pageSize) (pretoucher.workersFor count pageSize) touch
  else serialPass start count touch

/-- A pass; `mark` says what the touches of a range of pages do to the state. Several workers leave
a record. -/
def run {ε σ : Type} (pretoucher : Pretoucher) (start count pageSize : Nat)
    (touch : Nat → Option Fault) (mark : σ → PageRange → σ) : Op ε σ PretouchReport := do
  let pass := pretoucher.pass start count pageSize touch
  Op.modify fun state => pass.touched.foldl mark state
  let report ← Op.checked pass.result
  if pretoucher.isParallel count pageSize then
    Op.note (.pretouched report.pages start report.workers)
  pure report

theorem chunkPages_pos (pretoucher : Pretoucher) (pageSize : Nat) :
    0 < pretoucher.chunkPages pageSize := by
  unfold chunkPages
  omega

end Pretoucher

end RegionBacking
