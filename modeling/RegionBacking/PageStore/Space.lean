import RegionBacking.Bitmap
import RegionBacking.PageStore
import RegionBacking.Reservation

/-!
# Page spaces

A page space is a page store over a reservation. Only the used part of the reservation is ever
committed: the last page is cut off where the used part ends in its middle.

A page space keeps one bit for each page that is committed. A pinned space commits its whole used
part when it is set up and never gives it back, so a page of it may hold what was written before it
was uncommitted; it keeps another bit for each such dirty page.

A call that is refused or is at fault leaves the bookkeeping as it was.
-/

namespace RegionBacking

/-- A page store over a reservation. -/
structure PageSpace where
  machine : Machine
  reservation : Reservation
  /-- The bytes that may be committed. -/
  usedSize : Nat
  /-- The pages that are committed. -/
  committed : Bitmap
  /-- The pages of a pinned space that were committed before and are not now. -/
  dirty : Bitmap
  /-- Whether the memory is committed once and for all. -/
  pinned : Bool
  memoryKind : MemoryKind
  /-- The bytes of the committed pages. -/
  committedBytes : Nat

namespace PageSpace

/-! ## Setting up -/

/-- Reserves a page space. A pinned space is committed at once. -/
def reserve (reservedSize usedSize pageSize : Nat) (memoryKind : MemoryKind) (pinned : Bool) :
    Op Refusal Machine PageSpace := do
  if reservedSize < usedSize then
    Op.refuse (.configuration (.usedSizeTooLarge usedSize reservedSize))
  else
    let reservation ← Reservation.reserve reservedSize pageSize
    let pages := Word.divCeil reservedSize pageSize
    if pinned && usedSize != 0 then
      (reservation.commitRange reservation.base usedSize).recover fun cause => do
        Op.note (.commitRefused usedSize 0 cause)
        Op.refuse (.outOfMemory usedSize 0)
    Op.note (.spaceCreated memoryKind reservedSize usedSize pageSize pinned)
    let machine ← Op.get
    pure ⟨machine, reservation, usedSize, .empty pages, .empty pages, pinned, memoryKind, 0⟩

/-! ## Geometry -/

/-- The first address. -/
def base (space : PageSpace) : Nat := space.reservation.base

/-- The bytes of a page. -/
def pageSize (space : PageSpace) : Nat := space.reservation.pageSize

/-- One more than the last address that may be committed. -/
def usedLimit (space : PageSpace) : Nat := space.base + space.usedSize

/-- The number of pages that may be committed, one that is cut off included. -/
def committablePages (space : PageSpace) : Nat := Word.divCeil space.usedSize space.pageSize

/-- The bytes of the page that is cut off, zero if there is none. -/
def tailSize (space : PageSpace) : Nat := space.usedSize % space.pageSize

/-- Whether an address lies in the used part. -/
def contains (space : PageSpace) (address : Nat) : Bool :=
  decide (space.base ≤ address ∧ address < space.usedLimit)

/-- The first address of a page. -/
def pageStart (space : PageSpace) (page : Nat) : Except Fault Nat := do
  let offset ← Word.mul page space.pageSize
  Word.add space.base offset

/-- The addresses of the pages `[start, stop)`, cut off at the end of the used part. -/
def pageBounds (space : PageSpace) (start stop : Nat) : Except Fault (Nat × Nat) := do
  let first ← space.pageStart start
  let last ← space.pageStart stop
  pure (first, min last space.usedLimit)

/-! ## Bookkeeping -/

/-- Whether a page is committed. -/
def isCommitted (space : PageSpace) (page : Nat) : Bool :=
  decide (page < space.committed.size) && space.committed.bit page

/-- The number of committed pages. -/
def committedCount (space : PageSpace) : Nat := space.committed.count

/-- The end of the range of `count` pages from `start`, which has to lie in the used part. -/
def checkPages (start count : Nat) : Op Refusal PageSpace Nat := do
  let space ← Op.get
  let stop ← Op.checked (Word.add start count)
  Op.require (stop ≤ space.committablePages)
    (.pagesBeyondUsed start stop space.committablePages)
  pure stop

/-- Runs a request to the operating system. -/
def onMachine {ε α : Type} (op : Op ε Machine α) : Op ε PageSpace α :=
  op.within (·.machine) fun machine space => { space with machine }

/-- Backs the addresses `[first, last)` of the pages from `start`. -/
def back (start first last : Nat) : Op Refusal PageSpace Unit := do
  let space ← Op.get
  (onMachine (space.reservation.commitRange first (last - first))).recover fun cause => do
    Op.note (.commitRefused (last - first) start cause)
    Op.refuse (.outOfMemory (last - first) start)

/-- Gives the addresses `[first, last)` of the pages `[start, stop)` up. -/
def unback (start stop first last : Nat) : Op Refusal PageSpace Unit := do
  let space ← Op.get
  (onMachine (space.reservation.uncommitRange first (last - first))).recover fun cause =>
    Op.refuse (.uncommit (.pages start stop first cause))

/-- Commits `count` pages from `start`. The value says whether they are sure to read as zero: in a
pinned space, whether none of them is dirty. -/
def commit (start count : Nat) : Op Refusal PageSpace Bool := do
  if count = 0 then pure true
  else
    let stop ← checkPages start count
    let space ← Op.get
    let clear ← Op.checked (space.committed.isRangeClear start stop)
    Op.require clear (.pagesCommitted start stop)
    let (first, last) ← Op.checked (space.pageBounds start stop)
    let zeroFilled ←
      if space.pinned then do
        let clean ← Op.checked (space.dirty.isRangeClear start stop)
        let dirty ← Op.checked (space.dirty.clearRange start stop)
        Op.modify fun space => { space with dirty }
        pure clean
      else do
        back start first last
        pure true
    let committed ← Op.checked (space.committed.setRange start stop)
    Op.modify fun space =>
      { space with committed, committedBytes := space.committedBytes + (last - first) }
    Op.note (.pagesCommitted start stop first zeroFilled)
    pure zeroFilled

/-- Uncommits `count` pages from `start`. A pinned space keeps their memory and marks them as
dirty. -/
def uncommit (start count : Nat) : Op Refusal PageSpace Unit := do
  if count = 0 then pure ()
  else
    let stop ← checkPages start count
    let space ← Op.get
    let set ← Op.checked (space.committed.isRangeSet start stop)
    Op.require set (.pagesNotCommitted start stop)
    let (first, last) ← Op.checked (space.pageBounds start stop)
    if space.pinned then
      let dirty ← Op.checked (space.dirty.setRange start stop)
      Op.modify fun space => { space with dirty }
    else unback start stop first last
    let committed ← Op.checked (space.committed.clearRange start stop)
    let committedBytes ← Op.checked (Word.sub space.committedBytes (last - first))
    Op.modify fun space => { space with committed, committedBytes }
    Op.note (.pagesUncommitted start stop first)

/-- The fault of touching a page, whose address has to be a word. -/
def touchFault? (space : PageSpace) (page : Nat) : Option Fault :=
  match space.pageStart page with
  | .ok _ => none
  | .error fault => some fault

/-- The space after the pages of a range were touched: zero is added to the first byte of each. -/
def touch (space : PageSpace) (range : PageRange) : PageSpace :=
  let memory := space.machine.memory.touch (space.base + range.start * space.pageSize)
    range.length space.pageSize
  { space with machine := { space.machine with memory } }

/-- Touches `count` committed pages from `start`. -/
def pretouch (start count : Nat) (pretoucher : Pretoucher) :
    Op Refusal PageSpace PretouchReport := do
  let space ← Op.get
  let stop ← Op.checked (Word.add start count)
  let set ← Op.checked (space.committed.isRangeSet start stop)
  Op.require set (.pretouchNotCommitted start stop)
  pretoucher.run start count space.pageSize space.touchFault? touch

instance : PageStore PageSpace where
  reservedSize space := space.reservation.size
  pageSize := pageSize
  pageStart := pageStart
  commit := commit
  uncommit := uncommit
  pretouch := pretouch

/-! ## The bytes of a page -/

/-- The addresses of the bytes of a page, if it is committed. -/
def pageBytes? (space : PageSpace) (page : Nat) : Except Fault (Option (Nat × Nat)) :=
  if space.isCommitted page then some <$> space.pageBounds page (page + 1) else pure none

/-- The byte at an address, if it is accessible. -/
def read (space : PageSpace) (address : Nat) : Option UInt8 := space.machine.memory.read address

/-- The space with another byte at an address, if that is accessible. -/
def write? (space : PageSpace) (address : Nat) (value : UInt8) : Option PageSpace :=
  (space.machine.memory.write? address value).map fun memory =>
    { space with machine := { space.machine with memory } }

/-- The space with one value in all bytes of a range. -/
def fill (space : PageSpace) (start stop : Nat) (value : UInt8) : PageSpace :=
  let memory := space.machine.memory.fill start stop value
  { space with machine := { space.machine with memory } }

/-- The space on a machine that refuses other requests. -/
def refusing (space : PageSpace) (refuses : Request → Bool) : PageSpace :=
  { space with machine := { space.machine with refuses } }

/-! ## Text -/

/-- The text of a page space. -/
def text (space : PageSpace) : String :=
  s!"VirtualSpace \x7b reservation: {space.reservation.text}, used_size: {space.usedSize}, " ++
    s!"committed: {space.committed.text}, dirty: {space.dirty.text}, " ++
    s!"special: {space.pinned}, memory_type: {space.memoryKind.name}, " ++
    s!"committed_bytes: {space.committedBytes} \x7d"

end PageSpace

end RegionBacking
