import RegionBacking.Mapper

/-!
# Steps of a batch

What both strategies do on the way: call the store, place fresh pages on nodes, pretouch them, and
change the bits of regions and the references of pages.
-/

namespace RegionBacking.Mapper

variable {σ : Type} [PageStore σ]

/-! ## Calls of the store -/

/-- Runs an operation of the store as one call. -/
def onStore {α : Type} (call : StoreCall) (op : Op Refusal σ α) : Op Refusal (Mapper σ) α := do
  Op.emit (.call call)
  op.within (·.store) fun store mapper => { mapper with store }

/-- Commits pages of the store. -/
def commitPages (start count : Nat) : Op Refusal (Mapper σ) Bool :=
  onStore ⟨.commit, start, count⟩ (PageStore.commit start count)

/-- Uncommits pages of the store. -/
def uncommitPages (start count : Nat) : Op Refusal (Mapper σ) Unit :=
  onStore ⟨.uncommit, start, count⟩ (PageStore.uncommit start count)

/-- Pretouches fresh pages where the mapper does so and somebody is there to do it. -/
def pretouchPages (start count : Nat) (pretoucher : Option Pretoucher) :
    Op Refusal (Mapper σ) Unit := do
  let mapper ← Op.get
  match pretoucher with
  | none => pure ()
  | some pretoucher =>
    if mapper.alwaysPretouch && count != 0 then
      let report ← onStore ⟨.pretouch, start, count⟩ (PageStore.pretouch start count pretoucher)
      Op.modify fun mapper => { mapper with activity := mapper.activity.pretouch report.pages }
      Op.emit (.event (.pretouch report.pages report.workers .zero))

/-- Asks for fresh pages to be placed on the node of a region, where the mapper does so. -/
def placePages (start count region : Nat) : Op Refusal (Mapper σ) Unit := do
  let mapper ← Op.get
  if mapper.memoryKind.isPlaced then
    let size ← Op.checked (Word.mul (PageStore.pageSize mapper.store) count)
    let address ← Op.checked (PageStore.pageStart mapper.store start)
    let placement : Placement := ⟨address, size, region⟩
    Op.emit (.placement placement)
    Op.modify fun mapper => { mapper with nodes := mapper.nodes.request placement }

/-! ## Bits and references -/

/-- Changes the bits of the regions by steps that are told from the bits as they are. -/
def changeBits (steps : Bitmap → Except Fault (List WordStep)) :
    Op Refusal (Mapper σ) Unit := do
  let mapper ← Op.get
  let steps ← Op.checked (steps mapper.committed)
  Op.modify fun mapper => { mapper with committed := mapper.committed.applyAll steps }

/-- How many committed regions share a page. -/
def readReferences (page : Nat) : Op Refusal (Mapper σ) Nat := do
  let mapper ← Op.get
  match mapper.strategy.references with
  | none => pure 0
  | some references => Op.checked (references.read page)

/-- Sets how many committed regions share a page. -/
def writeReferences (page count : Nat) : Op Refusal (Mapper σ) Unit := do
  let mapper ← Op.get
  match mapper.strategy.references with
  | none => pure ()
  | some references =>
    let references ← Op.checked (references.write page count)
    Op.modify fun mapper => { mapper with strategy := mapper.strategy.withReferences references }

/-- The address that the table of references has for a page. -/
def pageAddress (mapper : Mapper σ) (page : Nat) : Nat :=
  (mapper.strategy.references.map (·.addressOf page)).getD 0

end RegionBacking.Mapper

namespace RegionBacking

/-- What a commit did to the store. -/
structure Backing where
  /-- Pages that became committed. -/
  pages : Nat
  /-- Whether every byte that was committed reads as zero. -/
  zeroFilled : Bool
  /-- Requests to place pages. -/
  placements : Nat
  /-- Bytes of these requests. -/
  placedBytes : Nat
deriving DecidableEq, Repr

end RegionBacking
