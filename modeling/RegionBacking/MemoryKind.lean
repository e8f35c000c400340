/-!
# What a reservation holds

A mapper backs one kind of memory. The kind names the records and events of the mapper and decides
whether its pages are spread over the memory nodes of the machine: only heap pages are.
-/

namespace RegionBacking

/-- What the memory of a reservation is used for. -/
inductive MemoryKind where
  /-- The object heap, the only kind that is placed on nodes. -/
  | heap
  /-- The bitmap of marked objects. -/
  | markBitmap
  /-- The table of dirty cards. -/
  | cardTable
  /-- The table of block offsets. -/
  | offsetTable
  /-- Any other side table. -/
  | auxiliary
deriving DecidableEq, Repr

namespace MemoryKind

/-- All kinds, in the order in which error texts list them. -/
def all : List MemoryKind := [heap, markBitmap, cardTable, offsetTable, auxiliary]

/-- The name under which a kind is written and read. -/
def name : MemoryKind → String
  | heap => "Heap"
  | markBitmap => "MarkBitmap"
  | cardTable => "CardTable"
  | offsetTable => "OffsetTable"
  | auxiliary => "Auxiliary"

/-- The kind that is written `text`. -/
def ofName? (text : String) : Option MemoryKind := all.find? (fun kind => kind.name == text)

/-- Whether fresh pages of this kind are placed on a node. -/
def isPlaced : MemoryKind → Bool
  | heap => true
  | _ => false

theorem ofName?_name (kind : MemoryKind) : ofName? kind.name = some kind := by
  cases kind <;> decide

end MemoryKind

end RegionBacking
