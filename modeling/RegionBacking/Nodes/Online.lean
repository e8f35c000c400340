import RegionBacking.Text.Blank
import RegionBacking.Text.Numeral
import RegionBacking.Text.Split

/-!
# Lists of node numbers

A machine lists its nodes as numbers and ranges of numbers with commas between them, such as
`0-3,5`. The white space around the list, around a number and around the two ends of a range does
not count. A part that is no number and no range contributes nothing, and so does a range that ends
below its start.

The numbers of a list are laid out one by one before any is dropped, in a vector that grows as they
come in. A list for which it would have to grow beyond one allocation is a fault, and the lengths of
the ranges are enough to tell. That there is memory for every allocation is taken for granted.
-/

namespace RegionBacking.Nodes

/-! ## Room -/

/-- Bytes of a number that is laid out. -/
def idBytes : Nat := 8

/-- A vector of numbers: how many there are, and for how many there is room. -/
structure Room where
  length : Nat
  capacity : Nat
deriving DecidableEq, Repr

namespace Room

/-- A vector that has nothing, and no room either. -/
def empty : Room := ⟨0, 0⟩

/-- The room of a vector that has grown for so many numbers: twice what it was or as much as they
need, and not too little. -/
def grown (room : Room) (length : Nat) : Nat := max (max (2 * room.capacity) length) 4

/-- The vector with so many more numbers, which grows only if there is no room for them. -/
def extend (room : Room) (more : Nat) : Except Fault Room :=
  let length := room.length + more
  if length ≤ room.capacity then .ok ⟨length, room.capacity⟩
  else if room.grown length * idBytes ≤ Word.maxAllocation then .ok ⟨length, room.grown length⟩
  else .error .capacityOverflow

end Room

/-! ## Lists -/

/-- The numbers from one to another, both included; there are none if the last is the smaller. -/
structure IdRange where
  first : Nat
  last : Nat
deriving DecidableEq, Repr

namespace IdRange

/-- The number of numbers in a range. -/
def length (range : IdRange) : Nat := range.last + 1 - range.first

/-- The numbers of a range. -/
def ids (range : IdRange) : List Nat := List.range' range.first range.length

theorem mem_ids {range : IdRange} {id : Nat} :
    id ∈ range.ids ↔ range.first ≤ id ∧ id ≤ range.last := by
  simp only [ids, length, List.mem_range'_1]
  omega

end IdRange

/-- The range that one part of a list stands for; a number stands for the range of itself. -/
def partRange? (part : List Char) : Option IdRange :=
  match splitFirst? '-' part with
  | some (low, high) =>
    match Numeral.parse? (trim low), Numeral.parse? (trim high) with
    | some low, some high => some ⟨low, high⟩
    | _, _ => none
  | none => (Numeral.parse? (trim part)).map fun id => ⟨id, id⟩

/-- The ranges of a list, in order. -/
def listedRanges (text : List Char) : List IdRange :=
  (((trim text).splitOn ',').filter fun part => !part.isEmpty).filterMap partRange?

/-- The numbers of a list, each once and in ascending order, if there can be room for all that is
listed. -/
def parseOnline (text : List Char) : Except Fault (List Nat) := do
  let ranges := listedRanges text
  let _ ← ranges.foldlM (fun room range => room.extend range.length) Room.empty
  pure ((ranges.flatMap IdRange.ids).mergeSort (· ≤ ·)).eraseReps

end RegionBacking.Nodes
