import RegionBacking.Word
import Std.Data.TreeMap.Lemmas

/-!
# Granule tables

A table with one small number for each granule of a range of addresses. The range may be far larger
than the memory of the machine, so only the entries that differ from zero are stored; the view
`GranuleTable.entry` gives every entry its value.
-/

namespace RegionBacking

/-- One more than the largest entry of a table. -/
def entryLimit : Nat := UInt32.size

/-- Bytes of an entry. -/
def entryBytes : Nat := 4

/-- A number for each granule of a range of addresses. -/
structure GranuleTable where
  /-- The number of entries. -/
  size : Nat
  /-- The first address of the range. -/
  base : Nat
  /-- The logarithm of the granule, to the base two. -/
  shift : Nat
  /-- The entries that were set. -/
  stored : Std.TreeMap Nat Nat

namespace GranuleTable

/-- A table of zeroes for the granules of `[base, stop)`; a granule that the range covers in part
counts. -/
def create (base stop granule : Nat) : Except Fault GranuleTable := do
  if !Word.isPowerOfTwo granule then throw (.granuleNotPowerOfTwo granule)
  if stop < base then throw (.stopBelowBase stop base)
  let size := Word.divCeil (stop - base) granule
  if size * entryBytes > Word.maxAllocation then throw .capacityOverflow
  pure ⟨size, base, granule.log2, ∅⟩

/-- The entry at an index, zero if it was never set. -/
def entry (table : GranuleTable) (index : Nat) : Nat := table.stored.getD index 0

/-- The entry at an index of the table. -/
def read (table : GranuleTable) (index : Nat) : Except Fault Nat :=
  if index < table.size then .ok (table.entry index)
  else .error (.indexOutOfBounds table.size index)

/-- The table with another entry at an index. -/
def write (table : GranuleTable) (index value : Nat) : Except Fault GranuleTable :=
  if index < table.size then .ok { table with stored := table.stored.insert index value }
  else .error (.indexOutOfBounds table.size index)

/-- The first address of a granule. -/
def addressOf (table : GranuleTable) (index : Nat) : Nat := table.base + index <<< table.shift

/-- The entries that are not zero, with their indices, in ascending order. -/
def nonzero (table : GranuleTable) : List (Nat × Nat) :=
  table.stored.toList.filter fun (_, value) => value != 0

/-- The text of a table: all entries, the base and the shift. -/
def text (table : GranuleTable) : String :=
  let entries := ", ".intercalate ((List.range table.size).map fun index =>
    toString (table.entry index))
  s!"BiasedMappedArray \x7b entries: [{entries}], base: {table.base}, shift: {table.shift} \x7d"

end GranuleTable

end RegionBacking
