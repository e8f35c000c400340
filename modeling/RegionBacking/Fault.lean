import RegionBacking.MemoryKind

/-!
# Faults

A fault ends an operation at the point where it is found and leaves the state as it is at that
point. It is not an error that a caller handles: it says that an argument broke a precondition or
that a quantity left the range of a machine word. Each constructor names one cause and carries what
its text shows.

Two families are told apart by `Fault.isAssertion`: faults of the bookkeeping of regions and pages,
and all others.
-/

namespace RegionBacking

/-- The hexadecimal text of a number, with its `0x` in front. -/
def hexText (n : Nat) : String := "0x" ++ String.ofList (Nat.toDigits 16 n)

/-- Why an operation could not go on. -/
inductive Fault where
  /-- A sum does not fit into a word. -/
  | addOverflow
  /-- A difference is negative. -/
  | subOverflow
  /-- A product does not fit into a word. -/
  | mulOverflow
  /-- A table or a list is larger than any allocation. -/
  | capacityOverflow
  /-- An alignment is not a power of two. -/
  | alignmentNotPowerOfTwo
  /-- The granule of a table is not a power of two. -/
  | granuleNotPowerOfTwo (granule : Nat)
  /-- A table ends below its base. -/
  | stopBelowBase (stop base : Nat)
  /-- A table has no entry at an index. -/
  | indexOutOfBounds (size index : Nat)
  /-- A bitmap has no bit at an index. -/
  | bitOutOfBounds (index size : Nat)
  /-- A range of bits is reversed or leaves its bitmap. -/
  | bitRangeOutOfBounds (start stop size : Nat)
  /-- A range of addresses leaves its reservation. -/
  | outsideReservation (start stop base limit : Nat)
  /-- A committed region lies on a page that nothing refers to. -/
  | unreferencedPage (page region : Nat)
  /-- A scripted store was asked to commit a page a second time. -/
  | pageCommittedTwice (page : Nat)
  /-- Touching a page failed. -/
  | touchFailed (page : Nat)
  /-- The seconds of a span of time do not fit into a word. -/
  | spanOverflow
  /-- A fault inside the workers of a parallel pretouch. -/
  | inWorkers (cause : Fault)
  /-- Two faults that were found side by side, in order. -/
  | both (first second : Fault)
  /-- A range of regions leaves the mapper. -/
  | regionsOutOfRange (start count total : Nat)
  /-- A region that shall be committed is committed already. -/
  | regionCommitted (region start stop : Nat)
  /-- A region that shall be uncommitted is not committed. -/
  | regionNotCommitted (region start stop : Nat)
  /-- A mapper has a listener already. -/
  | listenerBound (kind : MemoryKind)
  /-- A range of pages leaves the used part of its space. -/
  | pagesBeyondUsed (start stop committable : Nat)
  /-- Pages that shall be committed are committed already. -/
  | pagesCommitted (start stop : Nat)
  /-- Pages that shall be uncommitted are not committed. -/
  | pagesNotCommitted (start stop : Nat)
  /-- Pages that shall be pretouched are not committed. -/
  | pretouchNotCommitted (start stop : Nat)
deriving DecidableEq, Repr

namespace Fault

/-- One fault for several that were found side by side, in order. -/
def together (first : Fault) : List Fault → Fault
  | [] => first
  | second :: rest => both first (together second rest)

/-- Whether the fault belongs to the bookkeeping of regions and pages. -/
def isAssertion : Fault → Bool
  | regionsOutOfRange .. | regionCommitted .. | regionNotCommitted .. | listenerBound ..
  | pagesBeyondUsed .. | pagesCommitted .. | pagesNotCommitted .. | pretouchNotCommitted .. => true
  | _ => false

/-- The text of a fault. -/
def message : Fault → String
  | addOverflow => "attempt to add with overflow"
  | subOverflow => "attempt to subtract with overflow"
  | mulOverflow => "attempt to multiply with overflow"
  | capacityOverflow => "capacity overflow"
  | alignmentNotPowerOfTwo => "assertion failed: alignment.is_power_of_two()"
  | granuleNotPowerOfTwo granule => s!"granule {granule} must be a power of two"
  | stopBelowBase stop base => s!"end {hexText stop} below base {hexText base}"
  | indexOutOfBounds size index =>
    s!"index out of bounds: the len is {size} but the index is {index}"
  | bitOutOfBounds index size => s!"bit index {index} out of bounds for bitmap of {size} bits"
  | bitRangeOutOfBounds start stop size =>
    s!"bit range [{start}, {stop}) out of bounds for bitmap of {size} bits"
  | outsideReservation start stop base limit =>
    s!"range [{hexText start}, {hexText stop}) outside reservation [{hexText base}, {hexText limit})"
  | unreferencedPage page region =>
    s!"page {page} of committed region {region} has no references"
  | pageCommittedTwice page => s!"page {page} committed twice"
  | touchFailed page => s!"touch failed at page {page}"
  | spanOverflow => "overflow in Duration::new"
  | inWorkers cause => s!"workers: {cause.message}"
  | both first second => s!"{first.message}; {second.message}"
  | regionsOutOfRange start count total =>
    s!"regions [{start}, +{count}) out of range for {total} regions"
  | regionCommitted region start stop =>
    s!"region {region} in [{start}, {stop}) is already committed"
  | regionNotCommitted region start stop =>
    s!"region {region} in [{start}, {stop}) is not committed"
  | listenerBound kind => s!"a commit listener is already bound to the {kind.name} mapper"
  | pagesBeyondUsed start stop committable =>
    s!"pages [{start}, {stop}) beyond used size ({committable} committable pages)"
  | pagesCommitted start stop =>
    s!"Trying to commit pages [{start}, {stop}) that are already committed"
  | pagesNotCommitted start stop =>
    s!"Trying to uncommit pages [{start}, {stop}) that are not committed"
  | pretouchNotCommitted start stop =>
    s!"Trying to pretouch pages [{start}, {stop}) that are not committed"

/-- Whether the text of a fault comes before that of another one, character by character. -/
def precedes (first second : Fault) : Bool :=
  first.message.toList.lex second.message.toList fun c d => c.toNat.blt d.toNat

/-- Faults in the order of their texts, which is how faults are listed whose own order is left
open. -/
def inOrder (faults : List Fault) : List Fault :=
  faults.mergeSort fun first second => !second.precedes first

theorem inOrder_perm (faults : List Fault) : (inOrder faults).Perm faults :=
  List.mergeSort_perm faults _

end Fault

end RegionBacking
