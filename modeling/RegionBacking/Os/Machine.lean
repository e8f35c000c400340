import RegionBacking.Op
import RegionBacking.Os.Memory
import RegionBacking.Os.Request
import RegionBacking.Word

/-!
# The machine

The operating system as far as a reservation sees it: the memory, the place at which it hands out
address space, and which requests it refuses. It works on whole pages, so the length of a request is
rounded up to pages. A request that is refused changes nothing. Every request is an effect, whether
it is granted or not.
-/

namespace RegionBacking

/-- The operating system. -/
structure Machine where
  memory : Memory
  /-- The address at which a range of so many bytes is handed out. -/
  place : Nat → Nat
  /-- The requests that are refused for want of memory. -/
  refuses : Request → Bool

namespace Machine

/-- A length rounded up to whole pages. -/
def wholePages (length : Nat) : Nat :=
  Word.divCeil length Word.osPage * Word.osPage

/-- The refusals of the requests of some kinds, everywhere or only where their range contains one
address. -/
def refusing (kinds : List RequestKind) (address : Option Nat) (request : Request) : Bool :=
  kinds.contains request.kind && address.all request.covers

/-- A request for a given range and the change that it makes to the memory. -/
def perform (request : Request) (change : Memory → Memory) : Op OsError Machine Unit := do
  Op.emit (.request request)
  let machine ← Op.get
  if machine.refuses request then Op.refuse .outOfMemory
  else if request.length = 0 ∨ request.address % Word.osPage ≠ 0 then
    Op.refuse .invalidArgument
  else Op.modify fun machine => { machine with memory := change machine.memory }

/-- Makes a range readable and writable, with zeroes in it. -/
def commit (address length : Nat) : Op OsError Machine Unit :=
  perform ⟨.commit, address, length⟩ fun memory =>
    memory.map address (address + wholePages length)

/-- Makes a range inaccessible. -/
def uncommit (address length : Nat) : Op OsError Machine Unit :=
  perform ⟨.uncommit, address, length⟩ fun memory =>
    memory.unmap address (address + wholePages length)

/-- Hands out address space of so many bytes, readable and writable. -/
def reserve (length : Nat) : Op OsError Machine Nat := do
  if Word.maxAllocation < length then Op.refuse .lengthOverflow
  else
    let request : Request := ⟨.reserve, 0, length⟩
    Op.emit (.request request)
    let machine ← Op.get
    if machine.refuses request || decide (Word.addressLimit ≤ length) then
      Op.refuse .outOfMemory
    else
      let address := machine.place length
      Op.modify fun machine =>
        { machine with memory := machine.memory.map address (address + wholePages length) }
      pure address

/-- Takes address space back. -/
def release (address length : Nat) {ε : Type} : Op ε Machine Unit :=
  Op.modify fun machine =>
    { machine with memory := machine.memory.unmap address (address + wholePages length) }

end Machine

end RegionBacking
