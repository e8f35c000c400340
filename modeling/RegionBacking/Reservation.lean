import RegionBacking.Os.Machine
import RegionBacking.Refusal

/-!
# Reservations

A reservation is a range of addresses of its own, aligned to its page size, that is inaccessible
until parts of it are committed. Where its pages are larger than those of the operating system, one
page more is obtained and the base is the first aligned address in it.
-/

namespace RegionBacking

/-- A range of addresses with the unit to which it is aligned. -/
structure Reservation where
  /-- The first address. -/
  base : Nat
  /-- The number of bytes. -/
  size : Nat
  /-- The alignment of the base. -/
  pageSize : Nat
deriving DecidableEq, Repr

namespace Reservation

/-- One more than the last address. -/
def limit (reservation : Reservation) : Nat := reservation.base + reservation.size

/-- Whether an address lies in the reservation. -/
def contains (reservation : Reservation) (address : Nat) : Bool :=
  decide (reservation.base ≤ address ∧ address < reservation.limit)

/-- The text of a reservation. -/
def text (reservation : Reservation) : String :=
  s!"Reservation \x7b base: {hexText reservation.base}, size: {reservation.size}, " ++
    s!"page_size: {reservation.pageSize} \x7d"

/-- The bytes that are obtained beyond the size, so that an aligned base fits. -/
def slack (pageSize : Nat) : Nat := if Word.osPage < pageSize then pageSize else 0

/-- Obtains a range of `total` bytes, makes it inaccessible and gives its first address. -/
def obtain (total : Nat) : Op Refusal Machine Nat := do
  let raw ← (Machine.reserve total).recover fun cause =>
    Op.refuse (.addressSpace (.unavailable total cause))
  (Machine.uncommit raw total).recover fun cause => do
    Machine.release raw total
    Op.refuse (.addressSpace (.unprotected cause))
  pure raw

/-- Reserves a range of `size` bytes that is aligned to `pageSize`. -/
def reserve (size pageSize : Nat) : Op Refusal Machine Reservation := do
  if size = 0 ∨ Word.isPowerOfTwo pageSize = false then
    Op.refuse (.addressSpace (.invalidRequest size pageSize))
  else if pageSize < Word.osPage then
    Op.refuse (.configuration (.pageSizeTooSmall pageSize Word.osPage))
  else
    let rounded ← Op.checked (Word.alignUp size Word.osPage)
    let total := rounded + slack pageSize
    if Word.limit ≤ total then Op.refuse (.addressSpace (.overflow size))
    else
      let raw ← obtain total
      let base ← Op.checked (Word.alignUp raw pageSize)
      Op.note (.reserved size base pageSize)
      pure ⟨base, size, pageSize⟩

/-! ## Changing the access to a range -/

/-- The range of `length` bytes from `address` has to lie in the reservation. -/
def checkRange {ε σ : Type} (reservation : Reservation) (address length : Nat) : Op ε σ Unit :=
  let stop := Word.saturatingAdd address length
  Op.require (reservation.base ≤ address && stop ≤ reservation.limit)
    (.outsideReservation address stop reservation.base reservation.limit)

/-- Makes a range of the reservation readable and writable, with zeroes in it. -/
def commitRange (reservation : Reservation) (address length : Nat) : Op OsError Machine Unit := do
  reservation.checkRange address length
  Machine.commit address length

/-- Makes a range of the reservation inaccessible. -/
def uncommitRange (reservation : Reservation) (address length : Nat) :
    Op OsError Machine Unit := do
  reservation.checkRange address length
  Machine.uncommit address length

end Reservation

end RegionBacking
