/-!
# Requests to the operating system

A library that manages address space makes three kinds of request: to obtain a range of addresses,
to make a range readable and writable, and to make a range inaccessible. The system may refuse any
of them.
-/

namespace RegionBacking

/-- What a request asks for. -/
inductive RequestKind where
  /-- Obtain address space. -/
  | reserve
  /-- Make a range readable and writable, with zeroes in it. -/
  | commit
  /-- Make a range inaccessible and give its contents up. -/
  | uncommit
deriving DecidableEq, Repr

/-- A request for the range of `length` bytes from `address`. A request for address space has no
address yet and names zero. -/
structure Request where
  kind : RequestKind
  address : Nat
  length : Nat
deriving DecidableEq, Repr

/-- Whether the range of a request contains an address. -/
def Request.covers (request : Request) (address : Nat) : Bool :=
  decide (request.address ≤ address ∧ address < request.address + request.length)

/-- Why the operating system did not do what it was asked. -/
inductive OsError where
  /-- There is no memory or no address space left. -/
  | outOfMemory
  /-- The range is empty or does not start at a page. -/
  | invalidArgument
  /-- The length is no signed word. -/
  | lengthOverflow
deriving DecidableEq, Repr

/-- The text of an error of the operating system. -/
def OsError.message : OsError → String
  | outOfMemory => "Cannot allocate memory (os error 12)"
  | invalidArgument => "Invalid argument (os error 22)"
  | lengthOverflow => "memory map length overflows isize"

end RegionBacking
