/-!
# Memory

The bytes of an address space. A byte is inaccessible or holds a value. Memory is kept as the list
of changes that were made to it, the latest first. A change gives one content to a range of
addresses, or it touches the bytes at evenly spaced addresses, which adds zero to each of them. A
byte that no change reaches is inaccessible. So mapping a large range costs one entry, and so does
touching all pages of one. `Memory.read` is the view.
-/

namespace RegionBacking

/-- A change of memory. -/
inductive Patch where
  /-- Gives all bytes of `[start, stop)` one content, or makes them inaccessible. -/
  | set (start stop : Nat) (content : Option UInt8)
  /-- Adds zero to the bytes at `count` addresses from `first` on, `stride` apart. -/
  | touch (first count stride : Nat)
deriving DecidableEq, Repr

/-- Whether a change reaches an address. -/
def Patch.covers (patch : Patch) (address : Nat) : Bool :=
  match patch with
  | set start stop _ => decide (start ≤ address ∧ address < stop)
  | touch first count stride =>
    decide (first ≤ address ∧ (address - first) % stride = 0 ∧ (address - first) / stride < count)

/-- The bytes of an address space. -/
structure Memory where
  /-- The changes, the latest first. -/
  patches : List Patch
deriving DecidableEq, Repr

namespace Memory

/-- Memory with no accessible byte. -/
def empty : Memory := ⟨[]⟩

/-- The content of a byte under a list of changes. -/
def readPatches (patches : List Patch) (address : Nat) : Option UInt8 :=
  match patches with
  | [] => none
  | patch :: older =>
    if patch.covers address then
      match patch with
      | .set _ _ content => content
      | .touch .. => (readPatches older address).map (· + 0)
    else readPatches older address

/-- The byte at an address, if it is accessible. -/
def read (memory : Memory) (address : Nat) : Option UInt8 := readPatches memory.patches address

/-- The memory with another content of a range. -/
def change (memory : Memory) (start stop : Nat) (content : Option UInt8) : Memory :=
  ⟨.set start stop content :: memory.patches⟩

/-- The memory with zeroes in a range, all of it accessible. -/
def map (memory : Memory) (start stop : Nat) : Memory := memory.change start stop (some 0)

/-- The memory with an inaccessible range. -/
def unmap (memory : Memory) (start stop : Nat) : Memory := memory.change start stop none

/-- The memory with one value in all bytes of a range. -/
def fill (memory : Memory) (start stop : Nat) (value : UInt8) : Memory :=
  memory.change start stop (some value)

/-- The memory with another byte at an address, if that is accessible. -/
def write? (memory : Memory) (address : Nat) (value : UInt8) : Option Memory :=
  if (memory.read address).isSome then some (memory.fill address (address + 1) value) else none

/-- The memory after the bytes at `count` addresses from `first` on, `stride` apart, were touched.
Touches that follow each other at the same distance are one change. -/
def touch (memory : Memory) (first count stride : Nat) : Memory :=
  match memory.patches with
  | .touch first' count' stride' :: older =>
    if stride' = stride ∧ first' + count' * stride = first then
      ⟨.touch first' (count' + count) stride :: older⟩
    else ⟨.touch first count stride :: memory.patches⟩
  | _ => ⟨.touch first count stride :: memory.patches⟩

/-- The sum of the bytes of `[start, stop)` under a list of changes; an inaccessible byte counts as
zero. A change of a range splits it into the part that it decides and the parts beside it; touches
add nothing. -/
def sumPatches (patches : List Patch) (start stop : Nat) : Nat :=
  match patches with
  | [] => 0
  | .set first last content :: older =>
    if stop ≤ start then 0
    else
      let low := max start first
      let high := min stop last
      if high ≤ low then sumPatches older start stop
      else
        sumPatches older start low + (high - low) * (content.getD 0).toNat +
          sumPatches older high stop
  | .touch .. :: older => sumPatches older start stop

/-- The sum of the bytes of `[start, stop)`. -/
def sum (memory : Memory) (start stop : Nat) : Nat := sumPatches memory.patches start stop

theorem read_change (memory : Memory) (start stop : Nat) (content : Option UInt8)
    (address : Nat) :
    (memory.change start stop content).read address =
      if start ≤ address ∧ address < stop then content else memory.read address := by
  simp [read, change, readPatches, Patch.covers]

/-- Touching changes no byte. -/
theorem read_touch (memory : Memory) (first count stride address : Nat) :
    (memory.touch first count stride).read address = memory.read address := by
  have hadd : ∀ (patches : List Patch) (first count : Nat),
      readPatches (.touch first count stride :: patches) address = readPatches patches address := by
    intro patches first count
    simp only [readPatches]
    split
    · cases readPatches patches address with
      | none => rfl
      | some byte => simp
    · rfl
  unfold read touch
  split
  · next first' count' stride' older hpatches =>
    split
    · next hjoined =>
      obtain ⟨rfl, -⟩ := hjoined
      rw [hpatches, hadd, hadd]
    · exact hadd _ _ _
  · exact hadd _ _ _

theorem read_map (memory : Memory) (start stop address : Nat) :
    (memory.map start stop).read address =
      if start ≤ address ∧ address < stop then some 0 else memory.read address :=
  read_change memory start stop (some 0) address

theorem read_unmap (memory : Memory) (start stop address : Nat) :
    (memory.unmap start stop).read address =
      if start ≤ address ∧ address < stop then none else memory.read address :=
  read_change memory start stop none address

theorem read_fill (memory : Memory) (start stop : Nat) (value : UInt8) (address : Nat) :
    (memory.fill start stop value).read address =
      if start ≤ address ∧ address < stop then some value else memory.read address :=
  read_change memory start stop (some value) address

end Memory

end RegionBacking
