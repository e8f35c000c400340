import RegionBacking.Proofs.PageSpace.Contents

/-!
# Page spaces between two calls

While nobody calls a page space, the machine may come to refuse other requests, and bytes of pages
that are committed are written. Neither touches the books, and neither makes a byte inaccessible or
a clean page of a pinned space dirty.
-/

namespace RegionBacking.PageSpace

variable {space after : PageSpace}

/-- What can become of a page space between two calls. -/
inductive Meanwhile (space : PageSpace) : PageSpace → Prop where
  /-- The machine refuses other requests. -/
  | refusing (refuses : Request → Bool) : Meanwhile space (space.refusing refuses)
  /-- A byte of a committed page is written. -/
  | write (page address : Nat) (value : UInt8) (after : PageSpace)
      (committed : space.isCommitted page = true)
      (firstAddress_le : space.firstAddress page ≤ address)
      (lt_firstAddress : address < space.firstAddress (page + 1))
      (written : space.write? address value = some after) : Meanwhile space after

/-! ## The books -/

/-- A space after a write differs in the memory only. -/
theorem of_write {address : Nat} {value : UInt8} (h : space.write? address value = some after) :
    ∃ machine : Machine, after = { space with machine } ∧
      ∀ other, after.read other = if other = address then some value else space.read other := by
  unfold write? Memory.write? at h
  split at h
  · cases h
    refine ⟨_, rfl, ?_⟩
    intro other
    -- One byte is a range of length one.
    exact (Memory.read_fill _ _ _ _ _).trans (if_congr (by omega) rfl rfl)
  · cases h

/-- Only an accessible byte is written. -/
theorem isSome_of_write {address : Nat} {value : UInt8}
    (h : space.write? address value = some after) : (space.read address).isSome = true := by
  unfold write? Memory.write? at h
  split at h
  · next haccessible => exact haccessible
  · cases h

/-- An accessible byte can be written. -/
theorem write?_eq_some {address : Nat} {value : UInt8}
    (h : (space.read address).isSome = true) :
    space.write? address value = some (space.fill address (address + 1) value) := by
  have hmemory : space.machine.memory.write? address value =
      some (space.machine.memory.fill address (address + 1) value) := if_pos h
  rw [write?, hmemory]
  rfl

theorem Meanwhile.of_machine (meanwhile : space.Meanwhile after) :
    ∃ machine : Machine, after = { space with machine } := by
  cases meanwhile with
  | refusing refuses => exact ⟨_, rfl⟩
  | write page address value after _ _ _ written =>
    obtain ⟨machine, hafter, -⟩ := of_write written
    exact ⟨machine, hafter⟩

theorem harmless_meanwhile : Harmless Meanwhile := by
  intro space after meanwhile sound
  obtain ⟨machine, rfl⟩ := meanwhile.of_machine
  exact sameBacking_of_machine sound machine

/-! ## The bytes -/

/-- An address belongs to one page only. -/
theorem page_unique {page other address : Nat} (hfirst : space.firstAddress page ≤ address)
    (hlast : address < space.firstAddress (page + 1))
    (hfirst' : space.firstAddress other ≤ address)
    (hlast' : address < space.firstAddress (other + 1)) : page = other := by
  by_contra hne
  rcases Nat.lt_or_gt_of_ne hne with hlt | hgt
  · have := space.firstAddress_mono (show page + 1 ≤ other by omega)
    omega
  · have := space.firstAddress_mono (show other + 1 ≤ page by omega)
    omega

theorem Meanwhile.legible (meanwhile : space.Meanwhile after) (sound : space.Sound)
    (legible : space.Legible) : after.Legible := by
  cases meanwhile with
  | refusing refuses =>
    exact legible.of_machine fun _ => rfl
  | write page address value after committed hfirst hlast written =>
    obtain ⟨machine, rfl, hread⟩ := of_write written
    rw [sound.isCommitted_eq] at committed
    constructor
    · intro other byte used hcommitted
      rw [hread]
      split
      · exact ⟨value, rfl⟩
      · exact legible.accessible other byte ⟨used.1, used.2, used.3⟩ hcommitted
    · intro hpinned other byte used hclear hclean
      rw [hread, if_neg]
      · exact legible.clean hpinned other byte ⟨used.1, used.2, used.3⟩ hclear hclean
      · intro hsame
        subst hsame
        -- Only committed pages are written, so the byte is none of this page.
        obtain rfl := page_unique hfirst hlast used.1 used.2
        rw [show space.committed.bit page = false from hclear] at committed
        cases committed

end RegionBacking.PageSpace
