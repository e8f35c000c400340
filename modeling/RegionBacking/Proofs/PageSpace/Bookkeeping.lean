import RegionBacking.PageStore.Space
import RegionBacking.Proofs.Bitmap.Ranges
import Mathlib.Algebra.BigOperators.Intervals

/-!
# The books of a page space

`PageSpace.Sound` says that a page space keeps its books in order: its bitmaps have one bit for each
page, only pages of the used part are committed, and the committed bytes are the sum over the
committed pages. `acquired` and `released` are the spaces after pages were committed and
uncommitted, as `RegionBacking.Proofs.PageSpace.Calls` shows; here they are shown to keep the books
in order.
-/

namespace RegionBacking.PageSpace

open Finset

/-! ## Geometry -/

/-- The used bytes before a page. -/
def usedBefore (space : PageSpace) (page : Nat) : Nat := min (page * space.pageSize) space.usedSize

/-- The used bytes of a page. -/
def usedBytes (space : PageSpace) (page : Nat) : Nat :=
  space.usedBefore (page + 1) - space.usedBefore page

/-- The first address of a page, where the addresses of the space are words. -/
def firstAddress (space : PageSpace) (page : Nat) : Nat := space.base + page * space.pageSize

/-- The used bytes of the pages `[start, stop)`. -/
def usedSpan (space : PageSpace) (start stop : Nat) : Nat :=
  min (space.firstAddress stop) space.usedLimit - space.firstAddress start

theorem firstAddress_mono (space : PageSpace) : Monotone space.firstAddress := fun _ _ h =>
  Nat.add_le_add_left (Nat.mul_le_mul_right _ h) _

theorem usedBefore_mono (space : PageSpace) : Monotone space.usedBefore := by
  intro p q h
  have := Nat.mul_le_mul_right space.pageSize h
  unfold usedBefore
  omega

/-- A page lies before the end of the used part just if it begins there. -/
theorem lt_committablePages_iff {space : PageSpace} (hpos : 0 < space.pageSize) (page : Nat) :
    page < space.committablePages ↔ page * space.pageSize < space.usedSize := by
  unfold committablePages Word.divCeil
  rw [← Nat.succ_le_iff, Nat.le_div_iff_mul_le hpos, Nat.succ_mul]
  omega

/-- The bytes of a page up to the end of the used part. -/
theorem usedBytes_eq (space : PageSpace) (page : Nat) :
    space.usedBytes page =
      min ((page + 1) * space.pageSize) space.usedSize - page * space.pageSize := by
  have hmul : page * space.pageSize ≤ (page + 1) * space.pageSize :=
    Nat.mul_le_mul_right _ (Nat.le_succ page)
  unfold usedBytes usedBefore
  omega

/-- A page that begins in the used part has bytes of it. -/
theorem usedBytes_pos {space : PageSpace} (hpos : 0 < space.pageSize) {page : Nat}
    (h : page < space.committablePages) : 0 < space.usedBytes page := by
  have hbegins := (lt_committablePages_iff hpos page).mp h
  rw [usedBytes_eq, Nat.succ_mul]
  omega

/-- The used bytes of a range of pages are those of its pages. -/
theorem sum_usedBytes (space : PageSpace) {start stop : Nat} (h : start ≤ stop) :
    ∑ page ∈ Ico start stop, space.usedBytes page =
      space.usedBefore stop - space.usedBefore start := by
  -- The sum telescopes: the used bytes of a page are those up to its end less those before it.
  induction stop, h using Nat.le_induction with
  | base => simp
  | succ stop h ih =>
    have hstart := space.usedBefore_mono h
    have hstop : space.usedBefore stop ≤ space.usedBefore (stop + 1) :=
      space.usedBefore_mono (Nat.le_succ stop)
    rw [sum_Ico_succ_top h, ih, usedBytes]
    omega

theorem usedSpan_eq {space : PageSpace} (hpos : 0 < space.pageSize) {start stop : Nat}
    (h : start < stop) (hstop : stop ≤ space.committablePages) :
    space.usedSpan start stop = space.usedBefore stop - space.usedBefore start := by
  -- The range begins in the used part, so only its end may be cut off there.
  have hstart := (lt_committablePages_iff hpos start).mp (by omega)
  simp only [usedSpan, usedBefore, firstAddress, usedLimit]
  omega

/-! ## Sound books -/

/-- The committed pages. -/
def committedSet (space : PageSpace) : Finset Nat :=
  (range space.committablePages).filter fun page => space.committed.bit page = true

/-- The books of a page space are in order. -/
structure Sound (space : PageSpace) : Prop where
  pageSize_pos : 0 < space.pageSize
  /-- Pages are whole pages of the operating system. -/
  pageSize_aligned : Word.osPage ∣ space.pageSize
  base_aligned : Word.osPage ∣ space.base
  usedSize_le : space.usedSize ≤ space.reservation.size
  size_committed : space.committed.size = Word.divCeil space.reservation.size space.pageSize
  size_dirty : space.dirty.size = Word.divCeil space.reservation.size space.pageSize
  /-- Only pages of the used part are committed. -/
  lt_committable : ∀ page, space.committed.bit page = true → page < space.committablePages
  /-- The addresses of committed pages are words, and so is the one behind them. -/
  address_lt : ∀ page, space.committed.bit page = true → space.firstAddress (page + 1) < Word.limit
  /-- Only pinned spaces have dirty pages. -/
  dirty_pinned : ∀ page, space.dirty.bit page = true →
    space.pinned = true ∧ page < space.committablePages
  committedBytes_eq : space.committedBytes = ∑ page ∈ space.committedSet, space.usedBytes page

namespace Sound

variable {space : PageSpace}

theorem committablePages_le (sound : space.Sound) :
    space.committablePages ≤ space.committed.size := by
  rw [sound.size_committed, committablePages]
  exact Nat.div_le_div_right (by have := sound.usedSize_le; omega)

theorem committablePages_le_dirty (sound : space.Sound) :
    space.committablePages ≤ space.dirty.size := by
  rw [sound.size_dirty, ← sound.size_committed]
  exact sound.committablePages_le

theorem tidy (sound : space.Sound) : space.committed.Tidy := fun page hpage =>
  Nat.lt_of_lt_of_le (sound.lt_committable page hpage) sound.committablePages_le

theorem isCommitted_eq (sound : space.Sound) (page : Nat) :
    space.isCommitted page = space.committed.bit page := by
  unfold isCommitted
  cases hbit : space.committed.bit page
  · simp
  · simp [sound.tidy page hbit]

/-- The machine has no part in the books. -/
theorem of_machine (sound : space.Sound) (machine : Machine) :
    ({ space with machine } : PageSpace).Sound :=
  ⟨sound.pageSize_pos, sound.pageSize_aligned, sound.base_aligned, sound.usedSize_le,
    sound.size_committed, sound.size_dirty, sound.lt_committable, sound.address_lt,
    sound.dirty_pinned, sound.committedBytes_eq⟩

theorem not_dirty (sound : space.Sound) (hpinned : space.pinned = false) (page : Nat) :
    space.dirty.bit page = false := by
  rw [← Bool.not_eq_true]
  intro hbit
  rw [(sound.dirty_pinned page hbit).1] at hpinned
  cases hpinned

theorem mem_committedSet (sound : space.Sound) (page : Nat) :
    page ∈ space.committedSet ↔ space.committed.bit page = true := by
  rw [committedSet, mem_filter, mem_range]
  exact ⟨fun h => h.2, fun h => ⟨sound.lt_committable page h, h⟩⟩

end Sound

/-! ## The space after a call -/

/-- The memory in which the pages `[start, stop)` read as zero. -/
def zeroedMemory (space : PageSpace) (start stop : Nat) : Memory :=
  space.machine.memory.map (space.firstAddress start)
    (space.firstAddress start + Machine.wholePages (space.usedSpan start stop))

/-- The memory in which the pages `[start, stop)` are inaccessible. -/
def closedMemory (space : PageSpace) (start stop : Nat) : Memory :=
  space.machine.memory.unmap (space.firstAddress start)
    (space.firstAddress start + Machine.wholePages (space.usedSpan start stop))

/-- The space after the pages `[start, stop)` were committed. -/
def acquired (space : PageSpace) (start stop : Nat) : PageSpace :=
  { space with
    machine := if space.pinned then space.machine
      else { space.machine with memory := space.zeroedMemory start stop }
    committed := space.committed.fill start stop
    dirty := if space.pinned then space.dirty.wipe start stop else space.dirty
    committedBytes := space.committedBytes + space.usedSpan start stop }

/-- The space after the pages `[start, stop)` were uncommitted. -/
def released (space : PageSpace) (start stop : Nat) : PageSpace :=
  { space with
    machine := if space.pinned then space.machine
      else { space.machine with memory := space.closedMemory start stop }
    committed := space.committed.wipe start stop
    dirty := if space.pinned then space.dirty.fill start stop else space.dirty
    committedBytes := space.committedBytes - space.usedSpan start stop }

section acquired

variable {space : PageSpace} {start stop : Nat}

@[simp] theorem committablePages_acquired :
    (space.acquired start stop).committablePages = space.committablePages := rfl

@[simp] theorem usedBytes_acquired (page : Nat) :
    (space.acquired start stop).usedBytes page = space.usedBytes page := rfl

theorem size_dirty_acquired : (space.acquired start stop).dirty.size = space.dirty.size := by
  unfold acquired
  cases space.pinned <;> simp

theorem bit_committed_acquired (sound : space.Sound) (hstop : stop ≤ space.committablePages)
    (page : Nat) :
    (space.acquired start stop).committed.bit page =
      (space.committed.bit page || decide (start ≤ page ∧ page < stop)) :=
  Bitmap.bit_fill (Nat.le_trans hstop sound.committablePages_le) page

theorem bit_dirty_acquired (sound : space.Sound) (hstop : stop ≤ space.committablePages)
    (page : Nat) :
    (space.acquired start stop).dirty.bit page =
      (space.dirty.bit page && !(space.pinned && decide (start ≤ page ∧ page < stop))) := by
  unfold acquired
  cases space.pinned
  · simp
  · simpa using Bitmap.bit_wipe (Nat.le_trans hstop sound.committablePages_le_dirty) page

theorem committedSet_acquired (sound : space.Sound) (hstop : stop ≤ space.committablePages) :
    (space.acquired start stop).committedSet = space.committedSet ∪ Ico start stop := by
  ext page
  simp only [committedSet, mem_filter, mem_range, mem_union, mem_Ico, committablePages_acquired,
    bit_committed_acquired sound hstop, Bool.or_eq_true, decide_eq_true_eq]
  constructor
  · intro hmem
    obtain ⟨hpage, hbit | hnew⟩ := hmem
    · exact Or.inl ⟨hpage, hbit⟩
    · exact Or.inr hnew
  · intro hmem
    rcases hmem with ⟨hpage, hbit⟩ | hnew
    · exact ⟨hpage, Or.inl hbit⟩
    · exact ⟨by omega, Or.inr hnew⟩

/-- Committing pages keeps the books in order. -/
theorem Sound.acquired (sound : space.Sound) (h : start < stop)
    (hstop : stop ≤ space.committablePages) (hlimit : space.firstAddress stop < Word.limit)
    (clear : ∀ page, start ≤ page → page < stop → space.committed.bit page = false) :
    (space.acquired start stop).Sound where
  pageSize_pos := sound.pageSize_pos
  pageSize_aligned := sound.pageSize_aligned
  base_aligned := sound.base_aligned
  usedSize_le := sound.usedSize_le
  size_committed := (Bitmap.size_fill _ _ _).trans sound.size_committed
  size_dirty := size_dirty_acquired.trans sound.size_dirty
  lt_committable page hbit := by
    rw [bit_committed_acquired sound hstop, Bool.or_eq_true, decide_eq_true_eq] at hbit
    rcases hbit with hbit | hnew
    · exact sound.lt_committable page hbit
    · rw [committablePages_acquired]
      omega
  address_lt page hbit := by
    rw [bit_committed_acquired sound hstop, Bool.or_eq_true, decide_eq_true_eq] at hbit
    rcases hbit with hbit | hnew
    · exact sound.address_lt page hbit
    · exact Nat.lt_of_le_of_lt (space.firstAddress_mono hnew.2) hlimit
  dirty_pinned page hbit := by
    rw [bit_dirty_acquired sound hstop, Bool.and_eq_true] at hbit
    exact sound.dirty_pinned page hbit.1
  committedBytes_eq := by
    -- The pages were not committed, so their bytes were not counted yet.
    have hdisjoint : Disjoint space.committedSet (Ico start stop) := by
      rw [disjoint_left]
      intro page hpage hnew
      have hbit := (sound.mem_committedSet page).mp hpage
      rw [clear page (mem_Ico.mp hnew).1 (mem_Ico.mp hnew).2] at hbit
      cases hbit
    simp only [committedSet_acquired sound hstop, usedBytes_acquired]
    rw [sum_union hdisjoint, sum_usedBytes space (Nat.le_of_lt h), ← sound.committedBytes_eq,
      ← usedSpan_eq sound.pageSize_pos h hstop]
    rfl

end acquired

section released

variable {space : PageSpace} {start stop : Nat}

@[simp] theorem committablePages_released :
    (space.released start stop).committablePages = space.committablePages := rfl

theorem size_dirty_released : (space.released start stop).dirty.size = space.dirty.size := by
  unfold released
  cases space.pinned <;> simp

theorem bit_committed_released (sound : space.Sound) (hstop : stop ≤ space.committablePages)
    (page : Nat) :
    (space.released start stop).committed.bit page =
      (space.committed.bit page && !decide (start ≤ page ∧ page < stop)) :=
  Bitmap.bit_wipe (Nat.le_trans hstop sound.committablePages_le) page

theorem bit_dirty_released (sound : space.Sound) (hstop : stop ≤ space.committablePages)
    (page : Nat) :
    (space.released start stop).dirty.bit page =
      (space.dirty.bit page || space.pinned && decide (start ≤ page ∧ page < stop)) := by
  unfold released
  cases space.pinned
  · simp
  · simpa using Bitmap.bit_fill (Nat.le_trans hstop sound.committablePages_le_dirty) page

theorem committedSet_released (sound : space.Sound) (hstop : stop ≤ space.committablePages)
    (set : ∀ page, start ≤ page → page < stop → space.committed.bit page = true) :
    space.committedSet = (space.released start stop).committedSet ∪ Ico start stop := by
  ext page
  simp only [committedSet, mem_filter, mem_range, mem_union, mem_Ico, committablePages_released,
    bit_committed_released sound hstop, Bool.and_eq_true, Bool.not_eq_true',
    decide_eq_false_iff_not]
  constructor
  · intro hmem
    obtain ⟨hpage, hbit⟩ := hmem
    by_cases hin : start ≤ page ∧ page < stop
    · exact Or.inr hin
    · exact Or.inl ⟨hpage, hbit, hin⟩
  · intro hmem
    rcases hmem with ⟨hpage, hbit, -⟩ | hin
    · exact ⟨hpage, hbit⟩
    · exact ⟨by omega, set page hin.1 hin.2⟩

/-- The committed bytes are those that stay and those of the pages that are given up. -/
theorem committedBytes_split (sound : space.Sound) (h : start < stop)
    (hstop : stop ≤ space.committablePages)
    (set : ∀ page, start ≤ page → page < stop → space.committed.bit page = true) :
    space.committedBytes =
      ∑ page ∈ (space.released start stop).committedSet, space.usedBytes page +
        space.usedSpan start stop := by
  -- What stays committed has no page of the range, so no byte is counted twice.
  have hdisjoint : Disjoint (space.released start stop).committedSet (Ico start stop) := by
    rw [disjoint_left]
    intro page hpage hgone
    rw [committedSet, mem_filter, bit_committed_released sound hstop, Bool.and_eq_true,
      Bool.not_eq_true', decide_eq_false_iff_not] at hpage
    exact hpage.2.2 (mem_Ico.mp hgone)
  rw [sound.committedBytes_eq, committedSet_released sound hstop set, sum_union hdisjoint,
    sum_usedBytes space (Nat.le_of_lt h), ← usedSpan_eq sound.pageSize_pos h hstop]

/-- Uncommitting pages keeps the books in order. -/
theorem Sound.released (sound : space.Sound) (h : start < stop)
    (hstop : stop ≤ space.committablePages)
    (set : ∀ page, start ≤ page → page < stop → space.committed.bit page = true) :
    (space.released start stop).Sound where
  pageSize_pos := sound.pageSize_pos
  pageSize_aligned := sound.pageSize_aligned
  base_aligned := sound.base_aligned
  usedSize_le := sound.usedSize_le
  size_committed := (Bitmap.size_wipe _ _ _).trans sound.size_committed
  size_dirty := size_dirty_released.trans sound.size_dirty
  lt_committable page hbit := by
    rw [bit_committed_released sound hstop, Bool.and_eq_true] at hbit
    exact sound.lt_committable page hbit.1
  address_lt page hbit := by
    rw [bit_committed_released sound hstop, Bool.and_eq_true] at hbit
    exact sound.address_lt page hbit.1
  dirty_pinned page hbit := by
    rw [bit_dirty_released sound hstop, Bool.or_eq_true, Bool.and_eq_true,
      decide_eq_true_eq] at hbit
    rcases hbit with hbit | ⟨hpinned, hnew⟩
    · exact sound.dirty_pinned page hbit
    · exact ⟨hpinned, by rw [committablePages_released]; omega⟩
  committedBytes_eq := by
    have hsplit := committedBytes_split sound h hstop set
    show space.committedBytes - space.usedSpan start stop = _
    rw [hsplit, Nat.add_sub_cancel]
    rfl

end released

end RegionBacking.PageSpace
