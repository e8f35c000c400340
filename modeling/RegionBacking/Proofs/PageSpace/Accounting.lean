import RegionBacking.Proofs.PageSpace.Usage
import Mathlib.Algebra.Order.BigOperators.Group.Finset

/-!
# The accounts of a page space

A page space counts the bytes of its committed pages as it goes, a whole range at a time, and the
last page may be cut off. However the pages are grouped when they are committed and when they are
uncommitted, the count is the sum over the pages that are committed. What is taken off was counted
before, and a call that stops has changed neither the accounts nor the memory.
-/

namespace RegionBacking.PageSpace

open Finset

variable {first space after : PageSpace}

/-! ## The sum over the pages -/

/-- The committed pages, among all pages of the reservation. -/
def committedPages (space : PageSpace) : Finset Nat :=
  (range space.committed.size).filter fun page => space.isCommitted page = true

theorem committedPages_eq (sound : space.Sound) : space.committedPages = space.committedSet := by
  ext page
  rw [committedPages, mem_filter, mem_range, sound.isCommitted_eq, sound.mem_committedSet]
  exact ⟨fun h => h.2, fun h => ⟨sound.tidy page h, h⟩⟩

/-- The pages that begin in the used part have all its bytes. -/
theorem sum_usedBytes_committable (sound : space.Sound) :
    ∑ page ∈ range space.committablePages, space.usedBytes page = space.usedSize := by
  -- The first page behind the used part is not committable.
  have hbehind : space.usedSize ≤ space.committablePages * space.pageSize := by
    by_contra hbefore
    have hlt := (lt_committablePages_iff sound.pageSize_pos space.committablePages).mpr (by omega)
    exact Nat.lt_irrefl _ hlt
  rw [range_eq_Ico, sum_usedBytes space (Nat.zero_le _), usedBefore, usedBefore]
  omega

/-- The books of a page space are right. -/
structure Accounted (space : PageSpace) : Prop where
  /-- Each committed page is counted up to its end, or to the end of the used part. -/
  committedBytes_eq : space.committedBytes = ∑ page ∈ space.committedPages,
    (min ((page + 1) * space.pageSize) space.usedSize - page * space.pageSize)
  lt_committablePages : ∀ page, space.isCommitted page = true → page < space.committablePages
  committedBytes_le : space.committedBytes ≤ space.usedSize
  /-- All bytes are committed just if all pages are. -/
  committedBytes_eq_usedSize_iff : space.committedBytes = space.usedSize ↔
    ∀ page, page < space.committablePages → space.isCommitted page = true

theorem Sound.accounted (sound : space.Sound) : space.Accounted where
  committedBytes_eq := by
    rw [sound.committedBytes_eq, ← committedPages_eq sound]
    exact sum_congr rfl fun page _ => usedBytes_eq space page
  lt_committablePages page h := by
    rw [sound.isCommitted_eq] at h
    exact sound.lt_committable page h
  committedBytes_le := by
    rw [sound.committedBytes_eq, ← sum_usedBytes_committable sound]
    exact sum_le_sum_of_subset (filter_subset _ _)
  committedBytes_eq_usedSize_iff := by
    rw [sound.committedBytes_eq, ← sum_usedBytes_committable sound]
    have hsubset : space.committedSet ⊆ range space.committablePages := filter_subset _ _
    constructor
    · intro hall page hpage
      rw [sound.isCommitted_eq, ← sound.mem_committedSet]
      by_contra hout
      -- The bytes of a page that is not committed are missing in the sum.
      have hlt : ∑ page ∈ space.committedSet, space.usedBytes page <
          ∑ page ∈ range space.committablePages, space.usedBytes page :=
        sum_lt_sum_of_subset hsubset (mem_range.mpr hpage) hout
          (usedBytes_pos sound.pageSize_pos hpage) fun _ _ _ => Nat.zero_le _
      omega
    · intro hall
      have hset : space.committedSet = range space.committablePages := by
        apply Subset.antisymm hsubset
        intro page hpage
        rw [sound.mem_committedSet, ← sound.isCommitted_eq]
        exact hall page (mem_range.mp hpage)
      rw [hset]

/-! ## Calls that stop -/

/-- The books and the bytes are as they were. -/
structure Untouched (space after : PageSpace) : Prop where
  committed_eq : after.committed = space.committed
  dirty_eq : after.dirty = space.dirty
  committedBytes_eq : after.committedBytes = space.committedBytes
  read_eq : ∀ address, after.read address = space.read address

theorem Untouched.refl (space : PageSpace) : Untouched space space := ⟨rfl, rfl, rfl, fun _ => rfl⟩

/-- A call that stops leaves the books and the bytes as they were. -/
theorem Call.untouched_of_error (call : Call) (sound : space.Sound) {stop : Stop Refusal}
    (h : (call.run space).result = .error stop) : space.Untouched (call.run space).state := by
  cases call with
  | commit start count =>
    rcases commit_cases sound start count with
      ⟨result, trace, hrun, -⟩ | ⟨-, -, zeroFilled, trace, hrun, -⟩
    · show space.Untouched (PageSpace.commit start count space).state
      rw [hrun]
      exact .refl space
    · replace h : (PageSpace.commit start count space).result = .error stop := h
      rw [hrun] at h
      cases h
  | uncommit start count =>
    rcases uncommit_cases sound start count with ⟨result, trace, hrun, -⟩ | ⟨-, -, trace, hrun, -⟩
    · show space.Untouched (PageSpace.uncommit start count space).state
      rw [hrun]
      exact .refl space
    · replace h : (PageSpace.uncommit start count space).result = .error stop := h
      rw [hrun] at h
      cases h
  | pretouch start count pretoucher =>
    -- Pages may have been touched before the call stopped, which changes no byte.
    obtain ⟨result, machine, trace, hrun, -, -, hread⟩ :=
      pretouch_cases space start count pretoucher
    show space.Untouched (PageSpace.pretouch start count pretoucher space).state
    rw [hrun]
    exact ⟨rfl, rfl, rfl, hread⟩

/-! ## At all times -/

variable {reservedSize usedSize pageSize : Nat} {memoryKind : MemoryKind} {pinned : Bool}
  {machine : Machine}

/-- The accounts of a page space are right at all times, whatever pages its calls were for and
however these ended. No call takes off bytes that were not counted, and one that stops has changed
nothing. -/
theorem accounts_right_throughout
    (hfirst : (reserve reservedSize usedSize pageSize memoryKind pinned machine).result = .ok first)
    (h : first.Reachable space) :
    space.Accounted ∧ ∀ call : Call,
      (call.run space).result ≠ .error (.fault .subOverflow) ∧
      ∀ stop, (call.run space).result = .error stop →
        space.Untouched (call.run space).state := by
  have sound := h.sound (fresh hfirst).sound
  refine ⟨sound.accounted, ?_⟩
  intro call
  refine ⟨?_, fun stop hstop => call.untouched_of_error sound hstop⟩
  intro hfault
  have hkind := call.isOfSpace_of_fault sound hfault
  cases hkind

/-- Two pages, the second of which is cut off, are committed together; the first one is given up
alone, and again, which is a fault. -/
theorem accounts_right_of_two_pages :
    ∃ first, (reserve 8192 6000 4096 .heap false .willing).result = .ok first ∧
      ((Call.uncommit 0 1).run ((Call.commit 0 2).run first).state).state.committedBytes = 1904 ∧
      ((Call.uncommit 0 1).run ((Call.commit 0 2).run first).state).state.Accounted ∧
      ((Call.uncommit 0 1).run ((Call.commit 0 2).run first).state).state.Untouched
        ((Call.uncommit 0 1).run
          ((Call.uncommit 0 1).run ((Call.commit 0 2).run first).state).state).state := by
  refine ⟨_, rfl, by decide +kernel, ?_⟩
  have hright := @accounts_right_throughout _
    ((Call.uncommit 0 1).run ((Call.commit 0 2).run _).state).state 8192 6000 4096 .heap false
    .willing rfl (.tail (.single (.call (.commit 0 2))) (.call (.uncommit 0 1)))
  refine ⟨hright.1, (hright.2 (.uncommit 0 1)).2 (.fault (.pagesNotCommitted 0 1)) ?_⟩
  decide +kernel

end RegionBacking.PageSpace
