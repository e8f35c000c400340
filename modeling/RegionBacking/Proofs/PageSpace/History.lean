import RegionBacking.Proofs.PageSpace.Requests

/-!
# What a page space tells of its past

A page space has two bits for each page, and a call sets or clears them for a whole range, however
the pages were grouped before. In a pinned space they tell what neither tells alone: whether a page
that is not committed ever was. `History` has the states that a space was in, and `WasCommitted` is
read off them. `Remembers` is what a pinned space does with a past: its calls are a matter of the
books alone, and the answer of a commit says whether its pages were committed before. A space that
is not pinned `Forgets`: all memory that it commits is new.
-/

namespace RegionBacking.PageSpace

variable {first space after : PageSpace} {earlier : List PageSpace} {page : Nat}

/-! ## Histories -/

/-- A page space and the states that it was in before, the latest first. -/
inductive History (first : PageSpace) : List PageSpace → PageSpace → Prop where
  | fresh : History first [] first
  | step {earlier : List PageSpace} {space after : PageSpace}
      (history : History first earlier space) (follows : space.Follows after) :
    History first (space :: earlier) after

/-- A page was committed at an earlier time. -/
def WasCommitted (earlier : List PageSpace) (page : Nat) : Prop :=
  ∃ before ∈ earlier, before.isCommitted page = true

theorem not_wasCommitted_nil (page : Nat) : ¬ WasCommitted [] page := by
  simp [WasCommitted]

theorem wasCommitted_cons :
    WasCommitted (space :: earlier) page ↔
      space.isCommitted page = true ∨ WasCommitted earlier page := by
  simp [WasCommitted]

theorem History.reachable (history : History first earlier space) : first.Reachable space := by
  induction history with
  | fresh => exact .refl
  | step _ follows ih => exact .tail ih follows

/-! ## Calls of a pinned space -/

/-- A call that asks the operating system for nothing, is not refused and changes no byte. -/
structure Silent {α : Type} (space : PageSpace) (run : Run Refusal PageSpace α) : Prop where
  requests_eq_nil : Effect.requests run.trace = []
  not_refused : ∀ refusal, run.result ≠ .error (.error refusal)
  read_eq : ∀ address, run.state.read address = space.read address

theorem silent_of_fault {α : Type} (space : PageSpace) (fault : Fault) :
    space.Silent (⟨.error (.fault fault), space, []⟩ : Run Refusal PageSpace α) where
  requests_eq_nil := rfl
  not_refused refusal h := by cases h
  read_eq address := rfl

theorem silent_of_ok {α : Type} {value : α} {trace : List Effect}
    (hrequests : Effect.requests trace = [])
    (hread : ∀ address, after.read address = space.read address) :
    space.Silent (⟨.ok value, after, trace⟩ : Run Refusal PageSpace α) where
  requests_eq_nil := hrequests
  not_refused refusal h := by cases h
  read_eq := hread

theorem commit_silent (sound : space.Sound) (hpinned : space.pinned = true) (start count : Nat) :
    space.Silent (commit start count space) := by
  rcases Nat.eq_zero_or_pos count with rfl | hpos
  · exact silent_of_ok rfl fun _ => rfl
  by_cases legal : space.Legal false start (start + count)
  · obtain ⟨zeroFilled, hrun, -⟩ := commit_eq_ok sound hpos legal (by simp [hpinned])
    rw [hrun, requested, if_pos hpinned]
    apply silent_of_ok rfl
    intro address
    rw [read_acquired_eq, if_neg (by simp [hpinned])]
  · obtain ⟨fault, -, hrun⟩ := commit_eq_fault sound hpos legal
    rw [hrun]
    exact silent_of_fault space fault

theorem uncommit_silent (sound : space.Sound) (hpinned : space.pinned = true)
    (start count : Nat) : space.Silent (uncommit start count space) := by
  rcases Nat.eq_zero_or_pos count with rfl | hpos
  · exact silent_of_ok rfl fun _ => rfl
  by_cases legal : space.Legal true start (start + count)
  · rw [uncommit_eq_ok sound hpos legal (by simp [hpinned]), requested, if_pos hpinned]
    apply silent_of_ok rfl
    intro address
    rw [read_released_eq, if_neg (by simp [hpinned])]
  · obtain ⟨fault, -, hrun⟩ := uncommit_eq_fault sound hpos legal
    rw [hrun]
    exact silent_of_fault space fault

/-- Pretouching is silent in any space. -/
theorem pretouch_silent (space : PageSpace) (start count : Nat) (pretoucher : Pretoucher) :
    space.Silent (pretouch start count pretoucher space) where
  requests_eq_nil := requests_pretouch space start count pretoucher
  not_refused refusal h := by
    rcases pretouch_checked space start count pretoucher with ⟨fault, -, hrun⟩ | ⟨-, hrun⟩
    · rw [hrun] at h
      cases h
    · obtain ⟨trace, -, hpass⟩ :=
        pretoucher.run_eq Refusal start count space.pageSize space.touchFault? touch space
      rw [hrun, hpass] at h
      simp only [] at h
      -- A pass is reported, or it is at fault.
      split at h <;> cases h
  read_eq := (pretouch_keeps space start count pretoucher).2

theorem Call.silent (call : Call) (sound : space.Sound) (hpinned : space.pinned = true) :
    space.Silent (call.run space) := by
  cases call with
  | commit start count => exact commit_silent sound hpinned start count
  | uncommit start count => exact uncommit_silent sound hpinned start count
  | pretouch start count pretoucher => exact pretouch_silent space start count pretoucher

/-! ## Dirty pages -/

/-- After a call the dirty pages are those that are not committed and were dirty or committed. -/
theorem Moves.bit_dirty_iff (moves : space.Moves after) (sound : space.Sound)
    (hpinned : space.pinned = true)
    (apart : space.dirty.bit page = true → space.committed.bit page = false) :
    after.dirty.bit page = true ↔ after.committed.bit page = false ∧
      (space.dirty.bit page = true ∨ space.committed.bit page = true) := by
  have hstay : space.dirty.bit page = true ↔ space.committed.bit page = false ∧
      (space.dirty.bit page = true ∨ space.committed.bit page = true) := by
    constructor
    · intro hdirty
      exact ⟨apart hdirty, .inl hdirty⟩
    · intro hbits
      exact hbits.2.resolve_right (by simp [hbits.1])
  cases moves with
  | stay => exact hstay
  | touch => exact hstay
  | @acquire start stop h legal =>
    rw [bit_dirty_acquired sound legal.le_committable,
      bit_committed_acquired sound legal.le_committable, hpinned, Bool.true_and]
    by_cases hin : start ≤ page ∧ page < stop
    · simp [hin]
    · rwa [decide_eq_false hin, Bool.not_false, Bool.and_true, Bool.or_false]
  | @release start stop h legal =>
    rw [bit_dirty_released sound legal.le_committable,
      bit_committed_released sound legal.le_committable, hpinned, Bool.true_and]
    by_cases hin : start ≤ page ∧ page < stop
    -- Only committed pages are released, so all of these become dirty.
    · simp [hin, legal.bit_eq page hin.1 hin.2]
    · rwa [decide_eq_false hin, Bool.not_false, Bool.and_true, Bool.or_false]

theorem Follows.bit_dirty_iff (follows : space.Follows after) (sound : space.Sound)
    (hpinned : space.pinned = true)
    (apart : space.dirty.bit page = true → space.committed.bit page = false) :
    after.dirty.bit page = true ↔ after.committed.bit page = false ∧
      (space.dirty.bit page = true ∨ space.committed.bit page = true) := by
  cases follows with
  | call call => exact (call.moves sound).bit_dirty_iff sound hpinned apart
  | meanwhile h =>
    -- The books are as they were, as if only the memory had been touched.
    obtain ⟨machine, rfl⟩ := h.of_machine
    exact (Moves.stay : space.Moves space).bit_dirty_iff sound hpinned apart

/-- The dirty pages of a pinned space are those that were committed and are not now. -/
theorem History.bit_dirty_iff (history : History first earlier space) (sound : first.Sound)
    (hpinned : first.pinned = true) (clean : ∀ page, first.dirty.bit page = false) (page : Nat) :
    space.dirty.bit page = true ↔
      space.committed.bit page = false ∧ WasCommitted earlier page := by
  induction history with
  | fresh => simp [clean, not_wasCommitted_nil]
  | @step earlier space after history follows ih =>
    have hsound := history.reachable.sound sound
    have hspace := (history.reachable.sameLayout sound).pinned_eq.trans hpinned
    rw [follows.bit_dirty_iff hsound hspace fun hdirty => (ih.mp hdirty).1, ih, wasCommitted_cons,
      hsound.isCommitted_eq]
    cases space.committed.bit page <;> simp

/-! ## At all times -/

/-- What a pinned space with a past does. -/
structure Remembers (space : PageSpace) (earlier : List PageSpace) : Prop where
  silent : ∀ call : Call, space.Silent (call.run space)
  dirty_iff : ∀ page, space.dirty.bit page = true ↔
    space.isCommitted page = false ∧ WasCommitted earlier page
  /-- Legal pages are committed, and the answer says whether none of them was before. -/
  commit_ok : ∀ start count, 0 < count → space.Legal false start (start + count) →
    ∃ zeroFilled, (commit start count space).result = .ok zeroFilled ∧ (zeroFilled = true ↔
      ∀ page, start ≤ page → page < start + count → ¬ WasCommitted earlier page)
  uncommit_ok : ∀ start count, 0 < count → space.Legal true start (start + count) →
    (uncommit start count space).result = .ok ()
  /-- All other pages are a fault. -/
  legal_of_commit_ok : ∀ start count zeroFilled, 0 < count →
    (commit start count space).result = .ok zeroFilled → space.Legal false start (start + count)
  legal_of_uncommit_ok : ∀ start count, 0 < count →
    (uncommit start count space).result = .ok () → space.Legal true start (start + count)

/-- What a space that is not pinned does, whatever its past. -/
structure Forgets (space : PageSpace) : Prop where
  clean : ∀ page, space.dirty.bit page = false
  /-- Pages that are committed read as zero, and the answer says so. -/
  commit_zeroes : ∀ start count zeroFilled,
    (commit start count space).result = .ok zeroFilled → zeroFilled = true ∧
      ∀ page, start ≤ page → page < start + count → ∀ address, space.UsedByte page address →
        (commit start count space).state.read address = some 0

theorem Sound.remembers (sound : space.Sound) (hpinned : space.pinned = true)
    (hdirty : ∀ page, space.dirty.bit page = true ↔
      space.committed.bit page = false ∧ WasCommitted earlier page) : space.Remembers earlier where
  silent call := call.silent sound hpinned
  dirty_iff page := by rw [hdirty, sound.isCommitted_eq]
  commit_ok start count hpos legal := by
    obtain ⟨zeroFilled, hrun, hiff⟩ := commit_eq_ok sound hpos legal (by simp [hpinned])
    refine ⟨zeroFilled, by rw [hrun], ?_⟩
    rw [hiff]
    -- No page of the range is committed, so the dirty ones are those that were.
    refine forall_congr' fun page => forall₂_congr fun hfirst hlast => ?_
    rw [← Bool.not_eq_true, hdirty, legal.bit_eq page hfirst hlast]
    simp
  uncommit_ok start count hpos legal := by
    rw [uncommit_eq_ok sound hpos legal (by simp [hpinned])]
  legal_of_commit_ok start count zeroFilled hpos h := legal_of_commit_ok sound hpos h
  legal_of_uncommit_ok start count hpos h := legal_of_uncommit_ok sound hpos h

/-- The operating system hands out zeroes only. -/
theorem zeroFilled_of_not_pinned (sound : space.Sound) (hpinned : space.pinned = false)
    {start count : Nat} {zeroFilled : Bool}
    (h : (commit start count space).result = .ok zeroFilled) : zeroFilled = true := by
  rcases Nat.eq_zero_or_pos count with rfl | hpos
  · cases h
    rfl
  · rcases (legal_of_commit_ok sound hpos h).commit_run sound hpos with
      ⟨zeroFilled', trace, hrun, -, hiff⟩ | ⟨refusal, trace, hrun, -⟩
    · rw [hrun] at h
      cases h
      exact hiff.mpr fun page _ _ => sound.not_dirty hpinned page
    · rw [hrun] at h
      cases h

theorem Sound.forgets (sound : space.Sound) (legible : space.Legible)
    (hpinned : space.pinned = false) : space.Forgets where
  clean := sound.not_dirty hpinned
  commit_zeroes start count zeroFilled h := by
    obtain rfl := zeroFilled_of_not_pinned sound hpinned h
    exact ⟨rfl, fun page hfirst hlast => (commit_zeroes sound legible h hfirst hlast).2⟩

theorem clean_of_reserve {reservedSize usedSize pageSize : Nat} {memoryKind : MemoryKind}
    {pinned : Bool} {machine : Machine}
    (h : (reserve reservedSize usedSize pageSize memoryKind pinned machine).result = .ok first)
    (page : Nat) : first.dirty.bit page = false := by
  obtain ⟨-, reservation, -, -, after, -, rfl, -⟩ := of_reserve_ok h
  rw [← Bool.not_eq_true]
  exact (not_bit_blank after reservation usedSize memoryKind pinned page).2

/-- At all times after it was set up, a pinned space tells from its books which of its pages were
committed before, and a space that is not pinned starts from zeroes with each commit. -/
theorem past_told_throughout {reservedSize usedSize pageSize : Nat} {memoryKind : MemoryKind}
    {pinned : Bool} {machine : Machine}
    (hfirst : (reserve reservedSize usedSize pageSize memoryKind pinned machine).result = .ok first)
    (history : History first earlier space) :
    (pinned = true → space.Remembers earlier) ∧ (pinned = false → space.Forgets) := by
  have fresh := fresh hfirst
  have sound := history.reachable.sound fresh.sound
  have hspace := (history.reachable.sameLayout fresh.sound).pinned_eq.trans fresh.pinned_eq
  constructor
  · intro hpinned
    exact sound.remembers (hspace.trans hpinned) (history.bit_dirty_iff fresh.sound
      (fresh.pinned_eq.trans hpinned) (clean_of_reserve hfirst))
  · intro hpinned
    exact sound.forgets (history.reachable.legible fresh.sound fresh.legible)
      (hspace.trans hpinned)

/-- A pinned space of two pages, the first of which is committed, written and uncommitted: a commit
of both keeps what was written and does not answer that they read as zero, and a commit of the
second one alone does. Without pinning the first page is zero again. -/
theorem past_told_of_two_pages :
    ∃ pinned written unpinned rewritten : PageSpace,
      (reserve 8192 8192 4096 .heap true .willing).result = .ok pinned ∧
      ((Call.commit 0 1).run pinned).state.write? 65536 171 = some written ∧
      (commit 0 2 ((Call.uncommit 0 1).run written).state).result = .ok false ∧
      (commit 0 2 ((Call.uncommit 0 1).run written).state).state.read 65536 = some 171 ∧
      (commit 1 1 ((Call.uncommit 0 1).run written).state).result = .ok true ∧
      ((Call.uncommit 0 1).run written).state.Remembers
        [written, ((Call.commit 0 1).run pinned).state, pinned] ∧
      (reserve 8192 8192 4096 .heap false .willing).result = .ok unpinned ∧
      ((Call.commit 0 1).run unpinned).state.write? 65536 171 = some rewritten ∧
      (commit 0 2 ((Call.uncommit 0 1).run rewritten).state).result = .ok true ∧
      (commit 0 2 ((Call.uncommit 0 1).run rewritten).state).state.read 65536 = some 0 ∧
      ((Call.uncommit 0 1).run rewritten).state.Forgets := by
  refine ⟨_, _, _, _, rfl, write?_eq_some (by decide +kernel), by decide +kernel,
    by decide +kernel, by decide +kernel, ?_, rfl, write?_eq_some (by decide +kernel),
    by decide +kernel, by decide +kernel, ?_⟩
  · exact (@past_told_throughout _ _ _ 8192 8192 4096 .heap true .willing rfl
      (((History.fresh.step (.call (.commit 0 1))).step (.meanwhile (.write 0 65536 171 _
        (by decide +kernel) (by decide +kernel) (by decide +kernel)
        (write?_eq_some (by decide +kernel))))).step (.call (.uncommit 0 1)))).1 rfl
  · exact (@past_told_throughout _ _ _ 8192 8192 4096 .heap false .willing rfl
      (((History.fresh.step (.call (.commit 0 1))).step (.meanwhile (.write 0 65536 171 _
        (by decide +kernel) (by decide +kernel) (by decide +kernel)
        (write?_eq_some (by decide +kernel))))).step (.call (.uncommit 0 1)))).2 rfl

end RegionBacking.PageSpace
