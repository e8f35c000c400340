import RegionBacking.Pretouch
import RegionBacking.Proofs.Running

/-!
# Passes over pages

A pass touches pages of its range only, and it stops because a touch fails or because of the
arithmetic on chunks. Where no touch of a range fails, only the arithmetic on chunks can stop a
pass. It does not as long as one chunk more than the range is a word. A pass that comes to its end
has touched the whole range, and reports that.
-/

namespace RegionBacking.Pretoucher

variable {pretoucher : Pretoucher} {start count pageSize chunkPages : Nat}
  {touch : Nat → Option Fault}

/-! ## What a pass touches -/

/-- The first failure is a touch of the range that fails. -/
theorem firstFailure?_spec {page failing : Nat}
    (h : firstFailure? touch page count = some failing) :
    page ≤ failing ∧ failing < page + count ∧ (touch failing).isSome = true := by
  induction count generalizing page with
  | zero => cases h
  | succ count ih =>
    unfold firstFailure? at h
    split at h
    · next hfails =>
      cases h
      exact ⟨Nat.le_refl _, by omega, hfails⟩
    · have hlater := ih h
      exact ⟨by omega, by omega, hlater.2.2⟩

/-- Of a range its first pages are touched. -/
theorem touchRange_fst (touch : Nat → Option Fault) (range : PageRange) :
    (touchRange touch range).1.start = range.start ∧
      (touchRange touch range).1.stop ≤ range.stop := by
  unfold touchRange
  split
  · next page hfirst =>
    have hpage := firstFailure?_spec hfirst
    unfold PageRange.length at hpage
    exact ⟨rfl, show page ≤ range.stop by omega⟩
  · exact ⟨rfl, Nat.le_refl _⟩

/-- The pages of a chunk are its share of the range, the last chunk being cut off. -/
theorem chunkRange_eq {stop chunk : Nat} {range : PageRange}
    (h : chunkRange start stop chunkPages chunk = .ok range) :
    range = ⟨start + chunk * chunkPages, min (start + chunk * chunkPages + chunkPages) stop⟩ := by
  unfold chunkRange at h
  obtain ⟨offset, hoffset, h⟩ := Except.of_bind_ok h
  obtain ⟨first, hfirst, h⟩ := Except.of_bind_ok h
  obtain ⟨beyond, hbeyond, h⟩ := Except.of_bind_ok h
  obtain ⟨-, rfl⟩ := Word.mul_eq_ok_iff.mp hoffset
  obtain ⟨-, rfl⟩ := Word.add_eq_ok_iff.mp hfirst
  obtain ⟨-, rfl⟩ := Word.add_eq_ok_iff.mp hbeyond
  cases h
  rfl

theorem of_chunkRange_ok {stop chunk : Nat} {range : PageRange}
    (h : chunkRange start stop chunkPages chunk = .ok range) :
    start ≤ range.start ∧ range.stop ≤ stop := by
  rw [chunkRange_eq h]
  exact ⟨Nat.le_add_right start _, Nat.min_le_right _ stop⟩

/-- Of a chunk pages of the range are touched, or none. -/
theorem touchChunk_fst (touch : Nat → Option Fault) {stop : Nat} (h : start ≤ stop)
    (chunk : Nat) :
    start ≤ (touchChunk touch start stop chunkPages chunk).1.start ∧
      (touchChunk touch start stop chunkPages chunk).1.stop ≤ stop := by
  unfold touchChunk
  split
  · next range hrange =>
    have hchunk := of_chunkRange_ok hrange
    have htouched := touchRange_fst touch range
    omega
  · exact ⟨Nat.le_refl start, h⟩

/-- However a pass ends, it touches pages of its range only. -/
theorem pass_touched (pretoucher : Pretoucher) (start count pageSize : Nat)
    (touch : Nat → Option Fault) :
    ∀ range ∈ (pretoucher.pass start count pageSize touch).touched,
      start ≤ range.start ∧ range.stop ≤ start + count := by
  intro range hrange
  have hle : start ≤ start + count := Nat.le_add_right start count
  unfold pass at hrange
  split at hrange
  · cases hrange
  · split at hrange
    · unfold parallelPass at hrange
      split at hrange
      · cases hrange
      · next stop hstop =>
        obtain ⟨-, rfl⟩ := Word.add_eq_ok_iff.mp hstop
        obtain ⟨done, hdone, rfl⟩ := List.mem_map.mp hrange
        obtain ⟨chunk, -, rfl⟩ := List.mem_map.mp hdone
        exact touchChunk_fst touch hle chunk
    · unfold serialPass at hrange
      split at hrange
      · cases hrange
      · next stop hstop =>
        obtain ⟨-, rfl⟩ := Word.add_eq_ok_iff.mp hstop
        have htouched := touchRange_fst touch ⟨start, start + count⟩
        -- Whether the range is touched as a whole or up to a failure, it is the only one.
        have hsame : range = (touchRange touch ⟨start, start + count⟩).1 := by
          split at hrange
          all_goals
            next hrun =>
            rw [hrun]
            exact List.mem_singleton.mp hrange
        rw [hsame, htouched.1]
        exact ⟨Nat.le_refl start, htouched.2⟩

/-! ## Why a pass stops -/

theorem touchRange_snd {range : PageRange} {fault : Fault}
    (h : (touchRange touch range).2 = some fault) : ∃ page, touch page = some fault := by
  unfold touchRange at h
  split at h
  · next page _ => exact ⟨page, h⟩
  · cases h

/-- A pass stops at a page that cannot be addressed, or because workers did. -/
theorem pass_fault (hbounds : ∀ page fault, touch page = some fault → fault.isOfBounds = true)
    {fault : Fault} (h : (pretoucher.pass start count pageSize touch).result = .error fault) :
    fault.isOfBounds = true ∨ ∃ cause, fault = .inWorkers cause := by
  unfold pass at h
  split at h
  · cases h
  · split at h
    · right
      unfold parallelPass at h
      split at h
      · cases h
        exact ⟨_, rfl⟩
      · simp only [] at h
        split at h
        · cases h
          exact ⟨_, rfl⟩
        · cases h
    · left
      unfold serialPass Word.add at h
      split at h
      · next hadd =>
        split at hadd
        · cases hadd
        · cases hadd
          cases h
          rfl
      · split at h
        · next stop _ touched fault' hrun =>
          cases h
          obtain ⟨page, hpage⟩ := touchRange_snd (congrArg Prod.snd hrun)
          exact hbounds page fault hpage
        · cases h

/-! ## Passes that come to their end -/

theorem firstFailure?_eq_none {page : Nat}
    (h : ∀ other, page ≤ other → other < page + count → touch other = none) :
    firstFailure? touch page count = none := by
  induction count generalizing page with
  | zero => rfl
  | succ count ih =>
    have hfirst : touch page = none := h page (Nat.le_refl page) (by omega)
    rw [firstFailure?, hfirst]
    apply ih
    intro other hge hlt
    exact h other (by omega) (by omega)

/-- A range none of whose touches fails is touched as a whole. -/
theorem touchRange_eq {range : PageRange}
    (h : ∀ page, range.start ≤ page → page < range.stop → touch page = none) :
    touchRange touch range = (range, none) := by
  have hnone : firstFailure? touch range.start range.length = none := by
    apply firstFailure?_eq_none
    intro page hge hlt
    exact h page hge (by unfold PageRange.length at hlt; omega)
  rw [touchRange, hnone]

/-- A chunk of a range starts in the range. -/
theorem chunk_mul_lt {chunk : Nat} (hpos : 0 < chunkPages)
    (h : chunk < Word.divCeil count chunkPages) : chunk * chunkPages < count := by
  unfold Word.divCeil at h
  have hle := (Nat.le_div_iff_mul_le hpos).mp (Nat.succ_le_of_lt h)
  rw [Nat.succ_mul] at hle
  omega

/-- The pages of a chunk are words, and they are pages of the range. -/
theorem chunkRange_ok {chunk : Nat} (hpos : 0 < chunkPages)
    (h : chunk < Word.divCeil count chunkPages)
    (hlimit : start + count + chunkPages < Word.limit) :
    ∃ range, chunkRange start (start + count) chunkPages chunk = .ok range ∧
      start ≤ range.start ∧ range.stop ≤ start + count := by
  have hlt := chunk_mul_lt hpos h
  have hmul : Word.mul chunk chunkPages = .ok (chunk * chunkPages) :=
    Word.mul_eq_ok_iff.mpr ⟨by omega, rfl⟩
  have hfirst : Word.add start (chunk * chunkPages) = .ok (start + chunk * chunkPages) :=
    Word.add_eq_ok_iff.mpr ⟨by omega, rfl⟩
  have hbeyond : Word.add (start + chunk * chunkPages) chunkPages =
      .ok (start + chunk * chunkPages + chunkPages) := Word.add_eq_ok_iff.mpr ⟨by omega, rfl⟩
  refine ⟨⟨start + chunk * chunkPages,
    min (start + chunk * chunkPages + chunkPages) (start + count)⟩, ?_, ?_, ?_⟩
  · rw [chunkRange, hmul]
    show (Word.add start (chunk * chunkPages) >>= _) = _
    rw [hfirst]
    show (Word.add (start + chunk * chunkPages) chunkPages >>= _) = _
    rw [hbeyond]
    rfl
  · exact Nat.le_add_right start _
  · exact Nat.min_le_right _ _

/-- No chunk of a range fails if none of the touches does. -/
theorem touchChunk_eq_none {chunk : Nat}
    (hsoft : ∀ page, start ≤ page → page < start + count → touch page = none)
    (hpos : 0 < chunkPages) (h : chunk < Word.divCeil count chunkPages)
    (hlimit : start + count + chunkPages < Word.limit) :
    (touchChunk touch start (start + count) chunkPages chunk).2 = none := by
  obtain ⟨range, hrange, hstart, hstop⟩ := chunkRange_ok hpos h hlimit
  have htouched : touchRange touch range = (range, none) := by
    apply touchRange_eq
    intro page hge hlt
    exact hsoft page (by omega) (by omega)
  rw [touchChunk, hrange]
  show (touchRange touch range).2 = none
  rw [htouched]

/-- Where no chunk fails, all of them are taken. -/
theorem takenChunks_eq {fails : Nat → Bool} {chunks : Nat}
    (h : ∀ chunk, chunk < chunks → fails chunk = false) (workers : Nat) :
    takenChunks fails chunks workers = chunks := by
  have hnone : (List.range chunks).filter fails = [] := by
    apply List.filter_eq_nil_iff.mpr
    intro chunk hchunk
    simp [h chunk (List.mem_range.mp hchunk)]
  rw [takenChunks, hnone]
  rfl

theorem takenChunks_of_touchChunk {stop chunks : Nat}
    (h : ∀ chunk, chunk < chunks → (touchChunk touch start stop chunkPages chunk).2 = none)
    (workers : Nat) :
    takenChunks (fun chunk => (touchChunk touch start stop chunkPages chunk).2.isSome) chunks
      workers = chunks := by
  apply takenChunks_eq
  intro chunk hchunk
  rw [h chunk hchunk]
  rfl

/-- A pass of several workers none of whose chunks fails comes to its end. -/
theorem parallelPass_ok {chunks : Nat} (hstop : start + count < Word.limit)
    (h : ∀ chunk, chunk < chunks →
      (touchChunk touch start (start + count) chunkPages chunk).2 = none) (workers : Nat) :
    ∃ report, (parallelPass start count chunkPages chunks workers touch).result = .ok report := by
  have hadd : Word.add start count = .ok (start + count) :=
    Word.add_eq_ok_iff.mpr ⟨hstop, rfl⟩
  have htaken := takenChunks_of_touchChunk h workers
  -- So the workers take all chunks, and there is no fault to report.
  have hfaults : ((List.range chunks).map
      (touchChunk touch start (start + count) chunkPages)).filterMap (·.2) = [] := by
    apply List.filterMap_eq_nil_iff.mpr
    intro chunk hchunk
    obtain ⟨index, hindex, rfl⟩ := List.mem_map.mp hchunk
    exact h index (List.mem_range.mp hindex)
  have hnothing : Fault.inOrder [] = [] := List.mergeSort_nil
  simp only [parallelPass, hadd, htaken, hfaults, hnothing]
  exact ⟨_, rfl⟩

/-- A pass on the thread of the caller comes to its end if none of its touches fails. -/
theorem serialPass_ok (hstop : start + count < Word.limit)
    (hsoft : ∀ page, start ≤ page → page < start + count → touch page = none) :
    ∃ report, (serialPass start count touch).result = .ok report := by
  have hadd : Word.add start count = .ok (start + count) :=
    Word.add_eq_ok_iff.mpr ⟨hstop, rfl⟩
  have htouched : touchRange touch ⟨start, start + count⟩ = (⟨start, start + count⟩, none) :=
    touchRange_eq hsoft
  simp only [serialPass, hadd, htouched]
  exact ⟨_, rfl⟩

/-- A pass over a range that leaves room for one chunk comes to its end if none of its touches
fails. -/
theorem pass_ok (hsoft : ∀ page, start ≤ page → page < start + count → touch page = none)
    (hlimit : start + count + pretoucher.chunkPages pageSize < Word.limit) :
    ∃ report, (pretoucher.pass start count pageSize touch).result = .ok report := by
  unfold pass
  split
  · exact ⟨_, rfl⟩
  · split
    · apply parallelPass_ok (by omega)
      intro chunk hchunk
      exact touchChunk_eq_none hsoft (pretoucher.chunkPages_pos pageSize) hchunk hlimit
    · exact serialPass_ok (by omega) hsoft

/-! ## What a pass reports -/

/-- A range that does not fail is touched as a whole. -/
theorem touchRange_of_none {range : PageRange} (h : (touchRange touch range).2 = none) :
    (touchRange touch range).1 = range := by
  unfold touchRange at h ⊢
  split at h
  · next page hfirst =>
    have hfails := (firstFailure?_spec hfirst).2.2
    rw [show touch page = none from h] at hfails
    cases hfails
  · rfl

/-- A chunk that does not fail is touched as a whole. -/
theorem touchChunk_of_none {stop chunk : Nat}
    (h : (touchChunk touch start stop chunkPages chunk).2 = none) :
    (touchChunk touch start stop chunkPages chunk).1 =
      ⟨start + chunk * chunkPages, min (start + chunk * chunkPages + chunkPages) stop⟩ := by
  unfold touchChunk at h ⊢
  split at h
  · next range hrange =>
    rw [touchRange_of_none h, chunkRange_eq hrange]
  · cases h

/-- Several workers none of whose chunks fails touch all chunks as a whole. -/
theorem parallelPass_touched {chunks : Nat} (hstop : start + count < Word.limit)
    (h : ∀ chunk, chunk < chunks →
      (touchChunk touch start (start + count) chunkPages chunk).2 = none) (workers : Nat) :
    (parallelPass start count chunkPages chunks workers touch).touched =
      (List.range chunks).map fun chunk => ⟨start + chunk * chunkPages,
        min (start + chunk * chunkPages + chunkPages) (start + count)⟩ := by
  have hadd : Word.add start count = .ok (start + count) :=
    Word.add_eq_ok_iff.mpr ⟨hstop, rfl⟩
  simp only [parallelPass, hadd, takenChunks_of_touchChunk h workers, List.map_map]
  apply List.map_congr_left
  intro chunk hchunk
  exact touchChunk_of_none (h chunk (List.mem_range.mp hchunk))

/-- Where no chunk that was taken fails, all of them were. -/
theorem takenChunks_of_none {fails : Nat → Bool} {chunks workers : Nat}
    (h : ∀ chunk, chunk < takenChunks fails chunks workers → fails chunk = false) :
    takenChunks fails chunks workers = chunks := by
  unfold takenChunks at h ⊢
  split
  · next last hlast =>
    have hfails := (List.mem_filter.mp (List.mem_of_getElem? hlast)).2
    rw [hlast] at h
    rw [h last (Nat.lt_succ_self last)] at hfails
    cases hfails
  · rfl

/-- The first chunks of a range have its first pages, and all of them if they are enough. -/
theorem foldr_length_chunks (start count chunkPages : Nat) {run : Nat → PageRange × Option Fault}
    {chunks : Nat} (h : ∀ chunk, chunk < chunks → (run chunk).1 = ⟨start + chunk * chunkPages,
      min (start + chunk * chunkPages + chunkPages) (start + count)⟩) (rest : Nat) :
    ((List.range chunks).map run).foldr (fun chunk total => chunk.1.length + total) rest =
      min (chunks * chunkPages) count + rest := by
  induction chunks generalizing rest with
  | zero => simp
  | succ chunks ih =>
    have hlast := h chunks (Nat.lt_succ_self chunks)
    rw [List.range_succ, List.map_append, List.foldr_append,
      ih fun chunk hchunk => h chunk (Nat.lt_succ_of_lt hchunk)]
    simp only [List.map_cons, List.map_nil, List.foldr_cons, List.foldr_nil, hlast,
      PageRange.length, Nat.succ_mul]
    omega

theorem le_divCeil_mul (hpos : 0 < chunkPages) :
    count ≤ Word.divCeil count chunkPages * chunkPages := by
  unfold Word.divCeil
  have hdiv := Nat.div_add_mod (count + chunkPages - 1) chunkPages
  have hmod := Nat.mod_lt (count + chunkPages - 1) hpos
  rw [Nat.mul_comm] at hdiv
  omega

theorem divCeil_le (hpos : 0 < chunkPages) : Word.divCeil count chunkPages ≤ count := by
  have hle := Nat.le_mul_of_pos_right count hpos
  apply Nat.le_of_lt_succ
  rw [Word.divCeil, Nat.div_lt_iff_lt_mul hpos, Nat.succ_mul]
  omega

/-- Several workers that come to their end have touched all pages of the range. -/
theorem report_of_parallelPass_ok {chunks workers : Nat} {report : PretouchReport}
    (hchunks : count ≤ chunks * chunkPages)
    (h : (parallelPass start count chunkPages chunks workers touch).result = .ok report) :
    report = ⟨count, workers⟩ := by
  unfold parallelPass at h
  split at h
  · cases h
  · next stop hstop =>
    obtain ⟨-, rfl⟩ := Word.add_eq_ok_iff.mp hstop
    simp only [] at h
    split at h
    · cases h
    · next hfaults =>
      cases h
      -- The faults are listed in another order, but there is none.
      have hnone := List.filterMap_eq_nil_iff.mp (hfaults ▸ Fault.inOrder_perm _).nil_eq.symm
      have hsoft : ∀ chunk, chunk < takenChunks (fun chunk =>
          (touchChunk touch start (start + count) chunkPages chunk).2.isSome) chunks workers →
          (touchChunk touch start (start + count) chunkPages chunk).2 = none := fun chunk hchunk =>
        hnone _ (List.mem_map_of_mem (List.mem_range.mpr hchunk))
      have htaken := takenChunks_of_none fun chunk hchunk =>
        Option.isSome_eq_false_iff.mpr (Option.isNone_iff_eq_none.mpr (hsoft chunk hchunk))
      rw [foldr_length_chunks start count chunkPages fun chunk hchunk =>
        touchChunk_of_none (hsoft chunk hchunk), htaken, Nat.add_zero, Nat.min_eq_right hchunks]

theorem report_of_serialPass_ok {report : PretouchReport}
    (h : (serialPass start count touch).result = .ok report) : report = ⟨count, 1⟩ := by
  unfold serialPass at h
  split at h
  · cases h
  · split at h
    · cases h
    · cases h
      rfl

/-- A pass that comes to its end reports that it touched all pages of its range. -/
theorem pages_of_pass_ok {report : PretouchReport}
    (h : (pretoucher.pass start count pageSize touch).result = .ok report) :
    report.pages = count := by
  unfold pass at h
  split at h
  · next hzero =>
    cases h
    exact hzero.symm
  · split at h
    · rw [report_of_parallelPass_ok (le_divCeil_mul (pretoucher.chunkPages_pos pageSize)) h]
    · rw [report_of_serialPass_ok h]

/-! ## Passes of a state -/

/-- A pass marks the pages that it touched and leaves at most one record. -/
theorem run_eq (ε : Type) {σ : Type} (pretoucher : Pretoucher) (start count pageSize : Nat)
    (touch : Nat → Option Fault) (mark : σ → PageRange → σ) (state : σ) :
    ∃ trace : List Effect, (∀ effect ∈ trace, ∃ record, effect = .record record) ∧
      (pretoucher.run start count pageSize touch mark : Op ε σ PretouchReport) state =
        ⟨match (pretoucher.pass start count pageSize touch).result with
          | .ok report => .ok report
          | .error fault => .error (.fault fault),
          (pretoucher.pass start count pageSize touch).touched.foldl mark state, trace⟩ := by
  unfold run
  rw [Op.modify_bind]
  cases (pretoucher.pass start count pageSize touch).result with
  | error fault => exact ⟨[], by simp, rfl⟩
  | ok report =>
    rw [Op.checked_ok, pure_bind]
    split
    · exact ⟨[.record (.pretouched report.pages start report.workers)], by simp, rfl⟩
    · exact ⟨[], by simp, rfl⟩

theorem pages_of_run_ok {ε σ : Type} {mark : σ → PageRange → σ} {state : σ}
    {report : PretouchReport}
    (h : ((pretoucher.run start count pageSize touch mark :
      Op ε σ PretouchReport) state).result = .ok report) : report.pages = count := by
  obtain ⟨trace, -, hrun⟩ := run_eq ε pretoucher start count pageSize touch mark state
  rw [hrun] at h
  split at h
  · next hreport =>
    cases h
    exact pages_of_pass_ok hreport
  · cases h

theorem run_ok {ε σ : Type}
    (hsoft : ∀ page, start ≤ page → page < start + count → touch page = none)
    (hlimit : start + count + pretoucher.chunkPages pageSize < Word.limit)
    (mark : σ → PageRange → σ) (state : σ) :
    ∃ report, ((pretoucher.run start count pageSize touch mark :
      Op ε σ PretouchReport) state).result = .ok report := by
  obtain ⟨trace, -, hrun⟩ := run_eq ε pretoucher start count pageSize touch mark state
  obtain ⟨report, hreport⟩ := pass_ok hsoft hlimit
  exact ⟨report, by rw [hrun, hreport]⟩

end RegionBacking.Pretoucher
