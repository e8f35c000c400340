import RegionBacking.Proofs.Pretouch.ComingRound

/-!
# One worker and several workers

Where no touch fails, one worker touches all pages of a range, as far as its end is a word. Several
workers touch the same pages, but for one thing: before the last chunk is cut off at the end of the
range, its full end has to be a word as well. Where it is not (`Overshoots`), the worker that takes
the last chunk stops before its first page, and all other pages are touched. So this is just when one
worker and several workers do not agree (`agrees_iff_not_overshoots`), as long as the cursor of the
workers does not come round. Where it can, what they do depends on how their steps interleave.
-/

namespace RegionBacking.Pretoucher

variable {pretoucher : Pretoucher} {start count pageSize chunkSize workers : Nat}
  {touch : Nat → Option Fault}

/-! ## Touches that do not fail -/

theorem visited_of_soft {pages : List Nat} (h : ∀ page ∈ pages, touch page = none) :
    visited touch pages = pages := by
  induction pages with
  | nil => rfl
  | cons page rest ih =>
    rw [visited_cons_of_none (h page List.mem_cons_self),
      ih fun other hother => h other (List.mem_cons_of_mem page hother)]

namespace Job

variable {job : Job} {chunk chunks : Nat}

/-- All pages of a chunk are come to if their words are not exceeded. -/
theorem Soft.chunk_of_lt (soft : job.Soft) (h : chunk < job.chunks)
    (hlimit : job.start + (chunk + 1) * job.chunkPages < Word.limit) :
    job.visits chunk = (⟨job.bound chunk, job.bound (chunk + 1)⟩ : PageRange).pages ∧
      job.outcome? chunk = none := by
  have hpages : ∀ page ∈ (⟨job.bound chunk, job.bound (chunk + 1)⟩ : PageRange).pages,
      job.touch page = none := by
    intro page hpage
    have hfirst := (job.bound_le chunk).1
    have hlast := (job.bound_le (chunk + 1)).2
    have hmem := (job.mem_chunk_pages chunk page).mp hpage
    exact soft.touch_eq page (by omega) (by omega)
  rcases job.chunk_cases soft.chunkPages_pos soft.stop_lt h with ⟨-, hchunk⟩ | ⟨hbeyond, -⟩
  · rw [visits_of_ok hchunk, outcome?_of_ok hchunk, visited_of_soft hpages,
      List.findSome?_eq_none_iff]
    exact ⟨rfl, hpages⟩
  · omega

/-- So are all pages of the first chunks. -/
theorem Soft.visitsTo_eq (soft : job.Soft) (h : chunks ≤ job.chunks)
    (hlimit : job.start + chunks * job.chunkPages < Word.limit) :
    job.visitsTo chunks = List.range' job.start (job.bound chunks - job.start) ∧
      job.faultsTo chunks = [] := by
  have hchunk : ∀ chunk ∈ List.range chunks,
      job.visits chunk = (⟨job.bound chunk, job.bound (chunk + 1)⟩ : PageRange).pages ∧
        job.outcome? chunk = none := by
    intro chunk hchunk
    have hlt := List.mem_range.mp hchunk
    have hmul : (chunk + 1) * job.chunkPages ≤ chunks * job.chunkPages :=
      Nat.mul_le_mul_right _ hlt
    exact soft.chunk_of_lt (by omega) (by omega)
  constructor
  · rw [visitsTo, List.flatMap_congr fun chunk hmem => (hchunk chunk hmem).1, flatMap_pages]
  · exact List.filterMap_eq_nil_iff.mpr fun chunk hmem => (hchunk chunk hmem).2

/-- If the full end of the last chunk is a word, all pages are come to and nothing fails. -/
theorem Soft.of_lt (soft : job.Soft)
    (hlimit : job.start + job.chunks * job.chunkPages < Word.limit) (workers : Nat) :
    job.visitsTo (job.taken workers) = List.range' job.start job.count ∧
      job.faultsTo (job.taken workers) = [] := by
  obtain ⟨hvisits, hfaults⟩ := soft.visitsTo_eq (Nat.le_refl _) hlimit
  have htaken : job.taken workers = job.chunks := takenChunks_eq (fun chunk hchunk => by
    rw [List.filterMap_eq_nil_iff.mp hfaults chunk (List.mem_range.mpr hchunk)]
    rfl) workers
  rw [htaken, hvisits, hfaults, bound_of_le soft.chunkPages_pos (Nat.le_refl _),
    Nat.add_sub_cancel_left]
  exact ⟨rfl, rfl⟩

/-- If it is not, the last chunk fails, and of the others all pages are come to. -/
theorem Soft.of_le (soft : job.Soft) (hcount : 0 < job.count)
    (hlimit : Word.limit ≤ job.start + job.chunks * job.chunkPages) {workers : Nat}
    (hmany : 1 < workers) :
    job.visitsTo (job.taken workers) =
        List.range' job.start ((job.chunks - 1) * job.chunkPages) ∧
      job.faultsTo (job.taken workers) = [.addOverflow] := by
  have hpos := soft.chunkPages_pos
  have hstop := soft.stop_lt
  obtain ⟨last, hlast⟩ : ∃ last, job.chunks = last + 1 := by
    refine Nat.exists_eq_succ_of_ne_zero fun hnone => ?_
    rw [hnone, Nat.zero_mul] at hlimit
    omega
  have hbefore : last * job.chunkPages < job.count := chunk_mul_lt hpos (by
    show last < job.chunks
    omega)
  have hless : last < job.chunks := by omega
  obtain ⟨hvisits, hfaults⟩ := soft.visitsTo_eq (Nat.le_of_lt hless) (by omega)
  have hchunk : job.chunk last = .error .addOverflow := by
    rcases job.chunk_cases hpos hstop hless with ⟨hlt, -⟩ | ⟨-, hchunk⟩
    · rw [← hlast] at hlt
      omega
    · exact hchunk
  have hall : job.faultsTo job.chunks = [.addOverflow] := by
    rw [hlast, faultsTo_succ, hfaults, outcome?_of_error hchunk]
    rfl
  -- One chunk fails and there is another worker, so none is left over.
  have htaken : job.taken workers = job.chunks := by
    have hone := length_faultsTo job job.chunks
    rw [hall, List.length_singleton] at hone
    rw [taken, takenChunks, List.getElem?_eq_none (by omega)]
  rw [htaken, hall, hlast, visitsTo_succ, hvisits, visits_of_error hchunk, List.append_nil, bound,
    Nat.min_eq_left (Nat.le_of_lt hbefore), Nat.add_sub_cancel_left, Nat.add_sub_cancel]
  exact ⟨rfl, rfl⟩

end Job

/-! ## Passes -/

/-- Several workers take part in a pass, and the full end of its last chunk is no word. -/
def Overshoots (pretoucher : Pretoucher) (start count pageSize : Nat) : Prop :=
  pretoucher.isParallel count pageSize = true ∧ Word.limit ≤
    start + pretoucher.chunkCount count pageSize * pretoucher.chunkPages pageSize

/-- Two passes touch the same pages, and fail both or not at all. -/
structure Agrees (one many : PretouchPass) : Prop where
  touched_perm : (many.touched.flatMap PageRange.pages).Perm (one.touched.flatMap PageRange.pages)
  error_iff : (∃ fault, many.result = .error fault) ↔ ∃ fault, one.result = .error fault

section passes

variable (hstop : start + count < Word.limit)
  (hsoft : ∀ page, start ≤ page → page < start + count → touch page = none)

include hstop hsoft

theorem soft_job (pretoucher : Pretoucher) (pageSize : Nat) :
    (pretoucher.job start count pageSize touch).Soft :=
  ⟨pretoucher.chunkPages_pos pageSize, hstop, hsoft⟩

/-- Pages whose touches do not fail are touched when a pass comes to them. -/
theorem touched_eq_calls (pretoucher : Pretoucher) (pageSize : Nat) :
    (pretoucher.pass start count pageSize touch).touched.flatMap PageRange.pages =
      pretoucher.calls start count pageSize touch := by
  rw [pass_touched_eq pretoucher pageSize touch hstop, List.filter_eq_self]
  intro page hpage
  have hrange := List.mem_range'_1.mp
    ((pretoucher.calls_sublist pageSize touch hstop).subset hpage)
  rw [hsoft page hrange.1 hrange.2]
  rfl

/-- A pass that does not overshoot touches all pages of its range. -/
theorem pass_of_not_overshoots (h : ¬ pretoucher.Overshoots start count pageSize) :
    (pretoucher.pass start count pageSize touch).touched.flatMap PageRange.pages =
        List.range' start count ∧
      (pretoucher.pass start count pageSize touch).result =
        .ok ⟨count, if pretoucher.isParallel count pageSize then
          pretoucher.workersFor count pageSize else min count 1⟩ := by
  rw [touched_eq_calls hstop hsoft]
  cases hparallel : pretoucher.isParallel count pageSize with
  | true =>
    have hlimit : start + pretoucher.chunkCount count pageSize * pretoucher.chunkPages pageSize <
        Word.limit := Nat.lt_of_not_le fun hle => h ⟨hparallel, hle⟩
    obtain ⟨hvisits, hfaults⟩ := (soft_job hstop hsoft pretoucher pageSize).of_lt hlimit
      (pretoucher.workersFor count pageSize)
    rw [calls_of_parallel hparallel, result_of_parallel hstop hparallel, hfaults, verdict_nil]
    exact ⟨hvisits, rfl⟩
  | false =>
    have hpages : ∀ page ∈ List.range' start count, touch page = none := by
      intro page hpage
      have hrange := List.mem_range'_1.mp hpage
      exact hsoft page hrange.1 hrange.2
    rw [calls_of_serial hparallel, visited_of_soft hpages]
    refine ⟨rfl, ?_⟩
    by_cases hcount : count = 0
    · rw [pass, if_pos hcount, hcount]
      rfl
    · rw [pass_of_serial hparallel hcount, (serialPass_eq hstop touch).2,
        List.findSome?_eq_none_iff.mpr hpages, Nat.min_eq_right (Nat.pos_of_ne_zero hcount)]
      rfl

/-- A pass that overshoots fails, and touches all pages but those of its last chunk. -/
theorem pass_of_overshoots (h : pretoucher.Overshoots start count pageSize) :
    (pretoucher.pass start count pageSize touch).touched.flatMap PageRange.pages =
        List.range' start
          ((pretoucher.chunkCount count pageSize - 1) * pretoucher.chunkPages pageSize) ∧
      (pretoucher.pass start count pageSize touch).result = .error (.inWorkers .addOverflow) := by
  obtain ⟨hparallel, hlimit⟩ := h
  obtain ⟨hvisits, hfaults⟩ := (soft_job hstop hsoft pretoucher pageSize).of_le
    (Nat.pos_of_ne_zero (count_ne_zero_of_parallel hparallel)) hlimit
    (of_decide_eq_true hparallel : 1 < pretoucher.workersFor count pageSize)
  rw [touched_eq_calls hstop hsoft, calls_of_parallel hparallel,
    result_of_parallel hstop hparallel, hfaults, verdict_singleton]
  exact ⟨hvisits, rfl⟩

/-- Workers that are finished leave what their pass does. -/
theorem crew_of_pass (hparallel : pretoucher.isParallel count pageSize = true)
    {schedule : List (Fin (pretoucher.workersFor count pageSize))} {crew : Crew _}
    (fits : (pretoucher.job start count pageSize touch).CursorFits
      (pretoucher.workersFor count pageSize) 0 schedule.length)
    (hrun : (Crew.fresh _).run (pretoucher.job start count pageSize touch) schedule = some crew)
    (finished : crew.Finished) :
    crew.shared.touched.Perm
        ((pretoucher.pass start count pageSize touch).touched.flatMap PageRange.pages) ∧
      crew.result = (pretoucher.pass start count pageSize touch).result := by
  have hmany : 1 < pretoucher.workersFor count pageSize := of_decide_eq_true hparallel
  have bounded : (pretoucher.job start count pageSize touch).Bounded
      (pretoucher.workersFor count pageSize) :=
    ⟨pretoucher.chunkPages_pos pageSize, by omega, hstop⟩
  have soft := soft_job hstop hsoft pretoucher pageSize
  obtain ⟨whole, rfl, consistent, -⟩ := Crew.of_run bounded fits hrun
  have ends := consistent.ends bounded finished
  -- At most one chunk fails, so there is no choice in the order of the faults.
  have hfew : ((pretoucher.job start count pageSize touch).faultsTo
      ((pretoucher.job start count pageSize touch).taken
        (pretoucher.workersFor count pageSize))).length ≤ 1 := by
    rcases Nat.lt_or_ge (start + pretoucher.chunkCount count pageSize *
      pretoucher.chunkPages pageSize) Word.limit with hlt | hge
    · rw [(soft.of_lt hlt _).2]
      exact Nat.zero_le 1
    · rw [(soft.of_le (Nat.pos_of_ne_zero (count_ne_zero_of_parallel hparallel)) hge hmany).2]
      exact Nat.le_refl 1
  have hresult : whole.wrapped.result = whole.result := rfl
  rw [result_of_parallel hstop hparallel, hresult, ends.result_eq hfew, pass_touched_eq _ _ _ hstop,
    calls_of_parallel hparallel]
  refine ⟨?_, rfl⟩
  show whole.shared.touched.Perm _
  rw [consistent.touched_eq]
  exact ends.pages_perm.filter _

/-- Where no touch fails and the range ends at a word, one worker touches all pages of it. Several
workers agree with that just if they do not overshoot: then all of them touch all pages but those of
the last chunk, and fail with the sum that is no word. That is so for every interleaving of their
steps, unless the chunks and the workers together are more than there are words and the steps as
well. If they are, the cursor comes round to the first chunk again, and then some interleaving
touches a page twice. -/
theorem agrees_iff_not_overshoots (workers chunkSize pageSize : Nat) :
    (((create 1 chunkSize).pass start count pageSize touch).touched.flatMap PageRange.pages =
        List.range' start count ∧
      ((create 1 chunkSize).pass start count pageSize touch).result =
        .ok ⟨count, min count 1⟩) ∧
    (Agrees ((create 1 chunkSize).pass start count pageSize touch)
        ((create workers chunkSize).pass start count pageSize touch) ↔
      ¬ (create workers chunkSize).Overshoots start count pageSize) ∧
    ((create workers chunkSize).Overshoots start count pageSize →
      ((create workers chunkSize).pass start count pageSize touch).touched.flatMap
          PageRange.pages = List.range' start (((create workers chunkSize).chunkCount count pageSize
            - 1) * (create workers chunkSize).chunkPages pageSize) ∧
      ((create workers chunkSize).pass start count pageSize touch).result =
        .error (.inWorkers .addOverflow)) ∧
    ((create workers chunkSize).isParallel count pageSize = true →
      ∀ (schedule : List (Fin ((create workers chunkSize).workersFor count pageSize)))
        (crew : Crew _), (create workers chunkSize).chunkCount count pageSize +
          (create workers chunkSize).workersFor count pageSize ≤ Word.limit ∨
            schedule.length ≤ Word.limit →
        (Crew.fresh _).run
          ((create workers chunkSize).job start count pageSize touch) schedule = some crew →
        crew.Finished →
        crew.shared.touched.Perm (((create workers chunkSize).pass start count pageSize
          touch).touched.flatMap PageRange.pages) ∧
        crew.result = ((create workers chunkSize).pass start count pageSize touch).result) ∧
    (Word.limit < (create workers chunkSize).chunkCount count pageSize +
        (create workers chunkSize).workersFor count pageSize →
      ∃ (schedule : List (Fin ((create workers chunkSize).workersFor count pageSize)))
        (crew : Crew _), (Crew.fresh _).run
          ((create workers chunkSize).job start count pageSize touch) schedule = some crew ∧
        ¬ crew.shared.touched.Nodup) := by
  have hserial : (create 1 chunkSize).isParallel count pageSize = false := by
    have hworkers : (create 1 chunkSize).workersFor count pageSize ≤ 1 := Nat.min_le_left _ _
    exact decide_eq_false (Nat.not_lt.mpr hworkers)
  have hinside : ¬ (create 1 chunkSize).Overshoots start count pageSize := fun h =>
    Bool.false_ne_true (hserial.symm.trans h.1)
  have hone := pass_of_not_overshoots hstop hsoft hinside
  rw [hserial, if_neg Bool.false_ne_true] at hone
  refine ⟨hone, ⟨fun agrees h => ?_, fun h => ?_⟩, pass_of_overshoots hstop hsoft,
    fun hparallel schedule crew hcursor hrun finished =>
      crew_of_pass hstop hsoft hparallel
        (hcursor.imp_right fun hsteps => (Nat.zero_add _).symm ▸ hsteps) hrun finished,
    fun hmany => ?_⟩
  · have hmany := (pass_of_overshoots hstop hsoft h).2
    exact not_error_of_ok hone.2 (agrees.error_iff.mp ⟨_, hmany⟩)
  · obtain ⟨htouched, hresult⟩ := pass_of_not_overshoots hstop hsoft h
    refine ⟨?_, ?_⟩
    · rw [htouched, hone.1]
    · exact iff_of_false (not_error_of_ok hresult) (not_error_of_ok hone.2)
  · obtain ⟨crew, ⟨schedule, hrun⟩, htwice⟩ := exists_touched_twice
      (soft_job hstop hsoft (create workers chunkSize) pageSize) (Nat.min_le_right _ _) hmany
    exact ⟨schedule, crew, hrun, htwice⟩

end passes

/-- Two workers and one worker agree on five pages whose last chunk would end at the largest word. -/
theorem agrees_of_last_word : 18446744073709551609 + 5 < Word.limit ∧
    ((create 2 2).isParallel 5 1 = true ∧
      ¬ (create 2 2).Overshoots 18446744073709551609 5 1) ∧
    Agrees ((create 1 2).pass 18446744073709551609 5 1 fun _ => none)
      ((create 2 2).pass 18446744073709551609 5 1 fun _ => none) := by
  have hstop : 18446744073709551609 + 5 < Word.limit := by decide
  have hinside : ¬ (create 2 2).Overshoots 18446744073709551609 5 1 := fun h =>
    absurd h.2 (by decide)
  exact ⟨hstop, ⟨by decide, hinside⟩,
    (agrees_iff_not_overshoots hstop (fun _ _ _ => rfl) 2 2 1).2.1.mpr hinside⟩

/-- On three pages that end at the largest word they do not: the last chunk would have its end one
page behind that. -/
theorem disagrees_of_last_word : 18446744073709551612 + 3 < Word.limit ∧
    ((create 1 2).pass 18446744073709551612 3 1 fun _ => none).result = .ok ⟨3, 1⟩ ∧
    ((create 2 2).pass 18446744073709551612 3 1 fun _ => none).result =
      .error (.inWorkers .addOverflow) ∧
    ((create 2 2).pass 18446744073709551612 3 1 fun _ => none).touched.flatMap PageRange.pages =
      [18446744073709551612, 18446744073709551613] := by
  have hstop : 18446744073709551612 + 3 < Word.limit := by decide
  have hover : (create 2 2).Overshoots 18446744073709551612 3 1 := ⟨by decide, by decide⟩
  have hsoft : ∀ page, 18446744073709551612 ≤ page → page < 18446744073709551612 + 3 →
      (fun _ => none : Nat → Option Fault) page = none := fun _ _ _ => rfl
  obtain ⟨htouched, hresult⟩ := pass_of_overshoots hstop hsoft hover
  exact ⟨hstop, rfl, hresult, htouched⟩

end RegionBacking.Pretoucher
