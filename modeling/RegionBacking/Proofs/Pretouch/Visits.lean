import RegionBacking.Proofs.Pretouch.Workers

/-!
# The pages that a pass comes to

A pass comes to a page when its turn is there, whether the touch of that page then fails or not. Of
each chunk that is taken the pages are come to in order, up to the first whose touch fails
(`mem_visited`). So the pages and the faults of a pass are told chunk by chunk (`Job.visits`,
`Job.outcome?`), and which chunks are taken is told from how many of them fail (`takenChunks_eq_of`).
-/

namespace RegionBacking.Pretoucher

variable {touch : Nat → Option Fault} {first page count start pageSize : Nat}

/-! ## Pages one by one -/

/-- The pages of a list that are come to one by one: up to the first whose touch fails, that one
being the last. -/
def visited (touch : Nat → Option Fault) : List Nat → List Nat
  | [] => []
  | page :: rest => if (touch page).isSome then [page] else page :: visited touch rest

theorem visited_cons_of_some {fault : Fault} (h : touch page = some fault) (rest : List Nat) :
    visited touch (page :: rest) = [page] := by
  rw [visited, h, if_pos Option.isSome_some]

theorem visited_cons_of_none (h : touch page = none) (rest : List Nat) :
    visited touch (page :: rest) = page :: visited touch rest := by
  rw [visited, h]
  rfl

theorem visited_sublist (touch : Nat → Option Fault) (pages : List Nat) :
    (visited touch pages).Sublist pages := by
  induction pages with
  | nil => exact .slnil
  | cons page rest ih =>
    rw [visited]
    split
    · exact (List.nil_sublist rest).cons_cons page
    · exact ih.cons_cons page

/-- A page of a range is come to just if none of the touches before it fails. -/
theorem mem_visited : page ∈ visited touch (List.range' first count) ↔
    first ≤ page ∧ page < first + count ∧
      ∀ earlier, first ≤ earlier → earlier < page → touch earlier = none := by
  induction count generalizing first with
  | zero =>
    refine iff_of_false List.not_mem_nil ?_
    omega
  | succ count ih =>
    rw [List.range'_succ]
    cases hfirst : touch first with
    | some fault =>
      rw [visited_cons_of_some hfirst, List.mem_singleton]
      constructor
      · rintro rfl
        exact ⟨Nat.le_refl _, by omega, fun earlier hge hlt => absurd hge (by omega)⟩
      · rintro ⟨hge, -, hsoft⟩
        -- The first page is not before this one, since its touch fails.
        by_contra hne
        have hnone := hsoft first (Nat.le_refl _) (by omega)
        rw [hfirst] at hnone
        cases hnone
    | none =>
      rw [visited_cons_of_none hfirst, List.mem_cons, ih]
      constructor
      · rintro (rfl | ⟨hge, hlt, hsoft⟩)
        · exact ⟨Nat.le_refl _, by omega, fun earlier hge hlt => absurd hge (by omega)⟩
        · refine ⟨by omega, by omega, fun earlier hearlier hbefore => ?_⟩
          rcases Nat.eq_or_lt_of_le hearlier with rfl | hlater
          · exact hfirst
          · exact hsoft earlier hlater hbefore
      · rintro ⟨hge, hlt, hsoft⟩
        rcases Nat.eq_or_lt_of_le hge with hsame | hlater
        · exact .inl hsame.symm
        · exact .inr ⟨hlater, by omega, fun earlier hearlier => hsoft earlier (by omega)⟩

/-- The first fault of a range is that of the page at which it stops. -/
theorem firstFailure?_eq (touch : Nat → Option Fault) (page count : Nat) :
    match firstFailure? touch page count with
    | some failing =>
      (visited touch (List.range' page count)).filter (fun page => (touch page).isNone) =
          List.range' page (failing - page) ∧
        (List.range' page count).findSome? touch = touch failing
    | none =>
      (visited touch (List.range' page count)).filter (fun page => (touch page).isNone) =
          List.range' page count ∧
        (List.range' page count).findSome? touch = none := by
  induction count generalizing page with
  | zero => exact ⟨rfl, rfl⟩
  | succ count ih =>
    rw [firstFailure?, List.range'_succ, List.findSome?_cons]
    cases hpage : touch page with
    | some fault =>
      rw [visited_cons_of_some hpage, if_pos Option.isSome_some]
      simp only [hpage, List.filter_singleton, Option.isNone_some, Nat.sub_self, List.range'_zero,
        cond_false, and_self]
    | none =>
      have hrest := ih (page + 1)
      rw [visited_cons_of_none hpage, List.filter_cons_of_pos (by rw [hpage]; rfl)]
      simp only [Option.isSome_none, Bool.false_eq_true, if_false]
      cases hfailing : firstFailure? touch (page + 1) count with
      | some failing =>
        rw [hfailing] at hrest
        have hlater := (firstFailure?_spec hfailing).1
        have hmore : failing - page = failing - (page + 1) + 1 := by omega
        refine ⟨?_, hrest.2⟩
        rw [hrest.1, hmore, List.range'_succ]
      | none =>
        rw [hfailing] at hrest
        exact ⟨congrArg _ hrest.1, hrest.2⟩

/-- What is touched of a range are the pages come to whose touches do not fail, and it fails with the
first fault. -/
theorem touchRange_visited (touch : Nat → Option Fault) (range : PageRange) :
    (touchRange touch range).1.pages =
        (visited touch range.pages).filter (fun page => (touch page).isNone) ∧
      (touchRange touch range).2 = range.pages.findSome? touch := by
  have hfirst := firstFailure?_eq touch range.start range.length
  unfold touchRange PageRange.pages
  split
  · next failing hfailing =>
    rw [hfailing] at hfirst
    exact ⟨hfirst.1.symm, hfirst.2.symm⟩
  · next hnone =>
    rw [hnone] at hfirst
    exact ⟨hfirst.1.symm, hfirst.2.symm⟩

/-! ## Chunk by chunk -/

namespace Job

variable {job : Job} {chunk chunks workers : Nat} {range : PageRange}

/-- The pages of a chunk that are come to. -/
def visits (job : Job) (chunk : Nat) : List Nat :=
  match job.chunk chunk with
  | .ok range => visited job.touch range.pages
  | .error _ => []

/-- The fault that ends a chunk, if one does. -/
def outcome? (job : Job) (chunk : Nat) : Option Fault :=
  match job.chunk chunk with
  | .ok range => range.pages.findSome? job.touch
  | .error fault => some fault

/-- The pages of the first chunks that are come to. -/
def visitsTo (job : Job) (chunks : Nat) : List Nat := (List.range chunks).flatMap job.visits

/-- The faults of the first chunks. -/
def faultsTo (job : Job) (chunks : Nat) : List Fault := (List.range chunks).filterMap job.outcome?

/-- How many chunks a crew takes. -/
def taken (job : Job) (workers : Nat) : Nat :=
  takenChunks (fun chunk => (job.outcome? chunk).isSome) job.chunks workers

theorem mem_chunk_pages (job : Job) (chunk page : Nat) :
    page ∈ (⟨job.bound chunk, job.bound (chunk + 1)⟩ : PageRange).pages ↔
      job.bound chunk ≤ page ∧ page < job.bound (chunk + 1) := by
  have hmono : job.bound chunk ≤ job.bound (chunk + 1) := job.bound_mono (Nat.le_succ chunk)
  show page ∈ List.range' (job.bound chunk) (job.bound (chunk + 1) - job.bound chunk) ↔ _
  rw [List.mem_range'_1]
  omega

/-- The pages of a chunk are words, or those behind it are not. -/
theorem chunk_cases (hpos : 0 < job.chunkPages) (hstop : job.start + job.count < Word.limit)
    (h : chunk < job.chunks) :
    (job.start + (chunk + 1) * job.chunkPages < Word.limit ∧
      job.chunk chunk = .ok ⟨job.bound chunk, job.bound (chunk + 1)⟩) ∨
    (Word.limit ≤ job.start + (chunk + 1) * job.chunkPages ∧
      job.chunk chunk = .error .addOverflow) := by
  have hlt := chunk_mul_lt hpos h
  have hadd : Word.add job.start job.count = .ok (job.start + job.count) :=
    Word.add_eq_ok_iff.mpr ⟨hstop, rfl⟩
  have hmul : Word.mul chunk job.chunkPages = .ok (chunk * job.chunkPages) :=
    Word.mul_eq_ok_iff.mpr ⟨by omega, rfl⟩
  have hfirst : Word.add job.start (chunk * job.chunkPages) =
      .ok (job.start + chunk * job.chunkPages) := Word.add_eq_ok_iff.mpr ⟨by omega, rfl⟩
  have hchunk : job.chunk chunk =
      (Word.add (job.start + chunk * job.chunkPages) job.chunkPages).bind fun beyond =>
        .ok ⟨job.start + chunk * job.chunkPages, min beyond (job.start + job.count)⟩ := by
    rw [Job.chunk, hadd]
    show chunkRange job.start (job.start + job.count) job.chunkPages chunk = _
    rw [chunkRange, hmul]
    show (Word.add job.start (chunk * job.chunkPages) >>= _) = _
    rw [hfirst]
    rfl
  rw [Nat.succ_mul, hchunk, ← range_eq hpos h]
  unfold Word.add
  by_cases hbeyond : job.start + chunk * job.chunkPages + job.chunkPages < Word.limit
  · rw [if_pos hbeyond]
    exact .inl ⟨by omega, rfl⟩
  · rw [if_neg hbeyond]
    exact .inr ⟨by omega, rfl⟩

theorem chunk_eq_ok (hpos : 0 < job.chunkPages) (hstop : job.start + job.count < Word.limit)
    (h : chunk < job.chunks) (hrange : job.chunk chunk = .ok range) :
    range = ⟨job.bound chunk, job.bound (chunk + 1)⟩ := by
  rcases job.chunk_cases hpos hstop h with ⟨-, hchunk⟩ | ⟨-, hchunk⟩
  · exact Except.ok.inj (hrange.symm.trans hchunk)
  · cases hrange.symm.trans hchunk

theorem visits_of_ok (h : job.chunk chunk = .ok range) :
    job.visits chunk = visited job.touch range.pages := by
  rw [visits, h]

theorem visits_of_error {fault : Fault} (h : job.chunk chunk = .error fault) :
    job.visits chunk = [] := by
  rw [visits, h]

theorem outcome?_of_ok (h : job.chunk chunk = .ok range) :
    job.outcome? chunk = range.pages.findSome? job.touch := by
  rw [outcome?, h]

theorem outcome?_of_error {fault : Fault} (h : job.chunk chunk = .error fault) :
    job.outcome? chunk = some fault := by
  rw [outcome?, h]

theorem visitsTo_succ (job : Job) (chunks : Nat) :
    job.visitsTo (chunks + 1) = job.visitsTo chunks ++ job.visits chunks := by
  rw [visitsTo, List.range_succ, List.flatMap_append, List.flatMap_singleton]
  rfl

theorem faultsTo_succ (job : Job) (chunks : Nat) :
    job.faultsTo (chunks + 1) = job.faultsTo chunks ++ (job.outcome? chunks).toList := by
  rw [faultsTo, List.range_succ, List.filterMap_append]
  cases h : job.outcome? chunks <;> simp [faultsTo, h]

/-- What is touched of a chunk are the pages come to whose touches do not fail. -/
theorem touchChunk_eq (hstop : job.start + job.count < Word.limit) (chunk : Nat) :
    (touchChunk job.touch job.start (job.start + job.count) job.chunkPages chunk).1.pages =
        (job.visits chunk).filter (fun page => (job.touch page).isNone) ∧
      (touchChunk job.touch job.start (job.start + job.count) job.chunkPages chunk).2 =
        job.outcome? chunk := by
  have hadd : Word.add job.start job.count = .ok (job.start + job.count) :=
    Word.add_eq_ok_iff.mpr ⟨hstop, rfl⟩
  have hchunk : job.chunk chunk =
      chunkRange job.start (job.start + job.count) job.chunkPages chunk := by
    rw [Job.chunk, hadd]
    rfl
  rw [touchChunk, ← hchunk]
  cases hrange : job.chunk chunk with
  | ok range =>
    rw [visits_of_ok hrange, outcome?_of_ok hrange]
    exact touchRange_visited job.touch range
  | error fault =>
    rw [visits_of_error hrange, outcome?_of_error hrange]
    refine ⟨?_, rfl⟩
    rw [PageRange.pages, PageRange.length, Nat.sub_self]
    rfl

/-- Pages of the first chunks are come to in order. -/
theorem visitsTo_sublist (hpos : 0 < job.chunkPages) (hstop : job.start + job.count < Word.limit)
    (h : chunks ≤ job.chunks) :
    (job.visitsTo chunks).Sublist (List.range' job.start (job.bound chunks - job.start)) := by
  rw [← flatMap_pages]
  induction chunks with
  | zero => exact .slnil
  | succ chunks ih =>
    rw [visitsTo_succ, List.range_succ, List.flatMap_append, List.flatMap_singleton]
    refine (ih (by omega)).append ?_
    cases hrange : job.chunk chunks with
    | ok range =>
      rw [visits_of_ok hrange, chunk_eq_ok hpos hstop h hrange]
      exact visited_sublist _ _
    | error fault =>
      rw [visits_of_error hrange]
      exact List.nil_sublist _

theorem visitsTo_sublist_range (hpos : 0 < job.chunkPages)
    (hstop : job.start + job.count < Word.limit) (h : chunks ≤ job.chunks) :
    (job.visitsTo chunks).Sublist (List.range' job.start job.count) := by
  have hbound := (job.bound_le chunks).2
  refine (visitsTo_sublist hpos hstop h).trans (List.range'_sublist_right.mpr ?_)
  omega

end Job

/-! ## How many chunks are taken -/

/-- Chunks are taken up to the one that stops the last of the workers, or all of them. -/
theorem takenChunks_eq_of {fails : Nat → Bool} {chunks workers taken : Nat} (hpos : 0 < workers)
    (hle : taken ≤ chunks)
    (hfew : ∀ chunk, chunk < taken → ((List.range chunk).filter fails).length < workers)
    (h : ((List.range taken).filter fails).length = workers ∨
      taken = chunks ∧ ((List.range taken).filter fails).length < workers) :
    takenChunks fails chunks workers = taken := by
  unfold takenChunks
  rcases h with hall | ⟨rfl, hless⟩
  · -- The last chunk that was taken stopped the last worker.
    obtain ⟨last, rfl⟩ : ∃ last, taken = last + 1 := by
      refine Nat.exists_eq_succ_of_ne_zero ?_
      rintro rfl
      rw [List.range_zero, List.filter_nil, List.length_nil] at hall
      omega
    have hbefore := hfew last (Nat.lt_succ_self last)
    obtain ⟨more, rfl⟩ := Nat.exists_eq_add_of_le hle
    rw [List.range_succ, List.filter_append, List.length_append, List.filter_singleton] at hall
    have hfails : fails last = true := by
      by_contra hnot
      rw [Bool.eq_false_iff.mpr hnot, cond_false, List.length_nil] at hall
      omega
    rw [hfails, cond_true, List.length_singleton] at hall
    have hlast : ((List.range (last + 1 + more)).filter fails)[workers - 1]? = some last := by
      rw [List.range_add, List.filter_append, List.range_succ, List.filter_append,
        List.filter_singleton, hfails, cond_true, List.append_assoc, ← hall, Nat.add_sub_cancel,
        List.getElem?_append_right (Nat.le_refl _), Nat.sub_self]
      rfl
    rw [hlast]
  · rw [List.getElem?_eq_none (by omega)]

/-- Chunks are not taken that there are not. -/
theorem takenChunks_le (fails : Nat → Bool) (chunks workers : Nat) :
    takenChunks fails chunks workers ≤ chunks := by
  unfold takenChunks
  split
  · next last hlast =>
    exact List.mem_range.mp (List.mem_filter.mp (List.mem_of_getElem? hlast)).1
  · exact Nat.le_refl _

theorem Job.taken_le (job : Job) (workers : Nat) : job.taken workers ≤ job.chunks :=
  takenChunks_le _ _ _

theorem length_faultsTo (job : Job) (chunks : Nat) : (job.faultsTo chunks).length =
    ((List.range chunks).filter fun chunk => (job.outcome? chunk).isSome).length := by
  rw [Job.faultsTo, List.length_filterMap_eq_countP, List.countP_eq_length_filter]

/-! ## Passes -/

/-- The pages that a pass comes to, in the order of the chunks. -/
def calls (pretoucher : Pretoucher) (start count pageSize : Nat) (touch : Nat → Option Fault) :
    List Nat :=
  if pretoucher.isParallel count pageSize then
    (pretoucher.job start count pageSize touch).visitsTo
      ((pretoucher.job start count pageSize touch).taken (pretoucher.workersFor count pageSize))
  else visited touch (List.range' start count)

/-- What comes of several workers that stopped with some faults. -/
def verdict (faults : List Fault) (report : PretouchReport) : Except Fault PretouchReport :=
  match Fault.inOrder faults with
  | fault :: others => .error (.inWorkers (fault.together others))
  | [] => .ok report

theorem not_error_of_ok {result : Except Fault PretouchReport} {report : PretouchReport}
    (h : result = .ok report) : ¬ ∃ fault, result = .error fault := by
  rintro ⟨fault, hfault⟩
  cases h.symm.trans hfault

theorem verdict_nil (report : PretouchReport) : verdict [] report = .ok report := by
  have hnothing : Fault.inOrder [] = [] := List.mergeSort_nil
  rw [verdict, hnothing]

theorem verdict_singleton (fault : Fault) (report : PretouchReport) :
    verdict [fault] report = .error (.inWorkers fault) := by
  have hsame : Fault.inOrder [fault] = [fault] := List.mergeSort_singleton fault
  rw [verdict, hsame]
  rfl

theorem verdict_error_iff {faults : List Fault} {report : PretouchReport} :
    (∃ fault, verdict faults report = .error fault) ↔ faults ≠ [] := by
  constructor
  · rintro herror rfl
    exact not_error_of_ok (verdict_nil report) herror
  · intro hne
    unfold verdict
    split
    · exact ⟨_, rfl⟩
    · next hnone =>
      exact absurd (hnone ▸ Fault.inOrder_perm faults).nil_eq.symm hne

/-- Where there are faults, nothing is reported. -/
theorem verdict_congr {faults : List Fault} (h : faults ≠ []) (report other : PretouchReport) :
    verdict faults report = verdict faults other := by
  unfold verdict
  split
  · rfl
  · next hnone => exact absurd (hnone ▸ Fault.inOrder_perm faults).nil_eq.symm h

section passes

variable {pretoucher : Pretoucher}

theorem pass_of_serial (hserial : pretoucher.isParallel count pageSize = false)
    (hcount : count ≠ 0) : pretoucher.pass start count pageSize touch =
      serialPass start count touch := by
  rw [pass, if_neg hcount, hserial]
  rfl

theorem count_ne_zero_of_parallel (hparallel : pretoucher.isParallel count pageSize = true) :
    count ≠ 0 := by
  have hmany : 1 < pretoucher.workersFor count pageSize := of_decide_eq_true hparallel
  have hworkers := pretoucher.workersFor_le count pageSize
  omega

theorem pass_of_parallel (hparallel : pretoucher.isParallel count pageSize = true) :
    pretoucher.pass start count pageSize touch =
      parallelPass start count (pretoucher.chunkPages pageSize)
        (pretoucher.chunkCount count pageSize) (pretoucher.workersFor count pageSize) touch := by
  rw [pass, if_neg (count_ne_zero_of_parallel hparallel), if_pos hparallel]

/-- A pass on the thread of the caller stops at the first fault. -/
theorem serialPass_eq (hstop : start + count < Word.limit) (touch : Nat → Option Fault) :
    (serialPass start count touch).touched.flatMap PageRange.pages =
        (visited touch (List.range' start count)).filter (fun page => (touch page).isNone) ∧
      (serialPass start count touch).result =
        match (List.range' start count).findSome? touch with
        | some fault => .error fault
        | none => .ok ⟨count, 1⟩ := by
  have hadd : Word.add start count = .ok (start + count) :=
    Word.add_eq_ok_iff.mpr ⟨hstop, rfl⟩
  have hpages : (⟨start, start + count⟩ : PageRange).pages = List.range' start count := by
    rw [PageRange.pages, PageRange.length, Nat.add_sub_cancel_left]
  have hrange := touchRange_visited touch ⟨start, start + count⟩
  rw [hpages] at hrange
  rcases hrun : touchRange touch ⟨start, start + count⟩ with ⟨touched, fault?⟩
  rw [hrun] at hrange
  obtain ⟨htouched, hfault⟩ := hrange
  rw [← hfault, ← htouched]
  cases fault? <;> simp only [serialPass, hadd, hrun] <;>
    exact ⟨List.flatMap_singleton .., trivial⟩

/-- What several workers touch, and what comes of them, is told from the chunks that are taken. -/
theorem parallelPass_eq (job : Job) (hpos : 0 < job.chunkPages)
    (hstop : job.start + job.count < Word.limit) (workers : Nat) :
    (parallelPass job.start job.count job.chunkPages job.chunks workers
        job.touch).touched.flatMap PageRange.pages =
      (job.visitsTo (job.taken workers)).filter (fun page => (job.touch page).isNone) ∧
    (parallelPass job.start job.count job.chunkPages job.chunks workers job.touch).result =
      verdict (job.faultsTo (job.taken workers)) ⟨job.count, workers⟩ := by
  have hadd : Word.add job.start job.count = .ok (job.start + job.count) :=
    Word.add_eq_ok_iff.mpr ⟨hstop, rfl⟩
  have htaken : takenChunks (fun chunk => (touchChunk job.touch job.start (job.start + job.count)
      job.chunkPages chunk).2.isSome) job.chunks workers = job.taken workers :=
    congrArg (takenChunks · job.chunks workers) <| funext fun chunk =>
      congrArg Option.isSome (Job.touchChunk_eq hstop chunk).2
  constructor
  · simp only [parallelPass, hadd, htaken, List.map_map, List.flatMap_map, Job.visitsTo]
    rw [List.filter_flatMap]
    exact List.flatMap_congr fun chunk _ => (Job.touchChunk_eq hstop chunk).1
  · have hfaults : ((List.range (job.taken workers)).map (touchChunk job.touch job.start
        (job.start + job.count) job.chunkPages)).filterMap (·.2) =
        job.faultsTo (job.taken workers) := by
      rw [List.filterMap_map]
      exact List.filterMap_congr fun chunk _ => (Job.touchChunk_eq hstop chunk).2
    obtain ⟨total, hresult⟩ : ∃ total, (parallelPass job.start job.count job.chunkPages job.chunks
        workers job.touch).result =
          verdict (job.faultsTo (job.taken workers)) ⟨total, workers⟩ := by
      simp only [parallelPass, hadd, htaken, hfaults]
      exact ⟨_, rfl⟩
    rw [hresult]
    by_cases hnone : job.faultsTo (job.taken workers) = []
    · -- Without a fault the report is right.
      rw [hnone, verdict_nil] at hresult
      rw [report_of_parallelPass_ok (le_divCeil_mul hpos) hresult]
    · exact verdict_congr hnone _ _

theorem calls_of_parallel (hparallel : pretoucher.isParallel count pageSize = true) :
    pretoucher.calls start count pageSize touch =
      (pretoucher.job start count pageSize touch).visitsTo
        ((pretoucher.job start count pageSize touch).taken
          (pretoucher.workersFor count pageSize)) := by
  rw [calls, if_pos hparallel]

theorem calls_of_serial (hserial : pretoucher.isParallel count pageSize = false) :
    pretoucher.calls start count pageSize touch = visited touch (List.range' start count) := by
  rw [calls, hserial]
  rfl

theorem result_of_parallel (hstop : start + count < Word.limit)
    (hparallel : pretoucher.isParallel count pageSize = true) :
    (pretoucher.pass start count pageSize touch).result =
      verdict ((pretoucher.job start count pageSize touch).faultsTo
        ((pretoucher.job start count pageSize touch).taken (pretoucher.workersFor count pageSize)))
        ⟨count, pretoucher.workersFor count pageSize⟩ := by
  rw [pass_of_parallel hparallel]
  exact (parallelPass_eq (pretoucher.job start count pageSize touch)
    (pretoucher.chunkPages_pos pageSize) hstop _).2

/-- What is touched are the pages come to whose touches do not fail. -/
theorem pass_touched_eq (pretoucher : Pretoucher) (pageSize : Nat) (touch : Nat → Option Fault)
    (hstop : start + count < Word.limit) :
    (pretoucher.pass start count pageSize touch).touched.flatMap PageRange.pages =
      (pretoucher.calls start count pageSize touch).filter fun page => (touch page).isNone := by
  cases hparallel : pretoucher.isParallel count pageSize with
  | true =>
    rw [pass_of_parallel hparallel, calls_of_parallel hparallel]
    exact (parallelPass_eq (pretoucher.job start count pageSize touch)
      (pretoucher.chunkPages_pos pageSize) hstop _).1
  | false =>
    rw [calls_of_serial hparallel]
    by_cases hcount : count = 0
    · rw [pass, if_pos hcount, hcount]
      rfl
    · rw [pass_of_serial hparallel hcount]
      exact (serialPass_eq hstop touch).1

/-- A pass comes to no page twice, and only to pages of its range. -/
theorem calls_sublist (pretoucher : Pretoucher) (pageSize : Nat) (touch : Nat → Option Fault)
    (hstop : start + count < Word.limit) :
    (pretoucher.calls start count pageSize touch).Sublist (List.range' start count) := by
  cases hparallel : pretoucher.isParallel count pageSize with
  | true =>
    rw [calls_of_parallel hparallel]
    have hrange := (pretoucher.job start count pageSize touch).taken_le
      (pretoucher.workersFor count pageSize)
    exact Job.visitsTo_sublist_range (pretoucher.chunkPages_pos pageSize) hstop hrange
  | false =>
    rw [calls_of_serial hparallel]
    exact visited_sublist _ _

end passes

end RegionBacking.Pretoucher
