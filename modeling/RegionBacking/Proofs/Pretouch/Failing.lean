import RegionBacking.Proofs.Pretouch.ComingRound

/-!
# Passes whose touches fail

A touch that fails is contained to its chunk: it keeps a pass from the later pages of this chunk, and
from no other page, unless it is of the last worker. Here the pages and the words behind them leave
room for one more chunk, so nothing but a touch can fail. A pass fails just if one of the touches of
its range does, it comes to no page twice, and where fewer chunks hold such a page than workers take
part, it comes to each page before which none of its chunk fails (`failures_contained`). All of that
takes it that the cursor of the workers does not come round: where it does, a page can be touched
twice although no touch fails (`touched_twice_of_three_workers`).
-/

namespace RegionBacking.Pretoucher

variable {pretoucher : Pretoucher} {start count pageSize : Nat} {touch : Nat → Option Fault}

/-! ## Chunks that fail -/

namespace Job

variable {job : Job} {chunk page workers : Nat}

/-- The chunks with a page whose touch fails. -/
def spoilt (job : Job) : List Nat :=
  (List.range job.chunks).filter fun chunk =>
    (⟨job.bound chunk, job.bound (chunk + 1)⟩ : PageRange).pages.any fun page =>
      (job.touch page).isSome

/-- A job whose range leaves room for one more chunk. -/
structure Spacious (job : Job) : Prop where
  chunkPages_pos : 0 < job.chunkPages
  page_lt : job.start + job.count + job.chunkPages < Word.limit

theorem Spacious.stop_lt (spacious : job.Spacious) : job.start + job.count < Word.limit :=
  Nat.lt_of_le_of_lt (Nat.le_add_right _ _) spacious.page_lt

theorem Spacious.chunk_eq (spacious : job.Spacious) (h : chunk < job.chunks) :
    job.chunk chunk = .ok ⟨job.bound chunk, job.bound (chunk + 1)⟩ := by
  have hlt := chunk_mul_lt spacious.chunkPages_pos h
  have hpage := spacious.page_lt
  rcases job.chunk_cases spacious.chunkPages_pos spacious.stop_lt h with ⟨-, hchunk⟩ | ⟨hlimit, -⟩
  · exact hchunk
  · rw [Nat.succ_mul] at hlimit
    omega

/-- A chunk fails just if one of its touches does. -/
theorem Spacious.outcome?_isSome (spacious : job.Spacious) (h : chunk < job.chunks) :
    (job.outcome? chunk).isSome =
      (⟨job.bound chunk, job.bound (chunk + 1)⟩ : PageRange).pages.any fun page =>
        (job.touch page).isSome := by
  rw [outcome?_of_ok (spacious.chunk_eq h), List.isSome_findSome?]

/-- The chunk of a page of the range, and where that begins. -/
theorem Spacious.chunk_of_page (spacious : job.Spacious) (hfirst : job.start ≤ page)
    (hlast : page < job.start + job.count) :
    (page - job.start) / job.chunkPages < job.chunks ∧
      job.bound ((page - job.start) / job.chunkPages) =
        job.start + (page - job.start) / job.chunkPages * job.chunkPages ∧
      ∀ chunk, job.bound chunk ≤ page ∧ page < job.bound (chunk + 1) ↔
        chunk = (page - job.start) / job.chunkPages := by
  have hpos := spacious.chunkPages_pos
  have hdown := Nat.div_mul_le_self (page - job.start) job.chunkPages
  have hbounds : ∀ chunk, job.bound chunk ≤ page ∧ page < job.bound (chunk + 1) ↔
      chunk = (page - job.start) / job.chunkPages := by
    intro chunk
    rw [eq_comm, Nat.div_eq_iff hpos, bound, bound, Nat.succ_mul]
    omega
  refine ⟨?_, ?_, hbounds⟩
  · have hall : job.count ≤ job.chunks * job.chunkPages := le_divCeil_mul hpos
    rw [Nat.div_lt_iff_lt_mul hpos]
    omega
  · rw [bound]
    omega

/-- Nothing fails just if no touch of the range does. -/
theorem Spacious.faultsTo_taken_eq_nil_iff (spacious : job.Spacious) :
    job.faultsTo (job.taken workers) = [] ↔
      ∀ page, job.start ≤ page → page < job.start + job.count → job.touch page = none := by
  constructor
  · intro hnone
    have hsoft : ∀ chunk, chunk < job.taken workers → job.outcome? chunk = none :=
      fun chunk hchunk => List.filterMap_eq_nil_iff.mp hnone chunk (List.mem_range.mpr hchunk)
    have htaken : job.taken workers = job.chunks := takenChunks_of_none fun chunk hchunk => by
      rw [hsoft chunk hchunk]
      rfl
    intro page hfirst hlast
    obtain ⟨hchunk, -, hpage⟩ := spacious.chunk_of_page hfirst hlast
    have houtcome := hsoft _ (htaken ▸ hchunk)
    rw [outcome?_of_ok (spacious.chunk_eq hchunk), List.findSome?_eq_none_iff] at houtcome
    exact houtcome page ((job.mem_chunk_pages _ page).mpr ((hpage _).mpr rfl))
  · intro hsoft
    refine List.filterMap_eq_nil_iff.mpr fun chunk hchunk => ?_
    have hchunk := Nat.lt_of_lt_of_le (List.mem_range.mp hchunk) (job.taken_le workers)
    rw [outcome?_of_ok (spacious.chunk_eq hchunk), List.findSome?_eq_none_iff]
    intro page hpage
    have hbounds := (job.mem_chunk_pages chunk page).mp hpage
    have hfirst := (job.bound_le chunk).1
    have hlast := (job.bound_le (chunk + 1)).2
    exact hsoft page (by omega) (by omega)

/-- Where fewer chunks are spoilt than there are workers, all chunks are taken. -/
theorem Spacious.taken_eq (spacious : job.Spacious) (h : job.spoilt.length < workers) :
    job.taken workers = job.chunks := by
  have hspoilt : ((List.range job.chunks).filter fun chunk => (job.outcome? chunk).isSome) =
      job.spoilt := List.filter_congr fun chunk hchunk =>
    spacious.outcome?_isSome (List.mem_range.mp hchunk)
  rw [taken, takenChunks, hspoilt, List.getElem?_eq_none (by omega)]

/-- Of all chunks those pages are come to before which no touch of their chunk fails. -/
theorem Spacious.mem_visitsTo (spacious : job.Spacious) : page ∈ job.visitsTo job.chunks ↔
    job.start ≤ page ∧ page < job.start + job.count ∧ ∀ earlier,
      job.start + (page - job.start) / job.chunkPages * job.chunkPages ≤ earlier →
      earlier < page → job.touch earlier = none := by
  have hvisits : ∀ chunk, chunk < job.chunks → (page ∈ job.visits chunk ↔
      (job.bound chunk ≤ page ∧ page < job.bound (chunk + 1)) ∧
        ∀ earlier, job.bound chunk ≤ earlier → earlier < page → job.touch earlier = none) := by
    intro chunk hchunk
    have hmono := job.bound_mono (Nat.le_succ chunk)
    rw [visits_of_ok (spacious.chunk_eq hchunk), PageRange.pages, PageRange.length, mem_visited,
      and_assoc, Nat.add_sub_cancel' hmono]
  rw [visitsTo, List.mem_flatMap]
  constructor
  · rintro ⟨chunk, hchunk, hpage⟩
    obtain ⟨hbounds, hsoft⟩ := (hvisits chunk (List.mem_range.mp hchunk)).mp hpage
    have hfirst := (job.bound_le chunk).1
    have hlast := (job.bound_le (chunk + 1)).2
    have hge : job.start ≤ page := by omega
    have hlt : page < job.start + job.count := by omega
    obtain ⟨-, hbound, hpage⟩ := spacious.chunk_of_page hge hlt
    rw [← hbound, ← (hpage chunk).mp hbounds]
    exact ⟨hge, hlt, hsoft⟩
  · rintro ⟨hfirst, hlast, hsoft⟩
    obtain ⟨hchunk, hbound, hpage⟩ := spacious.chunk_of_page hfirst hlast
    rw [← hbound] at hsoft
    exact ⟨_, List.mem_range.mpr hchunk, (hvisits _ hchunk).mpr ⟨(hpage _).mpr rfl, hsoft⟩⟩

end Job

/-! ## Passes -/

/-- The job of a pass that leaves room for one more chunk. -/
theorem spacious_job (hlimit : start + count + pretoucher.chunkPages pageSize < Word.limit) :
    (pretoucher.job start count pageSize touch).Spacious :=
  ⟨pretoucher.chunkPages_pos pageSize, hlimit⟩

/-- A pass fails just if one of the touches of its range does. -/
theorem pass_error_iff (hlimit : start + count + pretoucher.chunkPages pageSize < Word.limit) :
    (∃ fault, (pretoucher.pass start count pageSize touch).result = .error fault) ↔
      ∃ page, start ≤ page ∧ page < start + count ∧ (touch page).isSome = true := by
  have hstop : start + count < Word.limit := Nat.lt_of_le_of_lt (Nat.le_add_right _ _) hlimit
  have hfails : (∃ page, start ≤ page ∧ page < start + count ∧ (touch page).isSome = true) ↔
      ¬ ∀ page, start ≤ page → page < start + count → touch page = none := by
    simp only [not_forall, ← Option.ne_none_iff_isSome, exists_prop]
  rw [hfails]
  cases hparallel : pretoucher.isParallel count pageSize with
  | true =>
    rw [result_of_parallel hstop hparallel, verdict_error_iff]
    exact not_congr (spacious_job hlimit).faultsTo_taken_eq_nil_iff
  | false =>
    by_cases hcount : count = 0
    · rw [pass, if_pos hcount]
      refine iff_of_false (not_error_of_ok rfl) (not_not.mpr fun page hfirst hlast => ?_)
      omega
    · have hsoft : (List.range' start count).findSome? touch = none ↔
          ∀ page, start ≤ page → page < start + count → touch page = none := by
        simp only [List.findSome?_eq_none_iff, List.mem_range'_1, and_imp]
      rw [pass_of_serial hparallel hcount, (serialPass_eq hstop touch).2, ← hsoft]
      cases (List.range' start count).findSome? touch with
      | some fault => exact iff_of_true ⟨fault, rfl⟩ (Option.some_ne_none fault)
      | none => exact iff_of_false (not_error_of_ok rfl) (not_not.mpr rfl)

/-- What is known of a pass some of whose touches fail. It fails just if one of them is of a page of
its range. It comes to no page twice, and touches those pages that it comes to whose touches do not
fail. On one thread it comes to the pages up to the first failure, and on several threads to those of
each chunk up to the first failure in there, if fewer chunks fail than workers take part. -/
structure Contained (pretoucher : Pretoucher) (start count pageSize : Nat)
    (touch : Nat → Option Fault) : Prop where
  error_iff : (∃ fault, (pretoucher.pass start count pageSize touch).result = .error fault) ↔
    ∃ page, start ≤ page ∧ page < start + count ∧ (touch page).isSome = true
  touched_eq : (pretoucher.pass start count pageSize touch).touched.flatMap PageRange.pages =
    (pretoucher.calls start count pageSize touch).filter fun page => (touch page).isNone
  calls_nodup : (pretoucher.calls start count pageSize touch).Nodup
  calls_inside : ∀ page ∈ pretoucher.calls start count pageSize touch,
    start ≤ page ∧ page < start + count
  mem_serial : pretoucher.isParallel count pageSize = false → ∀ page,
    page ∈ pretoucher.calls start count pageSize touch ↔
      start ≤ page ∧ page < start + count ∧
        ∀ earlier, start ≤ earlier → earlier < page → touch earlier = none
  mem_parallel : pretoucher.isParallel count pageSize = true →
    (pretoucher.job start count pageSize touch).spoilt.length <
      pretoucher.workersFor count pageSize → ∀ page,
    page ∈ pretoucher.calls start count pageSize touch ↔
      start ≤ page ∧ page < start + count ∧ ∀ earlier,
        start + (page - start) / pretoucher.chunkPages pageSize * pretoucher.chunkPages pageSize ≤
          earlier → earlier < page → touch earlier = none

theorem contained (hlimit : start + count + pretoucher.chunkPages pageSize < Word.limit) :
    pretoucher.Contained start count pageSize touch := by
  have hstop : start + count < Word.limit := Nat.lt_of_le_of_lt (Nat.le_add_right _ _) hlimit
  have hsublist := pretoucher.calls_sublist pageSize touch hstop
  refine ⟨pass_error_iff hlimit, pass_touched_eq pretoucher pageSize touch hstop,
    hsublist.nodup (List.nodup_range' ..), fun page hpage => ?_, fun hserial page => ?_,
    fun hparallel hfew page => ?_⟩
  · exact List.mem_range'_1.mp (hsublist.subset hpage)
  · rw [calls_of_serial hserial]
    exact mem_visited
  · rw [calls_of_parallel hparallel, (spacious_job hlimit).taken_eq hfew]
    exact (spacious_job hlimit).mem_visitsTo

/-- What is known of the workers of such a pass, who have come to some pages, at any moment. When they
are finished, they have come to the pages of the pass, and they failed just if it fails. -/
structure Crew.Contained {workers : Nat} (pretoucher : Pretoucher) (start count pageSize : Nat)
    (touch : Nat → Option Fault) (crew : Crew workers) (pages : List Nat) : Prop where
  pages_nodup : pages.Nodup
  pages_inside : ∀ page ∈ pages, start ≤ page ∧ page < start + count
  touched_eq : crew.shared.touched = pages.filter fun page => (touch page).isNone
  goes_on : crew.Finished ∨
    ∃ index next, crew.step (pretoucher.job start count pageSize touch) index = some next
  ended : crew.Finished → pages.Perm (pretoucher.calls start count pageSize touch) ∧
    ((∃ fault, crew.result = .error fault) ↔
      ∃ page, start ≤ page ∧ page < start + count ∧ (touch page).isSome = true)

/-- Touches that fail are contained to their chunks, and what comes of a pass is the same for every
interleaving of the steps of its workers: of these none is ever stuck, and there are no more steps
than so many. Only where each chunk is a single page, the pages and the workers together must not be
more than there are words, so that the cursor does not come round to the first chunk again. -/
theorem failures_contained
    (hlimit : start + count + pretoucher.chunkPages pageSize < Word.limit)
    (hcursor : pretoucher.chunkPages pageSize = 1 →
      count + pretoucher.workersFor count pageSize ≤ Word.limit) :
    pretoucher.Contained start count pageSize touch ∧
    (pretoucher.isParallel count pageSize = true →
      ∀ (schedule : List (Fin (pretoucher.workersFor count pageSize))) (crew : Crew _),
        (Crew.fresh _).run (pretoucher.job start count pageSize touch) schedule = some crew →
        crew.Contained pretoucher start count pageSize touch
          ((Crew.fresh _).calls (pretoucher.job start count pageSize touch) schedule) ∧
        schedule.length ≤ 2 * pretoucher.chunkCount count pageSize + count +
          2 * pretoucher.workersFor count pageSize) := by
  refine ⟨contained hlimit, fun hparallel schedule crew hrun => ?_⟩
  have hmany : 1 < pretoucher.workersFor count pageSize := of_decide_eq_true hparallel
  have hstop : start + count < Word.limit := Nat.lt_of_le_of_lt (Nat.le_add_right _ _) hlimit
  have bounded : (pretoucher.job start count pageSize touch).Bounded
      (pretoucher.workersFor count pageSize) :=
    ⟨pretoucher.chunkPages_pos pageSize, by omega, hstop⟩
  have hfew : pretoucher.chunkCount count pageSize + pretoucher.workersFor count pageSize ≤
      Word.limit := chunkCount_add_workersFor_le (by omega) hcursor
  obtain ⟨whole, rfl, consistent, hlength⟩ := Crew.of_run bounded (.inl hfew) hrun
  have hrange := Job.visitsTo_sublist_range bounded.chunkPages_pos hstop
    (Nat.min_le_right whole.shared.cursor _)
  obtain ⟨pages, hperm, hpages⟩ := consistent.subperm
  refine ⟨⟨?_, fun page hpage => ?_, consistent.touched_eq, Crew.goes_on _ _, fun finished => ?_⟩,
    hlength⟩
  · exact hperm.nodup_iff.mp ((hpages.trans hrange).nodup (List.nodup_range' ..))
  · exact List.mem_range'_1.mp ((hpages.trans hrange).subset (hperm.mem_iff.mpr hpage))
  · have ends := consistent.ends bounded finished
    refine ⟨?_, ?_⟩
    · rw [calls_of_parallel hparallel]
      exact ends.pages_perm
    · rw [← pass_error_iff hlimit, result_of_parallel hstop hparallel, verdict_error_iff]
      exact ends.error_iff

/-- A touch that fails at one page. -/
def failingAt (page other : Nat) : Option Fault :=
  if other = page then some (.touchFailed page) else none

/-- Two workers come to five pages, two of which make a chunk, and the touch of the first one fails.
So no worker comes to the second page, and the other worker comes to all others. -/
theorem failures_contained_of_two_workers : 0 + 5 + (⟨2, 2⟩ : Pretoucher).chunkPages 1 < Word.limit ∧
    Contained ⟨2, 2⟩ 0 5 1 (failingAt 0) ∧ ∃ crew,
      (Crew.fresh 2).run (job ⟨2, 2⟩ 0 5 1 (failingAt 0)) [0, 1, 1, 0, 1, 1, 1, 1, 1, 1, 1] =
        some crew ∧
      (Crew.fresh 2).calls (job ⟨2, 2⟩ 0 5 1 (failingAt 0)) [0, 1, 1, 0, 1, 1, 1, 1, 1, 1, 1] =
        [2, 0, 3, 4] ∧
      crew.Finished ∧ crew.result = .error (.inWorkers (.touchFailed 0)) ∧
      crew.Contained ⟨2, 2⟩ 0 5 1 (failingAt 0) [2, 0, 3, 4] := by
  obtain ⟨crew, hrun, hcalls, finished, hresult⟩ : ∃ crew,
      (Crew.fresh 2).run (job ⟨2, 2⟩ 0 5 1 (failingAt 0)) [0, 1, 1, 0, 1, 1, 1, 1, 1, 1, 1] =
        some crew ∧
      (Crew.fresh 2).calls (job ⟨2, 2⟩ 0 5 1 (failingAt 0)) [0, 1, 1, 0, 1, 1, 1, 1, 1, 1, 1] =
        [2, 0, 3, 4] ∧
      crew.Finished ∧ crew.result = .error (.inWorkers (.touchFailed 0)) :=
    ⟨_, rfl, rfl, by decide, verdict_singleton (.touchFailed 0) _⟩
  have hlimit : 0 + 5 + (⟨2, 2⟩ : Pretoucher).chunkPages 1 < Word.limit := by decide
  have hcursor : (⟨2, 2⟩ : Pretoucher).chunkPages 1 = 1 →
      5 + (⟨2, 2⟩ : Pretoucher).workersFor 5 1 ≤ Word.limit := by decide
  obtain ⟨contained, hcrews⟩ := @failures_contained ⟨2, 2⟩ 0 5 1 (failingAt 0) hlimit hcursor
  obtain ⟨hcrew, -⟩ := hcrews (by decide) _ crew hrun
  refine ⟨hlimit, contained, crew, hrun, hcalls, finished, hresult, ?_⟩
  rw [← hcalls]
  exact hcrew

/-- Three workers that take single pages, of which there are so many that the cursor comes round: the
range leaves room for one more chunk and no touch fails, but some page can be touched twice. -/
theorem touched_twice_of_three_workers :
    0 + 18446744073709551614 + (⟨3, 1⟩ : Pretoucher).chunkPages 1 < Word.limit ∧
    (⟨3, 1⟩ : Pretoucher).isParallel 18446744073709551614 1 = true ∧
    ∃ (schedule : List (Fin ((⟨3, 1⟩ : Pretoucher).workersFor 18446744073709551614 1)))
      (crew : Crew _),
      (Crew.fresh _).run (job ⟨3, 1⟩ 0 18446744073709551614 1 fun _ => none) schedule = some crew ∧
      ¬ crew.shared.touched.Nodup := by
  have soft : (job ⟨3, 1⟩ 0 18446744073709551614 1 fun _ => none).Soft :=
    ⟨by decide, by decide, fun _ _ _ => rfl⟩
  obtain ⟨crew, ⟨schedule, hrun⟩, htwice⟩ := @exists_touched_twice _
    ((⟨3, 1⟩ : Pretoucher).workersFor 18446744073709551614 1) soft (by decide) (by decide)
  exact ⟨by decide, by decide, schedule, crew, hrun, htwice⟩

end RegionBacking.Pretoucher
