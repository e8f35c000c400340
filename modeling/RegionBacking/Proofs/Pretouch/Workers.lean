import Mathlib.Algebra.BigOperators.Fin
import Mathlib.Algebra.Order.BigOperators.Group.Finset
import RegionBacking.Pretouch.Workers
import RegionBacking.Proofs.PageSpace.Usage
import RegionBacking.Proofs.Pretouch

/-!
# Every page exactly once

The workers of a pass touch each page of its range once and no other page, however their steps
interleave. What carries the proof are sums over the workers: what they have in hand, what they
counted and how many of them found no chunk. A step of one worker changes one term of each
(`Moves`), so the sums are kept step by step (`Crew.Sound.put`) and along a schedule
(`Crew.Sound.run`). The steps that are left are such a sum as well, and each step is one of them.
-/

namespace RegionBacking

/-- The pages of a range, in order. -/
def PageRange.pages (range : PageRange) : List Nat := List.range' range.start range.length

namespace Pretoucher

/-! ## Pages of intervals -/

/-- How often a page occurs in an interval. -/
def spot (first last page : Nat) : Nat := if first ≤ page ∧ page < last then 1 else 0

theorem spot_add {first middle last : Nat} (hfirst : first ≤ middle) (hlast : middle ≤ last)
    (page : Nat) : spot first middle page + spot middle last page = spot first last page := by
  unfold spot
  split <;> split <;> split <;> omega

theorem spot_le_one (first last page : Nat) : spot first last page ≤ 1 := by
  unfold spot
  split <;> omega

theorem spot_eq_zero {first last : Nat} (h : last ≤ first) (page : Nat) :
    spot first last page = 0 := by
  unfold spot
  split <;> omega

/-- The first page of an interval, and the others. -/
theorem spot_head {first last : Nat} (h : first < last) (page : Nat) :
    spot first last page = [first].count page + spot (first + 1) last page := by
  rw [← spot_add (Nat.le_succ first) h, List.count_singleton, spot]
  congr 1
  simp only [beq_iff_eq]
  exact if_congr (by omega) rfl rfl

theorem count_range' (start count page : Nat) :
    (List.range' start count).count page = spot start (start + count) page := by
  rw [List.Nodup.count (List.nodup_range' ..), spot]
  exact if_congr List.mem_range'_1 rfl rfl

namespace Job

variable {job : Job} {chunk : Nat}

/-- The end of the chunks in front of one, which is where that one begins. -/
def bound (job : Job) (chunk : Nat) : Nat := job.start + min (chunk * job.chunkPages) job.count

/-- The steps that have to do with chunks which were not taken. -/
def pending (job : Job) (cursor : Nat) : Nat :=
  2 * (job.chunks - cursor) + (job.start + job.count - job.bound cursor)

/-- A job for so many workers none of whose touches fails, and none of whose words is exceeded. -/
structure Fair (job : Job) (workers : Nat) : Prop where
  chunkPages_pos : 0 < job.chunkPages
  workers_pos : 0 < workers
  page_lt : job.start + job.count + job.chunkPages < Word.limit
  /-- Each worker takes the cursor past the last chunk once. -/
  cursor_lt : job.chunks + workers < Word.limit
  touch_eq : ∀ page, job.start ≤ page → page < job.start + job.count → job.touch page = none

theorem bound_le (job : Job) (chunk : Nat) :
    job.start ≤ job.bound chunk ∧ job.bound chunk ≤ job.start + job.count := by
  unfold bound
  omega

theorem bound_mono (job : Job) {first last : Nat} (h : first ≤ last) :
    job.bound first ≤ job.bound last := by
  have hmul := Nat.mul_le_mul_right job.chunkPages h
  unfold bound
  omega

/-- All chunks together are the whole range. -/
theorem bound_of_le (hpos : 0 < job.chunkPages) (h : job.chunks ≤ chunk) :
    job.bound chunk = job.start + job.count := by
  have hall := Nat.le_trans (le_divCeil_mul hpos) (Nat.mul_le_mul_right job.chunkPages h)
  rw [bound, Nat.min_eq_right hall]

/-- A chunk reaches up to where the next one begins. -/
theorem range_eq (hpos : 0 < job.chunkPages) (h : chunk < job.chunks) :
    (⟨job.start + chunk * job.chunkPages, min (job.start + chunk * job.chunkPages + job.chunkPages)
      (job.start + job.count)⟩ : PageRange) = ⟨job.bound chunk, job.bound (chunk + 1)⟩ := by
  have hfirst := chunk_mul_lt hpos h
  rw [bound, bound, Nat.succ_mul, PageRange.mk.injEq]
  omega

theorem chunk_eq {workers : Nat} (fair : job.Fair workers) (h : chunk < job.chunks) :
    job.chunk chunk = .ok ⟨job.bound chunk, job.bound (chunk + 1)⟩ := by
  have hstop : Word.add job.start job.count = .ok (job.start + job.count) :=
    Word.add_eq_ok_iff.mpr ⟨by have := fair.page_lt; omega, rfl⟩
  obtain ⟨range, hrange, -⟩ := chunkRange_ok fair.chunkPages_pos h fair.page_lt
  rw [Job.chunk, hstop, ← range_eq fair.chunkPages_pos h, ← chunkRange_eq hrange]
  exact hrange

end Job

/-! ## Workers -/

namespace Worker

variable {job : Job} {shared next : Shared} {old new : Worker} {workers : Nat}

/-- The pages of the chunk that a worker has. -/
def held : Worker → Finset Nat
  | busy _ range _ => Finset.Ico range.start range.stop
  | _ => ∅

/-- How often a page is among those that a worker still has to touch. -/
def ahead (page : Nat) : Worker → Nat
  | busy _ range first => spot first range.stop page
  | _ => 0

/-- How often a page is in the chunk that a worker has. -/
def holds (page : Nat) : Worker → Nat
  | busy _ range _ => spot range.start range.stop page
  | _ => 0

/-- The pages that a worker counted, and those that it is going to. -/
def tally : Worker → Nat
  | idle counted => counted
  | busy counted range _ => counted + (range.stop - range.start)
  | leaving counted => counted
  | gone | failed _ => 0

/-- Whether a worker found no chunk. -/
def left : Worker → Nat
  | leaving _ | gone => 1
  | _ => 0

/-- The steps that a worker makes until it is gone, if it takes no more chunks. -/
def work : Worker → Nat
  | idle _ => 2
  | busy _ range page => 3 + (range.stop - page)
  | leaving _ => 1
  | gone | failed _ => 0

/-- A worker is where the cursor lets it be. -/
def Fits (job : Job) (cursor : Nat) : Worker → Prop
  | idle _ => True
  | busy _ range page => job.start ≤ range.start ∧ range.start ≤ page ∧
    range.start ≤ range.stop ∧ range.stop ≤ job.start + job.count
  | leaving _ | gone => job.chunks ≤ cursor
  | failed _ => False

theorem Fits.mono {cursor later : Nat} (fits : old.Fits job cursor) (h : cursor ≤ later) :
    old.Fits job later := by
  cases old with
  | leaving | gone => exact Nat.le_trans fits h
  | idle | busy | failed => exact fits

theorem left_le (worker : Worker) : worker.left ≤ 1 := by
  cases worker <;> simp [left]

theorem holds_eq_one {worker : Worker} {page : Nat} (h : page ∈ worker.held) :
    worker.holds page = 1 := by
  cases worker with
  | busy counted range first => exact if_pos (Finset.mem_Ico.mp h)
  | idle | leaving | gone | failed => cases Finset.notMem_empty page h

/-- A worker counts a chunk as long as its count is a word. -/
theorem close_eq {counted : Nat} {range : PageRange} (hrange : range.start ≤ range.stop)
    (hcounted : counted + (range.stop - range.start) < Word.limit) :
    close counted range = idle (counted + (range.stop - range.start)) := by
  have hsub : Word.sub range.stop range.start = .ok (range.stop - range.start) :=
    Word.sub_eq_ok_iff.mpr ⟨hrange, rfl⟩
  have hadd : (.ok (range.stop - range.start) >>= Word.add counted) =
      .ok (counted + (range.stop - range.start)) := Word.add_eq_ok_iff.mpr ⟨hcounted, rfl⟩
  rw [close, hsub, hadd]

/-- What a step of a worker does to each of the sums. -/
structure Moves (job : Job) (shared : Shared) (old : Worker) (next : Shared) (new : Worker) :
    Prop where
  cursor_le : shared.cursor ≤ next.cursor
  fits : new.Fits job next.cursor
  left_le : next.cursor - job.chunks + old.left ≤ shared.cursor - job.chunks + new.left
  tally_eq : next.total + new.tally + job.bound shared.cursor =
    shared.total + old.tally + job.bound next.cursor
  ahead_eq : ∀ page, next.touched.count page + new.ahead page +
      spot job.start (job.bound shared.cursor) page =
    shared.touched.count page + old.ahead page + spot job.start (job.bound next.cursor) page
  holds_le : ∀ page, new.holds page + spot job.start (job.bound shared.cursor) page ≤
    old.holds page + spot job.start (job.bound next.cursor) page
  work_eq : new.work + job.pending next.cursor + 1 = old.work + job.pending shared.cursor

/-- A worker takes the next chunk, or finds that there is none. -/
theorem moves_of_idle {counted : Nat} (fair : job.Fair workers)
    (hcursor : shared.cursor + 1 < Word.limit)
    (h : (idle counted).step job shared = some (next, new)) :
    Moves job shared (idle counted) next new := by
  rw [step, Nat.mod_eq_of_lt hcursor] at h
  have hbound := job.bound_le shared.cursor
  have hmono : job.bound shared.cursor ≤ job.bound (shared.cursor + 1) :=
    job.bound_mono (Nat.le_succ _)
  by_cases hlast : job.chunks ≤ shared.cursor
  · rw [if_pos hlast] at h
    cases h
    have hend := Job.bound_of_le fair.chunkPages_pos hlast
    have hend' := Job.bound_of_le fair.chunkPages_pos (Nat.le_succ_of_le hlast)
    refine ⟨Nat.le_succ _, Nat.le_succ_of_le hlast, ?_, ?_, fun page => ?_, fun page => ?_, ?_⟩
    all_goals simp only [left, tally, ahead, holds, work, Job.pending, hend, hend']
    · omega
    · exact Nat.le_refl _
    · omega
  · rw [if_neg hlast, Job.chunk_eq fair (Nat.lt_of_not_le hlast)] at h
    cases h
    have hnext := (job.bound_le (shared.cursor + 1)).2
    refine ⟨Nat.le_succ _, ⟨hbound.1, Nat.le_refl _, hmono, hnext⟩, ?_, ?_, fun page => ?_,
      fun page => ?_, ?_⟩
    all_goals simp only [left, tally, ahead, holds, work, Job.pending]
    · omega
    · omega
    · rw [← spot_add hbound.1 hmono]
      omega
    · rw [← spot_add hbound.1 hmono]
      omega
    · omega

/-- A worker touches a page of its chunk, or closes it. -/
theorem moves_of_busy {counted page : Nat} {range : PageRange} (fair : job.Fair workers)
    (fits : (busy counted range page).Fits job shared.cursor)
    (htally : shared.total + (busy counted range page).tally ≤ job.count)
    (h : (busy counted range page).step job shared = some (next, new)) :
    Moves job shared (busy counted range page) next new := by
  obtain ⟨hstart, hfirst, hrange, hstop⟩ := fits
  rw [step] at h
  by_cases hpage : page < range.stop
  · rw [if_pos hpage, fair.touch_eq page (by omega) (by omega)] at h
    cases h
    refine ⟨Nat.le_refl _, ⟨hstart, by omega, hrange, hstop⟩, Nat.le_refl _, rfl, fun other => ?_,
      fun _ => Nat.le_refl _, ?_⟩
    · simp only [ahead]
      rw [List.count_append, spot_head hpage]
      omega
    · simp only [work]
      omega
  · rw [if_neg hpage] at h
    have hlimit := fair.page_lt
    simp only [tally] at htally
    rw [close_eq hrange (by omega)] at h
    cases h
    refine ⟨Nat.le_refl _, trivial, Nat.le_refl _, rfl, fun other => ?_, fun other => ?_, ?_⟩
    · simp only [ahead, spot_eq_zero (Nat.le_of_not_lt hpage)]
    · simp only [holds]
      omega
    · simp only [work]
      omega

/-- A worker adds what it counted to the total. -/
theorem moves_of_leaving {counted : Nat} (fair : job.Fair workers)
    (fits : (leaving counted).Fits job shared.cursor)
    (htally : shared.total + (leaving counted).tally ≤ job.count)
    (h : (leaving counted).step job shared = some (next, new)) :
    Moves job shared (leaving counted) next new := by
  have hlimit := fair.page_lt
  simp only [tally] at htally
  rw [step, Nat.mod_eq_of_lt (by omega)] at h
  cases h
  refine ⟨Nat.le_refl _, fits, Nat.le_refl _, rfl, fun _ => rfl, fun _ => Nat.le_refl _, ?_⟩
  simp only [work]
  omega

/-- Every step of a worker is such a move. -/
theorem moves_of_step (fair : job.Fair workers) (fits : old.Fits job shared.cursor)
    (hcursor : old.left = 0 → shared.cursor + 1 < Word.limit)
    (htally : shared.total + old.tally ≤ job.count)
    (h : old.step job shared = some (next, new)) : Moves job shared old next new := by
  cases old with
  | idle => exact moves_of_idle fair (hcursor rfl) h
  | busy => exact moves_of_busy fair fits htally h
  | leaving => exact moves_of_leaving fair fits htally h
  | gone | failed => cases h

/-- A worker that has not stopped makes a step. -/
theorem exists_step {worker : Worker} (h : worker.hasStopped = false) (job : Job)
    (shared : Shared) : ∃ next, worker.step job shared = some next := by
  cases worker with
  | idle | leaving => exact ⟨_, rfl⟩
  | busy counted range page =>
    rw [step]
    split
    · cases job.touch page <;> exact ⟨_, rfl⟩
    · exact ⟨_, rfl⟩
  | gone | failed => cases h

end Worker

/-! ## Crews -/

namespace Crew

variable {job : Job} {workers : Nat} {crew after : Crew workers} {index : Fin workers}
  {next : Shared × Worker} {schedule : List (Fin workers)}

/-- The steps that are left. -/
def work (job : Job) (crew : Crew workers) : Nat :=
  job.pending crew.shared.cursor + ∑ index, (crew.worker index).work

/-- The workers of a crew have taken the chunks in front of the cursor, and have them in hand, have
touched them or have counted them. -/
structure Sound (job : Job) (crew : Crew workers) : Prop where
  fits : ∀ index, (crew.worker index).Fits job crew.shared.cursor
  left_le : crew.shared.cursor - job.chunks ≤ ∑ index, (crew.worker index).left
  tally_eq : job.start + (crew.shared.total + ∑ index, (crew.worker index).tally) =
    job.bound crew.shared.cursor
  ahead_eq : ∀ page, crew.shared.touched.count page + ∑ index, (crew.worker index).ahead page =
    spot job.start (job.bound crew.shared.cursor) page
  holds_le : ∀ page, ∑ index, (crew.worker index).holds page ≤
    spot job.start (job.bound crew.shared.cursor) page

theorem sound_fresh (job : Job) (workers : Nat) : (fresh workers).Sound job := by
  have hbound : job.bound 0 = job.start := by simp [Job.bound]
  constructor <;> simp [fresh, Worker.Fits, Worker.left, Worker.tally, Worker.ahead, Worker.holds,
    hbound, spot_eq_zero (Nat.le_refl _)]

theorem work_fresh (job : Job) (workers : Nat) :
    (fresh workers).work job = 2 * job.chunks + job.count + 2 * workers := by
  simp [work, fresh, Job.pending, Job.bound, Worker.work, Nat.mul_comm]

/-- One step changes one term of a sum over the workers. -/
theorem sum_put (amount : Worker → Nat) (crew : Crew workers) (index : Fin workers)
    (next : Shared × Worker) :
    ∑ other, amount ((crew.put index next).worker other) + amount (crew.worker index) =
      ∑ other, amount (crew.worker other) + amount next.2 := by
  have hput : ∀ other, amount ((crew.put index next).worker other) =
      Function.update (amount ∘ crew.worker) index (amount next.2) other := fun other =>
    congrFun (Function.comp_update amount crew.worker index next.2) other
  have hsplit := Finset.add_sum_erase Finset.univ (amount ∘ crew.worker) (Finset.mem_univ index)
  simp only [hput]
  rw [Finset.sum_update_of_mem (Finset.mem_univ index), Finset.sdiff_singleton_eq_erase]
  simp only [Function.comp_apply] at hsplit ⊢
  omega

theorem le_sum (amount : Worker → Nat) (crew : Crew workers) (index : Fin workers) :
    amount (crew.worker index) ≤ ∑ other, amount (crew.worker other) :=
  Finset.single_le_sum (f := fun other => amount (crew.worker other)) (fun _ _ => Nat.zero_le _)
    (Finset.mem_univ index)

/-- Where each worker counts for one at most and some worker for nothing, they count for less than
there are. -/
theorem sum_lt {amount : Worker → Nat} (hone : ∀ worker, amount worker ≤ 1)
    (h : amount (crew.worker index) = 0) : ∑ other, amount (crew.worker other) < workers := by
  have hless : ∑ other, amount (crew.worker other) < ∑ _other : Fin workers, 1 :=
    Finset.sum_lt_sum (fun other _ => hone _) ⟨index, Finset.mem_univ index, by omega⟩
  rwa [Finset.sum_const, Finset.card_univ, Fintype.card_fin, smul_eq_mul, Nat.mul_one] at hless

/-- As long as a worker may take a chunk, the others alone have brought the cursor past the last. -/
theorem cursor_lt_of_left
    (hleft : crew.shared.cursor - job.chunks ≤ ∑ other, (crew.worker other).left)
    (h : (crew.worker index).left = 0) : crew.shared.cursor < job.chunks + workers := by
  have hsum := sum_lt Worker.left_le h
  omega

namespace Sound

theorem tally_le (sound : crew.Sound job) (index : Fin workers) :
    crew.shared.total + (crew.worker index).tally ≤ job.count := by
  have hone := le_sum Worker.tally crew index
  have hsum := sound.tally_eq
  have hbound := (job.bound_le crew.shared.cursor).2
  omega

/-- A step of one worker keeps the sums. -/
theorem put (sound : crew.Sound job)
    (moves : Worker.Moves job crew.shared (crew.worker index) next.1 next.2) :
    (crew.put index next).Sound job := by
  constructor
  · intro other
    by_cases hother : other = index
    · rw [hother, put_worker_self]
      exact moves.fits
    · rw [put_worker_of_ne hother]
      exact (sound.fits other).mono moves.cursor_le
  · have hsum := sum_put Worker.left crew index next
    have hold := sound.left_le
    have hmoves := moves.left_le
    show next.1.cursor - job.chunks ≤ _
    omega
  · have hsum := sum_put Worker.tally crew index next
    have hold := sound.tally_eq
    have hmoves := moves.tally_eq
    show job.start + (next.1.total + _) = job.bound next.1.cursor
    omega
  · intro page
    have hsum := sum_put (Worker.ahead page) crew index next
    have hold := sound.ahead_eq page
    have hmoves := moves.ahead_eq page
    show next.1.touched.count page + _ = spot job.start (job.bound next.1.cursor) page
    omega
  · intro page
    have hsum := sum_put (Worker.holds page) crew index next
    have hold := sound.holds_le page
    have hmoves := moves.holds_le page
    show _ ≤ spot job.start (job.bound next.1.cursor) page
    omega

/-- A step of a crew keeps the sums, and is one of those that are left. -/
theorem step (sound : crew.Sound job) (fair : job.Fair workers)
    (h : crew.step job index = some after) :
    after.Sound job ∧ after.work job + 1 = crew.work job := by
  obtain ⟨next, hnext, rfl⟩ := Option.map_eq_some_iff.mp h
  have hcursor : (crew.worker index).left = 0 → crew.shared.cursor + 1 < Word.limit := fun hleft =>
    Nat.lt_of_le_of_lt (cursor_lt_of_left sound.left_le hleft) fair.cursor_lt
  have moves := Worker.moves_of_step fair (sound.fits index) hcursor (sound.tally_le index) hnext
  refine ⟨sound.put moves, ?_⟩
  have hsum := sum_put Worker.work crew index next
  have hwork := moves.work_eq
  show job.pending next.1.cursor + _ + 1 = job.pending crew.shared.cursor + _
  omega

/-- So does a schedule. -/
theorem run (sound : crew.Sound job) (fair : job.Fair workers)
    (h : crew.run job schedule = some after) :
    after.Sound job ∧ schedule.length + after.work job = crew.work job := by
  induction schedule generalizing crew with
  | nil =>
    cases h
    exact ⟨sound, Nat.zero_add _⟩
  | cons index later ih =>
    obtain ⟨next, hnext, hlater⟩ := Option.bind_eq_some_iff.mp h
    obtain ⟨hsound, hwork⟩ := sound.step fair hnext
    obtain ⟨hsound', hwork'⟩ := ih hsound hlater
    refine ⟨hsound', ?_⟩
    rw [List.length_cons]
    omega

end Sound

/-- As long as not all workers have stopped, one of them can go on. -/
theorem goes_on (job : Job) (crew : Crew workers) :
    crew.Finished ∨ ∃ index next, crew.step job index = some next := by
  by_cases hfinished : crew.Finished
  · exact .inl hfinished
  · obtain ⟨index, hindex⟩ := not_forall.mp hfinished
    obtain ⟨next, hnext⟩ := Worker.exists_step (Bool.eq_false_iff.mpr hindex) job crew.shared
    exact .inr ⟨index, crew.put index next, Option.map_eq_some_iff.mpr ⟨next, hnext, rfl⟩⟩

/-- What holds of a crew at any moment. No two workers have the same page in hand, each page is
touched at most once, and only if it is one of the range, no worker failed, and one of them can go
on as long as not all are gone. -/
structure Orderly (job : Job) (crew : Crew workers) : Prop where
  apart : ∀ a b, a ≠ b → Disjoint (crew.worker a).held (crew.worker b).held
  touched_nodup : crew.shared.touched.Nodup
  touched_inside : ∀ page ∈ crew.shared.touched, job.start ≤ page ∧ page < job.start + job.count
  unfailed : ∀ index, (crew.worker index).fault? = none
  goes_on : crew.Finished ∨ ∃ index next, crew.step job index = some next

/-- What came of a crew that is finished. All pages of the range were touched once, the total is
their number, and that is reported. -/
structure Complete (job : Job) (crew : Crew workers) : Prop where
  touched_perm : crew.shared.touched.Perm (List.range' job.start job.count)
  total_eq : crew.shared.total = job.count
  result_eq : crew.result = .ok ⟨job.count, workers⟩

namespace Sound

theorem count_le (sound : crew.Sound job) (page : Nat) :
    crew.shared.touched.count page ≤ spot job.start (job.start + job.count) page := by
  have hbound := job.bound_le crew.shared.cursor
  have hsum := sound.ahead_eq page
  rw [← spot_add hbound.1 hbound.2]
  omega

theorem fault?_eq_none (sound : crew.Sound job) (index : Fin workers) :
    (crew.worker index).fault? = none := by
  have hfits := sound.fits index
  cases hworker : crew.worker index with
  | failed fault =>
    rw [hworker] at hfits
    exact hfits.elim
  | idle | busy | leaving | gone => rfl

theorem orderly (sound : crew.Sound job) : crew.Orderly job := by
  have hcount : ∀ page, crew.shared.touched.count page ≤ 1 := fun page =>
    Nat.le_trans (sound.count_le page) (spot_le_one _ _ page)
  refine ⟨fun a b hne => ?_, List.nodup_iff_count_le_one.mpr hcount, fun page hpage => ?_,
    sound.fault?_eq_none, crew.goes_on job⟩
  -- A page that two workers had would be counted twice.
  · refine Finset.disjoint_left.mpr fun page ha hb => ?_
    have hpair := Finset.sum_le_sum_of_subset (f := fun index => (crew.worker index).holds page)
      (Finset.subset_univ {a, b})
    rw [Finset.sum_pair hne, Worker.holds_eq_one ha, Worker.holds_eq_one hb] at hpair
    have hle := Nat.le_trans hpair (sound.holds_le page)
    have hone := spot_le_one job.start (job.bound crew.shared.cursor) page
    omega
  · have hpos := Nat.lt_of_lt_of_le (List.count_pos_iff.mpr hpage) (sound.count_le page)
    unfold spot at hpos
    split at hpos
    · assumption
    · omega

theorem complete (sound : crew.Sound job) (fair : job.Fair workers) (finished : crew.Finished) :
    crew.Complete job := by
  have hgone : ∀ index, crew.worker index = .gone := by
    intro index
    have hstopped := finished index
    have hfits := sound.fits index
    cases hworker : crew.worker index with
    | gone => rfl
    | failed fault =>
      rw [hworker] at hfits
      exact hfits.elim
    | idle | busy | leaving =>
      rw [hworker] at hstopped
      cases hstopped
  -- The workers went because the chunks were at their end.
  have hcursor : job.chunks ≤ crew.shared.cursor := by
    have hfits := sound.fits ⟨0, fair.workers_pos⟩
    rw [hgone] at hfits
    exact hfits
  have hend := Job.bound_of_le fair.chunkPages_pos hcursor
  have htally := sound.tally_eq
  simp only [hgone, hend, Worker.tally, Finset.sum_const_zero, Nat.add_zero,
    Nat.add_left_cancel_iff] at htally
  refine ⟨List.perm_iff_count.mpr fun page => ?_, htally, ?_⟩
  · have hahead := sound.ahead_eq page
    simp only [hgone, hend, Worker.ahead, Finset.sum_const_zero, Nat.add_zero] at hahead
    rw [hahead, count_range']
  · have hfaults : (List.finRange workers).filterMap (fun index => (crew.worker index).fault?) =
        [] := List.filterMap_eq_nil_iff.mpr fun index _ => sound.fault?_eq_none index
    have hnothing : Fault.inOrder [] = [] := List.mergeSort_nil
    rw [result, hfaults, hnothing, htally]

end Sound

end Crew

/-! ## Passes as a whole -/

variable {pretoucher : Pretoucher} {start count pageSize chunkPages : Nat}
  {touch : Nat → Option Fault}

/-- The first chunks of a range have its first pages. -/
theorem flatMap_pages (job : Job) (chunks : Nat) :
    (List.range chunks).flatMap (fun chunk =>
      (⟨job.bound chunk, job.bound (chunk + 1)⟩ : PageRange).pages) =
        List.range' job.start (job.bound chunks - job.start) := by
  induction chunks with
  | zero => simp [Job.bound]
  | succ chunks ih =>
    have hfirst := (job.bound_le chunks).1
    have hmono : job.bound chunks ≤ job.bound (chunks + 1) := job.bound_mono (Nat.le_succ _)
    have hbound : job.bound chunks = job.start + (job.bound chunks - job.start) := by omega
    have hcount : job.bound (chunks + 1) - job.start =
        job.bound chunks - job.start + (job.bound (chunks + 1) - job.bound chunks) := by omega
    rw [List.range_succ, List.flatMap_append, ih, List.flatMap_singleton, hcount,
      ← List.range'_append_1, ← hbound]
    rfl

/-- All chunks of a range have its pages. -/
theorem flatMap_pages_all (job : Job) (hpos : 0 < job.chunkPages) :
    ((List.range job.chunks).map fun chunk => (⟨job.start + chunk * job.chunkPages,
      min (job.start + chunk * job.chunkPages + job.chunkPages)
        (job.start + job.count)⟩ : PageRange)).flatMap PageRange.pages =
      List.range' job.start job.count := by
  have hrange : ∀ chunk ∈ List.range job.chunks, (⟨job.start + chunk * job.chunkPages,
      min (job.start + chunk * job.chunkPages + job.chunkPages)
        (job.start + job.count)⟩ : PageRange).pages =
      (⟨job.bound chunk, job.bound (chunk + 1)⟩ : PageRange).pages := fun chunk hchunk =>
    congrArg PageRange.pages (Job.range_eq hpos (List.mem_range.mp hchunk))
  rw [List.flatMap_map, List.flatMap_congr hrange, flatMap_pages,
    Job.bound_of_le hpos (Nat.le_refl _), Nat.add_sub_cancel_left]

/-- The workers of a pass, as far as there are chunks for them. -/
theorem workersFor_eq (hparallel : pretoucher.isParallel count pageSize = true) :
    pretoucher.workersFor count pageSize =
      min (max pretoucher.workers 1) (pretoucher.chunkCount count pageSize) := by
  have hmany : 1 < pretoucher.workersFor count pageSize := of_decide_eq_true hparallel
  unfold workersFor at hmany ⊢
  omega

theorem workersFor_le (pretoucher : Pretoucher) (count pageSize : Nat) :
    pretoucher.workersFor count pageSize ≤ count :=
  Nat.le_trans (Nat.min_le_right _ _) (divCeil_le (pretoucher.chunkPages_pos pageSize))

theorem min_workers_eq_one (hpos : 0 < count)
    (hparallel : pretoucher.isParallel count pageSize = false) :
    min (max pretoucher.workers 1) (pretoucher.chunkCount count pageSize) = 1 := by
  have hchunks : 0 < pretoucher.chunkCount count pageSize := by
    have hle : count ≤ pretoucher.chunkCount count pageSize * pretoucher.chunkPages pageSize :=
      le_divCeil_mul (pretoucher.chunkPages_pos pageSize)
    exact Nat.pos_of_mul_pos_right (Nat.lt_of_lt_of_le hpos hle)
  have hfew : ¬ 1 < pretoucher.workersFor count pageSize := of_decide_eq_false hparallel
  unfold workersFor at hfew
  omega

/-- A pass none of whose touches fails touches the pages of its range in order, and reports them and
the workers that took part. -/
theorem pass_complete (hsoft : ∀ page, start ≤ page → page < start + count → touch page = none)
    (hlimit : start + count + pretoucher.chunkPages pageSize < Word.limit) :
    (pretoucher.pass start count pageSize touch).touched.flatMap PageRange.pages =
        List.range' start count ∧
      (pretoucher.pass start count pageSize touch).result =
        .ok ⟨count, if count = 0 then 0
          else min (max pretoucher.workers 1) (pretoucher.chunkCount count pageSize)⟩ := by
  have hadd : Word.add start count = .ok (start + count) :=
    Word.add_eq_ok_iff.mpr ⟨by omega, rfl⟩
  rcases Nat.eq_zero_or_pos count with rfl | hpos
  · exact ⟨rfl, rfl⟩
  obtain ⟨report, hreport⟩ := pass_ok hsoft hlimit
  rw [if_neg (Nat.ne_of_gt hpos)]
  cases hparallel : pretoucher.isParallel count pageSize with
  | true =>
    have hchunk : ∀ chunk, chunk < pretoucher.chunkCount count pageSize →
        (touchChunk touch start (start + count) (pretoucher.chunkPages pageSize) chunk).2 = none :=
      fun chunk hchunk =>
        touchChunk_eq_none hsoft (pretoucher.chunkPages_pos pageSize) hchunk hlimit
    have hpass : pretoucher.pass start count pageSize touch =
        parallelPass start count (pretoucher.chunkPages pageSize)
          (pretoucher.chunkCount count pageSize) (pretoucher.workersFor count pageSize) touch := by
      rw [pass, if_neg (Nat.ne_of_gt hpos), if_pos hparallel]
    rw [hpass] at hreport ⊢
    constructor
    · rw [parallelPass_touched (by omega) hchunk]
      exact flatMap_pages_all (pretoucher.job start count pageSize touch)
        (pretoucher.chunkPages_pos pageSize)
    · rw [hreport, report_of_parallelPass_ok
        (le_divCeil_mul (pretoucher.chunkPages_pos pageSize)) hreport, workersFor_eq hparallel]
  | false =>
    have htouched : touchRange touch ⟨start, start + count⟩ = (⟨start, start + count⟩, none) :=
      touchRange_eq hsoft
    rw [min_workers_eq_one hpos hparallel]
    simp only [pass, if_neg (Nat.ne_of_gt hpos), hparallel, Bool.false_eq_true, if_false,
      serialPass, hadd, htouched]
    refine ⟨?_, trivial⟩
    rw [List.flatMap_singleton, PageRange.pages, PageRange.length]
    show List.range' start (start + count - start) = _
    rw [Nat.add_sub_cancel_left]

/-! ## Pages of a page space -/

variable {reservedSize usedSize : Nat} {memoryKind : MemoryKind} {pinned : Bool}
  {machine : Machine} {first space : PageSpace}

/-- A job for pages of a page space leaves room for a chunk more, and there are so few chunks that
the cursor never wraps. -/
theorem fair_of_space (sound : space.Sound) (hsize : space.reservation.size < Word.limit)
    (hrange : start + count ≤ space.committed.size) (hchunk : pretoucher.chunkSize < Word.limit)
    (hsoft : ∀ page, start ≤ page → page < start + count → touch page = none)
    (hparallel : pretoucher.isParallel count space.pageSize = true) :
    (pretoucher.job start count space.pageSize touch).Fair
      (pretoucher.workersFor count space.pageSize) := by
  obtain ⟨hlimit, htwice⟩ := PageSpace.range_lt_word sound hsize hrange hchunk
  have hmany : 1 < pretoucher.workersFor count space.pageSize := of_decide_eq_true hparallel
  have hworkers := pretoucher.workersFor_le count space.pageSize
  have hchunks : pretoucher.chunkCount count space.pageSize ≤ count :=
    divCeil_le (pretoucher.chunkPages_pos space.pageSize)
  refine ⟨pretoucher.chunkPages_pos space.pageSize, by omega, hlimit, ?_, hsoft⟩
  show pretoucher.chunkCount count space.pageSize + _ < Word.limit
  omega

/-- A pass over pages of a page space touches each of them once and no other page, and it reports
their number and how many workers took part, if the touches do not fail. Where several workers take
part, that is so for every interleaving of their steps: at any moment no two of them have a page in
hand and none of them failed, one can go on until all are gone, which takes no more than so many
steps, and then their total is the number of the pages. -/
theorem touched_once_throughout
    (hfirst : (PageSpace.reserve reservedSize usedSize pageSize memoryKind pinned machine).result =
      .ok first)
    (h : first.Reachable space) (hrange : start + count ≤ space.committed.size)
    (hchunk : pretoucher.chunkSize < Word.limit)
    (hsoft : ∀ page, start ≤ page → page < start + count → touch page = none) :
    (pretoucher.pass start count space.pageSize touch).touched.flatMap PageRange.pages =
      List.range' start count ∧
    (pretoucher.pass start count space.pageSize touch).result =
      .ok ⟨count, if count = 0 then 0
        else min (max pretoucher.workers 1) (pretoucher.chunkCount count space.pageSize)⟩ ∧
    (pretoucher.isParallel count space.pageSize = true →
      ∀ (schedule : List (Fin (pretoucher.workersFor count space.pageSize))) (crew : Crew _),
        (Crew.fresh _).run (pretoucher.job start count space.pageSize touch) schedule = some crew →
        crew.Orderly (pretoucher.job start count space.pageSize touch) ∧
        schedule.length ≤ 2 * pretoucher.chunkCount count space.pageSize + count +
          2 * pretoucher.workersFor count space.pageSize ∧
        (crew.Finished → crew.Complete (pretoucher.job start count space.pageSize touch) ∧
          crew.result = (pretoucher.pass start count space.pageSize touch).result)) := by
  have fresh := PageSpace.fresh hfirst
  have sound := h.sound fresh.sound
  have hsize : space.reservation.size < Word.limit := by
    rw [(h.sameLayout fresh.sound).reservation_eq, fresh.handedOut.size_eq]
    exact Nat.lt_of_le_of_lt (Nat.le_add_right _ _) fresh.handedOut.size_lt
  obtain ⟨hlimit, -⟩ := PageSpace.range_lt_word sound hsize hrange hchunk
  obtain ⟨hpages, hresult⟩ := pass_complete hsoft hlimit
  refine ⟨hpages, hresult, fun hparallel schedule crew hrun => ?_⟩
  have fair := fair_of_space sound hsize hrange hchunk hsoft hparallel
  obtain ⟨hsound, hwork⟩ := (Crew.sound_fresh _ _).run fair hrun
  rw [Crew.work_fresh] at hwork
  refine ⟨hsound.orderly, Nat.le_trans (Nat.le_add_right _ _) (Nat.le_of_eq hwork),
    fun finished => ?_⟩
  have complete := hsound.complete fair finished
  have hcount : count ≠ 0 := by
    have hmany : 1 < pretoucher.workersFor count space.pageSize := of_decide_eq_true hparallel
    have hworkers := pretoucher.workersFor_le count space.pageSize
    omega
  refine ⟨complete, ?_⟩
  rw [complete.result_eq, hresult, if_neg hcount, workersFor_eq hparallel]
  rfl

/-- Two workers touch the two pages of a space, the one that began later first. -/
theorem touched_once_of_two_pages :
    ∃ first, (PageSpace.reserve 8192 8192 4096 .heap false .willing).result = .ok first ∧
      ∃ crew, (Crew.fresh 2).run (job ⟨2, 4096⟩ 0 2 4096 fun _ => none)
          [0, 1, 1, 0, 1, 0, 1, 1, 0, 0] = some crew ∧
        crew.Finished ∧ crew.shared.touched = [1, 0] ∧
        crew.Complete (job ⟨2, 4096⟩ 0 2 4096 fun _ => none) := by
  obtain ⟨first, hfirst, hpage, hsize⟩ : ∃ first,
      (PageSpace.reserve 8192 8192 4096 .heap false .willing).result = .ok first ∧
      first.pageSize = 4096 ∧ first.committed.size = 2 := ⟨_, rfl, rfl, rfl⟩
  obtain ⟨crew, hrun, finished, htouched⟩ : ∃ crew,
      (Crew.fresh 2).run (job ⟨2, 4096⟩ 0 2 4096 fun _ => none)
        [0, 1, 1, 0, 1, 0, 1, 1, 0, 0] = some crew ∧
      crew.Finished ∧ crew.shared.touched = [1, 0] := ⟨_, rfl, by decide, rfl⟩
  have once := @touched_once_throughout ⟨2, 4096⟩ 0 2 4096 (fun _ => none) 8192 8192 .heap false
    .willing first first hfirst .refl (Nat.le_of_eq hsize.symm) (by decide) fun _ _ _ => rfl
  rw [hpage] at once
  obtain ⟨-, -, hcomplete⟩ := once.2.2 (by decide) _ crew hrun
  exact ⟨first, hfirst, crew, hrun, finished, htouched, (hcomplete finished).1⟩

end Pretoucher

end RegionBacking
