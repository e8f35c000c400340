import RegionBacking.Proofs.Pretouch.Outcomes

/-!
# When the cursor comes round

The cursor that the workers of a pass share is a word, and it wraps. Each worker takes it past the
last chunk once before it leaves, so it is read after it has wrapped only if the chunks and the
workers together are more than there are words. Chunks of two pages and more are too few for that
(`Job.chunkPages_eq_one`). If chunks are single pages, the workers can touch all pages and leave one
after another until the cursor has come round to the first chunk; then the worker that is next
touches its page once more (`exists_touched_twice`).
-/

namespace RegionBacking.Pretoucher

namespace Job

variable {job : Job} {chunk workers : Nat}

/-- A job none of whose touches fails, and whose range ends at a word. -/
structure Soft (job : Job) : Prop where
  chunkPages_pos : 0 < job.chunkPages
  stop_lt : job.start + job.count < Word.limit
  touch_eq : ∀ page, job.start ≤ page → page < job.start + job.count → job.touch page = none

theorem chunkPages_eq_one (hpos : 0 < job.chunkPages) (hcount : job.count < Word.limit)
    (hworkers : workers ≤ job.chunks) (hmany : Word.limit < job.chunks + workers) :
    job.chunkPages = 1 := by
  refine Nat.le_antisymm (Nat.le_of_not_lt fun htwo => ?_) hpos
  -- Otherwise half of the pages, rounded up, are enough for the chunks.
  have hhalf : (job.count + 1) / 2 * 2 ≤ (job.count + 1) / 2 * job.chunkPages :=
    Nat.mul_le_mul_left _ htwo
  have hchunks : job.chunks < (job.count + 1) / 2 + 1 := by
    rw [chunks, Word.divCeil, Nat.div_lt_iff_lt_mul hpos, Nat.succ_mul]
    omega
  omega

theorem chunks_of_one (hone : job.chunkPages = 1) : job.chunks = job.count := by
  rw [chunks, Word.divCeil, hone, Nat.div_one, Nat.add_sub_cancel]

/-- If chunks are single pages, each is one of the pages of the range. -/
theorem Soft.chunk_of_one (soft : job.Soft) (hone : job.chunkPages = 1) (h : chunk < job.count) :
    job.chunk chunk = .ok ⟨job.start + chunk, job.start + chunk + 1⟩ := by
  have hstop := soft.stop_lt
  have hbound : ∀ first, first ≤ job.count → job.bound first = job.start + first := by
    intro first hfirst
    rw [bound, hone, Nat.mul_one, Nat.min_eq_left hfirst]
  have hchunk : chunk < job.chunks := by rwa [chunks_of_one hone]
  rcases job.chunk_cases soft.chunkPages_pos hstop hchunk with ⟨-, hrange⟩ | ⟨hbeyond, -⟩
  · rw [hrange, hbound chunk (Nat.le_of_lt h), hbound (chunk + 1) h, ← Nat.add_assoc]
  · rw [hone] at hbeyond
    omega

end Job

namespace Crew

variable {job : Job} {workers reads chunk counted : Nat} {crew middle after : Crew workers}
  {index : Fin workers} {next mid : Shared × Worker} {first later : List (Fin workers)}

/-! ## Crews that are reached -/

/-- The workers can make steps by which a crew becomes another one. -/
def Reaches (job : Job) (crew after : Crew workers) : Prop :=
  ∃ schedule, crew.run job schedule = some after

theorem run_append (crew : Crew workers) :
    crew.run job (first ++ later) = (crew.run job first).bind fun next => next.run job later := by
  induction first generalizing crew with
  | nil => rfl
  | cons index first ih =>
    simp only [List.cons_append, run, Option.bind_assoc]
    exact Option.bind_congr fun next _ => ih next

namespace Reaches

theorem refl (job : Job) (crew : Crew workers) : crew.Reaches job crew := ⟨[], rfl⟩

theorem trans (h : crew.Reaches job middle) (hlater : middle.Reaches job after) :
    crew.Reaches job after := by
  obtain ⟨first, hfirst⟩ := h
  obtain ⟨later, hlater⟩ := hlater
  exact ⟨first ++ later, by rw [run_append, hfirst]; exact hlater⟩

theorem of_step (h : (crew.worker index).step job crew.shared = some next) :
    crew.Reaches job (crew.put index next) :=
  ⟨[index], by rw [run, step, h]; rfl⟩

/-- The worker that made the last step makes one more. -/
theorem put (h : crew.Reaches job (crew.put index mid)) (hstep : mid.2.step job mid.1 = some next) :
    crew.Reaches job (crew.put index next) := by
  rw [← put_put crew index mid next]
  exact h.trans (of_step (by rwa [put_worker_self]))

end Reaches

/-! ## Single pages -/

/-- The cursor was read so often. Each page was touched by the first worker, as far as it has come,
and behind the last of them the workers left one after another. -/
structure Onward (job : Job) (reads : Nat) (crew : Crew workers) : Prop where
  cursor_eq : crew.shared.cursor = reads % Word.limit
  touched_eq : crew.shared.touched = List.range' job.start (min reads job.count)
  idle : ∀ index : Fin workers, reads - job.count ≤ index.val →
    ∃ counted, crew.worker index = .idle counted ∧ counted ≤ reads

theorem Onward.cursor_of_lt (onward : crew.Onward job reads) (h : reads < Word.limit) :
    crew.shared.cursor = reads := onward.cursor_eq.trans (Nat.mod_eq_of_lt h)

section single

variable (soft : job.Soft) (hone : job.chunkPages = 1)

include soft hone

/-- A worker takes a page and touches it. -/
theorem reaches_touch (hworker : crew.worker index = .idle counted)
    (hcursor : crew.shared.cursor = chunk) (hchunk : chunk < job.count) :
    crew.Reaches job (crew.put index
      (⟨chunk + 1, crew.shared.total, crew.shared.touched ++ [job.start + chunk]⟩,
        .busy counted ⟨job.start + chunk, job.start + chunk + 1⟩ (job.start + chunk + 1))) := by
  have hstop := soft.stop_lt
  have htake : (crew.worker index).step job crew.shared =
      some (⟨chunk + 1, crew.shared.total, crew.shared.touched⟩,
        .busy counted ⟨job.start + chunk, job.start + chunk + 1⟩ (job.start + chunk)) := by
    rw [hworker, Worker.step, hcursor, Job.chunks_of_one hone, if_neg (Nat.not_le.mpr hchunk),
      soft.chunk_of_one hone hchunk, Nat.mod_eq_of_lt (by omega)]
  refine (Reaches.of_step htake).put ?_
  show Worker.step job _ (.busy counted _ _) = _
  rw [Worker.step, if_pos (Nat.lt_succ_self _), soft.touch_eq _ (by omega) (by omega)]

/-- The first worker touches one page more. -/
theorem Onward.drain (onward : crew.Onward job reads) (hreads : reads < job.count)
    (hpos : 0 < workers) :
    ∃ after, crew.Reaches job after ∧ after.Onward job (reads + 1) := by
  have hstop := soft.stop_lt
  have hcursor := onward.cursor_of_lt (by omega)
  obtain ⟨counted, hworker, hcounted⟩ := onward.idle ⟨0, hpos⟩ (by omega)
  have hlength : job.start + reads + 1 - (job.start + reads) = 1 := by omega
  have hclose : Worker.close counted ⟨job.start + reads, job.start + reads + 1⟩ =
      .idle (counted + 1) := by
    rw [Worker.close_eq (Nat.le_succ _) (by rw [hlength]; omega), hlength]
  refine ⟨_, (reaches_touch soft hone hworker hcursor hreads).put
    (by rw [Worker.step, if_neg (Nat.lt_irrefl _), hclose]), ?_, ?_, fun index _ => ?_⟩
  · show reads + 1 = (reads + 1) % Word.limit
    rw [Nat.mod_eq_of_lt (by omega)]
  · show crew.shared.touched ++ [job.start + reads] = _
    rw [onward.touched_eq, Nat.min_eq_left (Nat.le_of_lt hreads), Nat.min_eq_left hreads,
      List.range'_1_concat]
  · by_cases hindex : index = ⟨0, hpos⟩
    · exact ⟨counted + 1, by rw [hindex, put_worker_self], Nat.succ_le_succ hcounted⟩
    · obtain ⟨other, hother, hle⟩ := onward.idle index (by omega)
      exact ⟨other, (put_worker_of_ne hindex ..).trans hother, Nat.le_succ_of_le hle⟩

omit soft in
/-- The worker that is next finds no page and is going to leave. -/
theorem Onward.leave (onward : crew.Onward job reads) (hreads : job.count ≤ reads)
    (hlimit : reads < Word.limit) (hworkers : reads - job.count < workers) :
    ∃ after, crew.Reaches job after ∧ after.Onward job (reads + 1) := by
  have hcursor := onward.cursor_of_lt hlimit
  obtain ⟨counted, hworker, -⟩ := onward.idle ⟨reads - job.count, hworkers⟩ (Nat.le_refl _)
  have hstep : (crew.worker ⟨reads - job.count, hworkers⟩).step job crew.shared =
      some ({ crew.shared with cursor := (reads + 1) % Word.limit }, .leaving counted) := by
    rw [hworker, Worker.step, hcursor, Job.chunks_of_one hone, if_pos hreads]
  refine ⟨_, .of_step hstep, rfl, ?_, fun index hindex => ?_⟩
  · show crew.shared.touched = _
    rw [onward.touched_eq, Nat.min_eq_right hreads, Nat.min_eq_right (Nat.le_succ_of_le hreads)]
  · have hne : index ≠ ⟨reads - job.count, hworkers⟩ := Fin.ne_of_val_ne (by
      show index.val ≠ reads - job.count
      omega)
    obtain ⟨other, hother, hle⟩ := onward.idle index (by omega)
    exact ⟨other, (put_worker_of_ne hne ..).trans hother, Nat.le_succ_of_le hle⟩

/-- So the cursor can be read once more, as long as there is a worker that has not left. -/
theorem Onward.step (onward : crew.Onward job reads) (hlimit : reads < Word.limit)
    (hworkers : reads - job.count < workers) :
    ∃ after, crew.Reaches job after ∧ after.Onward job (reads + 1) := by
  rcases Nat.lt_or_ge reads job.count with hlt | hge
  · exact onward.drain soft hone hlt (Nat.zero_lt_of_lt hworkers)
  · exact onward.leave hone hge hlimit hworkers

/-- Where there are enough workers, it can be read until it comes round. -/
theorem exists_onward (hmany : Word.limit < job.count + workers) (hreads : reads ≤ Word.limit) :
    ∃ crew, (fresh workers).Reaches job crew ∧ crew.Onward job reads := by
  have hstop := soft.stop_lt
  induction reads with
  | zero =>
    refine ⟨fresh workers, .refl job _, rfl, ?_, fun _ _ => ⟨0, rfl, Nat.le_refl 0⟩⟩
    rw [Nat.zero_min]
    rfl
  | succ reads ih =>
    obtain ⟨crew, hcrew, onward⟩ := ih (Nat.le_of_succ_le hreads)
    obtain ⟨after, hafter, hnext⟩ := onward.step soft hone hreads (by omega)
    exact ⟨after, hcrew.trans hafter, hnext⟩

end single

end Crew

/-- If the chunks of a job and its workers are more than there are words, some page can be touched
twice. -/
theorem exists_touched_twice {job : Job} {workers : Nat} (soft : job.Soft)
    (hworkers : workers ≤ job.chunks) (hmany : Word.limit < job.chunks + workers) :
    ∃ crew, (Crew.fresh workers).Reaches job crew ∧ ¬ crew.shared.touched.Nodup := by
  have hstop := soft.stop_lt
  have hone := Job.chunkPages_eq_one soft.chunkPages_pos (by omega) hworkers hmany
  rw [Job.chunks_of_one hone] at hworkers hmany
  have hpos : 0 < job.count := by omega
  obtain ⟨crew, hcrew, onward⟩ := Crew.exists_onward soft hone hmany (Nat.le_refl _)
  obtain ⟨counted, hworker, -⟩ :=
    onward.idle ⟨Word.limit - job.count, by omega⟩ (Nat.le_refl _)
  -- The cursor is at the first chunk again.
  have hcursor : crew.shared.cursor = 0 := onward.cursor_eq.trans (Nat.mod_self _)
  refine ⟨_, hcrew.trans (Crew.reaches_touch soft hone hworker hcursor hpos), fun hnodup => ?_⟩
  have hfirst : job.start + 0 ∈ crew.shared.touched := by
    rw [onward.touched_eq, List.mem_range'_1]
    omega
  exact (List.nodup_append.mp hnodup).2.2 _ hfirst _ List.mem_cons_self rfl

/-! ## Passes -/

variable {pretoucher : Pretoucher} {count pageSize : Nat}

/-- Of chunks of two pages and more there are so few that no worker reads the cursor after it has
wrapped, and of single pages unless they and the workers are more than there are words. -/
theorem chunkCount_add_workersFor_le (hcount : count < Word.limit)
    (h : pretoucher.chunkPages pageSize = 1 →
      count + pretoucher.workersFor count pageSize ≤ Word.limit) :
    pretoucher.chunkCount count pageSize + pretoucher.workersFor count pageSize ≤ Word.limit := by
  have hpos := pretoucher.chunkPages_pos pageSize
  have hchunks : pretoucher.chunkCount count pageSize ≤ count := divCeil_le hpos
  refine Nat.le_of_not_lt fun hmany => ?_
  have hone := @Job.chunkPages_eq_one (pretoucher.job 0 count pageSize fun _ => none)
    (pretoucher.workersFor count pageSize) hpos hcount (Nat.min_le_right _ _) hmany
  have hfew := h hone
  omega

end RegionBacking.Pretoucher
