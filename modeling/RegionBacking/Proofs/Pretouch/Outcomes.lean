import RegionBacking.Proofs.Pretouch.Visits

/-!
# What comes of the workers of a pass

Touches may fail, and so may the arithmetic on chunks; then a worker stops with its chunk in hand,
and the others go on. What comes of all of them does not depend on how their steps interleave: the
chunks that were taken are those that a pass takes, and the pages that were come to and the faults
that were met are theirs (`Crew.Consistent.ends`). What carries the proof are sums over the workers
again: of what they are still going to come to and to meet in the chunks that they have in hand. Only
a worker that is not going to stop takes a chunk, so until then fewer chunks fail than there are
workers. All of this takes it that no worker reads the cursor after it has wrapped (`Job.CursorFits`).
-/

namespace RegionBacking.Pretoucher

/-- A job for so many workers whose pages are words. -/
structure Job.Bounded (job : Job) (workers : Nat) : Prop where
  chunkPages_pos : 0 < job.chunkPages
  workers_pos : 0 < workers
  stop_lt : job.start + job.count < Word.limit

/-- In so many steps from a cursor on, no worker reads it after it has wrapped: the steps are too few,
or the workers are, each of which takes the cursor past the last chunk once. -/
def Job.CursorFits (job : Job) (workers cursor steps : Nat) : Prop :=
  job.chunks + workers ≤ Word.limit ∨ cursor + steps ≤ Word.limit

/-- What workers share if their cursor is a word. What is told of them counts the cursor on, as it may
wrap once the last of them has read it. -/
def Shared.wrapped (shared : Shared) : Shared :=
  { shared with cursor := shared.cursor % Word.limit }

theorem Shared.wrapped_cursor {shared : Shared} (h : shared.cursor < Word.limit) :
    shared.wrapped.cursor = shared.cursor := Nat.mod_eq_of_lt h

/-! ## Workers -/

namespace Worker

variable {job : Job} {shared next : Shared} {old new : Worker} {workers counted page : Nat}
  {range : PageRange} {touch : Nat → Option Fault}

/-- The page that a worker comes to in its next step. -/
def calls : Worker → List Nat
  | busy _ range page => if page < range.stop then [page] else []
  | _ => []

/-- The pages of its chunk that a worker is still going to come to. -/
def due (touch : Nat → Option Fault) : Worker → List Nat
  | busy _ range page => visited touch (List.range' page (range.stop - page))
  | _ => []

/-- The fault with which a worker stopped, or is going to stop in its chunk. -/
def fate (touch : Nat → Option Fault) : Worker → Option Fault
  | busy _ range page => (List.range' page (range.stop - page)).findSome? touch
  | failed fault => some fault
  | _ => none

/-- Whether a worker stops with a fault of some kind. -/
def meets (touch : Nat → Option Fault) (kind : Fault → Bool) (worker : Worker) : Nat :=
  (worker.fate touch).toList.countP kind

/-- A worker is where the cursor lets it be. -/
def Abides (job : Job) (cursor : Nat) : Worker → Prop
  | busy _ range _ => range.start ≤ range.stop ∧ range.stop ≤ job.start + job.count
  | leaving _ | gone => job.chunks ≤ cursor
  | idle _ | failed _ => True

theorem Abides.mono {cursor later : Nat} (abides : old.Abides job cursor) (h : cursor ≤ later) :
    old.Abides job later := by
  cases old with
  | leaving | gone => exact Nat.le_trans abides h
  | idle | busy | failed => exact abides

theorem meets_le (touch : Nat → Option Fault) (kind : Fault → Bool) (worker : Worker) :
    worker.meets touch kind ≤ 1 := by
  unfold meets
  cases worker.fate touch with
  | none => exact Nat.zero_le _
  | some fault => exact List.countP_le_length

/-- A worker whose page is touched goes on with the next one. -/
theorem due_of_none (h : page < range.stop) (hsoft : touch page = none) (counted : Nat) :
    (busy counted range page).due touch = page :: (busy counted range (page + 1)).due touch ∧
      (busy counted range page).fate touch = (busy counted range (page + 1)).fate touch := by
  obtain ⟨more, hmore⟩ := Nat.exists_eq_add_of_lt h
  have hfirst : range.stop - page = more + 1 := by omega
  have hrest : range.stop - (page + 1) = more := by omega
  simp only [due, fate, hfirst, hrest, List.range'_succ, visited_cons_of_none hsoft,
    List.findSome?_cons, hsoft, and_self]

/-- A worker that cannot touch its page is not going to come to another one. -/
theorem due_of_some {fault : Fault} (h : page < range.stop) (hhard : touch page = some fault)
    (counted : Nat) : (busy counted range page).due touch = [page] ∧
      (busy counted range page).fate touch = some fault := by
  obtain ⟨more, hmore⟩ := Nat.exists_eq_add_of_lt h
  have hfirst : range.stop - page = more + 1 := by omega
  simp only [due, fate, hfirst, List.range'_succ, visited_cons_of_some hhard, List.findSome?_cons,
    hhard, and_self]

/-- What a step of a worker does to each of the sums. -/
structure Acts (job : Job) (shared : Shared) (old : Worker) (next : Shared) (new : Worker) :
    Prop where
  unfailed : old.fault? = none
  abides : new.Abides job next.cursor
  takes : next.cursor = shared.cursor ∨
    next.cursor = shared.cursor + 1 ∧ old.fate job.touch = none
  left_le : next.cursor - job.chunks + old.left ≤ shared.cursor - job.chunks + new.left
  tally_le : next.total + new.tally + job.bound shared.cursor ≤
    shared.total + old.tally + job.bound next.cursor
  tally_eq : new.fault? = none → next.total + new.tally + job.bound shared.cursor =
    shared.total + old.tally + job.bound next.cursor
  due_eq : ∀ page, old.calls.count page + (new.due job.touch).count page +
      (job.visitsTo (min shared.cursor job.chunks)).count page =
    (old.due job.touch).count page + (job.visitsTo (min next.cursor job.chunks)).count page
  meets_eq : ∀ kind, new.meets job.touch kind +
      (job.faultsTo (min shared.cursor job.chunks)).countP kind =
    old.meets job.touch kind + (job.faultsTo (min next.cursor job.chunks)).countP kind
  touched_eq : next.touched =
    shared.touched ++ old.calls.filter fun page => (job.touch page).isNone
  work_le : new.work + job.pending next.cursor + 1 ≤ old.work + job.pending shared.cursor

/-- A worker that finds no chunk is going to leave. -/
theorem acts_of_last (bounded : job.Bounded workers) (hlast : job.chunks ≤ shared.cursor)
    (counted : Nat) : Acts job shared (idle counted)
      { shared with cursor := shared.cursor + 1 } (leaving counted) := by
  have hnext : job.chunks ≤ shared.cursor + 1 := Nat.le_succ_of_le hlast
  have hend := Job.bound_of_le bounded.chunkPages_pos hlast
  have hend' := Job.bound_of_le bounded.chunkPages_pos hnext
  refine ⟨rfl, hnext, .inr ⟨rfl, rfl⟩, ?_, ?_, fun _ => ?_, fun page => ?_, fun kind => ?_,
    (List.append_nil _).symm, ?_⟩
  · simp only [left]
    omega
  · simp only [tally, hend, hend', Nat.le_refl]
  · simp only [tally, hend, hend']
  · rw [Nat.min_eq_right hlast, Nat.min_eq_right hnext]
    rfl
  · rw [Nat.min_eq_right hlast, Nat.min_eq_right hnext]
    rfl
  · simp only [work, Job.pending, hend, hend']
    omega

/-- A worker that takes a chunk is going to come to its pages. -/
theorem acts_of_take (hchunk : shared.cursor < job.chunks) (hrange : job.chunk shared.cursor =
      .ok ⟨job.bound shared.cursor, job.bound (shared.cursor + 1)⟩) (counted : Nat) :
    Acts job shared (idle counted) { shared with cursor := shared.cursor + 1 }
      (busy counted ⟨job.bound shared.cursor, job.bound (shared.cursor + 1)⟩
        (job.bound shared.cursor)) := by
  have hbound := job.bound_le shared.cursor
  have hmono : job.bound shared.cursor ≤ job.bound (shared.cursor + 1) :=
    job.bound_mono (Nat.le_succ _)
  have hnext := (job.bound_le (shared.cursor + 1)).2
  have hpages : (⟨job.bound shared.cursor, job.bound (shared.cursor + 1)⟩ : PageRange).pages =
      List.range' (job.bound shared.cursor)
        (job.bound (shared.cursor + 1) - job.bound shared.cursor) := rfl
  refine ⟨rfl, ⟨hmono, hnext⟩, .inr ⟨rfl, rfl⟩, ?_, ?_, fun _ => ?_, fun page => ?_,
    fun kind => ?_, (List.append_nil _).symm, ?_⟩
  · simp only [left]
    omega
  · simp only [tally]
    omega
  · simp only [tally]
    omega
  · rw [Nat.min_eq_left (Nat.le_of_lt hchunk), Nat.min_eq_left hchunk, Job.visitsTo_succ,
      List.count_append, Job.visits_of_ok hrange, hpages]
    simp only [calls, due, List.count_nil]
    omega
  · rw [Nat.min_eq_left (Nat.le_of_lt hchunk), Nat.min_eq_left hchunk, Job.faultsTo_succ,
      List.countP_append, Job.outcome?_of_ok hrange, hpages]
    simp only [meets, fate, Option.toList_none, List.countP_nil]
    omega
  · simp only [work, Job.pending]
    omega

/-- A worker that takes a chunk whose pages are no words stops with its fault. -/
theorem acts_of_lost {fault : Fault} (hchunk : shared.cursor < job.chunks)
    (hrange : job.chunk shared.cursor = .error fault) (counted : Nat) :
    Acts job shared (idle counted) { shared with cursor := shared.cursor + 1 } (failed fault) := by
  have hbound := job.bound_le shared.cursor
  have hmono : job.bound shared.cursor ≤ job.bound (shared.cursor + 1) :=
    job.bound_mono (Nat.le_succ _)
  have hnext := (job.bound_le (shared.cursor + 1)).2
  refine ⟨rfl, trivial, .inr ⟨rfl, rfl⟩, ?_, ?_, fun hnone => absurd hnone (Option.some_ne_none _),
    fun page => ?_, fun kind => ?_, (List.append_nil _).symm, ?_⟩
  · simp only [left]
    omega
  · simp only [tally]
    omega
  · rw [Nat.min_eq_left (Nat.le_of_lt hchunk), Nat.min_eq_left hchunk, Job.visitsTo_succ,
      List.count_append, Job.visits_of_error hrange]
    rfl
  · rw [Nat.min_eq_left (Nat.le_of_lt hchunk), Nat.min_eq_left hchunk, Job.faultsTo_succ,
      List.countP_append, Job.outcome?_of_error hrange]
    simp only [meets, fate, Option.toList_none, List.countP_nil]
    omega
  · simp only [work, Job.pending]
    omega

/-- A worker takes the next chunk, or finds that there is none. -/
theorem acts_of_idle (bounded : job.Bounded workers) (hcursor : shared.cursor < Word.limit)
    (h : (idle counted).step job shared.wrapped = some (next, new)) :
    ∃ later : Shared, next = later.wrapped ∧ Acts job shared (idle counted) later new := by
  rw [step, Shared.wrapped_cursor hcursor] at h
  refine ⟨{ shared with cursor := shared.cursor + 1 }, ?_⟩
  by_cases hlast : job.chunks ≤ shared.cursor
  · rw [if_pos hlast] at h
    cases h
    exact ⟨rfl, acts_of_last bounded hlast counted⟩
  · have hchunk : shared.cursor < job.chunks := Nat.lt_of_not_le hlast
    rw [if_neg hlast] at h
    rcases job.chunk_cases bounded.chunkPages_pos bounded.stop_lt hchunk with
      ⟨-, hrange⟩ | ⟨-, hrange⟩
    · rw [hrange] at h
      cases h
      exact ⟨rfl, acts_of_take hchunk hrange counted⟩
    · rw [hrange] at h
      cases h
      exact ⟨rfl, acts_of_lost hchunk hrange counted⟩

/-- A worker touches its page and goes on with the next one. -/
theorem acts_of_touch (abides : (busy counted range page).Abides job shared.cursor)
    (hpage : page < range.stop) (hsoft : job.touch page = none) :
    Acts job shared (busy counted range page)
      { shared with touched := shared.touched ++ [page] } (busy counted range (page + 1)) := by
  have hcalls : (busy counted range page).calls = [page] := if_pos hpage
  obtain ⟨hdue, hfate⟩ := due_of_none hpage hsoft counted
  refine ⟨rfl, abides, .inl rfl, Nat.le_refl _, Nat.le_refl _, fun _ => rfl, fun other => ?_,
    fun kind => ?_, ?_, ?_⟩
  · simp only [hcalls, hdue, List.count_cons, List.count_nil]
    omega
  · rw [meets, meets, hfate]
  · rw [hcalls, List.filter_singleton, hsoft]
    rfl
  · simp only [work]
    omega

/-- A worker whose touch fails stops with that fault. -/
theorem acts_of_failure {fault : Fault} (hpage : page < range.stop)
    (hhard : job.touch page = some fault) :
    Acts job shared (busy counted range page) shared (failed fault) := by
  have hcalls : (busy counted range page).calls = [page] := if_pos hpage
  obtain ⟨hdue, hfate⟩ := due_of_some hpage hhard counted
  refine ⟨rfl, trivial, .inl rfl, Nat.le_refl _, ?_,
    fun hnone => absurd hnone (Option.some_ne_none _), fun other => ?_, fun kind => ?_, ?_, ?_⟩
  · simp only [tally]
    omega
  · rw [hcalls, hdue]
    rfl
  · rw [meets, meets, hfate]
    rfl
  · rw [hcalls, List.filter_singleton, hhard, Option.isNone_some, cond_false, List.append_nil]
  · simp only [work]
    omega

/-- A worker that has come to the end of its chunk counts it. -/
theorem acts_of_close (hpage : ¬ page < range.stop) (hclose : close counted range =
      idle (counted + (range.stop - range.start))) :
    Acts job shared (busy counted range page) shared (close counted range) := by
  have hcalls : (busy counted range page).calls = [] := if_neg hpage
  have hnone : range.stop - page = 0 := by omega
  have hdue : (busy counted range page).due job.touch = [] := by
    rw [due, hnone]
    rfl
  have hfate : (busy counted range page).fate job.touch = none := by
    rw [fate, hnone]
    rfl
  rw [hclose]
  refine ⟨rfl, trivial, .inl rfl, Nat.le_refl _, Nat.le_refl _, fun _ => rfl, fun other => ?_,
    fun kind => ?_, ?_, ?_⟩
  · rw [hcalls, hdue]
    rfl
  · rw [meets, meets, hfate]
    rfl
  · rw [hcalls]
    exact (List.append_nil _).symm
  · simp only [work]
    omega

/-- A worker comes to a page of its chunk, or closes it. -/
theorem acts_of_busy (bounded : job.Bounded workers)
    (abides : (busy counted range page).Abides job shared.cursor)
    (htally : shared.total + (busy counted range page).tally ≤ job.count)
    (h : (busy counted range page).step job shared.wrapped = some (next, new)) :
    ∃ later : Shared, next = later.wrapped ∧ Acts job shared (busy counted range page) later new := by
  rw [step] at h
  by_cases hpage : page < range.stop
  · rw [if_pos hpage] at h
    cases htouch : job.touch page with
    | none =>
      rw [htouch] at h
      cases h
      exact ⟨{ shared with touched := shared.touched ++ [page] }, rfl,
        acts_of_touch abides hpage htouch⟩
    | some fault =>
      rw [htouch] at h
      cases h
      exact ⟨shared, rfl, acts_of_failure hpage htouch⟩
  · have hlimit := bounded.stop_lt
    simp only [tally] at htally
    rw [if_neg hpage] at h
    cases h
    exact ⟨shared, rfl, acts_of_close hpage (close_eq abides.1 (by omega))⟩

/-- A worker adds what it counted to the total. -/
theorem acts_of_leaving (bounded : job.Bounded workers)
    (abides : (leaving counted).Abides job shared.cursor)
    (htally : shared.total + (leaving counted).tally ≤ job.count)
    (h : (leaving counted).step job shared.wrapped = some (next, new)) :
    ∃ later : Shared, next = later.wrapped ∧ Acts job shared (leaving counted) later new := by
  have hlimit := bounded.stop_lt
  simp only [tally] at htally
  have htotal : (shared.total + counted) % Word.limit = shared.total + counted :=
    Nat.mod_eq_of_lt (by omega)
  have hsame : shared.wrapped.total = shared.total := rfl
  rw [step, hsame, htotal] at h
  cases h
  refine ⟨{ shared with total := shared.total + counted }, rfl, rfl, abides, .inl rfl,
    Nat.le_refl _, Nat.le_refl _, fun _ => rfl, fun _ => rfl, fun _ => rfl,
    (List.append_nil _).symm, ?_⟩
  simp only [work]
  omega

/-- Every step of a worker is such an act. -/
theorem acts_of_step (bounded : job.Bounded workers) (abides : old.Abides job shared.cursor)
    (hcursor : old.left = 0 → shared.cursor < Word.limit)
    (htally : shared.total + old.tally ≤ job.count)
    (h : old.step job shared.wrapped = some (next, new)) :
    ∃ later : Shared, next = later.wrapped ∧ Acts job shared old later new := by
  cases old with
  | idle => exact acts_of_idle bounded (hcursor rfl) h
  | busy => exact acts_of_busy bounded abides htally h
  | leaving => exact acts_of_leaving bounded abides htally h
  | gone | failed => cases h

end Worker

/-! ## Crews -/

namespace Crew

variable {job : Job} {workers : Nat} {crew after : Crew workers} {index : Fin workers}
  {next : Shared × Worker} {schedule : List (Fin workers)} {pages : List Nat}

/-- The pages that a crew comes to while it runs by a schedule. -/
def calls (job : Job) : Crew workers → List (Fin workers) → List Nat
  | _, [] => []
  | crew, index :: later => (crew.worker index).calls ++
    match crew.step job index with
    | some next => next.calls job later
    | none => []

/-- The faults of a crew, worker by worker. -/
def faults (crew : Crew workers) : List Fault :=
  (List.finRange workers).filterMap fun index => (crew.worker index).fault?

/-- A crew if the cursor is a word. -/
def wrapped (crew : Crew workers) : Crew workers := { crew with shared := crew.shared.wrapped }

theorem wrapped_fresh (workers : Nat) : (fresh workers).wrapped = fresh workers := rfl

theorem result_eq (crew : Crew workers) :
    crew.result = verdict crew.faults ⟨crew.shared.total, workers⟩ := rfl

theorem countP_filterMap {α β : Type} (kind : β → Bool) (part : α → Option β) (items : List α) :
    (items.filterMap part).countP kind =
      (items.map fun item => (part item).toList.countP kind).sum := by
  induction items with
  | nil => rfl
  | cons item rest ih =>
    rw [List.map_cons, List.sum_cons, ← ih]
    cases h : part item with
    | none => rw [List.filterMap_cons_none h, Option.toList_none, List.countP_nil, Nat.zero_add]
    | some value =>
      rw [List.filterMap_cons_some h, Option.toList_some, ← List.singleton_append,
        List.countP_append]

/-- The workers of a crew have come to the pages of the chunks in front of the cursor, or are still
going to come to them, as far as these chunks do not fail. -/
structure Consistent (job : Job) (crew : Crew workers) (pages : List Nat) : Prop where
  abides : ∀ index, (crew.worker index).Abides job crew.shared.cursor
  left_le : crew.shared.cursor - job.chunks ≤ ∑ index, (crew.worker index).left
  /-- Whenever a chunk was taken, some worker was not going to stop. -/
  spare : ∀ chunk, chunk < min crew.shared.cursor job.chunks → (job.faultsTo chunk).length < workers
  tally_le : job.start + (crew.shared.total + ∑ index, (crew.worker index).tally) ≤
    job.bound crew.shared.cursor
  tally_eq : (∀ index, (crew.worker index).fault? = none) →
    job.start + (crew.shared.total + ∑ index, (crew.worker index).tally) =
      job.bound crew.shared.cursor
  due_eq : ∀ page, pages.count page +
      ∑ index, ((crew.worker index).due job.touch).count page =
    (job.visitsTo (min crew.shared.cursor job.chunks)).count page
  meets_eq : ∀ kind, ∑ index, (crew.worker index).meets job.touch kind =
    (job.faultsTo (min crew.shared.cursor job.chunks)).countP kind
  touched_eq : crew.shared.touched = pages.filter fun page => (job.touch page).isNone

theorem consistent_fresh (job : Job) (workers : Nat) : (fresh workers).Consistent job [] := by
  have hbound : job.bound 0 = job.start := by simp [Job.bound]
  constructor <;> simp [fresh, Worker.Abides, Worker.left, Worker.tally, Worker.due, Worker.meets,
    Worker.fate, Job.visitsTo, Job.faultsTo, hbound]

namespace Consistent

theorem tally_of_worker (consistent : crew.Consistent job pages) (index : Fin workers) :
    crew.shared.total + (crew.worker index).tally ≤ job.count := by
  have hone := le_sum Worker.tally crew index
  have hsum := consistent.tally_le
  have hbound := (job.bound_le crew.shared.cursor).2
  omega

/-- While some worker is not going to stop, fewer chunks fail than there are workers. -/
theorem length_faultsTo_lt (consistent : crew.Consistent job pages)
    (h : (crew.worker index).fate job.touch = none) :
    (job.faultsTo (min crew.shared.cursor job.chunks)).length < workers := by
  have hmeets := consistent.meets_eq fun _ => true
  rw [List.countP_true] at hmeets
  rw [← hmeets]
  apply sum_lt (Worker.meets_le job.touch _)
  rw [Worker.meets, h]
  rfl

/-- An act of one worker keeps the sums. -/
theorem put (consistent : crew.Consistent job pages)
    (acts : Worker.Acts job crew.shared (crew.worker index) next.1 next.2) :
    (crew.put index next).Consistent job (pages ++ (crew.worker index).calls) := by
  have hcursor : crew.shared.cursor ≤ next.1.cursor := by
    rcases acts.takes with hsame | ⟨hnext, -⟩ <;> omega
  constructor
  · intro other
    by_cases hother : other = index
    · rw [hother, put_worker_self]
      exact acts.abides
    · rw [put_worker_of_ne hother]
      exact (consistent.abides other).mono hcursor
  · have hsum := sum_put Worker.left crew index next
    have hold := consistent.left_le
    have hacts := acts.left_le
    show next.1.cursor - job.chunks ≤ _
    omega
  · show ∀ chunk, chunk < min next.1.cursor job.chunks → _
    rcases acts.takes with hsame | ⟨hnext, hfate⟩
    · rw [hsame]
      exact consistent.spare
    · rw [hnext]
      intro chunk hchunk
      by_cases hbefore : chunk < min crew.shared.cursor job.chunks
      · exact consistent.spare chunk hbefore
      · have hsame : chunk = min crew.shared.cursor job.chunks := by omega
        rw [hsame]
        exact consistent.length_faultsTo_lt hfate
  · have hsum := sum_put Worker.tally crew index next
    have hold := consistent.tally_le
    have hacts := acts.tally_le
    show job.start + (next.1.total + _) ≤ job.bound next.1.cursor
    omega
  · intro hunfailed
    have hbefore : ∀ other, (crew.worker other).fault? = none := by
      intro other
      by_cases hother : other = index
      · rw [hother]
        exact acts.unfailed
      · rw [← put_worker_of_ne hother crew next]
        exact hunfailed other
    have hsum := sum_put Worker.tally crew index next
    have hold := consistent.tally_eq hbefore
    have hacts := acts.tally_eq (put_worker_self crew index next ▸ hunfailed index)
    show job.start + (next.1.total + _) = job.bound next.1.cursor
    omega
  · intro page
    have hsum := sum_put (fun worker => (worker.due job.touch).count page) crew index next
    have hold := consistent.due_eq page
    have hacts := acts.due_eq page
    show _ = (job.visitsTo (min next.1.cursor job.chunks)).count page
    rw [List.count_append]
    omega
  · intro kind
    have hsum := sum_put (Worker.meets job.touch kind) crew index next
    have hold := consistent.meets_eq kind
    have hacts := acts.meets_eq kind
    show _ = (job.faultsTo (min next.1.cursor job.chunks)).countP kind
    omega
  · show next.1.touched = _
    rw [acts.touched_eq, consistent.touched_eq, List.filter_append]

/-- A step of a crew keeps the sums, and is one of those that are left. -/
theorem step (consistent : crew.Consistent job pages) (bounded : job.Bounded workers)
    (fits : job.CursorFits workers crew.shared.cursor 1)
    (h : crew.wrapped.step job index = some after) :
    ∃ later : Crew workers, after = later.wrapped ∧
      later.Consistent job (pages ++ (crew.worker index).calls) ∧
      later.work job + 1 ≤ crew.work job ∧ later.shared.cursor ≤ crew.shared.cursor + 1 := by
  obtain ⟨⟨next, new⟩, hnext, rfl⟩ := Option.map_eq_some_iff.mp h
  have hcursor : (crew.worker index).left = 0 → crew.shared.cursor < Word.limit := by
    intro hleft
    have hlt := cursor_lt_of_left consistent.left_le hleft
    rcases fits with hworkers | hsteps <;> omega
  obtain ⟨later, rfl, acts⟩ := Worker.acts_of_step bounded (consistent.abides index) hcursor
    (consistent.tally_of_worker index) hnext
  refine ⟨crew.put index (later, new), rfl, consistent.put acts, ?_, ?_⟩
  · have hsum : _ + _ = _ + new.work := sum_put Worker.work crew index (later, new)
    have hwork := acts.work_le
    show job.pending later.cursor + _ + 1 ≤ job.pending crew.shared.cursor + _
    omega
  · show later.cursor ≤ crew.shared.cursor + 1
    rcases acts.takes with hsame | ⟨hnext, -⟩ <;> omega

/-- So does a schedule. -/
theorem run (consistent : crew.Consistent job pages) (bounded : job.Bounded workers)
    (fits : job.CursorFits workers crew.shared.cursor schedule.length)
    (h : crew.wrapped.run job schedule = some after) :
    ∃ later : Crew workers, after = later.wrapped ∧
      later.Consistent job (pages ++ crew.wrapped.calls job schedule) ∧
      schedule.length + later.work job ≤ crew.work job := by
  induction schedule generalizing crew pages with
  | nil =>
    cases h
    rw [calls, List.append_nil]
    exact ⟨crew, rfl, consistent, Nat.le_of_eq (Nat.zero_add _)⟩
  | cons index schedule ih =>
    obtain ⟨next, hnext, hrest⟩ := Option.bind_eq_some_iff.mp h
    rw [List.length_cons] at fits
    obtain ⟨next, rfl, hconsistent, hwork, hcursor⟩ :=
      consistent.step bounded (fits.imp_right fun hsteps => by omega) hnext
    obtain ⟨later, hlater, hconsistent', hwork'⟩ :=
      ih hconsistent (fits.imp_right fun hsteps => by omega) hrest
    refine ⟨later, hlater, ?_, ?_⟩
    · simp only [calls, hnext, ← List.append_assoc]
      exact hconsistent'
    · rw [List.length_cons]
      omega

/-- Each page that was come to is one of a chunk that was taken. -/
theorem subperm (consistent : crew.Consistent job pages) :
    pages.Subperm (job.visitsTo (min crew.shared.cursor job.chunks)) := by
  rw [List.subperm_ext_iff]
  intro page _
  have hdue := consistent.due_eq page
  omega

end Consistent

/-- What came of a crew that is finished: the pages and the faults are those of the chunks that a
pass takes, in some order, and without a fault all pages were counted. -/
structure Ends (job : Job) (crew : Crew workers) (pages : List Nat) : Prop where
  pages_perm : pages.Perm (job.visitsTo (job.taken workers))
  faults_perm : crew.faults.Perm (job.faultsTo (job.taken workers))
  total_eq : crew.faults = [] → crew.shared.total = job.count

namespace Consistent

/-- The workers of a finished crew are gone, or they failed. -/
theorem gone_or_failed (finished : crew.Finished) (index : Fin workers) :
    crew.worker index = .gone ∨ ∃ fault, crew.worker index = .failed fault := by
  have hstopped := finished index
  cases hworker : crew.worker index with
  | gone => exact .inl rfl
  | failed fault => exact .inr ⟨fault, rfl⟩
  | idle | busy | leaving =>
    rw [hworker] at hstopped
    cases hstopped

/-- A finished crew has taken the chunks that a pass takes. -/
theorem taken_eq (consistent : crew.Consistent job pages) (bounded : job.Bounded workers)
    (finished : crew.Finished) :
    job.taken workers = min crew.shared.cursor job.chunks := by
  have hmeets := consistent.meets_eq fun _ => true
  rw [List.countP_true] at hmeets
  apply takenChunks_eq_of bounded.workers_pos (Nat.min_le_right _ _)
  · intro chunk hchunk
    rw [← length_faultsTo]
    exact consistent.spare chunk hchunk
  · rw [← length_faultsTo]
    by_cases hgone : ∃ index, crew.worker index = .gone
    · -- A worker that went has found all chunks taken.
      obtain ⟨index, hindex⟩ := hgone
      have hcursor := consistent.abides index
      rw [hindex] at hcursor
      have hfate : (crew.worker index).fate job.touch = none := by
        rw [hindex]
        rfl
      exact .inr ⟨Nat.min_eq_right hcursor, consistent.length_faultsTo_lt hfate⟩
    · left
      have hall : ∀ index, (crew.worker index).meets job.touch (fun _ => true) = 1 := by
        intro index
        rcases gone_or_failed finished index with hworker | ⟨fault, hworker⟩
        · exact absurd ⟨index, hworker⟩ hgone
        · rw [hworker]
          rfl
      rw [← hmeets]
      simp only [hall, Finset.sum_const, Finset.card_univ, Fintype.card_fin, smul_eq_mul,
        Nat.mul_one]

theorem ends (consistent : crew.Consistent job pages) (bounded : job.Bounded workers)
    (finished : crew.Finished) : crew.Ends job pages := by
  have htaken := consistent.taken_eq bounded finished
  refine ⟨?_, ?_, fun hnone => ?_⟩
  · rw [List.perm_iff_count, htaken]
    intro page
    have hdue := consistent.due_eq page
    have hnothing : ∀ index, ((crew.worker index).due job.touch).count page = 0 := by
      intro index
      rcases gone_or_failed finished index with hworker | ⟨fault, hworker⟩ <;>
        · rw [hworker]
          rfl
    simpa only [hnothing, Finset.sum_const_zero, Nat.add_zero] using hdue
  · rw [List.perm_iff_count, htaken]
    intro fault
    have hmeets := consistent.meets_eq (· == fault)
    have hfault : ∀ index, ((crew.worker index).fault?.toList.countP (· == fault)) =
        (crew.worker index).meets job.touch (· == fault) := by
      intro index
      rcases gone_or_failed finished index with hworker | ⟨_, hworker⟩ <;>
        · rw [hworker]
          rfl
    rw [List.count_eq_countP, List.count_eq_countP, ← hmeets, faults, countP_filterMap,
      ← Fin.sum_univ_def]
    exact Finset.sum_congr rfl fun index _ => hfault index
  · have hgone : ∀ index, crew.worker index = .gone := by
      intro index
      rcases gone_or_failed finished index with hworker | ⟨fault, hworker⟩
      · exact hworker
      · have hindex := List.filterMap_eq_nil_iff.mp hnone index (List.mem_finRange index)
        rw [hworker] at hindex
        cases hindex
    have htally := consistent.tally_eq fun index => by rw [hgone index]; rfl
    have hcursor := consistent.abides ⟨0, bounded.workers_pos⟩
    rw [hgone] at hcursor
    rw [Job.bound_of_le bounded.chunkPages_pos hcursor] at htally
    simp only [hgone, Worker.tally, Finset.sum_const_zero, Nat.add_zero,
      Nat.add_left_cancel_iff] at htally
    exact htally

end Consistent

/-- A finished crew failed just if a chunk does that a pass takes. -/
theorem Ends.error_iff (ends : crew.Ends job pages) :
    (∃ fault, crew.result = .error fault) ↔ job.faultsTo (job.taken workers) ≠ [] := by
  rw [result_eq, verdict_error_iff, ne_eq, ne_eq, ← List.length_eq_zero_iff,
    ← List.length_eq_zero_iff, ends.faults_perm.length_eq]

/-- A crew of whose chunks no more than one fails has the result of a pass. -/
theorem Ends.result_eq (ends : crew.Ends job pages)
    (h : (job.faultsTo (job.taken workers)).length ≤ 1) :
    crew.result = verdict (job.faultsTo (job.taken workers)) ⟨job.count, workers⟩ := by
  have hperm := ends.faults_perm
  rw [Crew.result_eq]
  cases hfaults : job.faultsTo (job.taken workers) with
  | nil =>
    rw [hfaults, List.perm_nil] at hperm
    rw [hperm, ends.total_eq hperm]
  | cons fault others =>
    rw [hfaults, List.length_cons] at h
    obtain rfl : others = [] := List.length_eq_zero_iff.mp (by omega)
    rw [hfaults, List.perm_singleton] at hperm
    rw [hperm]
    exact verdict_congr (List.cons_ne_nil _ _) _ _

/-- Wherever a schedule of fresh workers stops, their pages and faults are told from the chunks that
were taken. -/
theorem of_run (bounded : job.Bounded workers) (fits : job.CursorFits workers 0 schedule.length)
    (h : (fresh workers).run job schedule = some crew) :
    ∃ whole : Crew workers, crew = whole.wrapped ∧
      whole.Consistent job ((fresh workers).calls job schedule) ∧
      schedule.length ≤ 2 * job.chunks + job.count + 2 * workers := by
  rw [← wrapped_fresh] at h
  obtain ⟨whole, hwhole, consistent, hwork⟩ :=
    (consistent_fresh job workers).run bounded fits h
  rw [work_fresh] at hwork
  exact ⟨whole, hwhole, consistent, Nat.le_trans (Nat.le_add_right _ _) hwork⟩

end Crew

end RegionBacking.Pretoucher
