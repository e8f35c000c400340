import RegionBacking.Proofs.Mapper.Postings
import RegionBacking.Proofs.Mapper.RegionSet

/-!
# What a call posts

A call that comes to its end brings its whole range to the other status, is counted with the regions
and pages that this made, and is reported by one event. A call that stops may leave a part of its
range done, but only that it was refused is counted, and no event reports the part (`Made.posting`).
-/

namespace RegionBacking

/-- The pages of a store that a mapper has committed. -/
def Mapper.committedPages (mapper : Mapper PageSpace) : Nat := mapper.store.committedCount

namespace Mapper

/-! ## Calls that were made -/

/-- Whether a call commits regions. -/
def Call.isCommit : Call → Bool
  | commit .. => true
  | uncommit .. => false

/-- A call that was made, and the mapper that it was made of. -/
structure Made where
  mapper : Mapper PageSpace
  call : Call

namespace Made

/-- The run of the call. -/
def run (made : Made) : Run Refusal (Mapper PageSpace) Unit := made.call.run made.mapper

/-- The mapper after the call. -/
def after (made : Made) : Mapper PageSpace := made.run.state

/-- How the call ended. -/
def outcome (made : Made) : Outcome := .of made.run.result

/-- The placements that the call asked for. -/
def placements (made : Made) : Nat := (Effect.placements made.run.trace).length

/-- The events of the call that say which regions were committed or uncommitted. -/
def entries (made : Made) : List Event := Effect.entries made.run.trace

/-- The call changed nothing but counters, and asked for no placement. -/
def Void (made : Made) : Prop :=
  (∃ activity, made.after = made.mapper.withActivity activity) ∧ made.placements = 0

/-- A commit made a size larger by `amount`, or an uncommit made it smaller. -/
def Moves (made : Made) (size : Mapper PageSpace → Nat) (amount : Nat) : Prop :=
  if made.call.isCommit then size made.after = size made.mapper + amount
  else size made.mapper = size made.after + amount

/-- The first `part` regions of the range of the call are done, and by that so many pages. -/
structure Does (made : Made) (part pages : Nat) : Prop where
  shows : ∀ set, made.mapper.Shows set → made.after.Shows (made.call.apply part set)
  regions : made.Moves committedCount part
  pages : made.Moves committedPages pages
  pretouch_eq : made.after.alwaysPretouch = made.mapper.alwaysPretouch

/-- How a call ends, and what it posts. -/
inductive Posting (made : Made) : Prop where
  | committed (start count : Nat) (pretoucher : Option Pretoucher) (pages : Nat)
    (zeroFilled : Bool) (call_eq : made.call = .commit start count pretoucher)
    (outcome_eq : made.outcome = .done) (does : made.Does count pages)
    (activity_eq : made.after.activity = ((made.mapper.activity.pretouch
      (made.mapper.touched pretoucher pages)).commit count pages).place made.placements)
    (pages_eq : count = 0 → pages = 0)
    (entries_eq : made.entries = if count = 0 then [] else
      [.commit made.mapper.memoryKind start count pages zeroFilled]) : Posting made
  | uncommitted (start count pages : Nat) (call_eq : made.call = .uncommit start count)
    (outcome_eq : made.outcome = .done) (does : made.Does count pages)
    (activity_eq : made.after.activity = made.mapper.activity.uncommit count pages)
    (placements_eq : made.placements = 0)
    (entries_eq : made.entries = [.uncommit made.mapper.memoryKind start count pages]) :
    Posting made
  | stopped (part pages : Nat) (stop : Stop Refusal) (result_eq : made.run.result = .error stop)
    (part_le : part ≤ made.call.count) (does : made.Does part pages)
    (activity_eq : made.after.activity = if made.call.isCommit ∧ made.outcome = .refused then
      made.mapper.activity.commitFailure else made.mapper.activity)
    (placements_eq : made.placements = if made.call.isCommit ∧ made.mapper.memoryKind.isPlaced then
      pages else 0)
    (entries_eq : made.entries = [])
    (of_large : ∀ whole, made.mapper.strategy = .large whole → made.Void)
    (of_countable : made.mapper.Countable → made.Void ∨
      StoppedByStore made.run.trace made.after.store stop) : Posting made

theorem outcome_ne_done {made : Made} {stop : Stop Refusal} (h : made.run.result = .error stop) :
    made.outcome ≠ .done := by
  rw [outcome, h]
  cases stop <;> exact nofun

end Made

variable {mapper after middle : Mapper PageSpace} {start count part pages : Nat}
  {pretoucher : Option Pretoucher} {trace : List Effect} {answers : List Answer}
  {result : Except (Stop Refusal) Unit}

/-! ## What is done of a range -/

theorem Made.does_of_commit
    (done : BroughtTo true start (start + part) mapper middle answers trace)
    (sound : mapper.Sound) (ready : mapper.Ready false start count) (hpart : part ≤ count)
    (hpages : middle.committedPages = mapper.committedPages + pages)
    (hpretouch : middle.alwaysPretouch = mapper.alwaysPretouch)
    (hafter : ∃ activity, (Made.mk mapper (.commit start count pretoucher)).after =
      middle.withActivity activity) :
    (Made.mk mapper (.commit start count pretoucher)).Does part pages := by
  obtain ⟨activity, hafter⟩ := hafter
  have hcount := done.committedCount_eq sound ready (Nat.add_le_add_left hpart start)
  rw [Nat.add_sub_cancel_left] at hcount
  constructor
  · intro set shows
    rw [hafter]
    exact (done.report activity .nil).shows shows sound
  · rw [Made.Moves, hafter]
    exact hcount
  · rw [Made.Moves, hafter]
    exact hpages
  · rw [hafter]
    exact hpretouch

theorem Made.does_of_uncommit
    (done : BroughtTo false start (start + part) mapper middle answers trace)
    (sound : mapper.Sound) (ready : mapper.Ready true start count) (hpart : part ≤ count)
    (hpages : mapper.committedPages = middle.committedPages + pages)
    (hpretouch : middle.alwaysPretouch = mapper.alwaysPretouch)
    (hafter : ∃ activity, (Made.mk mapper (.uncommit start count)).after =
      middle.withActivity activity) :
    (Made.mk mapper (.uncommit start count)).Does part pages := by
  obtain ⟨activity, hafter⟩ := hafter
  have hcount := done.committedCount_eq_of_uncommit sound ready (Nat.add_le_add_left hpart start)
  rw [Nat.add_sub_cancel_left] at hcount
  constructor
  · intro set shows
    rw [hafter]
    exact (done.report activity .nil).shows shows sound
  · rw [Made.Moves, hafter]
    exact hcount
  · rw [Made.Moves, hafter]
    exact hpages
  · rw [hafter]
    exact hpretouch

/-! ## Calls that are at fault at once -/

/-- A call that does nothing does none of its regions. -/
theorem Made.does_nothing {made : Made} (hafter : made.after = made.mapper) : made.Does 0 0 := by
  constructor
  · intro set shows
    rw [hafter, Call.apply_zero]
    exact shows
  · rw [Made.Moves, hafter, Nat.add_zero, ite_self]
  · rw [Made.Moves, hafter, Nat.add_zero, ite_self]
  · rw [hafter]

theorem posting_of_fault {call : Call} {fault : Fault}
    (hrun : call.run mapper = ⟨.error (.fault fault), mapper, []⟩) :
    (Made.mk mapper call).Posting := by
  have hmade : (Made.mk mapper call).run = ⟨.error (.fault fault), mapper, []⟩ := hrun
  have hafter : (Made.mk mapper call).after = mapper := congrArg Run.state hmade
  have hvoid : (Made.mk mapper call).Void := by
    refine ⟨⟨mapper.activity, hafter⟩, ?_⟩
    rw [Made.placements, hmade]
    rfl
  refine .stopped 0 0 (.fault fault) (congrArg Run.result hmade) (Nat.zero_le _)
    (Made.does_nothing hafter) ?_ ?_ ?_ (fun _ _ => hvoid) fun _ => .inl hvoid
  · rw [hafter, Made.outcome, hmade, if_neg fun h => nomatch h.2]
  · rw [hvoid.2, ite_self]
  · rw [Made.entries, hmade]
    rfl

/-! ## Commits -/

/-- A commit whose pages were backed is counted and reported. -/
theorem posting_of_backed {backing : Backing} (inUse : mapper.InUse) (hcount : 0 < count)
    (ready : mapper.Ready false start count) (chunked : mapper.Chunked pretoucher)
    (hback : backRegions start count pretoucher mapper = ⟨.ok backing, middle, trace⟩) :
    (Made.mk mapper (.commit start count pretoucher)).Posting := by
  have posted := backRegions_posted inUse.sound ready chunked hback
  obtain ⟨placed, posts⟩ := posted.posts
  have hdone : ∃ answers, BroughtTo true start (start + count) mapper middle answers trace := by
    rcases backRegions_run inUse.sound hcount ready pretoucher fun _ _ => chunked with
      ⟨backing', after, trace', answers, hrun, done, -⟩ | ⟨stop, after, trace', answers, _, hrun, -⟩
    · cases hrun.symm.trans hback
      exact ⟨answers, done⟩
    · cases hrun.symm.trans hback
  obtain ⟨answers, done⟩ := hdone
  obtain ⟨reported, hreport, -, hplacements, hentries⟩ :=
    reportCommit_run start count backing middle
  have hmade : (Made.mk mapper (.commit start count pretoucher)).run =
      ⟨.ok (), middle.withActivity
          ((middle.activity.commit count backing.pages).place backing.placements),
        trace ++ (reported ++ middle.told start count backing.zeroFilled)⟩ := by
    show commitRegions start count pretoucher mapper = _
    rw [ready.commitRegions_eq, if_neg (Nat.ne_of_gt hcount),
      Op.bind_eq_after (Op.recover_eq_ok hback), Op.bind_eq_after hreport, notify_run]
    rfl
  obtain ⟨htold, htold'⟩ := told_entries middle start count backing.zeroFilled
  have hplaced : (Made.mk mapper (.commit start count pretoucher)).placements =
      backing.placements := by
    rw [Made.placements, hmade, Effect.placements_append, Effect.placements_append, hplacements,
      htold', List.append_nil, List.append_nil]
    exact posted.placements_eq
  refine .committed start count pretoucher backing.pages backing.zeroFilled rfl ?_ ?_ ?_
    (fun hzero => absurd hzero (Nat.ne_of_gt hcount)) ?_
  · rw [Made.outcome, hmade]
    rfl
  · exact Made.does_of_commit done inUse.sound ready (Nat.le_refl count) posted.pages_eq
      posts.pretouch_eq ⟨_, congrArg Run.state hmade⟩
  · rw [hplaced, ← posts.activity_eq]
    exact congrArg (fun run => run.state.activity) hmade
  · rw [if_neg (Nat.ne_of_gt hcount), Made.entries, hmade, Effect.entries_append,
      Effect.entries_append, posts.entries_eq, hentries, htold, posts.kind_eq]
    rfl

/-- A commit of no regions is counted, and nothing else. -/
theorem posting_of_none (inUse : mapper.InUse) (ready : mapper.Ready false start 0) :
    (Made.mk mapper (.commit start 0 pretoucher)).Posting := by
  have hmade : (Made.mk mapper (.commit start 0 pretoucher)).run =
      ⟨.ok (), mapper.withActivity (mapper.activity.commit 0 0), mapper.told start 0 true⟩ := by
    show commitRegions start 0 pretoucher mapper = _
    rw [ready.commitRegions_eq, if_pos rfl, Mapper.count, Op.modify_bind, notify_run]
    rfl
  obtain ⟨htold, htold'⟩ := told_entries mapper start 0 true
  have hplaced : (Made.mk mapper (.commit start 0 pretoucher)).placements = 0 := by
    rw [Made.placements, hmade, htold']
    rfl
  have done : BroughtTo true start (start + 0) mapper mapper [] [] :=
    .refl inUse.sound true (Nat.le_refl start)
  refine .committed start 0 pretoucher 0 true rfl ?_ ?_ ?_ (fun _ => rfl) ?_
  · rw [Made.outcome, hmade]
    rfl
  · exact Made.does_of_commit done inUse.sound ready (Nat.le_refl 0) rfl rfl
      ⟨_, congrArg Run.state hmade⟩
  · rw [hplaced, touched_zero, Activity.pretouch_zero, Activity.place_zero]
    exact congrArg (fun run => run.state.activity) hmade
  · rw [if_pos rfl, Made.entries, hmade, htold]

/-- A commit that stops where it backs its regions leaves behind what it did until then. -/
theorem posting_of_unbacked {stop : Stop Refusal} (inUse : mapper.InUse) (hcount : 0 < count)
    (ready : mapper.Ready false start count) (chunked : mapper.Chunked pretoucher)
    (hback : backRegions start count pretoucher mapper = ⟨.error stop, middle, trace⟩) :
    (Made.mk mapper (.commit start count pretoucher)).Posting := by
  obtain ⟨pages, strays⟩ := backRegions_strays inUse.sound ready chunked hback
  have hdone : ∃ part answers, part ≤ count ∧
      BroughtTo true start (start + part) mapper middle answers trace := by
    rcases backRegions_run inUse.sound hcount ready pretoucher fun _ _ => chunked with
      ⟨backing', after, trace', answers, hrun, -⟩ |
      ⟨stop', after, trace', answers, region, hrun, done, hfirst, hlast, -⟩
    · cases hrun.symm.trans hback
    · cases hrun.symm.trans hback
      obtain ⟨part, rfl⟩ := Nat.exists_eq_add_of_le hfirst
      exact ⟨part, answers, Nat.le_of_add_le_add_left hlast, done⟩
  obtain ⟨part, answers, hpart, done⟩ := hdone
  -- A refusal is counted and reported on its way out, a fault is not.
  have hmade : ∃ activity later, (Made.mk mapper (.commit start count pretoucher)).run =
      ⟨.error stop, middle.withActivity activity, trace ++ later⟩ ∧
      activity = (if Outcome.of (.error stop) = .refused then mapper.activity.commitFailure
        else mapper.activity) ∧
      Effect.entries later = [] ∧ Effect.placements later = [] ∧ Effect.calls later = [] := by
    have hactivity := strays.posts.activity_eq
    rw [Activity.pretouch_zero] at hactivity
    show ∃ activity later, commitRegions start count pretoucher mapper = _ ∧ _
    rw [ready.commitRegions_eq, if_neg (Nat.ne_of_gt hcount)]
    cases stop with
    | fault fault =>
      refine ⟨middle.activity, [], ?_, hactivity, rfl, rfl, rfl⟩
      rw [List.append_nil]
      exact Op.bind_run_error (Op.recover_eq_fault hback)
    | error refusal =>
      exact ⟨middle.activity.commitFailure, [.event (.commitFailure _ _ _ _)],
        Op.bind_run_error (Op.recover_eq_after hback), congrArg _ hactivity, rfl, rfl, rfl⟩
  obtain ⟨activity, later, hmade, hactivity, hentries, hplacements, hcalls⟩ := hmade
  have hplaced : (Made.mk mapper (.commit start count pretoucher)).placements =
      if mapper.memoryKind.isPlaced then pages else 0 := by
    rw [Made.placements, hmade, Effect.placements_append, hplacements, List.append_nil,
      strays.posts.length_placements]
  have hvoid : ∀ whole, mapper.strategy = .large whole →
      (Made.mk mapper (.commit start count pretoucher)).Void := by
    intro whole hlarge
    have hsame := strays.of_large whole hlarge
    subst hsame
    refine ⟨⟨activity, congrArg Run.state hmade⟩, ?_⟩
    have hpages := strays.pages_eq
    rw [hplaced, show pages = 0 by omega, ite_self]
  refine .stopped part pages stop (congrArg Run.result hmade) hpart ?_ ?_ ?_ ?_ hvoid ?_
  · exact Made.does_of_commit done inUse.sound ready hpart strays.pages_eq
      strays.posts.pretouch_eq ⟨_, congrArg Run.state hmade⟩
  · rw [Made.after, Made.outcome, hmade]
    refine hactivity.trans (if_congr ?_ rfl rfl)
    exact (and_iff_right rfl).symm
  · rw [hplaced]
    exact if_congr (and_iff_right rfl).symm rfl rfl
  · rw [Made.entries, hmade, Effect.entries_append, strays.posts.entries_eq, hentries]
    rfl
  · intro countable
    cases hstrategy : mapper.strategy with
    | large whole => exact .inl (hvoid whole hstrategy)
    | small regions references =>
      rw [Made.after, hmade]
      exact .inr ((strays.of_small countable regions references hstrategy).before hcalls)

theorem posting_commit (inUse : mapper.InUse) (start count : Nat) (pretoucher : Option Pretoucher)
    (inWords : (Call.commit start count pretoucher).InWords) :
    (Made.mk mapper (.commit start count pretoucher)).Posting := by
  by_cases ready : mapper.Ready false start count
  · rcases Nat.eq_zero_or_pos count with rfl | hcount
    · exact posting_of_none inUse ready
    · have chunked : mapper.Chunked pretoucher := inUse.chunked inWords
      match hback : backRegions start count pretoucher mapper with
      | ⟨.ok backing, middle, trace⟩ => exact posting_of_backed inUse hcount ready chunked hback
      | ⟨.error stop, middle, trace⟩ => exact posting_of_unbacked inUse hcount ready chunked hback
  · obtain ⟨fault, -, hrun⟩ := commitRegions_fault ready pretoucher
    exact posting_of_fault hrun

/-! ## Uncommits -/

/-- An uncommit whose pages were given up is counted and reported. -/
theorem posting_of_released (inUse : mapper.InUse) (ready : mapper.Ready true start count)
    (hback : unbackRegions start count mapper = ⟨.ok pages, middle, trace⟩) :
    (Made.mk mapper (.uncommit start count)).Posting := by
  obtain ⟨hpages, posts⟩ := unbackRegions_posted inUse.sound ready hback
  have hactivity := posts.activity_eq
  rw [Activity.pretouch_zero] at hactivity
  have hdone : ∃ answers, BroughtTo false start (start + count) mapper middle answers trace := by
    rcases unbackRegions_run inUse.sound ready with
      ⟨pages', after, trace', answers, hrun, done⟩ | ⟨stop, after, trace', answers, _, hrun, -⟩
    · cases hrun.symm.trans hback
      exact ⟨answers, done⟩
    · cases hrun.symm.trans hback
  obtain ⟨answers, done⟩ := hdone
  have hmade : (Made.mk mapper (.uncommit start count)).run =
      ⟨.ok (), middle.withActivity (middle.activity.uncommit count pages), trace ++
        [.record (.regionsUncommitted middle.memoryKind start (start + count) pages),
          .event (.uncommit middle.memoryKind start count pages)]⟩ := by
    show uncommitRegions start count mapper = _
    rw [ready.uncommitRegions_eq, Op.bind_eq_after hback, ← posts.kind_eq]
    rfl
  refine .uncommitted start count pages rfl ?_ ?_ ?_ ?_ ?_
  · rw [Made.outcome, hmade]
    rfl
  · exact Made.does_of_uncommit done inUse.sound ready (Nat.le_refl count) hpages
      posts.pretouch_eq ⟨_, congrArg Run.state hmade⟩
  · rw [Made.after, hmade, ← hactivity]
    rfl
  · rw [Made.placements, hmade, Effect.placements_append, List.length_append,
      posts.length_placements, ite_self]
    rfl
  · rw [Made.entries, hmade, Effect.entries_append, posts.entries_eq, posts.kind_eq]
    rfl

/-- An uncommit that stops leaves behind what it did until then, and is not counted. -/
theorem posting_of_held {stop : Stop Refusal} (inUse : mapper.InUse)
    (ready : mapper.Ready true start count)
    (hback : unbackRegions start count mapper = ⟨.error stop, middle, trace⟩) :
    (Made.mk mapper (.uncommit start count)).Posting := by
  obtain ⟨pages, strays⟩ := unbackRegions_strays inUse.sound ready hback
  have hactivity := strays.posts.activity_eq
  rw [Activity.pretouch_zero] at hactivity
  have hdone : ∃ part answers, part ≤ count ∧
      BroughtTo false start (start + part) mapper middle answers trace := by
    rcases unbackRegions_run inUse.sound ready with
      ⟨pages', after, trace', answers, hrun, -⟩ |
      ⟨stop', after, trace', answers, region, hrun, done, hfirst, hlast, -⟩
    · cases hrun.symm.trans hback
    · cases hrun.symm.trans hback
      obtain ⟨part, rfl⟩ := Nat.exists_eq_add_of_le hfirst
      exact ⟨part, answers, Nat.le_of_add_le_add_left (Nat.le_of_lt hlast), done⟩
  obtain ⟨part, answers, hpart, done⟩ := hdone
  have hmade : (Made.mk mapper (.uncommit start count)).run = ⟨.error stop, middle, trace⟩ := by
    show uncommitRegions start count mapper = _
    rw [ready.uncommitRegions_eq]
    exact Op.bind_run_error hback
  have hplaced : (Made.mk mapper (.uncommit start count)).placements = 0 := by
    rw [Made.placements, hmade, strays.posts.length_placements, ite_self]
  have hvoid : ∀ whole, mapper.strategy = .large whole →
      (Made.mk mapper (.uncommit start count)).Void := by
    intro whole hlarge
    have hsame := strays.of_large whole hlarge
    subst hsame
    exact ⟨⟨middle.activity, congrArg Run.state hmade⟩, hplaced⟩
  refine .stopped part pages stop (congrArg Run.result hmade) hpart ?_ ?_ ?_ ?_ hvoid ?_
  · exact Made.does_of_uncommit done inUse.sound ready hpart strays.pages_eq.symm
      strays.posts.pretouch_eq ⟨middle.activity, congrArg Run.state hmade⟩
  · rw [Made.after, hmade, if_neg fun h => nomatch h.1]
    exact hactivity
  · rw [hplaced, if_neg fun h => nomatch h.1]
  · rw [Made.entries, hmade, strays.posts.entries_eq]
  · intro countable
    cases hstrategy : mapper.strategy with
    | large whole => exact .inl (hvoid whole hstrategy)
    | small regions references =>
      rw [Made.after, hmade]
      exact .inr (strays.of_small countable regions references hstrategy)

theorem posting_uncommit (inUse : mapper.InUse) (start count : Nat) :
    (Made.mk mapper (.uncommit start count)).Posting := by
  by_cases ready : mapper.Ready true start count
  · match hback : unbackRegions start count mapper with
    | ⟨.ok pages, middle, trace⟩ => exact posting_of_released inUse ready hback
    | ⟨.error stop, middle, trace⟩ => exact posting_of_held inUse ready hback
  · obtain ⟨fault, -, hrun⟩ := uncommitRegions_fault ready
    exact posting_of_fault hrun

/-- What any call of a mapper in use posts. -/
theorem Made.posting (inUse : mapper.InUse) (call : Call) (inWords : call.InWords) :
    (Made.mk mapper call).Posting := by
  cases call with
  | commit start count pretoucher => exact posting_commit inUse start count pretoucher inWords
  | uncommit start count => exact posting_uncommit inUse start count

/-- What a commit that came to its end has done and counted. -/
theorem Made.of_commit_ok {made : Made} (inUse : made.mapper.InUse) (inWords : made.call.InWords)
    (hok : made.run.result = .ok ()) (hcall : made.call = .commit start count pretoucher) :
    ∃ pages, made.Does count pages ∧
      made.after.activity = ((made.mapper.activity.pretouch
        (made.mapper.touched pretoucher pages)).commit count pages).place made.placements := by
  have posting : made.Posting := Made.posting inUse made.call inWords
  cases posting with
  | committed _ _ _ pages _ call_eq _ does activity_eq =>
    cases hcall.symm.trans call_eq
    exact ⟨pages, does, activity_eq⟩
  | uncommitted _ _ _ call_eq => cases hcall.symm.trans call_eq
  | stopped _ _ _ result_eq => cases hok.symm.trans result_eq

/-- What an uncommit that came to its end has done and counted. -/
theorem Made.of_uncommit_ok {made : Made} (inUse : made.mapper.InUse) (inWords : made.call.InWords)
    (hok : made.run.result = .ok ()) (hcall : made.call = .uncommit start count) :
    ∃ pages, made.Does count pages ∧
      made.after.activity = made.mapper.activity.uncommit count pages ∧ made.placements = 0 := by
  have posting : made.Posting := Made.posting inUse made.call inWords
  cases posting with
  | committed _ _ _ _ _ call_eq => cases hcall.symm.trans call_eq
  | uncommitted _ _ pages call_eq _ does activity_eq placements_eq =>
    cases hcall.symm.trans call_eq
    exact ⟨pages, does, activity_eq, placements_eq⟩
  | stopped _ _ _ result_eq => cases hok.symm.trans result_eq

end Mapper

end RegionBacking
