import RegionBacking.Proofs.Mapper.Ledger

/-!
# The balance of a mapper

The log of a mapper lists the calls that were made of it, whatever became of it between them. Its
counters are totals over the calls of the log that came to their end (`Logged.activity_eq`). As far
as no call stopped halfway, that is all there is: the counters balance, and the events tell which
regions are committed (`Balanced`). What calls that stopped left behind is there, but nobody counted
it (`Reconciled`).
-/

namespace RegionBacking

/-! ## Replaying events -/

namespace Event

/-- The pages that became committed by what an event says. -/
def pagesMore : Event → Nat
  | commit _ _ _ pages _ => pages
  | _ => 0

/-- The pages that became uncommitted by what an event says. -/
def pagesLess : Event → Nat
  | uncommit _ _ _ pages => pages
  | _ => 0

end Event

namespace Mapper

/-! ## Totals -/

section total

variable {α : Type} {amount other : α → Nat}

/-- The sum of the amounts of all elements of a list. -/
def total (amount : α → Nat) (list : List α) : Nat :=
  list.foldr (fun item sum => amount item + sum) 0

theorem total_append (amount : α → Nat) (list later : List α) :
    total amount (list ++ later) = total amount list + total amount later := by
  induction list with
  | nil => exact (Nat.zero_add _).symm
  | cons item rest ih =>
    show amount item + total amount (rest ++ later) = amount item + total amount rest + _
    rw [ih, Nat.add_assoc]

theorem total_concat (amount : α → Nat) (list : List α) (item : α) :
    total amount (list ++ [item]) = total amount list + amount item := total_append ..

end total

/-! ## Logs -/

/-- What can become of a mapper while nobody calls it. -/
inductive Idles (mapper : Mapper PageSpace) : Mapper PageSpace → Prop where
  | listener (listener : Listener) : Idles mapper { mapper with listener }
  | nodes (nodes : Nodes) : Idles mapper (mapper.withNodes nodes)
  | store (store : PageSpace) (h : mapper.store.Meanwhile store) : Idles mapper { mapper with store }

/-- What becomes of a mapper, with the calls that are made of it meanwhile, the latest last. -/
inductive Logged (first : Mapper PageSpace) : List Made → Mapper PageSpace → Prop where
  | start : Logged first [] first
  | call {log : List Made} {mapper : Mapper PageSpace} (earlier : Logged first log mapper)
    (call : Call) (inWords : call.InWords) :
    Logged first (log ++ [⟨mapper, call⟩]) (Made.mk mapper call).after
  | idle {log : List Made} {mapper after : Mapper PageSpace} (earlier : Logged first log mapper)
    (idles : mapper.Idles after) : Logged first log after

variable {first mapper after : Mapper PageSpace} {log : List Made}

theorem Idles.follows (idles : mapper.Idles after) : Follows PageSpace.Meanwhile mapper after := by
  cases idles with
  | listener listener => exact .listener listener
  | nodes nodes => exact .nodes nodes
  | store store h => exact .store store h

namespace Logged

theorem reachable (logged : Logged first log mapper) :
    Reachable PageSpace.Meanwhile first mapper := by
  induction logged with
  | start => exact .refl
  | call _ call inWords ih => exact ih.tail (.call call inWords)
  | idle _ idles ih => exact ih.tail idles.follows

/-- Whatever became of a mapper, there is a log of it. -/
theorem exists_of_reachable (h : Reachable PageSpace.Meanwhile first mapper) :
    ∃ log, Logged first log mapper := by
  induction h with
  | refl => exact ⟨[], .start⟩
  | tail _ follows ih =>
    obtain ⟨log, logged⟩ := ih
    cases follows with
    | call call inWords => exact ⟨_, logged.call call inWords⟩
    | listener listener => exact ⟨log, logged.idle (.listener listener)⟩
    | nodes nodes => exact ⟨log, logged.idle (.nodes nodes)⟩
    | store store h => exact ⟨log, logged.idle (.store store h)⟩

end Logged

/-- Between calls nothing changes that is counted, and no counter does. -/
theorem Idles.unchanged (idles : mapper.Idles after) :
    after.activity = mapper.activity ∧ after.committed = mapper.committed ∧
      after.committedPages = mapper.committedPages ∧ after.alwaysPretouch = mapper.alwaysPretouch := by
  cases idles with
  | listener listener => exact ⟨rfl, rfl, rfl, rfl⟩
  | nodes nodes => exact ⟨rfl, rfl, rfl, rfl⟩
  | store store h =>
    obtain ⟨machine, rfl⟩ := h.of_machine
    exact ⟨rfl, rfl, rfl, rfl⟩

/-! ## Amounts of calls -/

namespace Made

/-- By how much a call made a size larger. -/
def more (size : Mapper PageSpace → Nat) (made : Made) : Nat := size made.after - size made.mapper

/-- By how much a call made a size smaller. -/
def less (size : Mapper PageSpace → Nat) (made : Made) : Nat := size made.mapper - size made.after

/-- The pages that a call touched. -/
def touched (made : Made) : Nat :=
  made.mapper.touched made.call.pretoucher (made.more committedPages)

/-- An amount of a call, if that came to its end. -/
def done (amount : Made → Nat) (made : Made) : Nat :=
  if made.outcome = .done then amount made else 0

/-- An amount of a call, if that stopped. -/
def stray (amount : Made → Nat) (made : Made) : Nat :=
  if made.outcome = .done then 0 else amount made

/-- Whether a call is a commit that ended in such a way. -/
def commits (outcome : Outcome) (made : Made) : Bool :=
  made.call.isCommit && decide (made.outcome = outcome)

/-- Whether a call is an uncommit that ended in such a way. -/
def uncommits (outcome : Outcome) (made : Made) : Bool :=
  !made.call.isCommit && decide (made.outcome = outcome)

end Made

/-- The counters that a log comes to. -/
def tally (log : List Made) : Activity where
  commitCalls := .ofNat (log.countP (Made.commits .done))
  uncommitCalls := .ofNat (log.countP (Made.uncommits .done))
  pagesCommitted := .ofNat (total (Made.done (Made.more committedPages)) log)
  pagesUncommitted := .ofNat (total (Made.done (Made.less committedPages)) log)
  pretouchedPages := .ofNat (total (Made.done Made.touched) log)
  placements := .ofNat (total (Made.done Made.placements) log)
  commitFailures := .ofNat (log.countP (Made.commits .refused))
  regionsCommitted := .ofNat (total (Made.done (Made.more committedCount)) log)
  regionsUncommitted := .ofNat (total (Made.done (Made.less committedCount)) log)

/-- A size that a commit made larger is not smaller after it, and the other way round. -/
theorem Made.Moves.amounts {made : Made} {size : Mapper PageSpace → Nat} {amount : Nat}
    (moves : made.Moves size amount) :
    made.more size = (if made.call.isCommit then amount else 0) ∧
      made.less size = if made.call.isCommit then 0 else amount := by
  unfold Made.Moves at moves
  unfold Made.more Made.less
  split
  · next hcommit =>
    rw [if_pos hcommit] at moves
    omega
  · next hcommit =>
    rw [if_neg hcommit] at moves
    omega

theorem Made.Posting.pretouch_eq {made : Made} (posting : made.Posting) :
    made.after.alwaysPretouch = made.mapper.alwaysPretouch := by
  cases posting with
  | committed _ _ _ _ _ _ _ does => exact does.pretouch_eq
  | uncommitted _ _ _ _ _ does => exact does.pretouch_eq
  | stopped _ _ _ _ _ does => exact does.pretouch_eq

/-- A call is added to the counters as it is to their totals. -/
theorem Made.Posting.activity_eq {made : Made} (posting : made.Posting)
    (h : made.mapper.activity = tally log) : made.after.activity = tally (log ++ [made]) := by
  cases posting with
  | committed start count pretoucher pages zeroFilled call_eq outcome_eq does activity_eq =>
    obtain ⟨hmore, hless⟩ := does.pages.amounts
    obtain ⟨hmore', hless'⟩ := does.regions.amounts
    simp only [call_eq, Call.isCommit, if_true] at hmore hless hmore' hless'
    rw [activity_eq, h]
    simp [tally, Activity.place, Activity.commit, Activity.pretouch, total_concat, Made.done,
      outcome_eq, Made.commits, Made.uncommits, call_eq, Call.isCommit, hmore, hless, hmore', hless',
      Made.touched, Call.pretoucher, UInt64.ofNat_add]
  | uncommitted start count pages call_eq outcome_eq does activity_eq placements_eq =>
    obtain ⟨hmore, hless⟩ := does.pages.amounts
    obtain ⟨hmore', hless'⟩ := does.regions.amounts
    simp only [call_eq, Call.isCommit] at hmore hless hmore' hless'
    rw [activity_eq, h]
    simp [tally, Activity.uncommit, total_concat, Made.done, outcome_eq, Made.commits,
      Made.uncommits, call_eq, Call.isCommit, hmore, hless, hmore', hless', Made.touched,
      touched_zero, UInt64.ofNat_add, placements_eq]
  | stopped part pages stop result_eq part_le does activity_eq =>
    have houtcome := Made.outcome_ne_done result_eq
    have hcommits : made.commits .done = false := by
      rw [Made.commits, decide_eq_false houtcome, Bool.and_false]
    have huncommits : made.uncommits .done = false := by
      rw [Made.uncommits, decide_eq_false houtcome, Bool.and_false]
    have hrefused : made.commits .refused =
        decide (made.call.isCommit = true ∧ made.outcome = .refused) := by
      rw [Made.commits, Bool.decide_and, Bool.decide_eq_true]
    rw [activity_eq, h]
    split
    all_goals
      next hcase =>
      simp [tally, Activity.commitFailure, total_concat, Made.done, houtcome, hcommits, huncommits,
        hrefused, hcase, UInt64.ofNat_add]

/-! ## What a log comes to -/

theorem total_done_add_stray (amount : Made → Nat) (log : List Made) :
    total (Made.done amount) log + total (Made.stray amount) log = total amount log := by
  induction log with
  | nil => rfl
  | cons made rest ih =>
    have hmade : Made.done amount made + Made.stray amount made = amount made := by
      unfold Made.done Made.stray
      split <;> omega
    simp only [total, List.foldr_cons] at ih ⊢
    omega

namespace Logged

theorem inUse (logged : Logged first log mapper) (inUse : first.InUse) : mapper.InUse :=
  inUse.reachable logged.reachable

/-- The counters are those that the log comes to. -/
theorem activity_eq (logged : Logged first log mapper) (inUse : first.InUse)
    (h : first.activity = .none) : mapper.activity = tally log := by
  induction logged with
  | start => exact h
  | call earlier call inWords ih =>
    exact (Made.posting (earlier.inUse inUse) call inWords).activity_eq ih
  | idle _ idles ih => rw [idles.unchanged.1, ih]

/-- Every call of a log was made of a mapper that is reached from the first one. -/
theorem reachable_of_mem (logged : Logged first log mapper) : ∀ made ∈ log,
    Reachable PageSpace.Meanwhile first made.mapper ∧ made.call.InWords := by
  induction logged with
  | start => exact fun _ h => absurd h List.not_mem_nil
  | call earlier call inWords ih =>
    intro made hmade
    rcases List.mem_append.mp hmade with hold | hnew
    · exact ih made hold
    · rw [List.mem_singleton.mp hnew]
      exact ⟨earlier.reachable, inWords⟩
  | idle _ _ ih => exact ih

theorem posting (logged : Logged first log mapper) (inUse : first.InUse) :
    ∀ made ∈ log, made.Posting := by
  intro made hmade
  obtain ⟨hreachable, inWords⟩ := logged.reachable_of_mem made hmade
  exact Made.posting (inUse.reachable hreachable) made.call inWords

/-- All that was gained is still there, or it was lost again. -/
theorem total_more {size : Mapper PageSpace → Nat}
    (hidle : ∀ {mapper after : Mapper PageSpace}, mapper.Idles after → size after = size mapper)
    (logged : Logged first log mapper) : total (Made.more size) log + size first =
      total (Made.less size) log + size mapper := by
  induction logged with
  | start => rfl
  | @call log mapper earlier call inWords ih =>
    rw [total_concat, total_concat]
    show _ + (size (Made.mk mapper call).after - size mapper) + _ =
      _ + (size mapper - size (Made.mk mapper call).after) + _
    omega
  | idle _ idles ih => rw [ih, hidle idles]

/-- Whether pages are pretouched was decided when the mapper was set up. -/
theorem pretouch_eq (logged : Logged first log mapper) (inUse : first.InUse) :
    mapper.alwaysPretouch = first.alwaysPretouch ∧
      ∀ made ∈ log, made.mapper.alwaysPretouch = first.alwaysPretouch := by
  induction logged with
  | start => exact ⟨rfl, fun _ h => absurd h List.not_mem_nil⟩
  | call earlier call inWords ih =>
    refine ⟨?_, ?_⟩
    · rw [(Made.posting (earlier.inUse inUse) call inWords).pretouch_eq, ih.1]
    · intro made hmade
      rcases List.mem_append.mp hmade with hold | hnew
      · exact ih.2 made hold
      · rw [List.mem_singleton.mp hnew]
        exact ih.1
  | idle _ idles ih => exact ⟨idles.unchanged.2.2.2.trans ih.1, ih.2⟩

end Logged

/-! ## Calls that stopped -/

/-- What the counters of a mapper tell, next to what calls that stopped left behind: with that they
balance. -/
structure Reconciled (log : List Made) (mapper : Mapper PageSpace) : Prop where
  regions : mapper.activity.regionsCommitted +
      .ofNat (total (Made.stray (Made.more committedCount)) log) =
    mapper.activity.regionsUncommitted +
      .ofNat (total (Made.stray (Made.less committedCount)) log) + .ofNat mapper.committedCount
  pages : mapper.activity.pagesCommitted +
      .ofNat (total (Made.stray (Made.more committedPages)) log) =
    mapper.activity.pagesUncommitted +
      .ofNat (total (Made.stray (Made.less committedPages)) log) + .ofNat mapper.committedPages
  placements : mapper.activity.placements + .ofNat (total (Made.stray Made.placements) log) =
    .ofNat (total Made.placements log)
  /-- A commit that stopped left behind regions from the start of its range and their pages, which
  were placed; an uncommit that stopped took such regions away. -/
  strays : ∀ made ∈ log, made.outcome ≠ .done → ∃ part pages, part ≤ made.call.count ∧
    made.Does part pages ∧ made.placements =
      if made.call.isCommit ∧ made.mapper.memoryKind.isPlaced then pages else 0

/-- The counters and the strays together come to what is there. -/
theorem Logged.reconcile {size : Mapper PageSpace → Nat} (logged : Logged first log mapper)
    (hidle : ∀ {mapper after : Mapper PageSpace}, mapper.Idles after → size after = size mapper)
    (hzero : size first = 0) :
    UInt64.ofNat (total (Made.done (Made.more size)) log) +
        .ofNat (total (Made.stray (Made.more size)) log) =
      .ofNat (total (Made.done (Made.less size)) log) +
        .ofNat (total (Made.stray (Made.less size)) log) + .ofNat (size mapper) := by
  have htotal := logged.total_more hidle
  rw [hzero, Nat.add_zero] at htotal
  rw [← UInt64.ofNat_add, ← UInt64.ofNat_add, ← UInt64.ofNat_add, total_done_add_stray,
    total_done_add_stray, htotal]

theorem Idles.committedCount_eq {mapper after : Mapper PageSpace} (idles : mapper.Idles after) :
    after.committedCount = mapper.committedCount := congrArg Bitmap.count idles.unchanged.2.1

theorem Idles.committedPages_eq {mapper after : Mapper PageSpace} (idles : mapper.Idles after) :
    after.committedPages = mapper.committedPages := idles.unchanged.2.2.1

/-- A mapper of which nothing was asked yet. -/
structure Unused (first : Mapper PageSpace) : Prop where
  inUse : first.InUse
  activity_eq : first.activity = .none
  shows : first.Shows ∅
  committedPages_eq : first.committedPages = 0

theorem unused_of_reserveWith {settings : Settings} {usedSize : Nat} {memoryKind : MemoryKind}
    {pinned : Bool} {kind : StrategyKind} {machine : Machine}
    (h : (reserveWith settings usedSize memoryKind pinned kind machine).result = .ok first) :
    first.Unused := by
  obtain ⟨fresh, created⟩ := of_reserveWith_ok h
  have inUse := inUse_of_reserveWith h
  refine ⟨inUse, created.activity_eq, ?_, ?_⟩
  · apply shows_of_bit inUse.sound
    intro region
    rw [created.committed_eq, Bitmap.bit_empty]
    rfl
  · have hnone : ∀ page, page ∈ (∅ : Finset Nat) ↔ first.store.committed.bit page = true := by
      intro page
      rw [fresh.clear]
      exact ⟨fun h => absurd h (Finset.notMem_empty page), nofun⟩
    exact Bitmap.count_eq_card fresh.sound.tidy hnone

theorem Unused.reconciled (unused : first.Unused) (logged : Logged first log mapper) :
    Reconciled log mapper := by
  have hactivity := logged.activity_eq unused.inUse unused.activity_eq
  constructor
  · rw [hactivity]
    exact logged.reconcile Idles.committedCount_eq unused.shows.committedCount_eq
  · rw [hactivity]
    exact logged.reconcile Idles.committedPages_eq unused.committedPages_eq
  · rw [hactivity, tally, ← UInt64.ofNat_add, total_done_add_stray]
  · intro made hmade hstopped
    cases logged.posting unused.inUse made hmade with
    | committed _ _ _ _ _ _ outcome_eq => exact absurd outcome_eq hstopped
    | uncommitted _ _ _ _ outcome_eq => exact absurd outcome_eq hstopped
    | stopped part pages _ _ part_le does _ placements_eq =>
      exact ⟨part, pages, part_le, does, placements_eq⟩

/-! ## Logs without strays -/

theorem Made.Void.amounts {made : Made} (hvoid : made.Void) {size : Mapper PageSpace → Nat}
    (hsize : ∀ (mapper : Mapper PageSpace) (activity : Activity),
      size (mapper.withActivity activity) = size mapper) :
    made.more size = 0 ∧ made.less size = 0 := by
  obtain ⟨⟨activity, hafter⟩, -⟩ := hvoid
  rw [Made.more, Made.less, hafter, hsize]
  exact ⟨Nat.sub_self _, Nat.sub_self _⟩

theorem Shows.congr {set : Finset Nat} (shows : mapper.Shows set)
    (h : after.committed = mapper.committed) : after.Shows set where
  isCommitted_eq region := by
    rw [isCommitted, regionCount, h]
    exact shows.isCommitted_eq region
  committedCount_eq := by
    rw [committedCount, h]
    exact shows.committedCount_eq
  mem_committedRegions region := by
    rw [committedRegions, h]
    exact shows.mem_committedRegions region
  ascending := by
    rw [committedRegions, h]
    exact shows.ascending

/-- The pages of the event of a call are those that it made a difference to. -/
theorem Made.Posting.pages_eq {made : Made} (posting : made.Posting) :
    total Event.pagesMore made.entries = made.done (Made.more committedPages) ∧
      total Event.pagesLess made.entries = made.done (Made.less committedPages) := by
  cases posting with
  | committed start count pretoucher pages zeroFilled call_eq outcome_eq does _ pages_eq entries_eq =>
    obtain ⟨hmore, hless⟩ := does.pages.amounts
    simp only [call_eq, Call.isCommit, if_true] at hmore hless
    rw [Made.done, Made.done, if_pos outcome_eq, if_pos outcome_eq, hmore, hless, entries_eq]
    split
    · next hnone => exact ⟨(pages_eq hnone).symm, rfl⟩
    · exact ⟨rfl, rfl⟩
  | uncommitted start count pages call_eq outcome_eq does _ _ entries_eq =>
    obtain ⟨hmore, hless⟩ := does.pages.amounts
    simp only [call_eq, Call.isCommit, Bool.false_eq_true, if_false] at hmore hless
    rw [Made.done, Made.done, if_pos outcome_eq, if_pos outcome_eq, hmore, hless, entries_eq]
    exact ⟨rfl, rfl⟩
  | stopped part pages stop result_eq _ _ _ _ entries_eq =>
    have houtcome := Made.outcome_ne_done result_eq
    rw [Made.done, Made.done, if_neg houtcome, if_neg houtcome, entries_eq]
    exact ⟨rfl, rfl⟩

/-- At any time there is a log, and with what is left behind by calls that stopped the counters
balance, wherever the machine refuses and however the calls end. -/
theorem reconciled_throughout {settings : Settings} {usedSize : Nat} {memoryKind : MemoryKind}
    {pinned : Bool} {machine : Machine}
    (hfirst : (reserveWith settings usedSize memoryKind pinned .small machine).result = .ok first)
    (h : Reachable PageSpace.Meanwhile first mapper) :
    (∃ log, Logged first log mapper) ∧ ∀ log, Logged first log mapper → Reconciled log mapper :=
  ⟨Logged.exists_of_reachable h, fun _ => (unused_of_reserveWith hfirst).reconciled⟩

/-- A commit of four regions that is refused its second page. -/
theorem reconciled_of_four_regions :
    ∃ first, (reserveWith .fourRegions 8192 .heap false .small .willing).result = .ok first ∧
      (∃ log, Logged first log (Made.mk (first.refusing fun request => request.address == 69632)
        (.commit 0 4 none)).after) ∧
      ∀ log, Logged first log (Made.mk (first.refusing fun request => request.address == 69632)
        (.commit 0 4 none)).after → Reconciled log (Made.mk
          (first.refusing fun request => request.address == 69632) (.commit 0 4 none)).after := by
  refine ⟨_, rfl, @reconciled_throughout _ _ .fourRegions 8192 .heap false .willing rfl ?_⟩
  exact .tail (.single (.store _ (.refusing fun request => request.address == 69632)))
    (.call (.commit 0 4 none) (by decide))

/-- That commit leaves two regions on one page, which was placed, and only its refusal is counted. -/
theorem balance_lost_of_refused_commit :
    ∃ first, (reserveWith .fourRegions 8192 .heap false .small .willing).result = .ok first ∧
      ∃ made : Made, made = ⟨first.refusing fun request => request.address == 69632,
          .commit 0 4 none⟩ ∧
        Reachable PageSpace.Meanwhile first made.after ∧ made.outcome = .refused ∧
        made.after.committedCount = 2 ∧ made.after.committedPages = 1 ∧ made.placements = 1 ∧
        made.after.activity = { Activity.none with commitFailures := 1 } ∧
        made.after.activity.regionsCommitted - made.after.activity.regionsUncommitted ≠
          .ofNat made.after.committedCount ∧
        made.after.activity.pagesCommitted - made.after.activity.pagesUncommitted ≠
          .ofNat made.after.committedPages ∧
        made.after.activity.placements ≠ .ofNat made.placements := by
  refine ⟨_, rfl, _, rfl, ?_, by decide +kernel, by decide +kernel, by decide +kernel,
    by decide +kernel, by decide +kernel, by decide +kernel, by decide +kernel, by decide +kernel⟩
  exact .tail (.single (.store _ (.refusing fun request => request.address == 69632)))
    (.call (.commit 0 4 none) (by decide))

end Mapper

end RegionBacking
