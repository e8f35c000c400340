import RegionBacking.Proofs.Mapper.Completed

/-!
# What a commit pretouches

A mapper that pretouches has the store touch the pages that a commit needed and that were not there
yet, all by one call (`Touched`). That these pages lie together, so that one range has them all and
no other page, is clear where regions have pages of their own. Where regions share pages they are
found one by one, and all depends on what `Underway.fresh_eq` says of them. The store may be any that
shows no calls of its own and counts what it touches; over a page space the pages also are those that
are committed after the call and were not before it (`touched_throughout`).
-/

namespace RegionBacking.Mapper

variable {σ : Type} {mapper after last : Mapper σ} {references : GranuleTable}
  {regionsPerPage pagesPerRegion start count first pages : Nat}
  {pretoucher : Option Pretoucher} {answers : List Answer} {trace : List Effect}
  {backing : Backing}

/-! ## How regions lie on pages -/

/-- How the regions of a mapper over any store lie on pages. -/
inductive Divides (mapper : Mapper σ) : Prop where
  | small {regionsPerPage : Nat} {references : GranuleTable}
    (table : SharedTable regionsPerPage references mapper)
  | large {pagesPerRegion : Nat} (hstrategy : mapper.strategy = .large pagesPerRegion)
    (hpos : 0 < pagesPerRegion)

theorem steady_shape : Steady fun mapper : Mapper σ => mapper.strategy.shape where
  store_eq _ _ := rfl
  nodes_eq _ _ := rfl
  activity_eq _ _ := rfl
  bits_eq _ _ := rfl
  references_eq mapper _ := by
    show (mapper.strategy.withReferences _).shape = _
    cases mapper.strategy <;> rfl

variable [PageStore σ]

/-- Regions that have pages of their own always do, whatever the store answers. -/
theorem Reachable.shape_eq {between : σ → σ → Prop} (h : Reachable between mapper after) :
    after.strategy.shape = mapper.strategy.shape := by
  induction h with
  | refl => rfl
  | tail _ follows ih =>
    cases follows with
    | call call => exact (call.run_keeps steady_shape _).trans ih
    | listener | nodes | store => exact ih

theorem Created.divides [QuietStore σ] {store : σ} {settings : Settings} {kind : StrategyKind}
    {between : σ → σ → Prop} (created : Created store settings kind mapper)
    (h : Reachable between mapper after) : after.Divides := by
  cases kind with
  | small =>
    obtain ⟨_, table, -⟩ := created.sharedTable
    obtain ⟨_, table⟩ := h.sharedTable table
    exact .small table
  | large =>
    obtain ⟨pagesPerRegion, hlarge, hpages⟩ := created.strategy_of
    obtain ⟨-, hpos, -⟩ := Strategy.pagesPerRegion?_eq_ok hpages
    have hshape := h.shape_eq
    rw [hlarge] at hshape
    cases hstrategy : after.strategy with
    | large pages =>
      rw [hstrategy] at hshape
      cases hshape
      exact .large hstrategy hpos
    | small _ _ =>
      rw [hstrategy] at hshape
      cases hshape

/-! ## Up to the pass -/

/-- The store has granted the commits of a batch. They were for just the pages
`[first, first + pages)`, each of which only regions lie on that were not committed. -/
structure Acquires (mapper after : Mapper σ) (answers : List Answer) (first pages : Nat)
    (trace : List Effect) : Prop where
  serves : Serves mapper after answers trace
  posts : ∃ placed, Posts mapper after placed 0 trace
  commits : ∀ answer ∈ answers, answer.call.kind = .commit
  covers_iff : ∀ page, (∃ answer ∈ answers, answer.Covers page) ↔
    first ≤ page ∧ page < first + pages
  vacant : ∀ page, first ≤ page → page < first + pages →
    ∀ region, mapper.strategy.Hosts page region → mapper.isCommitted region = false

/-- The commits of fresh pages that lie together. -/
theorem Underway.acquires [QuietStore σ] {progress : Progress} {zeroes : Nat → Bool} {stop : Nat}
    (underway : Underway regionsPerPage start stop mapper progress after trace zeroes)
    (table : SharedTable regionsPerPage references mapper)
    (hfresh : progress.fresh.reverse = List.range' first pages) :
    Acquires mapper after (progress.answers zeroes) first pages trace where
  serves := underway.serves
  posts := ⟨_, underway.posts⟩
  commits answer hanswer := by
    obtain ⟨page, -, rfl⟩ := List.mem_map.mp hanswer
    rfl
  covers_iff page := by
    rw [← List.mem_range'_1, ← hfresh, Progress.answers]
    constructor
    · rintro ⟨answer, hanswer, hcovers⟩
      obtain ⟨other, hother, rfl⟩ := List.mem_map.mp hanswer
      have hsame : other = page := Nat.le_antisymm hcovers.1 (Nat.le_of_lt_succ hcovers.2)
      exact hsame ▸ hother
    · intro hpage
      exact ⟨_, List.mem_map_of_mem hpage, Nat.le_refl page, Nat.lt_succ_self page⟩
  vacant page hge hlt region hhosts := by
    have hmem : page ∈ progress.fresh := by
      rw [← List.mem_reverse, hfresh, List.mem_range'_1]
      exact ⟨hge, hlt⟩
    have hnone := ((underway.fills.mem_iff page).mp hmem).2
    rw [Bitmap.mem_occupied, Bitmap.residents_pos_iff table.tidy] at hnone
    rw [table.strategy_eq] at hhosts
    rw [isCommitted, Bool.and_eq_false_iff]
    exact .inr (Bool.eq_false_of_not_eq_true fun hset => hnone ⟨region, hset, hhosts⟩)

/-- The commit of all pages of a range of regions. -/
theorem acquires_of_commitWhole {zeroFilled : Bool}
    (hstrategy : mapper.strategy = .large pagesPerRegion) (hpos : 0 < pagesPerRegion)
    (ready : mapper.Ready false start count)
    (serves : Serves mapper after
      [⟨⟨.commit, start * pagesPerRegion, count * pagesPerRegion⟩, zeroFilled⟩] trace)
    (posts : Posts mapper after count 0 trace) :
    Acquires mapper after
      [⟨⟨.commit, start * pagesPerRegion, count * pagesPerRegion⟩, zeroFilled⟩]
      (start * pagesPerRegion) (count * pagesPerRegion) trace where
  serves := serves
  posts := ⟨_, posts⟩
  commits answer hanswer := List.mem_singleton.mp hanswer ▸ rfl
  covers_iff page := by
    simp only [List.mem_singleton, exists_eq_left]
    rfl
  vacant page hge hlt region hhosts := by
    have hregion := (page_mem_iff hpos page).mp ⟨hge, hlt⟩
    rw [hstrategy] at hhosts
    obtain rfl : page / pagesPerRegion = region := hhosts
    rw [isCommitted, Bool.and_eq_false_iff]
    exact .inr (ready.bit_eq _ hregion.1 hregion.2)

/-- A batch that came to its end, in both strategies: the store granted its commits, and the pass was
over the same pages. -/
theorem Divides.of_backRegions_ok [QuietStore σ] (divides : mapper.Divides)
    (ready : mapper.Ready false start count)
    (h : backRegions start count pretoucher mapper = ⟨.ok backing, after, trace⟩) :
    ∃ middle answers first earlier later last, trace = earlier ++ later ∧
      Acquires mapper middle answers first backing.pages earlier ∧
      Passed middle first backing.pages pretoucher last later ∧
      after.store = last.store ∧ after.activity = last.activity := by
  cases divides with
  | small table =>
    rw [backRegions_small table.strategy_eq] at h
    obtain ⟨progress, middle, earlier, later, zeroes, first, rfl, underway, hfresh, passed, -⟩ :=
      table.of_commitShared_ok ready h
    exact ⟨middle, _, first, earlier, later, after, rfl, underway.acquires table hfresh, passed, rfl,
      rfl⟩
  | large hstrategy hpos =>
    rw [backRegions_large hstrategy] at h
    obtain ⟨middle, earlier, later, last, zeroFilled, bits, rfl, serves, posts, passed, rfl, hpages,
      -⟩ := of_commitWhole_ok h
    rw [hpages]
    exact ⟨middle, _, _, earlier, later, last, rfl,
      acquires_of_commitWhole hstrategy hpos ready serves posts, passed, rfl, rfl⟩

/-! ## The pass -/

/-- What a mapper that pretouches makes of the pages that a commit needed: unless there are none, the
store is asked once for just these, and they are counted. -/
structure Passes (mapper after : Mapper σ) (worker : Pretoucher) (first pages : Nat)
    (trace : List Effect) : Prop where
  calls_eq : Effect.calls trace = if pages = 0 then [] else [⟨.pretouch, first, pages⟩]
  store_of : if pages = 0 then after.store = mapper.store else
    ∃ report shown, PageStore.pretouch first pages worker mapper.store =
      ⟨.ok report, after.store, shown⟩
  activity_eq : after.activity = mapper.activity.pretouch pages

theorem Passed.passes [QuietStore σ] [CountingStore σ] {worker : Pretoucher}
    (passed : Passed mapper first pages (some worker) after trace)
    (halways : mapper.alwaysPretouch = true) : Passes mapper after worker first pages trace := by
  cases passed with
  | idle h =>
    rcases h with hnobody | hnever | rfl
    · cases hnobody
    · rw [halways] at hnever
      cases hnever
    · exact ⟨rfl, rfl, (Activity.pretouch_zero _).symm⟩
  | @pass _ report store shown _ hpages hrun =>
    have quiet := QuietStore.pretouch_quiet first pages worker mapper.store
    rw [hrun] at quiet
    refine ⟨?_, ?_, ?_⟩
    · rw [if_neg hpages]
      show ⟨.pretouch, first, pages⟩ :: Effect.calls (shown ++ [_]) = _
      rw [Effect.calls_append, quiet.calls_eq]
      rfl
    · rw [if_neg hpages]
      exact ⟨report, shown, hrun⟩
    · rw [← CountingStore.pages_eq hrun]
      rfl

/-! ## Whole commits -/

/-- A commit that came to its end touched just the pages `[first, first + pages)` that it
committed. -/
structure Touched (mapper after : Mapper σ) (worker : Pretoucher) (answers : List Answer)
    (moment : σ) (first pages : Nat) (trace : List Effect) : Prop where
  /-- At some moment the store has granted the commits of these pages and of no others, and only then
  it is asked to touch them, by one call for all of them. -/
  transcript : Transcript mapper.store answers moment
  commits : ∀ answer ∈ answers, answer.call.kind = .commit
  covers_iff : ∀ page, (∃ answer ∈ answers, answer.Covers page) ↔
    first ≤ page ∧ page < first + pages
  calls_eq : Effect.calls trace =
    answers.map (·.call) ++ if pages = 0 then [] else [⟨.pretouch, first, pages⟩]
  store_of : if pages = 0 then after.store = moment else
    ∃ report shown, PageStore.pretouch first pages worker moment = ⟨.ok report, after.store, shown⟩
  /-- No region was committed on any of these pages. -/
  vacant : ∀ page, first ≤ page → page < first + pages →
    ∀ region, mapper.strategy.Hosts page region → mapper.isCommitted region = false
  pagesCommitted_eq : after.activity.pagesCommitted =
    mapper.activity.pagesCommitted + UInt64.ofNat pages
  pretouchedPages_eq : after.activity.pretouchedPages =
    mapper.activity.pretouchedPages + UInt64.ofNat pages

theorem Divides.touched [QuietStore σ] [CountingStore σ] {worker : Pretoucher}
    (divides : mapper.Divides) (halways : mapper.alwaysPretouch = true) (hcount : 0 < count)
    (h : commitRegions start count (some worker) mapper = ⟨.ok (), after, trace⟩) :
    ∃ answers moment first pages, Touched mapper after worker answers moment first pages trace := by
  obtain ⟨ready, backing, last, backed, reported, hback, rfl, rfl, silent, -⟩ :=
    of_commitRegions_ok hcount h
  obtain ⟨middle, answers, first, earlier, later, passedBy, rfl, acquires, passed, hstore, hactivity⟩ :=
    divides.of_backRegions_ok ready hback
  obtain ⟨placed, posts⟩ := acquires.posts
  have passes := passed.passes (posts.pretouch_eq.trans halways)
  have hlast : last.activity = (mapper.activity.pretouch 0).pretouch backing.pages := by
    rw [hactivity, passes.activity_eq, posts.activity_eq]
  refine ⟨answers, middle.store, first, backing.pages, acquires.serves.transcript, acquires.commits,
    acquires.covers_iff, ?_, ?_, acquires.vacant, ?_, ?_⟩
  · rw [Effect.calls_append _ (reported ++ _), Effect.calls_append earlier,
      Effect.calls_append reported, acquires.serves.calls_eq, passes.calls_eq, silent.calls_eq,
      calls_told]
    exact List.append_nil _
  · have hafter : (last.withActivity ((last.activity.commit count backing.pages).place
        backing.placements)).store = passedBy.store := hstore
    rw [hafter]
    exact passes.store_of
  · show ((last.activity.commit count backing.pages).place backing.placements).pagesCommitted = _
    rw [hlast]
    rfl
  · show ((last.activity.commit count backing.pages).place backing.placements).pretouchedPages = _
    rw [hlast, Activity.pretouch_zero]
    rfl

/-- The pages that a commit touched are those of the space that became committed, and all were at
the moment of the pass. -/
theorem Touched.fresh_iff {mapper after : Mapper PageSpace} {worker : Pretoucher}
    {moment : PageSpace} (touched : Touched mapper after worker answers moment first pages trace)
    (sound : mapper.store.Sound) (page : Nat) :
    (first ≤ page ∧ page < first + pages ↔
      mapper.store.isCommitted page = false ∧ after.store.isCommitted page = true) ∧
    (first ≤ page → page < first + pages → moment.isCommitted page = true) := by
  obtain ⟨sound', hcommitted⟩ := PageSpace.of_transcript touched.transcript sound touched.commits
  obtain ⟨hiff, hclear⟩ := hcommitted page
  have hsame : after.store.isCommitted page = moment.isCommitted page := by
    have hstore := touched.store_of
    split at hstore
    · rw [hstore]
    · obtain ⟨report, shown, hrun⟩ := hstore
      obtain ⟨_, machine, _, hcases, -⟩ := moment.pretouch_cases first pages worker
      have hafter := congrArg Run.state (hcases.symm.trans hrun)
      rw [← show _ = after.store from hafter]
      rfl
  rw [hsame, hiff, touched.covers_iff]
  refine ⟨⟨fun h => ⟨?_, .inr h⟩, fun h => h.2.resolve_left ?_⟩, fun hge hlt => .inr ⟨hge, hlt⟩⟩
  · obtain ⟨answer, hanswer, hcovers⟩ := (touched.covers_iff page).mpr h
    exact hclear answer hanswer hcovers
  · rw [h.1]
    exact Bool.false_ne_true

/-- A mapper that pretouches has just the pages touched that a commit of it committed, by one call or
by none, in both strategies and over any store that counts what it touches. Over a page space these
are the pages that became committed, and each of them was so when it was touched. -/
theorem touched_throughout (settings : Settings) (kind : StrategyKind) :
    (∀ (σ τ : Type) [PageStore σ] [QuietStore σ] [CountingStore σ] (between : σ → σ → Prop)
        (store : σ) (state : τ) (first mapper after : Mapper σ) (start count : Nat)
        (worker : Pretoucher) (trace : List Effect),
      (createWith store settings kind state).result = .ok first →
      Reachable between first mapper → mapper.alwaysPretouch = true → 0 < count →
      commitRegions start count (some worker) mapper = ⟨.ok (), after, trace⟩ →
      ∃ answers moment first pages,
        Touched mapper after worker answers moment first pages trace) ∧
    (∀ (usedSize : Nat) (memoryKind : MemoryKind) (pinned : Bool) (machine : Machine)
        (first mapper after : Mapper PageSpace) (start count : Nat) (worker : Pretoucher)
        (trace : List Effect),
      (reserveWith settings usedSize memoryKind pinned kind machine).result = .ok first →
      Reachable PageSpace.Meanwhile first mapper → mapper.alwaysPretouch = true → 0 < count →
      commitRegions start count (some worker) mapper = ⟨.ok (), after, trace⟩ →
      ∃ answers moment first pages,
        Touched mapper after worker answers moment first pages trace ∧
        ∀ page, (first ≤ page ∧ page < first + pages ↔
            mapper.store.isCommitted page = false ∧ after.store.isCommitted page = true) ∧
          (first ≤ page → page < first + pages → moment.isCommitted page = true)) := by
  constructor
  · intro σ τ _ _ _ between store state first mapper after start count worker trace hfirst h halways
      hcount hok
    exact ((created hfirst).divides h).touched halways hcount hok
  · intro usedSize memoryKind pinned machine first mapper after start count worker trace hfirst h
      halways hcount hok
    obtain ⟨-, created⟩ := of_reserveWith_ok hfirst
    have sound : mapper.store.Sound := ((inUse_of_reserveWith hfirst).reachable h).sound.store_sound
    obtain ⟨answers, moment, firstPage, pages, touched⟩ :=
      (created.divides h).touched halways hcount hok
    exact ⟨answers, moment, firstPage, pages, touched, touched.fresh_iff sound⟩

/-- The first of four regions is committed already when the other three are. The second one lies on
the same page, so only the page of the last two is committed and touched. -/
theorem touched_of_four_regions :
    ∃ first after trace answers moment firstPage pages,
      (reserveWith .fourRegions 8192 .heap false .small .willing).result = .ok first ∧
      commitRegions 1 3 (some ⟨2, 4096⟩) ((Call.commit 0 1 none).run first).state =
        ⟨.ok (), after, trace⟩ ∧
      Effect.calls trace = [⟨.commit, 1, 1⟩, ⟨.pretouch, 1, 1⟩] ∧
      Touched ((Call.commit 0 1 none).run first).state after ⟨2, 4096⟩ answers moment firstPage pages
        trace := by
  obtain ⟨first, hfirst⟩ : ∃ first,
    (reserveWith .fourRegions 8192 .heap false .small .willing).result = .ok first := ⟨_, rfl⟩
  have hreachable : Reachable PageSpace.Meanwhile first ((Call.commit 0 1 none).run first).state :=
    .single (.call _ (by decide))
  have hrun : ((Call.commit 0 1 none).run first).state.alwaysPretouch = true ∧
      (commitRegions 1 3 (some ⟨2, 4096⟩) ((Call.commit 0 1 none).run first).state).result =
        .ok () ∧
      Effect.calls (commitRegions 1 3 (some ⟨2, 4096⟩)
        ((Call.commit 0 1 none).run first).state).trace =
          [⟨.commit, 1, 1⟩, ⟨.pretouch, 1, 1⟩] := by
    cases hfirst
    decide +kernel
  match hok : commitRegions 1 3 (some ⟨2, 4096⟩) ((Call.commit 0 1 none).run first).state with
  | ⟨result, after, trace⟩ =>
    rw [hok] at hrun
    obtain ⟨halways, rfl, hcalls⟩ := hrun
    obtain ⟨answers, moment, firstPage, pages, touched, -⟩ :=
      (touched_throughout .fourRegions .small).2 8192 .heap false .willing first _ after 1 3 ⟨2, 4096⟩
        trace hfirst hreachable halways (by decide) hok
    exact ⟨first, after, trace, answers, moment, firstPage, pages, hfirst, hok, hcalls, touched⟩

end RegionBacking.Mapper
