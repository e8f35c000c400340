import RegionBacking.Proofs.Mapper.Completed

/-!
# Which commits read as zero

A commit of regions that share pages reports whether all that it committed reads as zero. It goes
by the answers of the store, whatever these are, and takes a page that was referred to before for
one that may hold anything. So what it reports is right just if it is said page by page: every page
of the span of the batch was fresh and was answered so (`zeroFilled_throughout`).
-/

namespace RegionBacking.Mapper

variable {σ : Type} {mapper after : Mapper σ} {references : GranuleTable}
  {regionsPerPage start count page : Nat} {pretoucher : Option Pretoucher} {trace : List Effect}

/-! ## The pages of a batch -/

/-- The pages from that of the first region of a batch to that of the last one. -/
def span (regionsPerPage start count : Nat) : List Nat :=
  List.range' (start / regionsPerPage)
    ((start + count - 1) / regionsPerPage + 1 - start / regionsPerPage)

theorem mem_span : page ∈ span regionsPerPage start count ↔
    start / regionsPerPage ≤ page ∧ page ≤ (start + count - 1) / regionsPerPage := by
  rw [span, List.mem_range'_1]
  omega

theorem mem_span_iff_region (hpos : 0 < regionsPerPage) (hcount : 0 < count) :
    page ∈ span regionsPerPage start count ↔
      ∃ region, start ≤ region ∧ region < start + count ∧ region / regionsPerPage = page := by
  rw [mem_span]
  constructor
  · intro h
    exact exists_region_between hpos ⟨start, by omega, by omega, rfl⟩
      ⟨start + count - 1, by omega, by omega, rfl⟩ h.1 (by omega)
  · rintro ⟨region, hge, hlt, rfl⟩
    exact ⟨Nat.div_le_div_right hge, Nat.div_le_div_right (by omega)⟩

/-- The pages of a batch that no committed region refers to yet. -/
def unreferenced (mapper : Mapper σ) (regionsPerPage start count : Nat) : List Nat :=
  (span regionsPerPage start count).filter fun page => mapper.references? page = some 0

theorem mem_unreferenced : page ∈ mapper.unreferenced regionsPerPage start count ↔
    page ∈ span regionsPerPage start count ∧ mapper.references? page = some 0 := by
  rw [unreferenced, List.mem_filter, decide_eq_true_eq]

variable [PageStore σ] {progress : Progress} {zeroes : Nat → Bool}

namespace Underway

/-- A page of a batch that has come to its end is fresh just if it was not referred to before. -/
theorem mem_fresh_iff
    (underway : Underway regionsPerPage start (start + count) mapper progress after trace zeroes)
    (table : SharedTable regionsPerPage references mapper) (ready : mapper.Ready false start count)
    {region : Nat} (hge : start ≤ region) (hlt : region < start + count) :
    region / regionsPerPage ∈ progress.fresh ↔
      mapper.references? (region / regionsPerPage) = some 0 := by
  obtain ⟨_, table'⟩ := underway.table
  have hafter : 0 < after.committed.residents regionsPerPage (region / regionsPerPage) := by
    rw [Bitmap.residents_pos_iff table'.tidy]
    exact ⟨region, by rw [underway.bit_eq, if_pos ⟨hge, hlt⟩], rfl⟩
  rw [table.references?_eq (Nat.lt_of_lt_of_le hlt ready.le_size), Option.some_inj,
    underway.fills.mem_iff, Bitmap.mem_occupied, Bitmap.mem_occupied, and_iff_right hafter,
    Nat.pos_iff_ne_zero, not_not]

/-- The fresh pages of a batch that has come to its end, in the order of the commits. -/
theorem fresh_reverse_eq
    (underway : Underway regionsPerPage start (start + count) mapper progress after trace zeroes)
    (table : SharedTable regionsPerPage references mapper) (ready : mapper.Ready false start count)
    (hcount : 0 < count) :
    progress.fresh.reverse = mapper.unreferenced regionsPerPage start count := by
  have hspan : (span regionsPerPage start count).Pairwise (· < ·) := List.pairwise_lt_range'
  refine (List.pairwise_reverse.mpr underway.fills.descending).eq_of_mem_iff (hspan.filter _) ?_
  intro page
  rw [List.mem_reverse, mem_unreferenced, mem_span_iff_region table.share_pos hcount]
  constructor
  · intro hpage
    obtain ⟨region, hge, hlt, rfl⟩ := underway.vouches.fresh_mem page hpage
    exact ⟨⟨region, hge, hlt, rfl⟩, (underway.mem_fresh_iff table ready hge hlt).mp hpage⟩
  · rintro ⟨⟨region, hge, hlt, rfl⟩, hvacant⟩
    exact (underway.mem_fresh_iff table ready hge hlt).mpr hvacant

/-- Whether all reads as zero, told page by page. -/
theorem zeroFilled_iff
    (underway : Underway regionsPerPage start (start + count) mapper progress after trace zeroes)
    (table : SharedTable regionsPerPage references mapper) (ready : mapper.Ready false start count)
    (hcount : 0 < count) :
    progress.zeroFilled = true ↔ ∀ page ∈ span regionsPerPage start count,
      mapper.references? page = some 0 ∧ zeroes page = true := by
  rw [underway.vouches.zeroFilled_iff]
  constructor
  · intro h page hpage
    obtain ⟨region, hge, hlt, rfl⟩ := (mem_span_iff_region table.share_pos hcount).mp hpage
    exact ⟨(underway.mem_fresh_iff table ready hge hlt).mp (h region hge hlt).1,
      (h region hge hlt).2⟩
  · intro h region hge hlt
    obtain ⟨hvacant, hzero⟩ :=
      h _ ((mem_span_iff_region table.share_pos hcount).mpr ⟨region, hge, hlt, rfl⟩)
    exact ⟨(underway.mem_fresh_iff table ready hge hlt).mpr hvacant, hzero⟩

end Underway

/-! ## Reports -/

/-- What a commit asked the store, and what it reports to the trail and to the listener. -/
structure Reports (mapper after : Mapper σ) (regionsPerPage start count : Nat)
    (answers : List Answer) (zeroFilled : Bool) (trace : List Effect) : Prop where
  transcript : Transcript mapper.store answers after.store
  calls_eq : Effect.calls trace = answers.map (·.call)
  /-- The store was asked once for each page that it has to commit. -/
  commits_eq : (answers.map (·.call)).filter (·.kind = .commit) =
    (mapper.unreferenced regionsPerPage start count).map (⟨.commit, ·, 1⟩)
  entries_eq : Effect.entries trace = [.commit mapper.memoryKind start count
    (mapper.unreferenced regionsPerPage start count).length zeroFilled]
  notifications_eq : Effect.notifications trace =
    if mapper.listener = .live then [⟨start, count, zeroFilled⟩] else []

/-- No other call is a commit, so a page is among the answers just if it was fresh, and it is there
as it was answered. -/
theorem Progress.mem_answers_iff {passes : List Answer} (without : Without .commit passes) :
    ⟨⟨.commit, page, 1⟩, true⟩ ∈ progress.answers zeroes ++ passes ↔
      page ∈ progress.fresh ∧ zeroes page = true := by
  have hnot : (⟨⟨.commit, page, 1⟩, true⟩ : Answer) ∉ passes := fun h => without _ h rfl
  rw [List.mem_append, or_iff_left hnot, Progress.answers, List.mem_map]
  constructor
  · rintro ⟨other, hother, hsame⟩
    have hpage : other = page := congrArg (·.call.start) hsame
    have hzero : zeroes other = true := congrArg (·.zeroFilled) hsame
    rw [hpage] at hother hzero
    exact ⟨List.mem_reverse.mp hother, hzero⟩
  · rintro ⟨hpage, hzero⟩
    exact ⟨page, List.mem_reverse.mpr hpage, by rw [hzero]⟩

/-- The commits among the answers are those of the fresh pages. -/
theorem Progress.commits_answers {passes : List Answer} (without : Without .commit passes) :
    ((progress.answers zeroes ++ passes).map (·.call)).filter (·.kind = .commit) =
      progress.fresh.reverse.map (⟨.commit, ·, 1⟩) := by
  have hpasses : (passes.map (·.call)).filter (·.kind = .commit) = [] := by
    rw [List.filter_eq_nil_iff]
    intro call hcall
    obtain ⟨answer, hanswer, rfl⟩ := List.mem_map.mp hcall
    rw [decide_eq_true_eq]
    exact without answer hanswer
  have hcalls : (progress.answers zeroes).map (·.call) =
      progress.fresh.reverse.map (⟨.commit, ·, 1⟩) := List.map_map
  rw [List.map_append, List.filter_append, hpasses, List.append_nil, hcalls, List.filter_eq_self]
  intro call hcall
  obtain ⟨page, -, rfl⟩ := List.mem_map.mp hcall
  rfl

/-- A commit that came to its end reports whether all of its span reads as zero. -/
theorem SharedTable.reports [QuietStore σ] (table : SharedTable regionsPerPage references mapper)
    (hcount : 0 < count)
    (h : commitRegions start count pretoucher mapper = ⟨.ok (), after, trace⟩) :
    ∃ answers zeroFilled,
      Reports mapper after regionsPerPage start count answers zeroFilled trace ∧
      (zeroFilled = true ↔ ∀ page ∈ span regionsPerPage start count,
        mapper.references? page = some 0 ∧ ⟨⟨.commit, page, 1⟩, true⟩ ∈ answers) := by
  obtain ⟨ready, backing, last, backed, reported, hback, rfl, rfl, silent, hentries⟩ :=
    of_commitRegions_ok hcount h
  have hlistener := backRegions_keeps steady_listener start count pretoucher mapper
  rw [hback] at hlistener
  rw [backRegions_small table.strategy_eq] at hback
  obtain ⟨progress, middle, earlier, later, zeroes, first, rfl, underway, hrange, passed, hzero⟩ :=
    table.of_commitShared_ok ready hback
  obtain ⟨passes, touched, serves, without, posts⟩ := passed.posts
  have hfresh := underway.fresh_reverse_eq table ready hcount
  have hserves := underway.serves.trans serves
  have hposts := underway.posts.trans posts
  have hpages : backing.pages = (mapper.unreferenced regionsPerPage start count).length := by
    rw [← hfresh, hrange, List.length_range']
  refine ⟨progress.answers zeroes ++ passes, backing.zeroFilled, ⟨hserves.transcript, ?_, ?_, ?_, ?_⟩,
    ?_⟩
  · rw [Effect.calls_append _ (reported ++ _), Effect.calls_append reported, hserves.calls_eq,
      silent.calls_eq, calls_told]
    exact List.append_nil _
  · rw [Progress.commits_answers without, hfresh]
  · rw [Effect.entries_append _ (reported ++ _), Effect.entries_append reported, hposts.entries_eq,
      hentries, (told_entries _ _ _ _).1, hposts.kind_eq, hpages]
    rfl
  · rw [Effect.notifications_append _ (reported ++ _), Effect.notifications_append reported,
      hserves.notifications_eq, silent.notifications_eq, notifications_told,
      show last.listener = mapper.listener from hlistener]
    rfl
  · rw [hzero, underway.zeroFilled_iff table ready hcount]
    refine forall₂_congr fun page hpage => and_congr_right fun hvacant => ?_
    rw [Progress.mem_answers_iff without, ← List.mem_reverse, hfresh]
    exact (and_iff_right (mem_unreferenced.mpr ⟨hpage, hvacant⟩)).symm

/-- Whatever its store answers to commits, and however it came to be as it is, a mapper of regions
that share pages reports that all reads as zero just if no page of the span of the batch was
referred to before and the store said so of each of them. -/
theorem zeroFilled_throughout [QuietStore σ] {τ : Type} {between : σ → σ → Prop} {store : σ}
    {settings : Settings} {state : τ} {first : Mapper σ}
    (hfirst : (createWith store settings .small state).result = .ok first)
    (h : Reachable between first mapper) (hcount : 0 < count)
    (hok : commitRegions start count pretoucher mapper = ⟨.ok (), after, trace⟩) :
    ∃ answers zeroFilled,
      Reports mapper after (settings.pageSize * settings.commitFactor / settings.regionSize) start
        count answers zeroFilled trace ∧
      (zeroFilled = true ↔ ∀ page,
        start / (settings.pageSize * settings.commitFactor / settings.regionSize) ≤ page →
        page ≤ (start + count - 1) /
          (settings.pageSize * settings.commitFactor / settings.regionSize) →
        mapper.references? page = some 0 ∧ ⟨⟨.commit, page, 1⟩, true⟩ ∈ answers) := by
  obtain ⟨_, table, -⟩ := (created hfirst).sharedTable
  obtain ⟨_, table⟩ := h.sharedTable table
  obtain ⟨answers, zeroFilled, reports, hzero⟩ := table.reports hcount hok
  refine ⟨answers, zeroFilled, reports, hzero.trans (forall_congr' fun page => ?_)⟩
  rw [mem_span, and_imp]

/-- A store whose first page does not read as zero has one of its regions committed. To commit both
regions of the second page is reported to read as zero, and that page was not referred to before and
answered so. -/
theorem zeroFilled_of_scripted_pages :
    ∃ first after trace answers,
      (createWith (⟨8192, 4096, 65536, true, [0], [], [], ∅⟩ : ScriptedStore) .fourRegions .small
        ()).result = .ok first ∧
      commitRegions 2 2 none ((Call.commit 0 1 none).run first).state = ⟨.ok (), after, trace⟩ ∧
      Reports ((Call.commit 0 1 none).run first).state after 2 2 2 answers true trace ∧
      ∀ page, 2 / 2 ≤ page → page ≤ (2 + 2 - 1) / 2 →
        ((Call.commit 0 1 none).run first).state.references? page = some 0 ∧
        ⟨⟨.commit, page, 1⟩, true⟩ ∈ answers := by
  obtain ⟨first, hfirst⟩ : ∃ first, (createWith (⟨8192, 4096, 65536, true, [0], [], [], ∅⟩ :
      ScriptedStore) .fourRegions .small ()).result = .ok first := ⟨_, rfl⟩
  have hreachable : Reachable Eq first ((Call.commit 0 1 none).run first).state :=
    .single (.call _ (by decide))
  have hrun : (commitRegions 2 2 none ((Call.commit 0 1 none).run first).state).result = .ok () ∧
      Effect.entries (commitRegions 2 2 none ((Call.commit 0 1 none).run first).state).trace =
        [.commit .heap 2 2 1 true] := by
    cases hfirst
    decide +kernel
  match hok : commitRegions 2 2 none ((Call.commit 0 1 none).run first).state with
  | ⟨result, after, trace⟩ =>
    rw [hok] at hrun
    obtain ⟨rfl, hentries⟩ := hrun
    obtain ⟨answers, zeroFilled, reports, hzero⟩ :=
      zeroFilled_throughout hfirst hreachable (by decide) hok
    have hreported := hentries.symm.trans reports.entries_eq
    obtain rfl : true = zeroFilled := by
      rw [List.singleton_inj, Event.commit.injEq] at hreported
      exact hreported.2.2.2.2
    exact ⟨first, after, trace, answers, hfirst, hok, reports, hzero.mp rfl⟩

end RegionBacking.Mapper
