import RegionBacking.Proofs.Mapper.Resuming

/-!
# Commits that are taken back

A commit of regions can be taken back by uncommits of parts of its range, in any order. A page that
the parts share is given up by whichever of them comes last, so what a part gives up depends on the
order; but what the uncommits leave behind is told from the regions that they cleared (`Clears`). The
way back of the pages is the way there, so in the end all regions, references, pages and bytes are as
they were, and as many pages were given up as were committed (`taken_back_throughout`).
-/

namespace RegionBacking

open Finset (Ico)

/-! ## Pages there and back -/

/-- Pages that are committed and uncommitted again leave all bytes as they were: they were out of
reach, and they are so again. In a pinned space no byte changes. -/
theorem PageSpace.OneWay.read_back {space middle after : PageSpace}
    (there : OneWay true space middle) (back : OneWay false middle after) (sound : space.Sound)
    (guarded : space.Guarded) (hcommitted : after.committed = space.committed) (address : Nat) :
    after.read address = space.read address := by
  have hturned : middle.Turned after address ↔ space.Turned middle address := by
    rw [Turned, there.base_eq, there.pageSize_eq, there.usedSize_eq, hcommitted, Turned]
    exact and_congr_right fun _ => and_congr_right fun _ => ne_comm
  rw [back.read_eq, there.pinned_eq, if_congr (and_congr_right fun _ => hturned) rfl rfl]
  split
  · next hturn =>
    obtain ⟨hpinned, hbase, hused, hbits⟩ := hturn
    obtain ⟨offset, rfl⟩ := Nat.exists_eq_add_of_le hbase
    rw [Nat.add_sub_cancel_left] at hused hbits
    -- A page that turned was not committed, since otherwise it would have stayed so.
    have hclear : space.committed.bit (offset / space.pageSize) = false := by
      rw [← Bool.not_eq_true]
      exact fun hset => hbits ((there.bit_eq _ hset).trans hset.symm)
    have hwhole : Machine.wholePages space.usedSize ≤
        Machine.wholePages space.reservation.size :=
      Nat.mul_le_mul_right _ (Nat.div_le_div_right (Nat.sub_le_sub_right
        (Nat.add_le_add_right sound.usedSize_le _) 1))
    have hclosed : ¬ space.Accessible (space.base + offset) := by
      rw [guarded offset (Nat.lt_of_lt_of_le hused hwhole), hpinned, hclear]
      simp
    exact (Option.not_isSome_iff_eq_none.mp hclosed).symm
  · next hstay => rw [there.read_eq, if_neg hstay]

namespace Mapper

variable {first mapper after last : Mapper PageSpace} {set cleared : Finset Nat}
  {start count pages : Nat} {parts : List (Nat × Nat)} {log : List Made}

/-- What becomes of a mapper leads its store to what can become of that. -/
theorem Reachable.store_reachable (h : Reachable PageSpace.Meanwhile mapper after)
    (inUse : mapper.InUse) : mapper.store.Reachable after.store := by
  induction h with
  | refl => exact .refl
  | tail earlier follows ih =>
    have inUse := inUse.reachable earlier
    cases follows with
    | call call inWords =>
      obtain ⟨answers, orderly⟩ := call_orderly inUse.sound inUse.spacious call inWords
      exact ih.trans orderly.stores.reachable
    | listener | nodes => exact ih
    | store store meanwhile => exact ih.tail (.meanwhile meanwhile)

/-! ## Clearing regions -/

/-- The regions of a set of a mapper became uncommitted, and pages with them only so. -/
structure Clears (set : Finset Nat) (mapper after : Mapper PageSpace) : Prop
    extends Continues mapper after where
  bit_eq : ∀ region, after.committed.bit region =
    if region ∈ set then false else mapper.committed.bit region
  oneWay : PageSpace.OneWay false mapper.store after.store

namespace Clears

theorem refl (sound : mapper.Sound) : Clears ∅ mapper mapper where
  toContinues := .refl sound
  bit_eq region := (if_neg (Finset.notMem_empty region)).symm
  oneWay := .refl false mapper.store

theorem trans (earlier : Clears set mapper after) (later : Clears cleared after last) :
    Clears (set ∪ cleared) mapper last where
  toContinues := earlier.toContinues.trans later.toContinues
  bit_eq region := by
    rw [later.bit_eq, earlier.bit_eq]
    by_cases hset : region ∈ set <;> simp [hset]
  oneWay := earlier.oneWay.trans later.oneWay

theorem of_turns (turns : Turns false start (start + count) mapper after) :
    Clears (Ico start (start + count)) mapper after where
  toContinues := turns.toContinues
  bit_eq region := by simp only [turns.bit_eq, Finset.mem_Ico]
  oneWay := turns.oneWay

end Clears

/-! ## One uncommit -/

/-- An uncommit has no pretoucher. -/
theorem Call.InWords.uncommit (start count : Nat) : (Call.uncommit start count).InWords := by
  intro worker hworker
  cases hworker

/-- Calls have given up pages, and they have counted and reported them. -/
structure Releases (mapper : Mapper PageSpace) (log : List Made) (after : Mapper PageSpace)
    (pages : Nat) : Prop where
  pages_eq : mapper.committedPages = after.committedPages + pages
  lost_eq : total (Made.less committedPages) log = pages
  reported_eq : total Event.pagesLess (log.flatMap Made.entries) = pages
  counted_eq : after.activity.pagesUncommitted =
    mapper.activity.pagesUncommitted + .ofNat pages

theorem Releases.nil (mapper : Mapper PageSpace) : Releases mapper [] mapper 0 :=
  ⟨rfl, rfl, rfl, (UInt64.add_zero _).symm⟩

theorem Releases.cons {made : Made} {more : Nat} (first : Releases mapper [made] after pages)
    (later : Releases after log last more) : Releases mapper (made :: log) last (pages + more) where
  pages_eq := by rw [first.pages_eq, later.pages_eq, Nat.add_right_comm, Nat.add_assoc]
  lost_eq := by
    rw [← first.lost_eq, ← later.lost_eq, ← total_append]
    rfl
  reported_eq := by
    rw [← first.reported_eq, ← later.reported_eq, ← total_append, List.flatMap_singleton,
      List.flatMap_cons]
  counted_eq := by
    rw [later.counted_eq, first.counted_eq, UInt64.ofNat_add, UInt64.add_assoc]

/-- An uncommit of committed regions comes to its end unless it is refused. -/
theorem uncommit_done (inUse : mapper.InUse) (ready : mapper.Ready true start count)
    (hgranted : (Made.mk mapper (.uncommit start count)).outcome ≠ .refused) :
    (Made.mk mapper (.uncommit start count)).outcome = .done := by
  rcases uncommitRegions_run inUse.sound ready with
    ⟨_, _, _, hrun, -⟩ | ⟨stop, _, _, _, _, hrun, -, -, -, -, hrejects⟩
  · have hresult : ((Call.uncommit start count).run mapper).result = .ok () :=
      congrArg Run.result hrun
    exact congrArg Outcome.of hresult
  · obtain ⟨refusal, rfl⟩ := hrejects.exists_refusal trivial
    have hresult : ((Call.uncommit start count).run mapper).result = .error (.error refusal) :=
      congrArg Run.result hrun
    exact absurd (congrArg Outcome.of hresult) hgranted

theorem Made.releases {made : Made} (inUse : made.mapper.InUse) (inWords : made.call.InWords)
    (hdone : made.outcome = .done) (hcall : made.call = .uncommit start count) :
    ∃ pages, Releases made.mapper [made] made.after pages := by
  have posting : made.Posting := Made.posting inUse made.call inWords
  obtain ⟨-, hreported⟩ := posting.pages_eq
  obtain ⟨pages, does, activity_eq, -⟩ :=
    Made.of_uncommit_ok inUse inWords (Outcome.of_eq_done_iff.mp hdone) hcall
  obtain ⟨-, hless⟩ := does.pages.amounts
  have hpages := does.pages
  rw [Made.Moves, hcall, Call.isCommit, if_neg Bool.false_ne_true] at hpages
  rw [hcall, Call.isCommit, if_neg Bool.false_ne_true] at hless
  rw [Made.done, if_pos hdone, hless] at hreported
  refine ⟨pages, hpages, ?_, ?_, ?_⟩
  · show made.less committedPages + 0 = pages
    rw [hless, Nat.add_zero]
  · rw [List.flatMap_singleton, hreported]
  · rw [activity_eq]
    rfl

theorem clears_of_uncommit (inUse : mapper.InUse)
    (hdone : (Made.mk mapper (.uncommit start count)).outcome = .done) :
    Clears (Ico start (start + count)) mapper (Made.mk mapper (.uncommit start count)).after := by
  exact .of_turns (turns_of_ok inUse (.uncommit start count)
    (Outcome.of_eq_done_iff.mp hdone))

/-! ## Uncommits of parts -/

/-- An uncommit for each of some ranges. -/
def uncommits (parts : List (Nat × Nat)) : List Call :=
  parts.map fun part => .uncommit part.1 part.2

/-- The regions of some ranges. -/
def regionsOf (parts : List (Nat × Nat)) : Finset Nat :=
  parts.foldr (fun part set => Ico part.1 (part.1 + part.2) ∪ set) ∅

/-- Uncommits of ranges that have no region in common come to their end unless they are refused, and
clear their regions. -/
theorem serve_uncommits (inUse : mapper.InUse)
    (ready : ∀ part ∈ parts, mapper.Ready true part.1 part.2)
    (disjoint : parts.Pairwise fun a b => Disjoint (Ico a.1 (a.1 + a.2)) (Ico b.1 (b.1 + b.2)))
    (hgranted : ∀ made ∈ mapper.serve (uncommits parts), made.outcome ≠ .refused) :
    (∀ made ∈ mapper.serve (uncommits parts), made.outcome = .done) ∧
      Clears (regionsOf parts) mapper (mapper.afterAll (uncommits parts)) ∧
      ∃ pages, Releases mapper (mapper.serve (uncommits parts))
        (mapper.afterAll (uncommits parts)) pages := by
  induction parts generalizing mapper with
  | nil => exact ⟨fun _ h => absurd h List.not_mem_nil, .refl inUse.sound, 0, .nil mapper⟩
  | cons part rest ih =>
    obtain ⟨hpart, hrest⟩ := List.pairwise_cons.mp disjoint
    have hdone := uncommit_done inUse (ready part List.mem_cons_self)
      (hgranted _ List.mem_cons_self)
    have clears := clears_of_uncommit inUse hdone
    have hready : ∀ other ∈ rest,
        (Made.mk mapper (.uncommit part.1 part.2)).after.Ready true other.1 other.2 := by
      intro other hother
      obtain ⟨hsize, hbits⟩ := ready other (List.mem_cons_of_mem _ hother)
      refine ⟨clears.size_eq ▸ hsize, fun region hge hlt => ?_⟩
      -- No region of another part was cleared.
      rw [clears.bit_eq, if_neg (Finset.disjoint_right.mp (hpart other hother)
        (Finset.mem_Ico.mpr ⟨hge, hlt⟩))]
      exact hbits region hge hlt
    obtain ⟨hall, clears', pages', releases'⟩ := ih
      (inUse.follows (.call (.uncommit part.1 part.2) (.uncommit _ _))) hready hrest
      fun made hmade => hgranted made (List.mem_cons_of_mem _ hmade)
    have inUse' : (Made.mk mapper (.uncommit part.1 part.2)).mapper.InUse := inUse
    obtain ⟨pages, releases⟩ := Made.releases inUse' (.uncommit _ _) hdone rfl
    refine ⟨fun made hmade => ?_, clears.trans clears', _, releases.cons releases'⟩
    rcases List.mem_cons.mp hmade with rfl | hlater
    · exact hdone
    · exact hall made hlater

theorem mem_regionsOf {region : Nat} : region ∈ regionsOf parts ↔
    ∃ part ∈ parts, region ∈ Ico part.1 (part.1 + part.2) := by
  induction parts with
  | nil => simp [regionsOf]
  | cons part rest ih =>
    rw [regionsOf, List.foldr_cons, Finset.mem_union, List.exists_mem_cons_iff, ← ih]
    rfl

/-! ## There and back -/

/-- Ranges that share out the regions `[start, start + count)`, in any order. -/
structure Partitions (start count : Nat) (parts : List (Nat × Nat)) : Prop where
  inside : ∀ part ∈ parts, start ≤ part.1 ∧ part.1 + part.2 ≤ start + count
  disjoint : parts.Pairwise fun a b => Disjoint (Ico a.1 (a.1 + a.2)) (Ico b.1 (b.1 + b.2))
  covers : ∀ region ∈ Ico start (start + count),
    ∃ part ∈ parts, region ∈ Ico part.1 (part.1 + part.2)

theorem Partitions.regionsOf_eq (partitions : Partitions start count parts) :
    regionsOf parts = Ico start (start + count) := by
  ext region
  rw [mem_regionsOf]
  constructor
  · rintro ⟨part, hpart, hregion⟩
    have hinside := partitions.inside part hpart
    rw [Finset.mem_Ico] at hregion ⊢
    omega
  · exact partitions.covers region

/-- Regions that were committed together are ready to be uncommitted in parts. -/
theorem Partitions.ready (partitions : Partitions start count parts)
    (turns : Turns true start (start + count) mapper after)
    (ready : mapper.Ready false start count) : ∀ part ∈ parts, after.Ready true part.1 part.2 := by
  intro part hpart
  have hinside := partitions.inside part hpart
  refine ⟨?_, fun region hge hlt => ?_⟩
  · rw [turns.size_eq]
    exact Nat.le_trans hinside.2 ready.le_size
  · rw [turns.bit_eq, if_pos (by omega)]

/-- All regions, references and pages of a mapper are as they were, and so are all bytes. So the same
bytes can be accessed. -/
structure Restores (mapper last : Mapper PageSpace) : Prop where
  committed_eq : last.committed = mapper.committed
  references_eq : ∀ page, last.references? page = mapper.references? page
  pages_eq : last.store.committed = mapper.store.committed
  committedBytes_eq : last.store.committedBytes = mapper.store.committedBytes
  read_eq : ∀ address, last.store.read address = mapper.store.read address

/-- Who clears the regions that a commit set restores what was there in front of it. -/
theorem Clears.restores (clears : Clears (Ico start (start + count)) after last)
    (turns : Turns true start (start + count) mapper after) (sound : mapper.Sound)
    (guarded : mapper.store.Guarded) (ready : mapper.Ready false start count) :
    Restores mapper last := by
  have continues := turns.toContinues.trans clears.toContinues
  have layout := turns.oneWay.toSameLayout.trans clears.oneWay.toSameLayout
  have hcommitted : last.committed = mapper.committed := by
    apply Bitmap.ext_bit continues.size_eq
    intro region
    rw [clears.bit_eq, turns.bit_eq]
    simp only [Finset.mem_Ico]
    split
    · next hin => exact (ready.bit_eq region hin.1 hin.2).symm
    · rfl
  have hpages : mapper.store.committed = last.store.committed :=
    pages_eq_of_committed sound continues.sound continues.shape_eq.symm layout hcommitted.symm
  refine ⟨hcommitted, ?_, hpages.symm, ?_, ?_⟩
  · exact references_eq_of_committed continues.sound sound continues.shape_eq
      continues.succeeds.geometry.pages_eq hcommitted
  · exact (layout.committedBytes_eq sound.store_sound continues.sound.store_sound hpages).symm
  · exact turns.oneWay.read_back clears.oneWay sound.store_sound guarded hpages.symm

/-- Calls came to their end and took back what a commit did. They gave up as many pages as it took,
and so they have counted and reported it. -/
structure TakesBack (commit : Made) (undo : List Made) (last : Mapper PageSpace) : Prop
    extends Restores commit.mapper last where
  done : ∀ made ∈ undo, made.outcome = .done
  released_eq : total (Made.less committedPages) undo = commit.more committedPages
  reported_eq : total Event.pagesLess (undo.flatMap Made.entries) =
    total Event.pagesMore commit.entries
  counted_eq : last.activity.pagesUncommitted - commit.after.activity.pagesUncommitted =
    commit.after.activity.pagesCommitted - commit.mapper.activity.pagesCommitted

theorem guarded_of_reserveWith {settings : Settings} {usedSize : Nat} {memoryKind : MemoryKind}
    {pinned : Bool} {kind : StrategyKind} {machine : Machine}
    (h : (reserveWith settings usedSize memoryKind pinned kind machine).result = .ok first) :
    first.store.Guarded := by
  unfold reserveWith at h
  obtain ⟨space, _, _, hspace, hcreate⟩ := Op.of_bind_ok h
  rw [(created hcreate).store_eq]
  exact PageSpace.guarded_of_reserve (congrArg Run.result hspace)

/-- A commit that came to its end added as many pages as it counted and reported. -/
theorem Made.acquires {made : Made} {pretoucher : Option Pretoucher} (inUse : made.mapper.InUse)
    (inWords : made.call.InWords) (hdone : made.outcome = .done)
    (hcall : made.call = .commit start count pretoucher) :
    made.after.committedPages = made.mapper.committedPages + made.more committedPages ∧
      total Event.pagesMore made.entries = made.more committedPages ∧
      made.after.activity.pagesCommitted =
        made.mapper.activity.pagesCommitted + .ofNat (made.more committedPages) := by
  have posting : made.Posting := Made.posting inUse made.call inWords
  obtain ⟨hreported, -⟩ := posting.pages_eq
  rw [Made.done, if_pos hdone] at hreported
  obtain ⟨pages, does, activity_eq⟩ :=
    Made.of_commit_ok inUse inWords (Outcome.of_eq_done_iff.mp hdone) hcall
  obtain ⟨hmore, -⟩ := does.pages.amounts
  have hpages := does.pages
  rw [Made.Moves, hcall, Call.isCommit, if_pos rfl] at hpages
  rw [hcall, Call.isCommit, if_pos rfl] at hmore
  refine ⟨hmore ▸ hpages, hreported, ?_⟩
  rw [activity_eq, hmore]
  rfl

/-- Whatever came before, a commit of regions that came to its end is taken back by uncommits of any
parts that share out its range, in any order, unless one of them is refused. -/
theorem taken_back_throughout {settings : Settings} {usedSize : Nat} {memoryKind : MemoryKind}
    {pinned : Bool} {kind : StrategyKind} {machine : Machine} {pretoucher : Option Pretoucher}
    {commit : Made}
    (hfirst : (reserveWith settings usedSize memoryKind pinned kind machine).result = .ok first)
    (h : Reachable PageSpace.Meanwhile first commit.mapper)
    (hcall : commit.call = .commit start count pretoucher) (inWords : commit.call.InWords)
    (hdone : commit.outcome = .done) (partitions : Partitions start count parts)
    (hgranted : ∀ made ∈ commit.after.serve (uncommits parts), made.outcome ≠ .refused) :
    TakesBack commit (commit.after.serve (uncommits parts))
      (commit.after.afterAll (uncommits parts)) := by
  have live := inUse_of_reserveWith hfirst
  have inUse : commit.mapper.InUse := live.reachable h
  have guarded : commit.mapper.store.Guarded := (h.store_reachable live).guarded
    live.sound.store_sound (guarded_of_reserveWith hfirst)
  have hok := Outcome.of_eq_done_iff.mp hdone
  have ready : commit.mapper.Ready false start count := by
    have hready : commit.call.ReadyOn commit.mapper := Call.readyOn_of_ok hok
    rwa [hcall] at hready
  have turns : Turns true start (start + count) commit.mapper commit.after := by
    have hturns : Turns commit.call.isCommit commit.call.start
        (commit.call.start + commit.call.count) commit.mapper commit.after :=
      turns_of_ok inUse inWords hok
    rwa [hcall] at hturns
  have inUse' : commit.after.InUse := inUse.follows (.call commit.call inWords)
  obtain ⟨hall, clears, pages, releases⟩ :=
    serve_uncommits inUse' (partitions.ready turns ready) partitions.disjoint hgranted
  rw [partitions.regionsOf_eq] at clears
  have restores := clears.restores turns inUse.sound guarded ready
  obtain ⟨hacquired, hreported, hcounted⟩ := Made.acquires inUse inWords hdone hcall
  -- There are as many pages in the end as there were, so all that were taken were given up.
  obtain rfl : commit.more committedPages = pages := by
    have hreleased := releases.pages_eq
    have hpages : (commit.after.afterAll (uncommits parts)).committedPages =
        commit.mapper.committedPages := congrArg Bitmap.count restores.pages_eq
    omega
  refine ⟨restores, hall, releases.lost_eq, ?_, ?_⟩
  · exact releases.reported_eq.trans hreported.symm
  · have hdifference : ∀ a more : UInt64, a + more - a = more := by
      intro a more
      rw [UInt64.add_comm, UInt64.add_sub_cancel]
    rw [releases.counted_eq, hcounted, hdifference, hdifference]

/-- Where two of four regions share each of two pages, three regions of which the first one shares its
page with a committed region are committed, which takes one page. The first uncommit, of the last of
them, gives up none, and the second one, of the two others, gives it up. -/
theorem taken_back_of_four_regions :
    ∃ first, (reserveWith .fourRegions 8192 .heap false .small .willing).result = .ok first ∧
      ∃ commit : Made, commit = ⟨((Call.commit 0 1 none).run first).state, .commit 1 3 none⟩ ∧
        TakesBack commit (commit.after.serve (uncommits [(3, 1), (1, 2)]))
          (commit.after.afterAll (uncommits [(3, 1), (1, 2)])) ∧
        commit.more committedPages = 1 ∧
        (commit.after.serve (uncommits [(3, 1), (1, 2)])).map (Made.less committedPages) = [0, 1] := by
  have hviews : ∀ first : Mapper PageSpace,
      (reserveWith .fourRegions 8192 .heap false .small .willing).result = .ok first →
      ∀ commit : Made, commit = ⟨((Call.commit 0 1 none).run first).state, .commit 1 3 none⟩ →
        commit.outcome = .done ∧ commit.more committedPages = 1 ∧
        (∀ made ∈ commit.after.serve (uncommits [(3, 1), (1, 2)]), made.outcome ≠ .refused) ∧
        (commit.after.serve (uncommits [(3, 1), (1, 2)])).map (Made.less committedPages) =
          [0, 1] := by
    rintro first hfirst commit rfl
    cases hfirst
    exact ⟨by decide +kernel, by decide +kernel, by decide +kernel, by decide +kernel⟩
  obtain ⟨hdone, hmore, hgranted, hless⟩ := hviews _ rfl _ rfl
  refine ⟨_, rfl, _, rfl, ?_, hmore, hless⟩
  exact @taken_back_throughout _ 1 3 [(3, 1), (1, 2)] .fourRegions 8192 .heap false .small .willing
    none _ rfl (.single (.call (.commit 0 1 none) (by decide))) rfl (by decide) hdone
    ⟨by decide, by decide, by decide⟩ hgranted

end Mapper

end RegionBacking
