import RegionBacking.Proofs.Mapper.Postings
import RegionBacking.Proofs.Mapper.SharedTable

/-!
# Commits that came to their end, over any store

What a commit of regions did, told from the fact that it came to its end. Where regions share pages,
it asked the store for the pages of its span that were not referred to, one by one in ascending
order; these lie together, since a page between two of them has regions of the batch only. Where
regions have pages of their own, it asked for all of them at once. In both cases there is at most
one pass behind that (`Passed`), and it is over just these pages.
-/

namespace RegionBacking.Mapper

variable {σ : Type} [PageStore σ] {mapper after : Mapper σ} {references : GranuleTable}
  {regionsPerPage pagesPerRegion start count : Nat} {pretoucher : Option Pretoucher}
  {trace : List Effect} {backing : Backing}

/-! ## Passes -/

/-- The pages that a pass adds to the counter. -/
theorem Passed.posts [QuietStore σ] (passed : Passed mapper start count pretoucher after trace) :
    ∃ answers touched, Serves mapper after answers trace ∧ Without .commit answers ∧
      Posts mapper after 0 touched trace := by
  cases passed with
  | idle => exact ⟨[], 0, .silently rfl .nil, .nil, .refl mapper⟩
  | @pass worker report store shown _ _ hrun =>
    have quiet := QuietStore.pretouch_quiet start count worker mapper.store
    rw [hrun] at quiet
    have transcript : Transcript mapper.store [⟨⟨.pretouch, start, count⟩, false⟩]
        (mapper.withStore store).store := .pretouch hrun (.done _)
    have hcalled : Serves mapper (mapper.withStore store) _ _ := .of_quiet transcript quiet
    have hreported : Serves (mapper.withStore store)
        ((mapper.withStore store).withActivity (mapper.activity.pretouch report.pages)) []
        [.event (.pretouch report.pages report.workers .zero)] := .silently rfl ⟨rfl, rfl⟩
    have hposts : Posts mapper (mapper.withStore store) 0 0
        (.call ⟨.pretouch, start, count⟩ :: shown) :=
      .of_callsOnly (quiet.callsOnly _) rfl rfl rfl
    exact ⟨_, _, hcalled.trans hreported, .singleton (by decide) _ _ _,
      hposts.trans (.of_pass _ report)⟩

/-! ## Regions that share pages -/

/-- The fresh pages of a batch that has come to its end lie together. -/
theorem Underway.fresh_eq {progress : Progress} {zeroes : Nat → Bool}
    (underway : Underway regionsPerPage start (start + count) mapper progress after trace zeroes)
    (table : SharedTable regionsPerPage references mapper) (ready : mapper.Ready false start count)
    {first last : Nat} (hfirst : progress.fresh.getLast? = some first)
    (hlast : progress.fresh.head? = some last) :
    progress.fresh.reverse = List.range' first (last - first + 1) := by
  obtain ⟨_, table'⟩ := underway.table
  refine underway.fills.reverse_eq (fun page => ?_) hfirst hlast
  refine underway.fills.mem_of_between underway.vouches.fresh_mem table.share_pos table.tidy
    table'.tidy ready.bit_eq ?_ (List.mem_of_getLast? hfirst) (List.mem_of_head? hlast)
  intro region hge hlt
  rw [underway.bit_eq, if_pos ⟨hge, hlt⟩]

/-- A batch of regions that share pages came to its end: the loop over its regions did, and the pass
over the pages that are fresh. -/
theorem SharedTable.of_commitShared_ok [QuietStore σ]
    (table : SharedTable regionsPerPage references mapper) (ready : mapper.Ready false start count)
    (h : commitShared regionsPerPage start count pretoucher mapper = ⟨.ok backing, after, trace⟩) :
    ∃ progress middle earlier later zeroes first, trace = earlier ++ later ∧
      Underway regionsPerPage start (start + count) mapper progress middle earlier zeroes ∧
      progress.fresh.reverse = List.range' first backing.pages ∧
      Passed middle first backing.pages pretoucher after later ∧
      backing.zeroFilled = progress.zeroFilled := by
  unfold commitShared at h
  obtain ⟨progress, middle, earlier, _, hloop, hrest, rfl⟩ := Op.of_bind_run_ok h
  obtain ⟨_, last, later, _, hpass, hend, rfl⟩ := Op.of_bind_run_ok hrest
  cases hend
  rcases table.commitLoop_cases ready with
    ⟨_, _, _, hrun, zeroes, underway⟩ | ⟨_, _, _, _, hrun, -⟩
  · cases hrun.symm.trans hloop
    unfold pretouchFresh at hpass
    cases hfirst : progress.fresh.getLast? with
    | none =>
      have hnone : progress.fresh = [] := List.getLast?_eq_none_iff.mp hfirst
      rw [hnone] at hpass
      cases hpass
      refine ⟨progress, after, earlier, [], zeroes, 0, rfl, underway, ?_, ?_, rfl⟩
      · rw [hnone]
        rfl
      · exact .idle (.inr (.inr (congrArg List.length hnone)))
    | some first =>
      cases hlast : progress.fresh.head? with
      | none =>
        rw [List.head?_eq_none_iff.mp hlast] at hfirst
        cases hfirst
      | some last =>
        rw [hfirst, hlast] at hpass
        have hpassed := of_pretouchPages_ok hpass
        have hfresh := underway.fresh_eq table ready hfirst hlast
        have hlength : progress.fresh.length = last - first + 1 := by
          rw [← List.length_reverse, hfresh, List.length_range']
        rw [← hlength] at hfresh hpassed
        refine ⟨progress, middle, earlier, later, zeroes, first, ?_, underway, hfresh, hpassed, rfl⟩
        simp only [List.append_nil]
  · cases hrun.symm.trans hloop

/-! ## Regions with pages of their own -/

theorem of_placeRegions_ok {regions : List Nat}
    (h : Op.forEach regions (placeRegion pagesPerRegion) mapper = ⟨.ok (), after, trace⟩) :
    after.store = mapper.store ∧ Silent trace ∧ Posts mapper after regions.length 0 trace := by
  induction regions generalizing mapper trace with
  | nil =>
    cases h
    exact ⟨rfl, .nil, .refl after⟩
  | cons region rest ih =>
    rw [Op.forEach_cons] at h
    obtain ⟨_, middle, _, _, hregion, hrest, rfl⟩ := Op.of_bind_run_ok h
    obtain ⟨_, mapper, _, _, hfirst, hplace, rfl⟩ := Op.of_bind_run_ok hregion
    obtain ⟨-, rfl, rfl⟩ := Op.of_checked_ok hfirst
    obtain ⟨hstore, silent, posts⟩ := of_placePages_ok hplace
    obtain ⟨hstore', silent', posts'⟩ := ih hrest
    rw [List.length_cons, Nat.add_comm, List.nil_append]
    exact ⟨hstore'.trans hstore, silent.append silent', posts.trans posts'⟩

omit [PageStore σ] in
/-- Bits that were changed are all that was. -/
theorem of_changeBits_ok {steps : Bitmap → Except Fault (List WordStep)}
    (h : changeBits steps mapper = ⟨.ok (), after, trace⟩) :
    (∃ bits, after = mapper.withBits bits) ∧ trace = [] := by
  unfold changeBits at h
  rw [Op.get_bind] at h
  obtain ⟨_, mapper, _, _, hsteps, hlast, rfl⟩ := Op.of_bind_run_ok h
  obtain ⟨-, rfl, rfl⟩ := Op.of_checked_ok hsteps
  cases hlast
  exact ⟨⟨_, rfl⟩, rfl⟩

/-- A batch of regions with pages of their own came to its end: all their pages were committed at
once, and the pass was over the same pages. -/
theorem of_commitWhole_ok [QuietStore σ]
    (h : commitWhole pagesPerRegion start count pretoucher mapper = ⟨.ok backing, after, trace⟩) :
    ∃ middle earlier later last zeroFilled bits, trace = earlier ++ later ∧
      Serves mapper middle
        [⟨⟨.commit, start * pagesPerRegion, count * pagesPerRegion⟩, zeroFilled⟩] earlier ∧
      Posts mapper middle count 0 earlier ∧
      Passed middle (start * pagesPerRegion) (count * pagesPerRegion) pretoucher last later ∧
      after = last.withBits bits ∧ backing.pages = count * pagesPerRegion ∧
      backing.zeroFilled = zeroFilled := by
  unfold commitWhole at h
  obtain ⟨startPage, mapper, _, _, hstart, hrest, rfl⟩ := Op.of_bind_run_ok h
  obtain ⟨hfirst, rfl, rfl⟩ := Op.of_checked_ok hstart
  obtain ⟨pages, mapper, _, _, hcount, hcalls, rfl⟩ := Op.of_bind_run_ok hrest
  obtain ⟨hpages, rfl, rfl⟩ := Op.of_checked_ok hcount
  obtain ⟨-, rfl⟩ := Word.mul_eq_ok_iff.mp hfirst
  obtain ⟨-, rfl⟩ := Word.mul_eq_ok_iff.mp hpages
  obtain ⟨zeroFilled, committed, called, _, hcommit, hplaces, rfl⟩ := Op.of_bind_run_ok hcalls
  obtain ⟨_, middle, placed, _, hplace, hpasses, rfl⟩ := Op.of_bind_run_ok hplaces
  obtain ⟨_, last, later, _, hpass, hchanges, rfl⟩ := Op.of_bind_run_ok hpasses
  obtain ⟨_, done, _, _, hbits, hend, rfl⟩ := Op.of_bind_run_ok hchanges
  cases hend
  obtain ⟨serves, posts⟩ := of_commitPages_ok hcommit
  obtain ⟨hstore, silent, posts'⟩ := of_placeRegions_ok hplace
  obtain ⟨⟨bits, rfl⟩, rfl⟩ := of_changeBits_ok hbits
  have hplaced : Serves committed middle [] placed := .silently hstore silent
  have hposted := posts.trans posts'
  rw [List.length_range', Nat.zero_add] at hposted
  refine ⟨middle, called ++ placed, later, last, zeroFilled, bits, ?_, serves.trans hplaced, hposted,
    of_pretouchPages_ok hpass, rfl, rfl, rfl⟩
  simp only [List.nil_append, List.append_nil, List.append_assoc]

/-! ## Whole commits -/

/-- A commit that came to its end was in order, backed its regions, counted them and told so. -/
theorem of_commitRegions_ok (hcount : 0 < count)
    (h : commitRegions start count pretoucher mapper = ⟨.ok (), after, trace⟩) :
    mapper.Ready false start count ∧ ∃ backing middle earlier reported,
      backRegions start count pretoucher mapper = ⟨.ok backing, middle, earlier⟩ ∧
      after = middle.withActivity
        ((middle.activity.commit count backing.pages).place backing.placements) ∧
      trace = earlier ++ (reported ++ middle.told start count backing.zeroFilled) ∧
      Silent reported ∧ Effect.entries reported =
        [.commit middle.memoryKind start count backing.pages backing.zeroFilled] := by
  by_cases ready : mapper.Ready false start count
  · refine ⟨ready, ?_⟩
    rw [ready.commitRegions_eq, if_neg (Nat.ne_of_gt hcount)] at h
    obtain ⟨backing, middle, earlier, _, hback, hrest, rfl⟩ := Op.of_bind_run_ok h
    have hback := Op.of_recover_ok hback fun _ _ => nofun
    obtain ⟨reported, hreport, silent, -, hentries⟩ :=
      reportCommit_run start count backing middle
    rw [Op.bind_eq_after hreport, notify_run] at hrest
    cases hrest
    exact ⟨backing, middle, earlier, reported, hback, rfl, rfl, silent, hentries⟩
  · obtain ⟨_, -, hrun⟩ := commitRegions_fault ready pretoucher
    cases hrun.symm.trans h

end RegionBacking.Mapper
