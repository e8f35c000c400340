import RegionBacking.Proofs.Mapper.Spaces

/-!
# What a batch posts

Over a page space it is known how many pages a pass touched. So `Posts` says exactly what a batch
adds to the counter of pretouched pages and how often it asks for a placement, and both go with the
number of pages that are committed more after it than before (`backRegions_posts`,
`unbackRegions_posts`).
-/

namespace RegionBacking.Mapper

open Finset (Ico)

variable {mapper after : Mapper PageSpace} {references : GranuleTable}
  {regionsPerPage pagesPerRegion start count : Nat} {pretoucher : Option Pretoucher}
  {trace : List Effect} {stop : Stop Refusal} {backing : Backing}

/-! ## Counting pages -/

/-- As many pages are committed as have a committed region on them. -/
theorem SharedBooks.committedCount_eq (books : SharedBooks regionsPerPage references mapper) :
    mapper.store.committedCount = (mapper.committed.occupied regionsPerPage).card := by
  apply Bitmap.count_eq_card books.store_sound.tidy
  intro page
  have hbacked : mapper.store.isCommitted page = decide (0 < references.entry page) :=
    books.backed_eq page
  rw [← books.store_sound.isCommitted_eq, hbacked, decide_eq_true_eq, books.entry_eq,
    Bitmap.mem_occupied]

/-- The pages of a set of regions. -/
def pagesOf (pagesPerRegion : Nat) (regions : Finset Nat) : Finset Nat :=
  regions.biUnion fun region => Ico (region * pagesPerRegion) ((region + 1) * pagesPerRegion)

theorem mem_pagesOf (hpos : 0 < pagesPerRegion) (regions : Finset Nat) (page : Nat) :
    page ∈ pagesOf pagesPerRegion regions ↔ page / pagesPerRegion ∈ regions := by
  have hmem : ∀ region, page ∈ Ico (region * pagesPerRegion) ((region + 1) * pagesPerRegion) ↔
      page / pagesPerRegion = region := by
    intro region
    rw [Finset.mem_Ico, Nat.div_eq_iff hpos, Nat.succ_mul]
    omega
  simp only [pagesOf, Finset.mem_biUnion, hmem, exists_eq_right']

theorem card_pagesOf (pagesPerRegion : Nat) (regions : Finset Nat) :
    (pagesOf pagesPerRegion regions).card = regions.card * pagesPerRegion := by
  rw [pagesOf, Finset.card_biUnion]
  · apply Finset.sum_const_nat
    intro region _
    rw [Nat.card_Ico, Nat.succ_mul, Nat.add_sub_cancel_left]
  · intro region _ other _ hne
    rw [Function.onFun, Finset.disjoint_left]
    intro page hregion hother
    rw [Finset.mem_Ico] at hregion hother
    -- A page that lay in the pages of both would have two quotients.
    exact hne ((Nat.div_eq_of_lt_le hregion.1 hregion.2).symm.trans
      (Nat.div_eq_of_lt_le hother.1 hother.2))

/-- As many pages are committed as belong to the committed regions. -/
theorem WholeBooks.committedCount_eq (books : WholeBooks pagesPerRegion mapper) :
    mapper.store.committedCount = mapper.committedCount * pagesPerRegion := by
  have hmem : ∀ region, region ∈ mapper.committed.ones.toFinset ↔
      mapper.committed.bit region = true := by
    intro region
    rw [List.mem_toFinset, Bitmap.mem_ones_iff books.tidy]
  rw [committedCount, Bitmap.count_eq_card books.tidy hmem, ← card_pagesOf]
  apply Bitmap.count_eq_card books.store_sound.tidy
  intro page
  have hbacked : mapper.store.isCommitted page = mapper.committed.bit (page / pagesPerRegion) :=
    books.backed_eq page
  rw [mem_pagesOf books.share_pos, hmem, ← hbacked, books.store_sound.isCommitted_eq]

/-- A batch has committed or uncommitted as many regions as it came to. -/
theorem BroughtTo.committedCount_eq {region : Nat} {answers : List Answer}
    (done : BroughtTo true start region mapper after answers trace) (sound : mapper.Sound)
    (ready : mapper.Ready false start count) (hle : region ≤ start + count) :
    after.committedCount = mapper.committedCount + (region - start) :=
  Bitmap.count_of_joined sound.tidy done.sound.tidy
    (fun other hfirst hlast => ready.bit_eq other hfirst (Nat.lt_of_lt_of_le hlast hle)) done.bit_eq

theorem BroughtTo.committedCount_eq_of_uncommit {region : Nat} {answers : List Answer}
    (done : BroughtTo false start region mapper after answers trace) (sound : mapper.Sound)
    (ready : mapper.Ready true start count) (hle : region ≤ start + count) :
    mapper.committedCount = after.committedCount + (region - start) := by
  apply Bitmap.count_of_joined done.sound.tidy sound.tidy
  · intro other hfirst hlast
    rw [done.bit_eq, if_pos ⟨hfirst, hlast⟩]
  -- Committing the regions again gives the old bits back.
  · intro other
    rw [done.bit_eq]
    split
    · next hrange => exact ready.bit_eq other hrange.1 (Nat.lt_of_lt_of_le hrange.2 hle)
    · rfl

/-! ## Counting what is touched -/

/-- The pages that a batch touches of those that it committed. -/
def touched (mapper : Mapper PageSpace) (pretoucher : Option Pretoucher) (pages : Nat) : Nat :=
  if mapper.alwaysPretouch && pretoucher.isSome then pages else 0

theorem touched_zero (mapper : Mapper PageSpace) (pretoucher : Option Pretoucher) :
    mapper.touched pretoucher 0 = 0 := ite_self 0

theorem Posts.touched_eq {placed pages : Nat} (posts : Posts mapper after placed pages trace)
    (pretoucher : Option Pretoucher) (more : Nat) :
    after.touched pretoucher more = mapper.touched pretoucher more := by
  rw [touched, posts.pretouch_eq]
  rfl

/-- A pass that comes to its end has touched all its pages, and nothing else was posted. -/
theorem pretouchPages_posts
    (h : pretouchPages start count pretoucher mapper = ⟨.ok (), after, trace⟩) :
    Posts mapper after 0 (mapper.touched pretoucher count) trace := by
  cases of_pretouchPages_ok h with
  | idle hidle =>
    have htouched : mapper.touched pretoucher count = 0 := by
      unfold touched
      rcases hidle with rfl | hnever | rfl
      · rw [Option.isSome_none, Bool.and_false]
        rfl
      · rw [hnever]
        rfl
      · exact ite_self 0
    rw [htouched]
    exact .refl mapper
  | @pass worker report store shown halways _ hrun =>
    obtain ⟨_, machine, _, hcases, hquiet, -⟩ := mapper.store.pretouch_cases start count worker
    cases hcases.symm.trans hrun
    have hpages : report.pages = count :=
      PageSpace.pages_of_pretouch_ok (congrArg Run.result hrun)
    have htouched : mapper.touched (some worker) count = 0 + report.pages := by
      rw [touched, halways, Nat.zero_add, hpages]
      rfl
    have hcalled : Posts mapper (mapper.withStore { mapper.store with machine }) 0 0
        (.call ⟨.pretouch, start, count⟩ :: shown) :=
      .of_callsOnly (hquiet.callsOnly _) rfl rfl rfl
    rw [htouched]
    exact hcalled.trans (.of_pass _ report)

/-! ## Fresh pages lie together -/

section fresh

variable {share first last page : Nat} {before bits : Bitmap} {progress : Progress}
  {answers : List Answer}

/-- A page between two fresh ones is fresh: all its regions belong to the batch, so that none of
them was committed before it. -/
theorem Progress.Fills.mem_of_between (fills : progress.Fills share before bits)
    (hmem : ∀ page ∈ progress.fresh,
      ∃ region, start ≤ region ∧ region < start + count ∧ region / share = page)
    (hpos : 0 < share) (tidy : before.Tidy) (tidy' : bits.Tidy)
    (hclear : ∀ region, start ≤ region → region < start + count → before.bit region = false)
    (hset : ∀ region, start ≤ region → region < start + count → bits.bit region = true)
    (hfirst : first ∈ progress.fresh) (hlast : last ∈ progress.fresh) (hge : first ≤ page)
    (hle : page ≤ last) : page ∈ progress.fresh := by
  by_cases hsame : page = first
  · exact hsame ▸ hfirst
  by_cases hend : page = last
  · exact hend ▸ hlast
  have hlow := hmem first hfirst
  have hhigh := hmem last hlast
  obtain ⟨region, hge', hlt', hregion⟩ :=
    exists_region_between hpos hlow hhigh hge (show page < first + (last - first + 1) by omega)
  obtain ⟨low, hlow, -, rfl⟩ := hlow
  obtain ⟨high, -, hhigh, rfl⟩ := hhigh
  rw [fills.mem_iff, Bitmap.mem_occupied, Bitmap.mem_occupied, Bitmap.residents_pos_iff tidy',
    Bitmap.residents_pos_iff tidy]
  refine ⟨⟨region, hset region hge' hlt', hregion⟩, ?_⟩
  intro hbefore
  obtain ⟨other, hbit, rfl⟩ := hbefore
  have hlower := Nat.lt_of_div_lt_div (show low / share < other / share by omega)
  have hupper := Nat.lt_of_div_lt_div (show other / share < high / share by omega)
  rw [hclear other (by omega) (by omega)] at hbit
  cases hbit

/-- The fresh pages of a batch are all pages from the first to the last of them. -/
theorem Progress.Fills.reverse_eq (fills : progress.Fills share before bits)
    (hbetween : ∀ page, first ≤ page → page ≤ last → page ∈ progress.fresh)
    (hfirst : progress.fresh.getLast? = some first) (hlast : progress.fresh.head? = some last) :
    progress.fresh.reverse = List.range' first (last - first + 1) := by
  obtain ⟨later, hlater⟩ := List.getLast?_eq_some_iff.mp hfirst
  obtain ⟨earlier, hearlier⟩ := List.head?_eq_some_iff.mp hlast
  -- The pages are listed in descending order, so all of them lie between the two ends.
  have hge : ∀ page ∈ progress.fresh, first ≤ page := by
    intro page hpage
    have hsorted := fills.descending
    rw [hlater, List.pairwise_append] at hsorted
    rw [hlater, List.mem_append, List.mem_singleton] at hpage
    rcases hpage with hpage | rfl
    · exact Nat.le_of_lt (hsorted.2.2 page hpage first (List.mem_singleton_self first))
    · exact Nat.le_refl page
  have hle : ∀ page ∈ progress.fresh, page ≤ last := by
    intro page hpage
    have hsorted := fills.descending
    rw [hearlier, List.pairwise_cons] at hsorted
    rw [hearlier, List.mem_cons] at hpage
    rcases hpage with rfl | hpage
    · exact Nat.le_refl page
    · exact Nat.le_of_lt (hsorted.1 page hpage)
  have hordered := hle first (List.mem_of_getLast? hfirst)
  have hmem : ∀ page, page ∈ progress.fresh.reverse ↔
      page ∈ List.range' first (last - first + 1) := by
    intro page
    rw [List.mem_reverse, List.mem_range'_1]
    refine ⟨fun hpage => ?_, fun h => hbetween page h.1 (by omega)⟩
    have := hge page hpage
    have := hle page hpage
    omega
  exact (List.pairwise_reverse.mpr fills.descending).eq_of_mem_iff List.pairwise_lt_range' hmem

theorem Progress.Fills.length_eq (fills : progress.Fills share before bits)
    (hbetween : ∀ page, first ≤ page → page ≤ last → page ∈ progress.fresh)
    (hfirst : progress.fresh.getLast? = some first) (hlast : progress.fresh.head? = some last) :
    progress.fresh.length = last - first + 1 := by
  rw [← List.length_reverse, fills.reverse_eq hbetween hfirst hlast, List.length_range']

/-- The pass over the fresh pages of a batch touches just these. -/
theorem pretouchFresh_posts
    (hlength : ∀ first last, progress.fresh.getLast? = some first →
      progress.fresh.head? = some last → progress.fresh.length = last - first + 1)
    (h : pretouchFresh progress.fresh pretoucher mapper = ⟨.ok (), after, trace⟩) :
    Posts mapper after 0 (mapper.touched pretoucher progress.fresh.length) trace := by
  unfold pretouchFresh at h
  cases hfresh : progress.fresh with
  | nil =>
    rw [hfresh] at h
    cases h
    exact touched_zero mapper pretoucher ▸ .refl mapper
  | cons last rest =>
    have hhead : progress.fresh.head? = some last := by rw [hfresh, List.head?_cons]
    have hlast : progress.fresh.getLast? = some ((last :: rest).getLast (List.cons_ne_nil _ _)) := by
      rw [hfresh, List.getLast?_eq_some_getLast]
    rw [hhead, hlast] at h
    rw [← hfresh, hlength _ _ hlast hhead]
    exact pretouchPages_posts h

end fresh

/-! ## Batches that come to their end -/

/-- A batch of commits has posted what its backing tells, and that is right: so many pages are
committed more, and so many placements were asked for. -/
structure Posted (mapper after : Mapper PageSpace) (backing : Backing)
    (pretoucher : Option Pretoucher) (trace : List Effect) : Prop where
  pages_eq : after.store.committedCount = mapper.store.committedCount + backing.pages
  placements_eq : (Effect.placements trace).length = backing.placements
  posts : ∃ placed, Posts mapper after placed (mapper.touched pretoucher backing.pages) trace

theorem commitShared_posted (books : SharedBooks regionsPerPage references mapper)
    (ready : mapper.Ready false start count)
    (h : commitShared regionsPerPage start count pretoucher mapper = ⟨.ok backing, after, trace⟩) :
    mapper.Posted after backing pretoucher trace := by
  unfold commitShared at h
  obtain ⟨progress, middle, earlier, later, hloop, hrest, rfl⟩ := Op.of_bind_run_ok h
  rcases commitLoop_run books ready.le_size ready.bit_eq with
    ⟨progress', middle', earlier', hrun, ⟨answers, done, accounts⟩, fills, posts⟩ |
    ⟨stop, middle', earlier', region, hrun, -⟩
  · cases hrun.symm.trans hloop
    obtain ⟨⟨⟩, last, passed, rest, hpass, hend, rfl⟩ := Op.of_bind_run_ok hrest
    obtain ⟨references', books'⟩ := done.sharedBooks books
    have hset : ∀ region, start ≤ region → region < start + count →
        middle.committed.bit region = true := by
      intro region hfirst hlast
      rw [done.bit_eq, if_pos ⟨hfirst, hlast⟩]
    have hpassed := pretouchFresh_posts (fun first last hfirst hlast =>
      fills.length_eq (fun page => fills.mem_of_between accounts.fresh_mem books.share_pos books.tidy
        done.sound.tidy ready.bit_eq hset (List.mem_of_getLast? hfirst) (List.mem_of_head? hlast))
        hfirst hlast) hpass
    have hposts := posts.trans hpassed
    -- The pass leaves the bits and the pages as they are, so the books count the same pages.
    obtain ⟨result, store, activity, passed', answers', hrun', hsame, -⟩ :=
      pretouchFresh_run books' (done.reaches.size_eq ▸ ready.le_size) accounts hset pretoucher
    cases hrun'.symm.trans hpass
    have hsound : ((middle.withStore store).withActivity activity).Sound :=
      done.sound.of_sameBacking rfl rfl hsame
    obtain ⟨references'', books''⟩ :=
      hsound.sharedBooks (congrArg Strategy.shape books'.strategy_eq)
    rw [posts.touched_eq, Nat.add_zero, Nat.zero_add] at hposts
    cases hend
    simp only [List.append_nil]
    refine ⟨?_, ?_, _, hposts⟩
    · rw [books.committedCount_eq, books''.committedCount_eq]
      exact fills.card_eq
    · rw [hposts.length_placements, ← hposts.kind_eq]
  · cases hrun.symm.trans hloop

theorem commitWhole_posted (books : WholeBooks pagesPerRegion mapper)
    (ready : mapper.Ready false start count) (chunked : mapper.Chunked pretoucher)
    (h : commitWhole pagesPerRegion start count pretoucher mapper = ⟨.ok backing, after, trace⟩) :
    mapper.Posted after backing pretoucher trace := by
  have hbooks : after.committedCount = mapper.committedCount + count ∧
      WholeBooks pagesPerRegion after := by
    rcases commitWhole_run books ready.le_size ready.bit_eq chunked with
      ⟨backing', after', trace', answers, hrun, done, -⟩ | ⟨stop, trace', answers, hrun, -⟩
    · cases hrun.symm.trans h
      have hcount := done.committedCount_eq (.large _ books) ready (Nat.le_refl _)
      rw [Nat.add_sub_cancel_left] at hcount
      exact ⟨hcount, done.sound.wholeBooks
        (done.reaches.shape_eq.trans (congrArg Strategy.shape books.strategy_eq))⟩
    · cases hrun.symm.trans h
  have hpages := books.mul_le ready.le_size
  have hlimit := books.pages_lt
  have hfirst : Word.mul start pagesPerRegion = .ok (start * pagesPerRegion) :=
    Word.mul_eq_ok_iff.mpr ⟨by omega, rfl⟩
  have hcount : Word.mul count pagesPerRegion = .ok (count * pagesPerRegion) :=
    Word.mul_eq_ok_iff.mpr ⟨by omega, rfl⟩
  rw [commitWhole, hfirst, hcount, Op.checked_ok, pure_bind, Op.checked_ok, pure_bind] at h
  obtain ⟨zeroFilled, middle, called, rest, hcommit, hplacing, rfl⟩ := Op.of_bind_run_ok h
  rcases commitPages_cases books.store_sound (books.allBacked ready.bit_eq) with
    ⟨zeroFilled', store, called', hrun, hacquired, -, hcalls⟩ | ⟨stop, called', hrun, -⟩
  · cases hrun.symm.trans hcommit
    obtain ⟨nodes, placed, hplace, -, hplaced⟩ := placeRegions_run (mapper.withStore store)
      (wholeWords books ready.le_size hacquired)
    obtain ⟨⟨⟩, middle, placed', rest, hplace', hpassing, rfl⟩ := Op.of_bind_run_ok hplacing
    cases hplace.symm.trans hplace'
    obtain ⟨⟨⟩, middle, passed, rest, hpass, hmarking, rfl⟩ := Op.of_bind_run_ok hpassing
    obtain ⟨touched, activity, passed', answers, hpass', -⟩ :=
      passWhole_run books ready.le_size hacquired nodes chunked
    cases hpass'.symm.trans hpass
    have hsteps := Bitmap.setRangeSteps_eq_ok (Nat.le_add_right start count) ready.le_size
    rw [Op.bind_eq_after (changeBits_run hsteps), Op.get_bind, Op.pure_run,
      Run.after_mk] at hmarking
    have hcalled : Posts mapper (mapper.withStore store) 0 0 called :=
      .of_callsOnly hcalls rfl rfl rfl
    have hposts := hcalled.trans (hplaced.trans ((pretouchPages_posts hpass).trans
      (posts_withBits _ (mapper.committed.fill start (start + count)))))
    simp only [Nat.add_zero, Nat.zero_add] at hposts
    cases hmarking
    refine ⟨?_, ?_, _, hposts⟩
    · rw [books.committedCount_eq, hbooks.2.committedCount_eq, hbooks.1, Nat.add_mul]
    · exact hposts.length_placements
  · cases hrun.symm.trans hcommit

theorem backRegions_posted (sound : mapper.Sound) (ready : mapper.Ready false start count)
    (chunked : mapper.Chunked pretoucher)
    (h : backRegions start count pretoucher mapper = ⟨.ok backing, after, trace⟩) :
    mapper.Posted after backing pretoucher trace := by
  cases sound with
  | small regionsPerPage references books =>
    rw [backRegions_small books.strategy_eq] at h
    exact commitShared_posted books ready h
  | large pagesPerRegion books =>
    rw [backRegions_large books.strategy_eq] at h
    exact commitWhole_posted books ready chunked h

/-- A batch of uncommits posts nothing but the pages that it gave up. -/
theorem unbackRegions_posted {pages : Nat} (sound : mapper.Sound)
    (ready : mapper.Ready true start count)
    (h : unbackRegions start count mapper = ⟨.ok pages, after, trace⟩) :
    mapper.store.committedCount = after.store.committedCount + pages ∧
      Posts mapper after 0 0 trace := by
  cases sound with
  | small regionsPerPage references books =>
    rw [unbackRegions_small books.strategy_eq] at h
    rcases uncommitShared_run books ready.le_size ready.bit_eq with
      ⟨pages', after', trace', hrun, ⟨answers, done⟩, hcard, posts⟩ |
      ⟨stop, after', trace', region, hrun, -⟩
    · cases hrun.symm.trans h
      obtain ⟨references', books'⟩ := done.sharedBooks books
      rw [books.committedCount_eq, books'.committedCount_eq]
      exact ⟨hcard, posts⟩
    · cases hrun.symm.trans h
  | large pagesPerRegion books =>
    rw [unbackRegions_large books.strategy_eq] at h
    rcases uncommitWhole_run books ready.le_size ready.bit_eq with
      ⟨pages', after', trace', answers, hrun, done, hpages, posts⟩ |
      ⟨stop, trace', answers, hrun, -⟩
    · cases hrun.symm.trans h
      have books' := done.sound.wholeBooks
        (done.reaches.shape_eq.trans (congrArg Strategy.shape books.strategy_eq))
      have hcount := done.committedCount_eq_of_uncommit (.large _ books) ready (Nat.le_refl _)
      rw [Nat.add_sub_cancel_left] at hcount
      rw [books.committedCount_eq, books'.committedCount_eq, hcount, Nat.add_mul, hpages]
      exact ⟨rfl, posts⟩
    · cases hrun.symm.trans h

/-! ## Batches that stop -/

/-- What is left behind by a batch that stopped: so many pages are committed more, each of which was
placed, and so many less. No event says so. Where the regions of a page can be counted, the store
stopped the batch. -/
structure Strays (mapper after : Mapper PageSpace) (more less : Nat) (trace : List Effect)
    (stop : Stop Refusal) : Prop where
  pages_eq : after.store.committedCount + less = mapper.store.committedCount + more
  posts : Posts mapper after more 0 trace
  of_large : ∀ pages, mapper.strategy = .large pages → after = mapper
  of_small : mapper.Countable → ∀ regions references,
    mapper.strategy = .small regions references → StoppedByStore trace after.store stop

theorem commitShared_strays (books : SharedBooks regionsPerPage references mapper)
    (ready : mapper.Ready false start count) (chunked : mapper.Chunked pretoucher)
    (h : commitShared regionsPerPage start count pretoucher mapper = ⟨.error stop, after, trace⟩) :
    ∃ pages, mapper.Strays after pages 0 trace stop := by
  rcases commitLoop_run books ready.le_size ready.bit_eq with
    ⟨progress, middle, earlier, hloop, ⟨answers, done, accounts⟩, -⟩ |
    ⟨stop', middle, earlier, region, hloop, hfirst, hlast, ⟨answers, done, -⟩, hstopped, progress,
      fills, posts⟩
  -- Behind the loop only the pass could stop, which it does not within the machine words.
  · obtain ⟨references', books'⟩ := done.sharedBooks books
    have hset : ∀ region, start ≤ region → region < start + count →
        middle.committed.bit region = true := by
      intro region hfirst hlast
      rw [done.bit_eq, if_pos ⟨hfirst, hlast⟩]
    obtain ⟨result, store, activity, passed, answers', hpass, -, -, -, hok⟩ :=
      pretouchFresh_run books' (done.reaches.size_eq ▸ ready.le_size) accounts hset pretoucher
    rw [hok (chunked.of_succeeds done.reaches.succeeds)] at hpass
    rw [commitShared, Op.bind_eq_after hloop, Op.bind_eq_after hpass] at h
    cases h
  · cases (Op.bind_run_error hloop).symm.trans h
    obtain ⟨references', books'⟩ := done.sharedBooks books
    refine ⟨progress.fresh.length, ?_, posts, ?_, ?_⟩
    · rw [books.committedCount_eq, books'.committedCount_eq, Nat.add_zero]
      exact fills.card_eq
    · intro pages hlarge
      cases books.strategy_eq.symm.trans hlarge
    · intro countable regions references'' hsmall
      exact hstopped (books.room_of_next (countable _ _ books.strategy_eq) done
        (Nat.lt_of_lt_of_le hlast ready.le_size) (ready.bit_eq region hfirst hlast))

theorem backRegions_strays (sound : mapper.Sound) (ready : mapper.Ready false start count)
    (chunked : mapper.Chunked pretoucher)
    (h : backRegions start count pretoucher mapper = ⟨.error stop, after, trace⟩) :
    ∃ pages, mapper.Strays after pages 0 trace stop := by
  cases sound with
  | small regionsPerPage references books =>
    rw [backRegions_small books.strategy_eq] at h
    exact commitShared_strays books ready chunked h
  | large pagesPerRegion books =>
    rw [backRegions_large books.strategy_eq] at h
    rcases commitWhole_run books ready.le_size ready.bit_eq chunked with
      ⟨backing, after', trace', answers, hrun, -⟩ | ⟨stop', trace', answers, hrun, -, hcalls, -⟩
    · cases hrun.symm.trans h
    · cases hrun.symm.trans h
      refine ⟨0, rfl, .of_callsOnly hcalls rfl rfl rfl, fun _ _ => rfl, ?_⟩
      intro _ regions references hsmall
      cases books.strategy_eq.symm.trans hsmall

theorem unbackRegions_strays (sound : mapper.Sound) (ready : mapper.Ready true start count)
    (h : unbackRegions start count mapper = ⟨.error stop, after, trace⟩) :
    ∃ pages, mapper.Strays after 0 pages trace stop := by
  cases sound with
  | small regionsPerPage references books =>
    rw [unbackRegions_small books.strategy_eq] at h
    rcases uncommitShared_run books ready.le_size ready.bit_eq with
      ⟨pages, after', trace', hrun, -⟩ |
      ⟨stop', after', trace', region, hrun, -, -, ⟨answers, done⟩, -, posts, hstopped⟩
    · cases hrun.symm.trans h
    · cases hrun.symm.trans h
      obtain ⟨references', books'⟩ := done.sharedBooks books
      -- A page that still is needed was needed before.
      have hsubset : after.committed.occupied regionsPerPage ⊆
          mapper.committed.occupied regionsPerPage := by
        intro page hpage
        rw [Bitmap.mem_occupied, Bitmap.residents_pos_iff done.sound.tidy] at hpage
        obtain ⟨other, hbit, hother⟩ := hpage
        rw [Bitmap.mem_occupied, Bitmap.residents_pos_iff books.tidy]
        refine ⟨other, ?_, hother⟩
        rw [done.bit_eq] at hbit
        split at hbit
        · cases hbit
        · exact hbit
      refine ⟨mapper.store.committedCount - after.store.committedCount, ?_, posts, ?_,
        fun _ _ _ _ => hstopped⟩
      · rw [books.committedCount_eq, books'.committedCount_eq, Nat.add_zero]
        exact Nat.add_sub_cancel' (Finset.card_le_card hsubset)
      · intro pages hlarge
        cases books.strategy_eq.symm.trans hlarge
  | large pagesPerRegion books =>
    rw [unbackRegions_large books.strategy_eq] at h
    rcases uncommitWhole_run books ready.le_size ready.bit_eq with
      ⟨pages, after', trace', answers, hrun, -⟩ |
      ⟨stop', trace', answers, hrun, -, -, -, hcalls, -⟩
    · cases hrun.symm.trans h
    · cases hrun.symm.trans h
      refine ⟨0, rfl, .of_callsOnly hcalls rfl rfl rfl, fun _ _ => rfl, ?_⟩
      intro _ regions references hsmall
      cases books.strategy_eq.symm.trans hsmall

end RegionBacking.Mapper
