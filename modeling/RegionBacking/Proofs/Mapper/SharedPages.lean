import RegionBacking.Mapper.SharedPages
import RegionBacking.Proofs.Mapper.Books

/-!
# Batches of regions that share pages

One region is committed or uncommitted at a time, and the books are in order after each
(`commitRegion_run`, `uncommitRegion_run`). A step that stops changed nothing; `Stalls` says why a
commit does. So a batch keeps the books in order, and one that stops in its middle has done the
regions before that point (`commitShared_run`, `uncommitShared_run`).
-/

namespace RegionBacking.Mapper

variable {σ : Type} {mapper after : Mapper σ} {regionsPerPage region : Nat}
  {references : GranuleTable}

/-! ## The last steps for a region -/

/-- The mapper with a region brought to a status and so many references of its page. -/
def withRegion (mapper : Mapper σ) (status : Bool) (regionsPerPage : Nat)
    (references : GranuleTable) (region count : Nat) : Mapper σ :=
  (mapper.withStrategy (.small regionsPerPage
    (references.put (region / regionsPerPage) count))).withBits
      (mapper.committed.bring status region (region + 1))

/-- The references of a page and the bit of a region change together. -/
theorem setRegion_run {α : Type} (hstrategy : mapper.strategy = .small regionsPerPage references)
    (hpage : region / regionsPerPage < references.size) (hregion : region < mapper.committed.size)
    (count : Nat) (value : α) :
    (do
      writeReferences (region / regionsPerPage) count
      changeBits fun bits => bits.setBitSteps region
      pure value : Op Refusal (Mapper σ) α) mapper =
      ⟨.ok value, mapper.withRegion true regionsPerPage references region count, []⟩ := by
  have hsteps := Bitmap.setBitSteps_eq_ok hregion
  rw [Op.bind_eq_after (writeReferences_run hstrategy hpage count),
    Op.bind_eq_after (changeBits_run hsteps)]
  rfl

theorem clearRegion_run {α : Type} (hstrategy : mapper.strategy = .small regionsPerPage references)
    (hpage : region / regionsPerPage < references.size) (hregion : region < mapper.committed.size)
    (count : Nat) (value : α) :
    (do
      writeReferences (region / regionsPerPage) count
      changeBits fun bits => bits.clearBitSteps region
      pure value : Op Refusal (Mapper σ) α) mapper =
      ⟨.ok value, mapper.withRegion false regionsPerPage references region count, []⟩ := by
  have hsteps := Bitmap.clearBitSteps_eq_ok hregion
  rw [Op.bind_eq_after (writeReferences_run hstrategy hpage count),
    Op.bind_eq_after (changeBits_run hsteps)]
  rfl

theorem posts_withRegion (mapper : Mapper σ) (status : Bool) (regionsPerPage : Nat)
    (references : GranuleTable) (region count : Nat) :
    Posts mapper (mapper.withRegion status regionsPerPage references region count) 0 0 [] :=
  .of_callsOnly .nil rfl rfl rfl

variable [PageStore σ] [LawfulStore σ]

theorem reaches_withRegion (h : StoreView.Sound mapper.store) (status : Bool)
    (hstrategy : mapper.strategy = .small regionsPerPage references) (region count : Nat) :
    Reaches mapper (mapper.withRegion status regionsPerPage references region count) [] [] :=
  .silently h .nil rfl (Bitmap.size_bring _ status region (region + 1))
    (congrArg Strategy.shape hstrategy).symm

/-! ## One region more or less -/

namespace SharedBooks

/-- Where a batch comes to a region, its page can count that as well, if it can count all of its
regions. -/
theorem room_of_next {start : Nat} {answers : List Answer} {trace : List Effect}
    (books : SharedBooks regionsPerPage references mapper) (hshare : regionsPerPage < entryLimit)
    (done : BroughtTo true start region mapper after answers trace)
    (hregion : region < mapper.committed.size) (hclear : mapper.committed.bit region = false) :
    after.committed.residents regionsPerPage (region / regionsPerPage) + 1 < entryLimit := by
  -- The region is not counted yet, so its page has fewer regions than it can have.
  obtain ⟨references', books'⟩ := done.sharedBooks books
  have hentry := books'.table.entry_lt (done.reaches.size_eq ▸ hregion) (done.bit_next.trans hclear)
  rw [books'.entry_eq] at hentry
  omega

/-- One more region and one more reference keep the books in order, if the page of the region is
backed. -/
theorem add (books : SharedBooks regionsPerPage references mapper)
    (hregion : region < mapper.committed.size) (hclear : mapper.committed.bit region = false)
    (hstrategy : after.strategy = .small regionsPerPage (references.put (region / regionsPerPage)
      (references.entry (region / regionsPerPage) + 1)))
    (hroom : references.entry (region / regionsPerPage) + 1 < entryLimit)
    (hbits : after.committed = mapper.committed.fill region (region + 1))
    (hstore : Succeeds mapper.store after.store)
    (hbacked : ∀ page, backed after.store page =
      (backed mapper.store page || decide (page = region / regionsPerPage))) :
    SharedBooks regionsPerPage (references.put (region / regionsPerPage)
      (references.entry (region / regionsPerPage) + 1)) after where
  strategy_eq := hstrategy
  share_pos := books.share_pos
  entry_lt_limit page := by
    rw [GranuleTable.entry_put]
    split
    · exact hroom
    · exact books.entry_lt_limit page
  size_references := by
    rw [GranuleTable.size_put, books.size_references, hstore.geometry.pages_eq]
  size_le := (books.table.add hregion hclear hstrategy hbits).size_le
  tidy := hbits ▸ books.tidy.bring hregion true
  store_sound := hstore.sound
  entry_eq := (books.table.add hregion hclear hstrategy hbits).entry_eq
  backed_eq page := by
    rw [hbacked, GranuleTable.entry_put, books.backed_eq]
    split
    · next hpage => simp [hpage]
    · next hpage => simp [hpage]

/-- One region less and one reference less keep the books in order, if the page of the region stays
backed just as long as there is a reference left. -/
theorem remove (books : SharedBooks regionsPerPage references mapper)
    (hregion : region < mapper.committed.size) (hset : mapper.committed.bit region = true)
    (hstrategy : after.strategy = .small regionsPerPage (references.put (region / regionsPerPage)
      (references.entry (region / regionsPerPage) - 1)))
    (hbits : after.committed = mapper.committed.wipe region (region + 1))
    (hstore : Succeeds mapper.store after.store)
    (hbacked : ∀ page, backed after.store page = (backed mapper.store page &&
      !decide (page = region / regionsPerPage ∧
        references.entry (region / regionsPerPage) = 1))) :
    SharedBooks regionsPerPage (references.put (region / regionsPerPage)
      (references.entry (region / regionsPerPage) - 1)) after where
  strategy_eq := hstrategy
  share_pos := books.share_pos
  entry_lt_limit page := by
    rw [GranuleTable.entry_put]
    split
    · exact Nat.lt_of_le_of_lt (Nat.sub_le _ _) (books.entry_lt_limit _)
    · exact books.entry_lt_limit page
  size_references := by
    rw [GranuleTable.size_put, books.size_references, hstore.geometry.pages_eq]
  size_le := (books.table.remove hregion hset hstrategy hbits).size_le
  tidy := hbits ▸ books.tidy.bring hregion false
  store_sound := hstore.sound
  entry_eq := (books.table.remove hregion hset hstrategy hbits).entry_eq
  backed_eq page := by
    have hpos := books.table.entry_pos hset
    -- The page is given up just where its only reference was that of the region.
    rw [hbacked, GranuleTable.entry_put, books.backed_eq, Bool.eq_iff_iff]
    simp only [Bool.and_eq_true, decide_eq_true_eq, Bool.not_eq_true', decide_eq_false_iff_not]
    split
    · next hpage =>
      rw [hpage]
      omega
    · next hpage =>
      simp [hpage]

end SharedBooks

/-! ## Committing one region -/

/-- The page of the first region on it is committed and placed, or the store stopped and nothing
changed. -/
theorem acquirePage_run (books : SharedBooks regionsPerPage references mapper)
    (hregion : region < mapper.committed.size)
    (hentry : references.entry (region / regionsPerPage) = 0) (progress : Progress) :
    (∃ zeroFilled store nodes trace,
      acquirePage (region / regionsPerPage) region progress mapper =
        ⟨.ok ⟨region / regionsPerPage :: progress.fresh, progress.zeroFilled && zeroFilled⟩,
          (mapper.withStore store).withNodes nodes, trace⟩ ∧
      Acquired mapper.store store (region / regionsPerPage) (region / regionsPerPage + 1) ∧
      Reaches mapper ((mapper.withStore store).withNodes nodes)
        [⟨⟨.commit, region / regionsPerPage, 1⟩, zeroFilled⟩] trace ∧
      Posts mapper ((mapper.withStore store).withNodes nodes) 1 0 trace) ∨
    (∃ stop trace,
      acquirePage (region / regionsPerPage) region progress mapper = ⟨.error stop, mapper, trace⟩ ∧
      Reaches mapper mapper [⟨⟨.commit, region / regionsPerPage, 1⟩, false⟩] trace ∧
      CallsOnly trace ∧ stop.Rejects (StoreView.Fits mapper.store (region / regionsPerPage + 1))
        (StoreView.Willing mapper.store) ∧
      (PageStore.commit (region / regionsPerPage) 1 mapper.store).result = .error stop) := by
  -- A page without references is not backed, so the store may be asked to commit it.
  generalize hpage : region / regionsPerPage = page at *
  have hlt : page < references.size := hpage ▸ books.table.page_lt hregion
  have unbacked : AllBacked mapper.store false page (page + 1) := by
    intro other hfirst hlast
    obtain rfl : other = page := by omega
    rw [books.backed_eq, hentry]
    rfl
  rcases commitPages_cases books.store_sound unbacked with
    ⟨zeroFilled, store, trace, hrun, hacquired, hreaches, hcalls⟩ | ⟨stop, trace, hrun, hstopped⟩
  · left
    have hpages : page + 1 ≤ PageStore.pages mapper.store := books.size_references ▸ hlt
    obtain ⟨hbytes, haddress⟩ := hacquired.addressed (Nat.lt_succ_self page) hpages
    -- The page is one of those that were acquired, so its address and its bytes are words.
    obtain ⟨nodes, placed, hplace, hsilent, hposts⟩ :=
      placePages_run (mapper.withStore store) page 1 region
        (by
          show PageStore.pageSize store * 1 < Word.limit
          rw [hacquired.geometry.pageSize_eq]
          have hle := Nat.le_mul_of_pos_left (PageStore.pageSize mapper.store)
            (show 0 < page + 1 by omega)
          omega)
        (by
          show ∃ address, PageStore.pageStart store page = .ok address
          rw [hacquired.geometry.pageStart_eq]
          exact haddress page (Nat.le_refl page) (Nat.lt_succ_self page))
    have hnoted : Silent (placed ++ [.record (.pageAcquired page
        (pageAddress ((mapper.withStore store).withNodes nodes) page) region)]) :=
      hsilent.append ⟨rfl, rfl⟩
    refine ⟨zeroFilled, store, nodes, trace ++ (placed ++ [.record (.pageAcquired page
      (pageAddress ((mapper.withStore store).withNodes nodes) page) region)]), ?_, hacquired, ?_⟩
    · rw [acquirePage, Op.bind_eq_after hrun, Op.bind_eq_after hplace, Op.get_bind, Op.note_bind,
        Op.pure_run]
      rfl
    · have hquietly : Reaches (mapper.withStore store) ((mapper.withStore store).withNodes nodes) []
          (placed ++ [.record (.pageAcquired page
            (pageAddress ((mapper.withStore store).withNodes nodes) page) region)]) :=
        .silently hacquired.sound hnoted rfl rfl rfl
      have hcalled : Posts mapper (mapper.withStore store) 0 0 trace :=
        .of_callsOnly hcalls rfl rfl rfl
      exact ⟨hreaches.trans hquietly, hcalled.trans (hposts.trans (.of_callsOnly
        (.of_record _) rfl rfl rfl))⟩
  · right
    exact ⟨stop, trace, Op.bind_run_error hrun, hstopped⟩

/-- Why the commit of a region stops: it is the first on its page and the store does not back that,
or the references of its page cannot grow. -/
inductive Stalls (regionsPerPage : Nat) (mapper : Mapper σ) (region : Nat) :
    Stop Refusal → Prop where
  | page {stop : Stop Refusal}
    (vacant : mapper.committed.residents regionsPerPage (region / regionsPerPage) = 0)
    (rejects : stop.Rejects (StoreView.Fits mapper.store (region / regionsPerPage + 1))
      (StoreView.Willing mapper.store))
    (stopped : (PageStore.commit (region / regionsPerPage) 1 mapper.store).result = .error stop) :
    Stalls regionsPerPage mapper region stop
  | count
    (full : mapper.committed.residents regionsPerPage (region / regionsPerPage) + 1 = entryLimit) :
    Stalls regionsPerPage mapper region (.fault .addOverflow)

/-- Where its page fits and can count it, a region stops only because the store refuses. -/
theorem Stalls.exists_refusal {stop : Stop Refusal}
    (stalls : mapper.Stalls regionsPerPage region stop)
    (fits : StoreView.Fits mapper.store (region / regionsPerPage + 1))
    (hroom : mapper.committed.residents regionsPerPage (region / regionsPerPage) + 1 <
      entryLimit) : ∃ refusal, stop = .error refusal := by
  cases stalls with
  | page _ rejects => exact rejects.exists_refusal fits
  | count full => omega

/-- How a batch goes on by one region, and what the store answered on the way. -/
inductive Progress.Advances (page : Nat) (progress : Progress) : List Answer → Progress → Prop where
  | fresh (zeroFilled : Bool) : Advances page progress [⟨⟨.commit, page, 1⟩, zeroFilled⟩]
      ⟨page :: progress.fresh, progress.zeroFilled && zeroFilled⟩
  | again (h : page ∈ progress.fresh) : Advances page progress [] progress
  | shared : Advances page progress [] { progress with zeroFilled := false }

theorem commitRegion_run (books : SharedBooks regionsPerPage references mapper)
    (hregion : region < mapper.committed.size) (hclear : mapper.committed.bit region = false)
    (progress : Progress) :
    (∃ next after references' answers trace,
      commitRegion regionsPerPage progress region mapper = ⟨.ok next, after, trace⟩ ∧
      SharedBooks regionsPerPage references' after ∧
      Reaches mapper after answers trace ∧
      after.committed = mapper.committed.fill region (region + 1) ∧
      progress.Advances (region / regionsPerPage) answers next ∧
      next.fresh = mapper.committed.vacant regionsPerPage region ++ progress.fresh ∧
      Posts mapper after (mapper.committed.vacant regionsPerPage region).length 0 trace) ∨
    (∃ stop trace answers,
      commitRegion regionsPerPage progress region mapper = ⟨.error stop, mapper, trace⟩ ∧
      Reaches mapper mapper answers trace ∧ Without .uncommit answers ∧ CallsOnly trace ∧
      mapper.Stalls regionsPerPage region stop ∧
      (mapper.committed.residents regionsPerPage (region / regionsPerPage) + 1 < entryLimit →
        StoppedByStore trace mapper.store stop)) := by
  have hpage := books.table.page_lt hregion
  have hlimit := books.entry_lt_limit (region / regionsPerPage)
  have hcounted := books.entry_eq (region / regionsPerPage)
  unfold commitRegion
  simp only []
  rw [Op.bind_eq_after (readReferences_run books.strategy_eq hpage), Run.after_nil]
  by_cases hentry : references.entry (region / regionsPerPage) = 0
  · have hroom : references.entry (region / regionsPerPage) + 1 < entryLimit := by
      rw [hentry]
      decide
    rw [if_pos hentry]
    simp only [if_pos hroom]
    -- The first region on a page has the page committed before it is counted.
    rcases acquirePage_run books hregion hentry progress with
      ⟨zeroFilled, store, nodes, trace, hrun, hacquired, hreaches, hposts⟩ |
      ⟨stop, trace, hrun, hreaches, hcalls, hrejects, hstore⟩
    · left
      have hvacant : mapper.committed.vacant regionsPerPage region = [region / regionsPerPage] :=
        if_pos (hcounted ▸ hentry)
      have hstrategy : ((mapper.withStore store).withNodes nodes).strategy =
        .small regionsPerPage references := books.strategy_eq
      rw [Op.bind_eq_after hrun, setRegion_run hstrategy hpage hregion, Run.after_mk]
      refine ⟨_, _, references.put (region / regionsPerPage)
        (references.entry (region / regionsPerPage) + 1), _, _, rfl, ?_, ?_, rfl,
        .fresh zeroFilled, ?_, ?_⟩
      · apply books.add hregion hclear rfl hroom rfl hacquired.toSucceeds
        intro other
        have hother : (region / regionsPerPage ≤ other ∧ other < region / regionsPerPage + 1) ↔
          other = region / regionsPerPage := by omega
        rw [← decide_eq_decide.mpr hother]
        exact hacquired.backed_eq other
      · exact hreaches.trans (reaches_withRegion hacquired.sound true hstrategy region _)
      · rw [hvacant]
        rfl
      · rw [hvacant]
        exact hposts.trans (posts_withRegion _ true regionsPerPage references region _)
    · right
      refine ⟨stop, trace, _, Op.bind_run_error hrun, hreaches, .singleton (by decide) _ _ _, hcalls,
        .page (hcounted ▸ hentry) hrejects hstore,
        fun _ => ⟨⟨.commit, region / regionsPerPage, 1⟩, ?_, hstore⟩⟩
      rw [hreaches.calls_eq]
      rfl
  rw [if_neg hentry]
  by_cases hroom : references.entry (region / regionsPerPage) + 1 < entryLimit
  · simp only [if_pos hroom]
    left
    -- A page that is referred to is backed already, so the store is not asked for it.
    have hstill : ∀ page, backed mapper.store page =
        (backed mapper.store page || decide (page = region / regionsPerPage)) := by
      intro page
      rw [books.backed_eq]
      by_cases hsame : page = region / regionsPerPage
      · have hpos : 0 < references.entry page := by
          rw [hsame]
          omega
        simp [hpos]
      · simp [hsame]
    have hadd : SharedBooks regionsPerPage (references.put (region / regionsPerPage)
        (references.entry (region / regionsPerPage) + 1))
        (mapper.withRegion true regionsPerPage references region
          (references.entry (region / regionsPerPage) + 1)) :=
      books.add hregion hclear rfl hroom rfl (.refl books.store_sound) hstill
    have hmarked := reaches_withRegion books.store_sound true books.strategy_eq region
      (references.entry (region / regionsPerPage) + 1)
    have hposts := posts_withRegion mapper true regionsPerPage references region
      (references.entry (region / regionsPerPage) + 1)
    have hvacant : mapper.committed.vacant regionsPerPage region = [] := if_neg (hcounted ▸ hentry)
    rw [hvacant]
    split
    · next hhead =>
      rw [pure_bind, setRegion_run books.strategy_eq hpage hregion]
      exact ⟨_, _, _, [], [], rfl, hadd, hmarked, rfl,
        .again (List.mem_of_mem_head? hhead), rfl, hposts⟩
    · rw [pure_bind, setRegion_run books.strategy_eq hpage hregion]
      exact ⟨_, _, _, [], [], rfl, hadd, hmarked, rfl, .shared, rfl, hposts⟩
  -- Neither way to go on calls the store, and then there is no entry for one more.
  · simp only [if_neg hroom, Op.fail_bind]
    right
    refine ⟨_, [], [], ?_, .refl books.store_sound, .nil, .nil, .count (by omega),
      fun hfew => absurd hfew (hcounted ▸ hroom)⟩
    split <;> rfl

/-! ## Uncommitting one region -/

theorem releasePage_run (books : SharedBooks regionsPerPage references mapper)
    (hset : mapper.committed.bit region = true) :
    (∃ store trace,
      releasePage (region / regionsPerPage) region mapper =
        ⟨.ok (), mapper.withStore store, trace⟩ ∧
      Released mapper.store store (region / regionsPerPage) (region / regionsPerPage + 1) ∧
      Reaches mapper (mapper.withStore store)
        [⟨⟨.uncommit, region / regionsPerPage, 1⟩, false⟩] trace ∧
      Posts mapper (mapper.withStore store) 0 0 trace) ∨
    (∃ stop trace,
      releasePage (region / regionsPerPage) region mapper = ⟨.error stop, mapper, trace⟩ ∧
      Reaches mapper mapper [⟨⟨.uncommit, region / regionsPerPage, 1⟩, false⟩] trace ∧
      stop.Rejects True (StoreView.Willing mapper.store) ∧ CallsOnly trace ∧
      (PageStore.uncommit (region / regionsPerPage) 1 mapper.store).result = .error stop) := by
  have hpos := books.table.entry_pos hset
  generalize region / regionsPerPage = page at *
  have hbacked : AllBacked mapper.store true page (page + 1) := by
    intro other hfirst hlast
    obtain rfl : other = page := by omega
    rw [books.backed_eq, decide_eq_true hpos]
  rcases uncommitPages_cases books.store_sound hbacked with
    ⟨store, trace, hrun, hreleased, hreaches, hcalls⟩ |
    ⟨stop, trace, hrun, hreaches, hcalls, -, hrejects, hstore⟩
  · left
    have hnoted : Reaches (mapper.withStore store) (mapper.withStore store) []
        [.record (.pageReleased page (pageAddress (mapper.withStore store) page) region)] :=
      .silently hreleased.sound ⟨rfl, rfl⟩ rfl rfl rfl
    have hcalled : Posts mapper (mapper.withStore store) 0 0 trace :=
      .of_callsOnly hcalls rfl rfl rfl
    refine ⟨store, _, ?_, hreleased, hreaches.trans hnoted, hcalled.trans (.of_callsOnly
      (.of_record _) rfl rfl rfl)⟩
    rw [releasePage, Op.bind_eq_after hrun, Op.get_bind, Op.note_run]
    rfl
  · right
    exact ⟨stop, trace, Op.bind_run_error hrun, hreaches, hrejects, hcalls, hstore⟩

/-- Why the uncommit of a region stops: it is the last on its page, and the store does not take that
back. -/
structure Sticks (regionsPerPage : Nat) (mapper : Mapper σ) (region : Nat) (stop : Stop Refusal) :
    Prop where
  last : mapper.committed.residents regionsPerPage (region / regionsPerPage) = 1
  rejects : stop.Rejects True (StoreView.Willing mapper.store)
  stopped : (PageStore.uncommit (region / regionsPerPage) 1 mapper.store).result = .error stop

/-- A committed region is uncommitted, and its page with it if it was the last one there; or the
store refused and nothing changed. -/
theorem uncommitRegion_run (books : SharedBooks regionsPerPage references mapper)
    (hregion : region < mapper.committed.size) (hset : mapper.committed.bit region = true)
    (released : Nat) :
    (∃ total after references' answers trace,
      uncommitRegion regionsPerPage released region mapper = ⟨.ok total, after, trace⟩ ∧
      SharedBooks regionsPerPage references' after ∧
      Reaches mapper after answers trace ∧
      Without .commit answers ∧
      after.committed = mapper.committed.wipe region (region + 1) ∧
      total = released + (if mapper.committed.residents regionsPerPage (region / regionsPerPage) = 1
        then 1 else 0) ∧
      Posts mapper after 0 0 trace) ∨
    (∃ stop trace,
      uncommitRegion regionsPerPage released region mapper = ⟨.error stop, mapper, trace⟩ ∧
      Reaches mapper mapper [⟨⟨.uncommit, region / regionsPerPage, 1⟩, false⟩] trace ∧
      mapper.Sticks regionsPerPage region stop ∧ CallsOnly trace ∧
      StoppedByStore trace mapper.store stop) := by
  have hpage := books.table.page_lt hregion
  have hpos := books.table.entry_pos hset
  have hcounted := books.entry_eq (region / regionsPerPage)
  -- The bit of the region is set, so it is one of those that its page counts.
  have hreferred : (references.entry (region / regionsPerPage) != 0) = true := by
    rw [bne_iff_ne]
    omega
  unfold uncommitRegion
  simp only []
  rw [Op.bind_eq_after (readReferences_run books.strategy_eq hpage), Run.after_nil, hreferred,
    Op.require_true, pure_bind]
  by_cases hlast : references.entry (region / regionsPerPage) = 1
  · rw [if_pos hlast]
    -- The last region on a page has the page uncommitted before it goes.
    rcases releasePage_run books hset with
      ⟨store, trace, hrun, hreleased, hreaches, hposts⟩ |
      ⟨stop, trace, hrun, hreaches, hrejects, hcalls, hstore⟩
    · left
      have hstrategy : (mapper.withStore store).strategy = .small regionsPerPage references :=
        books.strategy_eq
      rw [Op.bind_eq_after hrun, clearRegion_run hstrategy hpage hregion, Run.after_mk]
      refine ⟨_, _, references.put (region / regionsPerPage)
        (references.entry (region / regionsPerPage) - 1), _, _, rfl, ?_,
        hreaches.trans (reaches_withRegion hreleased.sound false hstrategy region _),
        (Without.singleton (by decide) _ _ _).append .nil, rfl, ?_,
        hposts.trans (posts_withRegion _ false regionsPerPage references region _)⟩
      · apply books.remove hregion hset rfl rfl hreleased.toSucceeds
        intro other
        have hother : (region / regionsPerPage ≤ other ∧ other < region / regionsPerPage + 1) ↔
          (other = region / regionsPerPage ∧ references.entry (region / regionsPerPage) = 1) := by
          omega
        rw [← decide_eq_decide.mpr hother]
        exact hreleased.backed_eq other
      · rw [if_pos hlast, if_pos (hcounted ▸ hlast)]
    · right
      refine ⟨stop, trace, Op.bind_run_error hrun, hreaches, ⟨hcounted ▸ hlast, hrejects, hstore⟩,
        hcalls, ⟨.uncommit, region / regionsPerPage, 1⟩, ?_, hstore⟩
      rw [hreaches.calls_eq]
      rfl
  · left
    -- Another region still needs the page, so the store is not asked for it.
    have hstill : ∀ page, backed mapper.store page = (backed mapper.store page &&
        !decide (page = region / regionsPerPage ∧
          references.entry (region / regionsPerPage) = 1)) := by
      intro page
      simp [hlast]
    have hremove : SharedBooks regionsPerPage (references.put (region / regionsPerPage)
        (references.entry (region / regionsPerPage) - 1))
        (mapper.withRegion false regionsPerPage references region
          (references.entry (region / regionsPerPage) - 1)) :=
      books.remove hregion hset rfl rfl (.refl books.store_sound) hstill
    rw [if_neg hlast, clearRegion_run books.strategy_eq hpage hregion]
    refine ⟨_, _, _, [], [], rfl, hremove,
      reaches_withRegion books.store_sound false books.strategy_eq region _, .nil, rfl, ?_,
      posts_withRegion mapper false regionsPerPage references region _⟩
    rw [if_neg hlast, if_neg (hcounted ▸ hlast), Nat.add_zero]

/-! ## Whole batches -/

/-- What a batch knows of the regions before `stop`: if it takes their pages to read as zero, the
store assured that of each. -/
structure Progress.Accounts (regionsPerPage start stop : Nat) (answers : List Answer)
    (progress : Progress) : Prop where
  zeroes : progress.zeroFilled = true → ∀ region, start ≤ region → region < stop →
    ∃ answer ∈ answers, answer.Zeroes (region / regionsPerPage)
  fresh_zeroes : progress.zeroFilled = true → ∀ page ∈ progress.fresh,
    ∃ answer ∈ answers, answer.Zeroes page
  /-- Only pages of these regions are fresh. -/
  fresh_mem : ∀ page ∈ progress.fresh,
    ∃ region, start ≤ region ∧ region < stop ∧ region / regionsPerPage = page

namespace Progress.Accounts

variable {start stop : Nat} {answers later : List Answer} {progress next : Progress}

theorem start_start (regionsPerPage start : Nat) :
    Progress.start.Accounts regionsPerPage start start [] where
  zeroes _ region hfirst hlast := absurd hfirst (by omega)
  fresh_zeroes _ _ hpage := absurd hpage List.not_mem_nil
  fresh_mem _ hpage := absurd hpage List.not_mem_nil

theorem advance (accounts : progress.Accounts regionsPerPage start stop answers)
    (hstop : start ≤ stop) (advances : progress.Advances (stop / regionsPerPage) later next) :
    next.Accounts regionsPerPage start (stop + 1) (answers ++ later) := by
  -- What was answered before stays answered, and the regions that were done stay done.
  have hearlier : ∀ page, (∃ answer ∈ answers, answer.Zeroes page) →
      ∃ answer ∈ answers ++ later, answer.Zeroes page := by
    intro page hbefore
    obtain ⟨answer, hanswer, hzeroes⟩ := hbefore
    exact ⟨answer, List.mem_append_left _ hanswer, hzeroes⟩
  have hmem : ∀ page ∈ progress.fresh,
      ∃ region, start ≤ region ∧ region < stop + 1 ∧ region / regionsPerPage = page := by
    intro page hpage
    obtain ⟨region, hfirst, hlast, hregion⟩ := accounts.fresh_mem page hpage
    exact ⟨region, hfirst, by omega, hregion⟩
  cases advances with
  | fresh zeroFilled =>
    have hnew : zeroFilled = true → ∃ answer ∈ answers ++
        [⟨⟨.commit, stop / regionsPerPage, 1⟩, zeroFilled⟩],
        answer.Zeroes (stop / regionsPerPage) := by
      intro hzero
      exact ⟨_, List.mem_append_right _ (List.mem_singleton_self _), rfl, hzero, Nat.le_refl _,
        Nat.lt_succ_self _⟩
    constructor
    -- The flag holds for the regions before this one, and for the page that was just committed.
    · intro hzero region hfirst hlast
      rw [Bool.and_eq_true] at hzero
      rcases Nat.lt_succ_iff_lt_or_eq.mp hlast with hbefore | rfl
      · exact hearlier _ (accounts.zeroes hzero.1 region hfirst hbefore)
      · exact hnew hzero.2
    · intro hzero page hpage
      rw [Bool.and_eq_true] at hzero
      rcases List.mem_cons.mp hpage with rfl | hold
      · exact hnew hzero.2
      · exact hearlier _ (accounts.fresh_zeroes hzero.1 page hold)
    · intro page hpage
      rcases List.mem_cons.mp hpage with rfl | hold
      · exact ⟨stop, hstop, Nat.lt_succ_self stop, rfl⟩
      · exact hmem page hold
  | again hpage =>
    refine ⟨?_, ?_, hmem⟩
    -- This page is one of the fresh ones, so it was answered for when it was committed.
    · intro hzero region hfirst hlast
      rcases Nat.lt_succ_iff_lt_or_eq.mp hlast with hbefore | rfl
      · exact hearlier _ (accounts.zeroes hzero region hfirst hbefore)
      · exact hearlier _ (accounts.fresh_zeroes hzero _ hpage)
    · intro hzero page hfresh
      exact hearlier _ (accounts.fresh_zeroes hzero page hfresh)
  | shared =>
    -- The page was backed before, so the batch no longer vouches for zeroes.
    exact ⟨fun hzero => absurd hzero Bool.false_ne_true,
      fun hzero => absurd hzero Bool.false_ne_true, hmem⟩

end Progress.Accounts

theorem Progress.Advances.without {page : Nat} {answers : List Answer} {progress next : Progress}
    (advances : progress.Advances page answers next) : Without .uncommit answers := by
  cases advances with
  | fresh zeroFilled => exact .singleton (by decide) _ _ _
  | again => exact .nil
  | shared => exact .nil

/-- The fresh pages of a batch, the latest first, are those that are needed and were not before. -/
structure Progress.Fills (share : Nat) (before after : Bitmap) (progress : Progress) : Prop where
  descending : progress.fresh.Pairwise (· > ·)
  mem_iff : ∀ page, page ∈ progress.fresh ↔
    page ∈ after.occupied share ∧ page ∉ before.occupied share
  subset : before.occupied share ⊆ after.occupied share

namespace Progress.Fills

variable {share : Nat} {before middle : Bitmap} {progress later : Progress}

theorem start_start (share : Nat) (bitmap : Bitmap) : Progress.start.Fills share bitmap bitmap where
  descending := .nil
  mem_iff _ := ⟨fun h => absurd h List.not_mem_nil, fun h => absurd h.1 h.2⟩
  subset := Finset.Subset.refl _

theorem next (fills : progress.Fills share before middle) (hregion : region < middle.size)
    (hclear : middle.bit region = false) (hle : ∀ page ∈ progress.fresh, page ≤ region / share)
    (hfresh : later.fresh = middle.vacant share region ++ progress.fresh) :
    later.Fills share before (middle.fill region (region + 1)) := by
  have hoccupied := Bitmap.occupied_fill hregion hclear share
  refine ⟨?_, ?_, hoccupied ▸ fills.subset.trans (Finset.subset_insert _ _)⟩
  -- The page of the region comes behind all fresh ones, and it is none of them if it was vacant.
  · rw [hfresh, List.pairwise_append]
    refine ⟨?_, fills.descending, ?_⟩
    · unfold Bitmap.vacant
      split
      · exact List.pairwise_singleton _ _
      · exact .nil
    · intro page hpage other hother
      obtain ⟨rfl, hempty⟩ := Bitmap.mem_vacant.mp hpage
      refine Nat.lt_of_le_of_ne (hle other hother) ?_
      rintro rfl
      exact hempty ((fills.mem_iff _).mp hother).1
  · intro page
    rw [hfresh, List.mem_append, Bitmap.mem_vacant, fills.mem_iff, hoccupied, Finset.mem_insert]
    have hsubset := @fills.subset page
    tauto

/-- As many pages are needed more as are fresh. -/
theorem card_eq (fills : progress.Fills share before middle) :
    (middle.occupied share).card = (before.occupied share).card + progress.fresh.length := by
  have hset : progress.fresh.toFinset = middle.occupied share \ before.occupied share := by
    ext page
    rw [List.mem_toFinset, fills.mem_iff, Finset.mem_sdiff]
  have hcard := List.toFinset_card_of_nodup (fills.descending.imp Nat.ne_of_gt)
  rw [hset, Finset.card_sdiff_of_subset fills.subset] at hcard
  have hle := Finset.card_le_card fills.subset
  omega

end Progress.Fills

/-- The loop over the regions of a batch comes to its end, or it stops at a region with those before
it done. If it stops at the first one, the store was called at most. -/
theorem commitLoop_run (books : SharedBooks regionsPerPage references mapper) {start count : Nat}
    (hstop : start + count ≤ mapper.committed.size)
    (hclear : ∀ region, start ≤ region → region < start + count →
      mapper.committed.bit region = false) :
    (∃ progress after trace,
      Op.fold (commitRegion regionsPerPage) Progress.start (List.range' start count) mapper =
        ⟨.ok progress, after, trace⟩ ∧
      (∃ answers, BroughtTo true start (start + count) mapper after answers trace ∧
        progress.Accounts regionsPerPage start (start + count) answers) ∧
      progress.Fills regionsPerPage mapper.committed after.committed ∧
      Posts mapper after progress.fresh.length 0 trace) ∨
    (∃ stop after trace region,
      Op.fold (commitRegion regionsPerPage) Progress.start (List.range' start count) mapper =
        ⟨.error stop, after, trace⟩ ∧ start ≤ region ∧ region < start + count ∧
      (∃ answers, BroughtTo true start region mapper after answers trace ∧
        after.Stalls regionsPerPage region stop ∧
        (region = start → after = mapper ∧ CallsOnly trace)) ∧
      (after.committed.residents regionsPerPage (region / regionsPerPage) + 1 < entryLimit →
        StoppedByStore trace after.store stop) ∧
      ∃ progress : Progress, progress.Fills regionsPerPage mapper.committed after.committed ∧
        Posts mapper after progress.fresh.length 0 trace) := by
  -- Before each index the regions so far are committed and accounted for, and before the first one
  -- nothing happened; a step that stops leaves that so.
  refine Or.imp_left ?_ (Op.fold_range
    (fun region (progress : Progress) after trace =>
      (∃ answers, BroughtTo true start region mapper after answers trace ∧
        progress.Accounts regionsPerPage start region answers) ∧
      progress.Fills regionsPerPage mapper.committed after.committed ∧
      Posts mapper after progress.fresh.length 0 trace ∧
      (region = start → after = mapper ∧ trace = []))
    (fun region stop after trace =>
      (∃ answers, BroughtTo true start region mapper after answers trace ∧
        after.Stalls regionsPerPage region stop ∧
        (region = start → after = mapper ∧ CallsOnly trace)) ∧
      (after.committed.residents regionsPerPage (region / regionsPerPage) + 1 < entryLimit →
        StoppedByStore trace after.store stop) ∧
      ∃ progress : Progress, progress.Fills regionsPerPage mapper.committed after.committed ∧
        Posts mapper after progress.fresh.length 0 trace) ?_ ?_)
  · intro hend
    obtain ⟨progress, after, trace, hrun, hbrought, hfills, hposts, -⟩ := hend
    exact ⟨progress, after, trace, hrun, hbrought, hfills, hposts⟩
  · exact ⟨⟨[], .refl (.small _ _ books) true (Nat.le_refl start),
      .start_start regionsPerPage start⟩, .start_start _ _, .refl mapper, fun _ => ⟨rfl, rfl⟩⟩
  · intro region progress after trace hfirst hlast hinv
    obtain ⟨⟨answers, done, accounts⟩, fills, posts, hstart⟩ := hinv
    obtain ⟨references', books'⟩ := done.sharedBooks books
    have hregion : region < after.committed.size := by
      rw [done.reaches.size_eq]
      omega
    -- The regions before this one were committed, which leaves its own bit as it was.
    have hfree := done.bit_next.trans (hclear region hfirst hlast)
    rcases commitRegion_run books' hregion hfree progress with
      ⟨next, later, references'', answers', trace', hrun, books'', hreaches, hbits, advances, hfresh,
        hposts⟩ |
      ⟨stop, trace', answers', hrun, hreaches, hwithout, hcalls, hstalls, hstopped⟩
    · refine Or.inl ⟨next, later, trace', hrun, ⟨_, done.next hfirst hregion hreaches
        (.small _ _ books'') advances.without hbits, accounts.advance hfirst advances⟩, ?_, ?_,
        fun hsame => absurd hsame (by omega)⟩
      · rw [hbits]
        apply fills.next hregion hfree _ hfresh
        intro page hpage
        obtain ⟨other, -, hother, rfl⟩ := accounts.fresh_mem page hpage
        exact Nat.div_le_div_right (Nat.le_of_lt hother)
      · rw [hfresh, List.length_append, Nat.add_comm]
        exact posts.trans hposts
    · refine Or.inr ⟨stop, after, trace', hrun, ⟨_, done.stay hreaches hwithout done.sound rfl,
        hstalls, ?_⟩, fun hfew => (hstopped hfew).after trace, progress, fills,
        posts.trans (.of_callsOnly hcalls rfl rfl rfl)⟩
      intro hsame
      obtain ⟨rfl, rfl⟩ := hstart hsame
      exact ⟨rfl, hcalls⟩

/-- Between the pages of two regions of a batch every page has a region of the batch. -/
theorem exists_region_between {share start stop first last page : Nat} (hpos : 0 < share)
    (hfirst : ∃ region, start ≤ region ∧ region < stop ∧ region / share = first)
    (hlast : ∃ region, start ≤ region ∧ region < stop ∧ region / share = last)
    (hge : first ≤ page) (hlt : page < first + (last - first + 1)) :
    ∃ region, start ≤ region ∧ region < stop ∧ region / share = page := by
  by_cases hsame : page = first
  · exact hsame ▸ hfirst
  by_cases hend : page = last
  · exact hend ▸ hlast
  -- A page strictly between starts with a region between those of the two ends.
  obtain ⟨low, hlow, -, hlowPage⟩ := hfirst
  obtain ⟨high, -, hhigh, hhighPage⟩ := hlast
  have hbefore : low < page * share := (Nat.div_lt_iff_lt_mul hpos).mp (by omega)
  have hbehind : page * share ≤ high := (Nat.le_div_iff_mul_le hpos).mp (by omega)
  exact ⟨page * share, by omega, by omega, Nat.mul_div_cancel page hpos⟩

/-- The pages from the first to the last fresh page of a batch are backed. -/
theorem allBacked_fresh {start stop first last : Nat} {progress : Progress}
    {answers : List Answer} (books : SharedBooks regionsPerPage references mapper)
    (accounts : progress.Accounts regionsPerPage start stop answers)
    (hbits : ∀ region, start ≤ region → region < stop → mapper.committed.bit region = true)
    (hfirst : first ∈ progress.fresh) (hlast : last ∈ progress.fresh) :
    AllBacked mapper.store true first (first + (last - first + 1)) := by
  intro page hge hlt
  obtain ⟨region, hstart, hstop, rfl⟩ := exists_region_between books.share_pos
    (accounts.fresh_mem first hfirst) (accounts.fresh_mem last hlast) hge hlt
  rw [books.backed_eq, decide_eq_true (books.table.entry_pos (hbits region hstart hstop))]

/-- The pass over the fresh pages of a batch comes to its end if it stays within the machine
words. -/
theorem pretouchFresh_run {start stop : Nat} {progress : Progress} {answers : List Answer}
    (books : SharedBooks regionsPerPage references mapper) (hstop : stop ≤ mapper.committed.size)
    (accounts : progress.Accounts regionsPerPage start stop answers)
    (hbits : ∀ region, start ≤ region → region < stop → mapper.committed.bit region = true)
    (pretoucher : Option Pretoucher) :
    ∃ result store activity trace answers',
      pretouchFresh progress.fresh pretoucher mapper =
        ⟨result, (mapper.withStore store).withActivity activity, trace⟩ ∧
      SameBacking mapper.store store ∧
      Reaches mapper ((mapper.withStore store).withActivity activity) answers' trace ∧
      Without .uncommit answers' ∧ (mapper.Chunked pretoucher → result = .ok ()) := by
  unfold pretouchFresh
  cases hfirst : progress.fresh.getLast? with
  | none =>
    exact ⟨.ok (), mapper.store, mapper.activity, [], [], rfl, .refl books.store_sound,
      .refl books.store_sound, .nil, fun _ => rfl⟩
  | some first =>
    cases hlast : progress.fresh.head? with
    | none =>
      exact ⟨.ok (), mapper.store, mapper.activity, [], [], rfl, .refl books.store_sound,
        .refl books.store_sound, .nil, fun _ => rfl⟩
    | some last =>
      have hfirst := List.mem_of_mem_getLast? hfirst
      have hlast := List.mem_of_mem_head? hlast
      obtain ⟨result, store, activity, trace, answers', hrun, hsame, hreaches, hwithout, hok⟩ :=
        pretouchPages_reaches books.store_sound first (last - first + 1) pretoucher
      -- Both ends are pages of regions, so the pass stays within the pages of the store.
      refine ⟨result, store, activity, trace, answers', hrun, hsame, hreaches, hwithout, ?_⟩
      intro chunked
      apply hok (allBacked_fresh books accounts hbits hfirst hlast)
      intro worker hworker
      have hchunks := chunked worker hworker
      have hpages : ∀ page ∈ progress.fresh, page < PageStore.pages mapper.store := by
        intro page hpage
        obtain ⟨region, -, hregion, rfl⟩ := accounts.fresh_mem page hpage
        rw [← books.size_references]
        exact books.table.page_lt (Nat.lt_of_lt_of_le hregion hstop)
      have := hpages first hfirst
      have := hpages last hlast
      omega

/-- A batch commits all its regions and tells whether their pages read as zero, or it stops at one
of them with those before it done. Only a pass that leaves the machine words stops it behind the
last one. -/
theorem commitShared_run (books : SharedBooks regionsPerPage references mapper) {start count : Nat}
    (hstop : start + count ≤ mapper.committed.size)
    (hclear : ∀ region, start ≤ region → region < start + count →
      mapper.committed.bit region = false) (pretoucher : Option Pretoucher) :
    (∃ backing after trace answers,
      commitShared regionsPerPage start count pretoucher mapper = ⟨.ok backing, after, trace⟩ ∧
      BroughtTo true start (start + count) mapper after answers trace ∧
      (backing.zeroFilled = true → ∀ region, start ≤ region → region < start + count →
        ∃ answer ∈ answers, answer.Zeroes (region / regionsPerPage))) ∨
    (∃ stop after trace answers region,
      commitShared regionsPerPage start count pretoucher mapper = ⟨.error stop, after, trace⟩ ∧
      BroughtTo true start region mapper after answers trace ∧
      start ≤ region ∧ region ≤ start + count ∧
      (mapper.Chunked pretoucher → region < start + count ∧
        after.Stalls regionsPerPage region stop ∧
        (region = start → after = mapper ∧ CallsOnly trace))) := by
  rcases commitLoop_run books hstop hclear with
    ⟨progress, after, trace, hloop, ⟨answers, done, accounts⟩, -, -⟩ |
    ⟨stop, after, trace, region, hloop, hfirst, hlast, ⟨answers, done, hstalls⟩, -, -⟩
  · obtain ⟨references', books'⟩ := done.sharedBooks books
    have hbits : ∀ region, start ≤ region → region < start + count →
        after.committed.bit region = true := by
      intro region hfirst hlast
      rw [done.bit_eq, if_pos ⟨hfirst, hlast⟩]
    have hsize : start + count ≤ after.committed.size := done.reaches.size_eq ▸ hstop
    obtain ⟨result, store, activity, trace', answers', hpass, hsame, hreaches, hwithout, hok⟩ :=
      pretouchFresh_run books' hsize accounts hbits pretoucher
    have hdone := done.stay hreaches hwithout (done.sound.of_sameBacking rfl rfl hsame) rfl
    -- The pass cannot fail within the words; beyond them it fails with all regions committed.
    cases result with
    | error stop =>
      right
      refine ⟨stop, _, _, _, start + count, ?_, hdone, Nat.le_add_right _ _, Nat.le_refl _, ?_⟩
      · rw [commitShared, Op.bind_eq_after hloop, Op.bind_run_error hpass, Run.after_mk]
      · intro chunked
        cases hok (chunked.of_succeeds done.reaches.succeeds)
    | ok =>
      left
      have hend : ∃ backing, commitShared regionsPerPage start count pretoucher mapper =
          ⟨.ok backing, (after.withStore store).withActivity activity, trace ++ trace'⟩ ∧
          backing.zeroFilled = progress.zeroFilled := by
        rw [commitShared, Op.bind_eq_after hloop, Op.bind_eq_after hpass, Op.get_bind, Op.pure_run,
          Run.after_mk, Run.after_mk, List.append_nil]
        exact ⟨_, rfl, rfl⟩
      obtain ⟨backing, hend, hzero⟩ := hend
      refine ⟨backing, _, _, _, hend, hdone, ?_⟩
      intro hflag region hfirst hlast
      obtain ⟨answer, hanswer, hzeroes⟩ := accounts.zeroes (hzero ▸ hflag) region hfirst hlast
      exact ⟨answer, List.mem_append_left _ hanswer, hzeroes⟩
  · right
    exact ⟨stop, after, trace, answers, region, Op.bind_run_error hloop, done, hfirst,
      Nat.le_of_lt hlast, fun _ => ⟨hlast, hstalls⟩⟩

/-- A batch uncommits all its regions and tells how many pages less are needed, or the store refuses
to give up the page of one of them. -/
theorem uncommitShared_run (books : SharedBooks regionsPerPage references mapper)
    {start count : Nat} (hstop : start + count ≤ mapper.committed.size)
    (hset : ∀ region, start ≤ region → region < start + count →
      mapper.committed.bit region = true) :
    (∃ released after trace,
      uncommitShared regionsPerPage start count mapper = ⟨.ok released, after, trace⟩ ∧
      (∃ answers, BroughtTo false start (start + count) mapper after answers trace) ∧
      (mapper.committed.occupied regionsPerPage).card =
        (after.committed.occupied regionsPerPage).card + released ∧
      Posts mapper after 0 0 trace) ∨
    (∃ stop after trace region,
      uncommitShared regionsPerPage start count mapper = ⟨.error stop, after, trace⟩ ∧
      start ≤ region ∧ region < start + count ∧
      (∃ answers, BroughtTo false start region mapper after answers trace) ∧
      after.Sticks regionsPerPage region stop ∧ Posts mapper after 0 0 trace ∧
      StoppedByStore trace after.store stop) := by
  -- Before each index the regions so far are uncommitted; a step that stops leaves them so.
  refine Op.fold_range
    (fun region released after trace =>
      (∃ answers, BroughtTo false start region mapper after answers trace) ∧
      (mapper.committed.occupied regionsPerPage).card =
        (after.committed.occupied regionsPerPage).card + released ∧
      Posts mapper after 0 0 trace)
    (fun region stop after trace =>
      (∃ answers, BroughtTo false start region mapper after answers trace) ∧
      after.Sticks regionsPerPage region stop ∧ Posts mapper after 0 0 trace ∧
      StoppedByStore trace after.store stop) ?_ ?_
  · exact ⟨⟨[], .refl (.small _ _ books) false (Nat.le_refl start)⟩, rfl, .refl mapper⟩
  · intro region released after trace hfirst hlast hinv
    obtain ⟨⟨answers, done⟩, hcard, posts⟩ := hinv
    obtain ⟨references', books'⟩ := done.sharedBooks books
    have hregion : region < after.committed.size := by
      rw [done.reaches.size_eq]
      omega
    have htaken := done.bit_next.trans (hset region hfirst hlast)
    rcases uncommitRegion_run books' hregion htaken released with
      ⟨total, later, references'', answers', trace', hrun, books'', hreaches, hwithout, hbits, htotal,
        hposts⟩ |
      ⟨stop, trace', hrun, hreaches, hsticks, hcalls, hstopped⟩
    · refine Or.inl ⟨total, later, trace', hrun, ⟨_, done.next hfirst hregion hreaches
        (.small _ _ books'') hwithout hbits⟩, ?_, posts.trans hposts⟩
      have hwipe := Bitmap.card_occupied_wipe hregion htaken regionsPerPage
      rw [hbits, htotal]
      omega
    · exact Or.inr ⟨stop, after, trace', hrun, ⟨_,
        done.stay hreaches (.singleton (by decide) _ _ _) done.sound rfl⟩, hsticks,
        posts.trans (.of_callsOnly hcalls rfl rfl rfl), hstopped.after trace⟩

end RegionBacking.Mapper
