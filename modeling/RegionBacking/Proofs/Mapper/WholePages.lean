import RegionBacking.Mapper.WholePages
import RegionBacking.Proofs.Mapper.Books

/-!
# Batches of regions with pages of their own

The store is called once for all regions of a batch, and the bits of the regions change last. So a
batch is done as a whole, or the store stopped and nothing changed (`commitWhole_run`,
`uncommitWhole_run`).
-/

namespace RegionBacking.Mapper

variable {σ : Type} [PageStore σ] {mapper after : Mapper σ} {pagesPerRegion start count : Nat}

/-! ## Placing regions -/

/-- The regions of a batch are placed one by one, which changes the nodes only. -/
theorem placeRegions_run (mapper : Mapper σ)
    (hwords : ∀ region, start ≤ region → region < start + count →
      region * pagesPerRegion < Word.limit ∧
      PageStore.pageSize mapper.store * pagesPerRegion < Word.limit ∧
      ∃ address, PageStore.pageStart mapper.store (region * pagesPerRegion) = .ok address) :
    ∃ nodes trace, Op.forEach (List.range' start count) (placeRegion pagesPerRegion) mapper =
      ⟨.ok (), mapper.withNodes nodes, trace⟩ ∧ Silent trace ∧
      Posts mapper (mapper.withNodes nodes) count 0 trace := by
  have hloop : ∃ after trace,
      Op.forEach (List.range' start count) (placeRegion pagesPerRegion) mapper =
        ⟨.ok (), after, trace⟩ ∧ (∃ nodes, after = mapper.withNodes nodes) ∧ Silent trace ∧
      Posts mapper after (start + count - start) 0 trace := by
    -- Each step changes the nodes and nothing else, so the words are those of the start.
    apply Op.forEach_range
      (fun region after trace => (∃ nodes, after = mapper.withNodes nodes) ∧ Silent trace ∧
        Posts mapper after (region - start) 0 trace)
      ⟨⟨mapper.nodes, rfl⟩, .nil, by rw [Nat.sub_self]; exact .refl mapper⟩
    intro region after trace hfirst hlast hinv
    obtain ⟨⟨nodes, rfl⟩, hsilent, hposts⟩ := hinv
    obtain ⟨hmul, hsize, haddress⟩ := hwords region hfirst hlast
    have hpage := Word.mul_eq_ok_iff.mpr ⟨hmul, rfl⟩
    obtain ⟨nodes', trace', hrun, hsilent', hposts'⟩ := placePages_run (mapper.withNodes nodes)
      (region * pagesPerRegion) pagesPerRegion region hsize haddress
    refine ⟨_, trace', ?_, ⟨nodes', rfl⟩, hsilent.append hsilent', ?_⟩
    · rw [placeRegion, hpage, Op.checked_ok, pure_bind, hrun]
      rfl
    · rw [Nat.succ_sub hfirst]
      exact hposts.trans hposts'
  obtain ⟨after, trace, hrun, ⟨nodes, rfl⟩, hsilent, hposts⟩ := hloop
  rw [Nat.add_sub_cancel_left] at hposts
  exact ⟨nodes, trace, hrun, hsilent, hposts⟩

variable [LawfulStore σ]

/-! ## The pages of a range of regions -/

/-- A page lies in the pages of a range of regions just if its region lies in the range. -/
theorem page_mem_iff (hpos : 0 < pagesPerRegion) (page : Nat) :
    (start * pagesPerRegion ≤ page ∧ page < start * pagesPerRegion + count * pagesPerRegion) ↔
      start ≤ page / pagesPerRegion ∧ page / pagesPerRegion < start + count := by
  rw [← Nat.add_mul, Nat.le_div_iff_mul_le hpos, Nat.div_lt_iff_lt_mul hpos]

namespace WholeBooks

theorem mul_le (books : WholeBooks pagesPerRegion mapper)
    (hstop : start + count ≤ mapper.committed.size) :
    start * pagesPerRegion + count * pagesPerRegion ≤ PageStore.pages mapper.store := by
  rw [← Nat.add_mul]
  exact Nat.le_trans (Nat.mul_le_mul_right _ hstop) books.size_le

/-- The pages of a range of regions are backed as its regions are committed. -/
theorem allBacked (books : WholeBooks pagesPerRegion mapper) {status : Bool}
    (h : ∀ region, start ≤ region → region < start + count →
      mapper.committed.bit region = status) :
    AllBacked mapper.store status (start * pagesPerRegion)
      (start * pagesPerRegion + count * pagesPerRegion) := by
  intro page hfirst hlast
  have hregion := (page_mem_iff books.share_pos page).mp ⟨hfirst, hlast⟩
  rw [books.backed_eq]
  exact h _ hregion.1 hregion.2

/-- More regions with all their pages keep the books in order. -/
theorem add (books : WholeBooks pagesPerRegion mapper)
    (hstop : start + count ≤ mapper.committed.size)
    (hstrategy : after.strategy = mapper.strategy)
    (hbits : after.committed = mapper.committed.fill start (start + count))
    (hacquired : Acquired mapper.store after.store (start * pagesPerRegion)
      (start * pagesPerRegion + count * pagesPerRegion)) : WholeBooks pagesPerRegion after where
  strategy_eq := hstrategy.trans books.strategy_eq
  share_pos := books.share_pos
  pages_lt := hacquired.geometry.pages_eq ▸ books.pages_lt
  size_le := by
    rw [hbits, Bitmap.size_fill, hacquired.geometry.pages_eq]
    exact books.size_le
  tidy := hbits ▸ books.tidy.bring hstop true
  store_sound := hacquired.sound
  backed_eq page := by
    rw [hbits, Bitmap.bit_fill hstop, hacquired.backed_eq, books.backed_eq,
      decide_eq_decide.mpr (page_mem_iff books.share_pos page)]

/-- Fewer regions without any of their pages keep the books in order. -/
theorem remove (books : WholeBooks pagesPerRegion mapper)
    (hstop : start + count ≤ mapper.committed.size)
    (hstrategy : after.strategy = mapper.strategy)
    (hbits : after.committed = mapper.committed.wipe start (start + count))
    (hreleased : Released mapper.store after.store (start * pagesPerRegion)
      (start * pagesPerRegion + count * pagesPerRegion)) : WholeBooks pagesPerRegion after where
  strategy_eq := hstrategy.trans books.strategy_eq
  share_pos := books.share_pos
  pages_lt := hreleased.geometry.pages_eq ▸ books.pages_lt
  size_le := by
    rw [hbits, Bitmap.size_wipe, hreleased.geometry.pages_eq]
    exact books.size_le
  tidy := hbits ▸ books.tidy.bring hstop false
  store_sound := hreleased.sound
  backed_eq page := by
    rw [hbits, Bitmap.bit_wipe hstop, hreleased.backed_eq, books.backed_eq,
      decide_eq_decide.mpr (page_mem_iff books.share_pos page)]

end WholeBooks

/-! ## Whole batches -/

/-- The mapper after a batch of commits. -/
def doneWhole (mapper : Mapper σ) (start count : Nat) (store : σ) (nodes : Nodes)
    (activity : Activity) : Mapper σ :=
  (((mapper.withStore store).withNodes nodes).withActivity activity).withBits
    (mapper.committed.fill start (start + count))

/-- The addresses and the bytes of pages that were acquired for whole regions are words. -/
theorem wholeWords {store : σ} (books : WholeBooks pagesPerRegion mapper)
    (hstop : start + count ≤ mapper.committed.size)
    (hacquired : Acquired mapper.store store (start * pagesPerRegion)
      (start * pagesPerRegion + count * pagesPerRegion)) :
    ∀ region, start ≤ region → region < start + count →
      region * pagesPerRegion < Word.limit ∧
      PageStore.pageSize store * pagesPerRegion < Word.limit ∧
      ∃ address, PageStore.pageStart store (region * pagesPerRegion) = .ok address := by
  intro region hfirst hlast
  have hpages := books.mul_le hstop
  have hlimit := books.pages_lt
  have hregion := (page_mem_iff books.share_pos (region * pagesPerRegion)).mpr
    (by rw [Nat.mul_div_cancel _ books.share_pos]; exact ⟨hfirst, hlast⟩)
  obtain ⟨hbytes, haddress⟩ := hacquired.addressed (by omega) hpages
  refine ⟨by omega, ?_, ?_⟩
  -- The bytes of one region are no more than those up to the end of the batch.
  · have hone : pagesPerRegion ≤ start * pagesPerRegion + count * pagesPerRegion := by
      rw [← Nat.add_mul]
      exact Nat.le_mul_of_pos_left pagesPerRegion (by omega)
    have hmul := Nat.mul_le_mul_right (PageStore.pageSize mapper.store) hone
    rw [hacquired.geometry.pageSize_eq, Nat.mul_comm]
    omega
  · rw [hacquired.geometry.pageStart_eq]
    exact haddress _ hregion.1 hregion.2

/-- The pass over the pages of a batch that were backed comes to its end, and they still are. -/
theorem passWhole_run {store : σ} (books : WholeBooks pagesPerRegion mapper)
    (hstop : start + count ≤ mapper.committed.size)
    (hacquired : Acquired mapper.store store (start * pagesPerRegion)
      (start * pagesPerRegion + count * pagesPerRegion)) (nodes : Nodes)
    {pretoucher : Option Pretoucher} (chunked : mapper.Chunked pretoucher) :
    ∃ touched activity trace answers,
      pretouchPages (start * pagesPerRegion) (count * pagesPerRegion) pretoucher
          ((mapper.withStore store).withNodes nodes) =
        ⟨.ok (), ((mapper.withStore touched).withNodes nodes).withActivity activity, trace⟩ ∧
      Acquired mapper.store touched (start * pagesPerRegion)
        (start * pagesPerRegion + count * pagesPerRegion) ∧
      Reaches ((mapper.withStore store).withNodes nodes)
        (((mapper.withStore touched).withNodes nodes).withActivity activity) answers trace ∧
      Without .uncommit answers := by
  have hpages := books.mul_le hstop
  have hsound : StoreView.Sound ((mapper.withStore store).withNodes nodes).store := hacquired.sound
  obtain ⟨result, touched, activity, trace, answers, hpass, hsame, hpassed, hwithout, hok⟩ :=
    pretouchPages_reaches hsound (start * pagesPerRegion) (count * pagesPerRegion) pretoucher
  have hend : result = .ok () := by
    apply hok
    · intro page hfirst hlast
      show backed store page = true
      rw [hacquired.backed_eq, decide_eq_true ⟨hfirst, hlast⟩, Bool.or_true]
    · intro worker hworker
      have hwords := chunked worker hworker
      show _ + worker.chunkPages (PageStore.pageSize store) < _
      rw [hacquired.geometry.pageSize_eq]
      omega
  subst hend
  exact ⟨touched, activity, trace, answers, hpass, hacquired.of_sameBacking hsame, hpassed,
    hwithout⟩

/-- A batch commits all its regions and tells whether their pages read as zero, or the store stopped
and nothing changed. -/
theorem commitWhole_run (books : WholeBooks pagesPerRegion mapper)
    (hstop : start + count ≤ mapper.committed.size)
    (hclear : ∀ region, start ≤ region → region < start + count →
      mapper.committed.bit region = false) {pretoucher : Option Pretoucher}
    (chunked : mapper.Chunked pretoucher) :
    (∃ backing after trace answers,
      commitWhole pagesPerRegion start count pretoucher mapper = ⟨.ok backing, after, trace⟩ ∧
      BroughtTo true start (start + count) mapper after answers trace ∧
      (backing.zeroFilled = true → ∀ page, start ≤ page / pagesPerRegion →
        page / pagesPerRegion < start + count → ∃ answer ∈ answers, answer.Zeroes page)) ∨
    (∃ stop trace answers,
      commitWhole pagesPerRegion start count pretoucher mapper = ⟨.error stop, mapper, trace⟩ ∧
      BroughtTo true start start mapper mapper answers trace ∧ CallsOnly trace ∧
      stop.Rejects (StoreView.Fits mapper.store (start * pagesPerRegion + count * pagesPerRegion))
        (StoreView.Willing mapper.store) ∧
      (PageStore.commit (start * pagesPerRegion) (count * pagesPerRegion) mapper.store).result =
        .error stop) := by
  have hpages := books.mul_le hstop
  have hlimit := books.pages_lt
  have hfirst : Word.mul start pagesPerRegion = .ok (start * pagesPerRegion) :=
    Word.mul_eq_ok_iff.mpr ⟨by omega, rfl⟩
  have hcount : Word.mul count pagesPerRegion = .ok (count * pagesPerRegion) :=
    Word.mul_eq_ok_iff.mpr ⟨by omega, rfl⟩
  rcases commitPages_cases books.store_sound (books.allBacked hclear) with
    ⟨zeroFilled, store, trace, hrun, hacquired, hreaches, -⟩ |
    ⟨stop, trace, hrun, hreaches, hcalls, hrejects, hstopped⟩
  · left
    -- The store has backed all pages. What is left to do is silent, and the bits change last.
    obtain ⟨nodes, placed, hplace, hsilent, -⟩ := placeRegions_run (mapper.withStore store)
      (wholeWords books hstop hacquired)
    have hplaced : Reaches (mapper.withStore store) ((mapper.withStore store).withNodes nodes) []
      placed := .silently hacquired.sound hsilent rfl rfl rfl
    obtain ⟨touched, activity, passed, answers, hpass, htouched, hpassed, hwithout⟩ :=
      passWhole_run books hstop hacquired nodes chunked
    have hsteps := Bitmap.setRangeSteps_eq_ok (Nat.le_add_right start count) hstop
    have hfinal : Reaches (((mapper.withStore touched).withNodes nodes).withActivity activity)
        (mapper.doneWhole start count touched nodes activity) [] [] :=
      .silently htouched.sound .nil rfl (Bitmap.size_fill _ start (start + count)) rfl
    have hway := hreaches.trans (hplaced.trans (hpassed.trans hfinal))
    have honly : Without .uncommit _ :=
      (Without.singleton (show StoreCallKind.commit ≠ .uncommit by decide) (start * pagesPerRegion)
        (count * pagesPerRegion) zeroFilled).append (Without.nil.append (hwithout.append .nil))
    have hend : ∃ backing, commitWhole pagesPerRegion start count pretoucher mapper =
        ⟨.ok backing, mapper.doneWhole start count touched nodes activity,
          trace ++ (placed ++ (passed ++ []))⟩ ∧ backing.zeroFilled = zeroFilled := by
      rw [commitWhole, hfirst, hcount, Op.checked_ok, pure_bind, Op.checked_ok, pure_bind,
        Op.bind_eq_after hrun, Op.bind_eq_after hplace, Op.bind_eq_after hpass,
        Op.bind_eq_after (changeBits_run hsteps), Op.get_bind, Op.pure_run]
      exact ⟨_, rfl, rfl⟩
    obtain ⟨backing, hend, hflag⟩ := hend
    have hbooks : WholeBooks pagesPerRegion (mapper.doneWhole start count touched nodes activity) :=
      books.add hstop rfl rfl htouched
    refine ⟨backing, _, _, _, hend, ⟨.large _ hbooks, hway, honly, Bitmap.bit_bring hstop true⟩, ?_⟩
    intro hzero page hge hlt
    have hpage := (page_mem_iff books.share_pos page).mpr ⟨hge, hlt⟩
    exact ⟨_, List.mem_cons_self, rfl, hflag ▸ hzero, hpage.1, hpage.2⟩
  · right
    -- The store stopped, so nothing was placed, no bit was set, and no region is done.
    have hstay := (BroughtTo.refl (.large _ books) true (Nat.le_refl start)).stay hreaches
      (.singleton (by decide) _ _ _) (.large _ books) rfl
    refine ⟨stop, trace, _, ?_, hstay, hcalls, hrejects, hstopped⟩
    rw [commitWhole, hfirst, hcount, Op.checked_ok, pure_bind, Op.checked_ok, pure_bind]
    exact Op.bind_run_error hrun

/-- A batch uncommits all its regions, or the store refused and nothing changed. -/
theorem uncommitWhole_run (books : WholeBooks pagesPerRegion mapper)
    (hstop : start + count ≤ mapper.committed.size)
    (hset : ∀ region, start ≤ region → region < start + count →
      mapper.committed.bit region = true) :
    (∃ pages after trace answers,
      uncommitWhole pagesPerRegion start count mapper = ⟨.ok pages, after, trace⟩ ∧
      BroughtTo false start (start + count) mapper after answers trace ∧
      pages = count * pagesPerRegion ∧ Posts mapper after 0 0 trace) ∨
    (∃ stop trace answers,
      uncommitWhole pagesPerRegion start count mapper = ⟨.error stop, mapper, trace⟩ ∧
      BroughtTo false start start mapper mapper answers trace ∧
      0 < count ∧ stop.Rejects True (StoreView.Willing mapper.store) ∧ CallsOnly trace ∧
      (PageStore.uncommit (start * pagesPerRegion) (count * pagesPerRegion) mapper.store).result =
        .error stop) := by
  have hpages := books.mul_le hstop
  have hlimit := books.pages_lt
  have hfirst : Word.mul start pagesPerRegion = .ok (start * pagesPerRegion) :=
    Word.mul_eq_ok_iff.mpr ⟨by omega, rfl⟩
  have hcount : Word.mul count pagesPerRegion = .ok (count * pagesPerRegion) :=
    Word.mul_eq_ok_iff.mpr ⟨by omega, rfl⟩
  rcases uncommitPages_cases books.store_sound (books.allBacked hset) with
    ⟨store, trace, hrun, hreleased, hreaches, hcalls⟩ |
    ⟨stop, trace, hrun, hreaches, hcalls, hpos, hrejects, hstopped⟩
  · left
    have hsteps := Bitmap.clearRangeSteps_eq_ok (Nat.le_add_right start count) hstop
    have hfinal : Reaches (mapper.withStore store) ((mapper.withStore store).withBits
        (mapper.committed.wipe start (start + count))) [] [] :=
      .silently hreleased.sound .nil rfl (Bitmap.size_wipe _ start (start + count)) rfl
    have hbooks : WholeBooks pagesPerRegion ((mapper.withStore store).withBits
        (mapper.committed.wipe start (start + count))) := books.remove hstop rfl rfl hreleased
    have hcalled : Posts mapper (mapper.withStore store) 0 0 trace :=
      .of_callsOnly hcalls rfl rfl rfl
    refine ⟨count * pagesPerRegion, _, _, _, ?_, ⟨.large _ hbooks, hreaches.trans hfinal,
      (Without.singleton (by decide) _ _ _).append .nil, Bitmap.bit_bring hstop false⟩, rfl,
      hcalled.trans (posts_withBits _ _)⟩
    rw [uncommitWhole, hfirst, hcount, Op.checked_ok, pure_bind, Op.checked_ok, pure_bind,
      Op.bind_eq_after hrun, Op.bind_eq_after (changeBits_run hsteps), Op.pure_run]
    rfl
  · right
    -- The store refused, so no bit was cleared and no region is done.
    have hstay := (BroughtTo.refl (.large _ books) false (Nat.le_refl start)).stay hreaches
      (.singleton (by decide) _ _ _) (.large _ books) rfl
    refine ⟨stop, trace, _, ?_, hstay, Nat.pos_of_mul_pos_right hpos, hrejects, hcalls, hstopped⟩
    rw [uncommitWhole, hfirst, hcount, Op.checked_ok, pure_bind, Op.checked_ok, pure_bind]
    exact Op.bind_run_error hrun

end RegionBacking.Mapper
