import RegionBacking.Proofs.Mapper.Alike
import RegionBacking.Proofs.Mapper.SharedPages
import RegionBacking.Proofs.Mapper.WholePages

/-!
# Batches of regions of one page

Where a region takes up just one page, both strategies fit: a page has one region, and a region has
the page of its number. One strategy commits the pages of a batch at once and places them
afterwards, the other one goes through the regions one by one. Both leave the mapper that `stocked`
names, with the bits of the regions set, unless a request is refused; and both pretouch the same
range of pages then. So their batches agree (`commitOnePage_agrees`, `uncommitOnePage_agrees`).
-/

namespace RegionBacking

namespace PageSpace

variable {space other : PageSpace} {start stop page : Nat}

/-- No page of a range is dirty. -/
def Clean (space : PageSpace) (start stop : Nat) : Prop :=
  ∀ page, start ≤ page → page < stop → space.dirty.bit page = false

theorem clean_self (space : PageSpace) (start : Nat) : space.Clean start start :=
  fun _ hfirst hlast => absurd hfirst (Nat.not_le.mpr hlast)

theorem clean_succ_iff (h : start ≤ page) :
    space.Clean start (page + 1) ↔ space.Clean start page ∧ space.Clean page (page + 1) := by
  constructor
  · intro clean
    exact ⟨fun other hfirst hlast => clean other hfirst (Nat.lt_succ_of_lt hlast),
      fun other hfirst hlast => clean other (Nat.le_trans h hfirst) hlast⟩
  · intro clean other hfirst hlast
    rcases Nat.lt_or_ge other page with hbefore | hafter
    · exact clean.1 other hfirst hbefore
    · exact clean.2 other hafter hlast

theorem Alike.clean_iff (alike : space.Alike other) : other.Clean start stop ↔
    space.Clean start stop := by
  rw [Clean, Clean, alike.dirty_eq]

/-- A commit leaves the pages behind its range as clean as they were. -/
theorem clean_acquired_iff (sound : space.Sound) (hstop : page ≤ space.committablePages) :
    (space.acquired start page).Clean page stop ↔ space.Clean page stop := by
  unfold Clean
  refine forall_congr' fun other => forall_congr' fun hfirst => ?_
  have hout : ¬ (start ≤ other ∧ other < page) := fun hin => Nat.not_lt.mpr hfirst hin.2
  rw [bit_dirty_acquired sound hstop, decide_eq_false hout, Bool.and_false, Bool.not_false,
    Bool.and_true]

end PageSpace

namespace Mapper

variable {mapper other after : Mapper PageSpace} {start stop count page region : Nat}
  {references : GranuleTable}

/-! ## Placing pages one by one -/

/-- The requests to place the pages `[start, stop)`, each for the region of its number. -/
def placements (mapper : Mapper PageSpace) (start stop : Nat) : List Placement :=
  if mapper.memoryKind.isPlaced then
    (List.range' start (stop - start)).map fun page =>
      ⟨mapper.store.firstAddress page, mapper.store.pageSize, page⟩
  else []

/-- The nodes after the pages `[start, stop)` were placed. -/
def placedNodes (mapper : Mapper PageSpace) (start stop : Nat) : Nodes :=
  (mapper.placements start stop).foldl Nodes.request mapper.nodes

/-- The placements are told from the layout and the kind of the memory. -/
theorem placements_congr (same : PageSpace.SameLayout mapper.store other.store)
    (hkind : other.memoryKind = mapper.memoryKind) (start stop : Nat) :
    other.placements start stop = mapper.placements start stop := by
  have haddress := funext same.firstAddress_eq
  rw [placements, placements, hkind, same.pageSize_eq, haddress]

theorem placements_self (mapper : Mapper PageSpace) (start : Nat) :
    mapper.placements start start = [] := by
  rw [placements, Nat.sub_self]
  split <;> rfl

theorem placements_succ (mapper : Mapper PageSpace) (h : start ≤ page) :
    mapper.placements start (page + 1) =
      mapper.placements start page ++ mapper.placements page (page + 1) := by
  have hnext : page + 1 - start = page - start + 1 := by omega
  have hlast : start + (page - start) = page := by omega
  unfold placements
  split
  · rw [hnext, List.range'_1_concat, hlast, List.map_append, Nat.add_sub_cancel_left]
    rfl
  · rfl

/-- The nodes go along with the placements. -/
theorem placedNodes_succ (mapper : Mapper PageSpace) (h : start ≤ page) :
    mapper.placedNodes start (page + 1) =
      (mapper.placements page (page + 1)).foldl Nodes.request (mapper.placedNodes start page) := by
  rw [placedNodes, placements_succ mapper h, List.foldl_append, placedNodes]

theorem filter_isSeen_placements (placements : List Placement) :
    (placements.map Effect.placement).filter Effect.isSeen = placements.map Effect.placement := by
  apply List.filter_eq_self.mpr
  intro effect heffect
  obtain ⟨placement, -, rfl⟩ := List.mem_map.mp heffect
  rfl

/-- One page is placed for the region of its number. -/
theorem placePages_one (mapper : Mapper PageSpace) (hsize : mapper.store.pageSize < Word.limit)
    (haddress : mapper.store.firstAddress page < Word.limit) :
    placePages page 1 page mapper =
      ⟨.ok (), mapper.withNodes (mapper.placedNodes page (page + 1)),
        (mapper.placements page (page + 1)).map .placement⟩ := by
  have hmul : Word.mul (PageStore.pageSize mapper.store) 1 = .ok mapper.store.pageSize :=
    Word.mul_one_eq_ok hsize
  have hstart : PageStore.pageStart mapper.store page = .ok (mapper.store.firstAddress page) :=
    PageSpace.pageStart_eq_ok haddress
  unfold placePages placedNodes placements
  rw [Op.get_bind, Nat.add_sub_cancel_left]
  cases mapper.memoryKind.isPlaced with
  | false => rfl
  | true =>
    rw [if_pos rfl, if_pos rfl, hmul, hstart]
    rfl

/-- The regions of a batch are placed one by one. -/
theorem placeRegions_one (hsize : mapper.store.pageSize < Word.limit)
    (haddress : mapper.store.firstAddress (start + count) < Word.limit)
    (hword : start + count ≤ Word.limit) :
    Op.forEach (List.range' start count) (placeRegion 1) mapper =
      ⟨.ok (), mapper.withNodes (mapper.placedNodes start (start + count)),
        (mapper.placements start (start + count)).map .placement⟩ := by
  have hloop : ∃ after trace, Op.forEach (List.range' start count) (placeRegion 1) mapper =
      ⟨.ok (), after, trace⟩ ∧ after = mapper.withNodes (mapper.placedNodes start (start + count)) ∧
        trace = (mapper.placements start (start + count)).map .placement := by
    apply Op.forEach_range
      (fun page after trace => after = mapper.withNodes (mapper.placedNodes start page) ∧
        trace = (mapper.placements start page).map .placement)
    · rw [placedNodes, placements_self]
      exact ⟨rfl, rfl⟩
    · intro page after trace hfirst hlast hinv
      obtain ⟨rfl, rfl⟩ := hinv
      have hmul : Word.mul page 1 = .ok page := Word.mul_one_eq_ok (by omega)
      have hpage :=
        Nat.lt_of_le_of_lt (mapper.store.firstAddress_mono (Nat.le_of_lt hlast)) haddress
      have hplace :=
        placePages_one (mapper.withNodes (mapper.placedNodes start page)) hsize hpage
      have hrun : placeRegion 1 page (mapper.withNodes (mapper.placedNodes start page)) =
          ⟨.ok (), mapper.withNodes (mapper.placedNodes start (page + 1)),
            (mapper.placements page (page + 1)).map .placement⟩ := by
        rw [placeRegion, hmul, Op.checked_ok, pure_bind, placedNodes_succ mapper hfirst]
        exact hplace
      exact ⟨_, _, hrun, rfl, by rw [placements_succ mapper hfirst, List.map_append]⟩
  obtain ⟨after, trace, hrun, rfl, rfl⟩ := hloop
  exact hrun

/-! ## Requests for a legal range -/

theorem commitPages_legal (legal : mapper.store.Legal false start (start + count))
    (sound : mapper.store.Sound) (hcount : 0 < count) :
    (∃ zeroFilled trace,
      commitPages start count mapper =
        ⟨.ok zeroFilled, mapper.withStore (mapper.store.acquired start (start + count)), trace⟩ ∧
      trace.filter Effect.isSeen = [] ∧
      (zeroFilled = true ↔ mapper.store.Clean start (start + count))) ∨
    (∃ refusal trace,
      commitPages start count mapper = ⟨.error (.error refusal), mapper, trace⟩) := by
  have hpages := commitPages_run start count mapper
  rcases legal.commit_run sound hcount with
    ⟨zeroFilled, trace, hrun, asks, hclean⟩ | ⟨refusal, trace, hrun, -⟩
  · rw [show PageStore.commit start count mapper.store = _ from hrun] at hpages
    exact .inl ⟨zeroFilled, _, hpages, asks.quiet.filter_isSeen, hclean⟩
  · rw [show PageStore.commit start count mapper.store = _ from hrun] at hpages
    exact .inr ⟨refusal, _, hpages⟩

theorem uncommitPages_legal (legal : mapper.store.Legal true start (start + count))
    (sound : mapper.store.Sound) (hcount : 0 < count) :
    (∃ trace,
      uncommitPages start count mapper =
        ⟨.ok (), mapper.withStore (mapper.store.released start (start + count)), trace⟩ ∧
      trace.filter Effect.isSeen = []) ∨
    (∃ refusal trace,
      uncommitPages start count mapper = ⟨.error (.error refusal), mapper, trace⟩) := by
  have hpages := uncommitPages_run start count mapper
  rcases legal.uncommit_run sound hcount with ⟨trace, hrun, asks⟩ | ⟨refusal, trace, hrun, -⟩
  · rw [show PageStore.uncommit start count mapper.store = _ from hrun] at hpages
    exact .inl ⟨_, hpages, asks.quiet.filter_isSeen⟩
  · rw [show PageStore.uncommit start count mapper.store = _ from hrun] at hpages
    exact .inr ⟨refusal, _, hpages⟩

/-- The pages of regions are committed as the regions are. -/
theorem WholeBooks.bit_eq (books : WholeBooks 1 mapper) {status : Bool}
    (ready : mapper.Ready status start count) :
    ∀ page, start ≤ page → page < start + count → mapper.store.committed.bit page = status := by
  have hbacked := books.allBacked ready.bit_eq
  rw [Nat.mul_one, Nat.mul_one] at hbacked
  exact PageSpace.bit_of_allBacked books.store_sound hbacked

/-- A page counts its only region. -/
theorem SharedBooks.entry_one (books : SharedBooks 1 references mapper)
    (hregion : region < mapper.committed.size) :
    references.entry (region / 1) = (mapper.committed.bit region).toNat := by
  have hle := mapper.committed.residents_le Nat.one_pos (region / 1)
  rw [← books.entry_eq] at hle
  cases hbit : mapper.committed.bit region with
  | false => exact Nat.lt_one_iff.mp (books.table.entry_lt hregion hbit)
  | true => exact Nat.le_antisymm hle (books.table.entry_pos hbit)

/-- A page is committed as its only region is. -/
theorem SharedBooks.bit_one (books : SharedBooks 1 references mapper)
    (hregion : region < mapper.committed.size) :
    ∀ page, region ≤ page → page < region + 1 →
      mapper.store.committed.bit page = mapper.committed.bit region := by
  intro page hfirst hlast
  obtain rfl : page = region := by omega
  have hsound : mapper.store.Sound := books.store_sound
  have hbacked : mapper.store.isCommitted page = _ := books.backed_eq page
  rw [← hsound.isCommitted_eq, hbacked, ← Nat.div_one page, books.entry_one hregion, Nat.div_one]
  cases mapper.committed.bit page <;> rfl

/-! ## Committing one region after the other -/

/-- The mapper after the pages `[start, stop)` were committed and placed. -/
def stocked (mapper : Mapper PageSpace) (start stop : Nat) : Mapper PageSpace :=
  (mapper.withStore (mapper.store.acquired start stop)).withNodes (mapper.placedNodes start stop)

/-- One page is committed and placed, unless it is refused. -/
theorem acquirePage_one (legal : mapper.store.Legal false page (page + 1))
    (sound : mapper.store.Sound) (progress : Progress) :
    (∃ zeroFilled trace,
      acquirePage page page progress mapper =
        ⟨.ok ⟨page :: progress.fresh, progress.zeroFilled && zeroFilled⟩,
          mapper.stocked page (page + 1), trace⟩ ∧
      (zeroFilled = true ↔ mapper.store.Clean page (page + 1)) ∧
      trace.filter Effect.isSeen = (mapper.placements page (page + 1)).map .placement) ∨
    (∃ refusal trace,
      acquirePage page page progress mapper = ⟨.error (.error refusal), mapper, trace⟩) := by
  rcases commitPages_legal legal sound Nat.one_pos with
    ⟨zeroFilled, shown, hcommit, hseen, hclean⟩ | ⟨refusal, shown, hrefused⟩
  · left
    have hsize := legal.pageSize_lt (Nat.succ_pos page)
    have haddress := (legal.toFits.mono (Nat.le_succ page)).lt_limit
    have hplace :=
      placePages_one (mapper.withStore (mapper.store.acquired page (page + 1))) hsize haddress
    have hacquire : acquirePage page page progress mapper =
        ⟨.ok ⟨page :: progress.fresh, progress.zeroFilled && zeroFilled⟩,
          mapper.stocked page (page + 1),
          shown ++ ((mapper.placements page (page + 1)).map .placement ++
            [.record (.pageAcquired page ((mapper.stocked page (page + 1)).pageAddress page)
              page)])⟩ := by
      rw [acquirePage, Op.bind_eq_after hcommit, Op.bind_eq_after hplace, Op.get_bind,
        Op.note_bind, Op.pure_run]
      rfl
    refine ⟨zeroFilled, _, hacquire, hclean, ?_⟩
    rw [List.filter_append, List.filter_append, hseen, filter_isSeen_placements]
    exact List.append_nil _
  · exact .inr ⟨refusal, shown, Op.bind_run_error hrefused⟩

/-- A region with a page of its own is committed by committing and placing that page, unless the
page is refused. -/
theorem SharedBooks.commitRegion_one (books : SharedBooks 1 references mapper)
    (hregion : region < mapper.committed.size) (hclear : mapper.committed.bit region = false)
    (fits : mapper.store.Fits (region + 1)) (progress : Progress) :
    (∃ zeroFilled trace,
      commitRegion 1 progress region mapper =
        ⟨.ok ⟨region :: progress.fresh, progress.zeroFilled && zeroFilled⟩,
          (mapper.stocked region (region + 1)).withRegion true 1 references region
            (references.entry (region / 1) + 1), trace⟩ ∧
      (∃ references', SharedBooks 1 references'
        ((mapper.stocked region (region + 1)).withRegion true 1 references region
          (references.entry (region / 1) + 1))) ∧
      (zeroFilled = true ↔ mapper.store.Clean region (region + 1)) ∧
      trace.filter Effect.isSeen = (mapper.placements region (region + 1)).map .placement) ∨
    (∃ refusal after trace,
      commitRegion 1 progress region mapper = ⟨.error (.error refusal), after, trace⟩) := by
  have hpage := books.table.page_lt hregion
  have hentry := books.entry_one hregion
  rw [hclear, Bool.toNat_false] at hentry
  have hroom : references.entry (region / 1) + 1 < entryLimit := by
    rw [hentry]
    decide
  have legal : mapper.store.Legal false region (region + 1) :=
    ⟨fits, hclear ▸ books.bit_one hregion⟩
  have hread := readReferences_run books.strategy_eq hpage
  have hcommitted := commitRegion_run books hregion hclear progress
  unfold commitRegion at hcommitted ⊢
  simp only [] at hcommitted ⊢
  rw [Op.bind_eq_after hread, Run.after_nil, if_pos hentry] at hcommitted ⊢
  simp only [if_pos hroom] at hcommitted ⊢
  have hown : acquirePage region region progress mapper =
      acquirePage (region / 1) region progress mapper := by rw [Nat.div_one]
  rcases acquirePage_one legal books.store_sound progress with
    ⟨zeroFilled, shown, hacquire, hclean, hseen⟩ | ⟨refusal, shown, hrefused⟩
  · left
    have hstrategy : (mapper.stocked region (region + 1)).strategy = .small 1 references :=
      books.strategy_eq
    rw [hown] at hacquire
    rw [Op.bind_eq_after hacquire, setRegion_run hstrategy hpage hregion, Run.after_mk,
      List.append_nil] at hcommitted ⊢
    refine ⟨zeroFilled, _, rfl, ?_, hclean, hseen⟩
    rcases hcommitted with ⟨_, _, references', _, _, hrun, hbooks, -⟩ | ⟨_, _, _, hrun, -⟩
    · cases hrun
      exact ⟨references', hbooks⟩
    · cases hrun
  · rw [hown] at hrefused
    exact .inr ⟨refusal, mapper, shown, Op.bind_run_error hrefused⟩

/-- A mapper that began like another one has committed the regions `[start, region)` one by one. -/
structure Filled (mapper : Mapper PageSpace) (start region : Nat) (progress : Progress)
    (after : Mapper PageSpace) (trace : List Effect) : Prop extends SameSettings mapper after where
  books : ∃ references, SharedBooks 1 references after
  store : (mapper.store.acquired start region).Alike after.store
  committed_eq : after.committed = mapper.committed.fill start region
  nodes_eq : after.nodes = mapper.placedNodes start region
  fresh_eq : progress.fresh = (List.range' start (region - start)).reverse
  zeroFilled_iff : progress.zeroFilled = true ↔ mapper.store.Clean start region
  seen_eq : trace.filter Effect.isSeen = (mapper.placements start region).map .placement

/-- Nothing is committed yet. -/
theorem Filled.begin (alike : mapper.Alike other) (books : SharedBooks 1 references other)
    (start : Nat) : Filled mapper start start .start other [] where
  toSameSettings := alike.toSameSettings
  books := ⟨references, books⟩
  store := (mapper.store.acquired_self start).symm.trans alike.store
  committed_eq := by
    rw [Bitmap.fill, Bitmap.bring_of_le _ (Nat.le_refl start), alike.committed_eq]
  nodes_eq := by
    rw [placedNodes, placements_self, alike.nodes_eq]
    rfl
  fresh_eq := by
    rw [Nat.sub_self]
    rfl
  zeroFilled_iff := ⟨fun _ => mapper.store.clean_self start, fun _ => rfl⟩
  seen_eq := by
    rw [placements_self]
    rfl

/-- The next region is committed as the ones before it were, unless its page is refused. -/
theorem Filled.next {progress : Progress} {trace : List Effect}
    (filled : Filled mapper start region progress after trace) (sound : mapper.store.Sound)
    (hfirst : start ≤ region) (hregion : region < mapper.committed.size)
    (hclear : mapper.committed.bit region = false) (fits : mapper.store.Fits (region + 1)) :
    (∃ next later shown, commitRegion 1 progress region after = ⟨.ok next, later, shown⟩ ∧
      Filled mapper start (region + 1) next later (trace ++ shown)) ∨
    (∃ refusal later shown,
      commitRegion 1 progress region after = ⟨.error (.error refusal), later, shown⟩) := by
  obtain ⟨references, books⟩ := filled.books
  have hbits := filled.committed_eq
  have same : PageSpace.SameLayout mapper.store after.store :=
    ⟨filled.store.reservation_eq, filled.store.usedSize_eq, filled.store.pinned_eq⟩
  have hplaced := placements_congr same filled.memoryKind_eq region (region + 1)
  have hregion' : region < after.committed.size := by rwa [hbits, Bitmap.size_fill]
  have hout : ¬ (start ≤ region ∧ region < region) := by omega
  have hfree : after.committed.bit region = false := by
    rw [hbits, Bitmap.bit_fill (Nat.le_of_lt hregion), hclear, decide_eq_false hout, Bool.or_false]
  have hfits := filled.store.fits ⟨fits.le_committable, fits.lt_limit⟩
  refine Or.imp_left ?_ (books.commitRegion_one hregion' hfree hfits progress)
  intro hnext
  obtain ⟨zeroFilled, shown, hrun, hbooks, hclean, hseen⟩ := hnext
  refine ⟨_, _, shown, hrun, ?_⟩
  constructor
  case toSameSettings =>
    exact ⟨filled.regionSize_eq, filled.memoryKind_eq, filled.alwaysPretouch_eq,
      filled.activity_eq, filled.listener_eq⟩
  case books => exact hbooks
  case store =>
    exact (PageSpace.acquired_parts sound hfirst (Nat.lt_succ_self region)
      fits.le_committable).trans (filled.store.acquired region (region + 1))
  case committed_eq =>
    show after.committed.fill region (region + 1) = mapper.committed.fill start (region + 1)
    rw [hbits]
    exact Bitmap.bring_bring hfirst (Nat.le_succ region) hregion true
  case nodes_eq =>
    show after.placedNodes region (region + 1) = mapper.placedNodes start (region + 1)
    rw [placedNodes, hplaced, filled.nodes_eq, placedNodes_succ mapper hfirst]
  case fresh_eq =>
    have hnext : region + 1 - start = region - start + 1 := by omega
    have hlast : start + (region - start) = region := by omega
    rw [filled.fresh_eq, hnext, List.range'_1_concat, hlast, List.reverse_append]
    rfl
  case zeroFilled_iff =>
    -- The page was not committed by this batch, so it is as clean as it was at first.
    have hcommittable := Nat.le_of_succ_le fits.le_committable
    rw [Bool.and_eq_true, filled.zeroFilled_iff, hclean, filled.store.clean_iff,
      PageSpace.clean_acquired_iff sound hcommittable, PageSpace.clean_succ_iff hfirst]
  case seen_eq =>
    rw [List.filter_append, filled.seen_eq, hseen, hplaced, ← List.map_append,
      ← placements_succ mapper hfirst]

/-- The regions of a batch are committed one by one, unless a page is refused. -/
theorem commitLoop_filled (alike : mapper.Alike other) (sound : mapper.store.Sound)
    (books : SharedBooks 1 references other) (ready : mapper.Ready false start count)
    (fits : mapper.store.Fits (start + count)) :
    (∃ progress after trace,
      Op.fold (commitRegion 1) Progress.start (List.range' start count) other =
        ⟨.ok progress, after, trace⟩ ∧
      Filled mapper start (start + count) progress after trace) ∨
    (∃ refusal after trace,
      Op.fold (commitRegion 1) Progress.start (List.range' start count) other =
        ⟨.error (.error refusal), after, trace⟩) := by
  apply Op.fold_range_or_error (Filled mapper start) (.begin alike books start)
  intro region progress after trace hfirst hlast filled
  exact filled.next sound hfirst (Nat.lt_of_lt_of_le hlast ready.le_size)
    (ready.bit_eq region hfirst hlast) (fits.mono hlast)

/-! ## Committing all pages at once -/

/-- With one page for a region there is nothing to multiply. -/
theorem commitWhole_one (hword : start + count < Word.limit) (pretoucher : Option Pretoucher) :
    commitWhole 1 start count pretoucher mapper =
      (do
        let zeroFilled ← commitPages start count
        Op.forEach (List.range' start count) (placeRegion 1)
        pretouchPages start count pretoucher
        changeBits fun bits => bits.setRangeSteps start (start + count)
        let mapper ← Op.get
        let placements := if mapper.memoryKind.isPlaced then count else 0
        pure ⟨count, zeroFilled, placements, placements * PageStore.pageSize mapper.store⟩ :
          Op Refusal (Mapper PageSpace) Backing) mapper := by
  have hstart : Word.mul start 1 = .ok start := Word.mul_one_eq_ok (by omega)
  have hcount : Word.mul count 1 = .ok count := Word.mul_one_eq_ok (by omega)
  rw [commitWhole, hstart, hcount]
  simp only [Op.checked_ok, pure_bind, Nat.mul_one]

/-- The fresh pages of a batch are those of its range, so that is the range of the pass. -/
theorem pretouchFresh_range (hcount : 0 < count) (pretoucher : Option Pretoucher) :
    (pretouchFresh (List.range' start count).reverse pretoucher :
      Op Refusal (Mapper PageSpace) Unit) = pretouchPages start count pretoucher := by
  have hfirst : (List.range' start count).reverse.getLast? = some start := by
    rw [List.getLast?_reverse, List.head?_range', if_neg (Nat.ne_of_gt hcount)]
  have hlast : (List.range' start count).reverse.head? = some (start + count - 1) := by
    rw [List.head?_reverse, List.getLast?_range', if_neg (Nat.ne_of_gt hcount)]
  have hlength : start + count - 1 - start + 1 = count := by omega
  unfold pretouchFresh
  rw [hfirst, hlast]
  simp only [hlength]

/-- The range of a batch of regions is a range of words. -/
theorem WholeBooks.lt_word (books : WholeBooks 1 mapper)
    (hstop : start + count ≤ mapper.committed.size) : start + count < Word.limit := by
  have hpages := books.mul_le hstop
  have hlimit := books.pages_lt
  omega

/-- The pages of a batch are backed when they are pretouched, so the pass comes to its end. -/
theorem WholeBooks.pretouch_stocked (books : WholeBooks 1 mapper)
    (ready : mapper.Ready false start count)
    (legal : mapper.store.Legal false start (start + count)) (hcount : 0 < count)
    {pretoucher : Option Pretoucher} (chunked : mapper.Chunked pretoucher) :
    (pretouchPages start count pretoucher (mapper.stocked start (start + count))).result =
      .ok () := by
  have hacquired : Acquired mapper.store (mapper.store.acquired start (start + count)) (start * 1)
      (start * 1 + count * 1) := by
    rw [Nat.mul_one, Nat.mul_one]
    exact PageSpace.acquired_acquired books.store_sound hcount legal
  obtain ⟨_, _, _, _, hrun, -⟩ := passWhole_run books ready.le_size hacquired
    (mapper.placedNodes start (start + count)) chunked
  rw [Nat.mul_one, Nat.mul_one] at hrun
  exact congrArg Run.result hrun

/-- A batch of commits agrees under both strategies, unless a page is refused. -/
theorem commitOnePage_agrees (alike : mapper.Alike other) (whole : WholeBooks 1 mapper)
    (shared : SharedBooks 1 references other) (hcount : 0 < count)
    (ready : mapper.Ready false start count) (fits : mapper.store.Fits (start + count))
    {pretoucher : Option Pretoucher} (chunked : mapper.Chunked pretoucher)
    (hgranted : (commitWhole 1 start count pretoucher mapper).Granted)
    (hgranted' : (commitShared 1 start count pretoucher other).Granted) :
    Agrees (commitWhole 1 start count pretoucher mapper)
      (commitShared 1 start count pretoucher other) := by
  have hsound : mapper.store.Sound := whole.store_sound
  have legal : mapper.store.Legal false start (start + count) := ⟨fits, whole.bit_eq ready⟩
  have hlimit := fits.lt_limit
  rw [commitWhole_one (whole.lt_word ready.le_size)] at hgranted ⊢
  unfold commitShared at hgranted' ⊢
  rcases commitPages_legal legal hsound hcount with
    ⟨zeroFilled, shown, hcommit, hseen, hclean⟩ | ⟨refusal, shown, hrefused⟩
  case inr => exact absurd (congrArg Run.result hrefused) (Op.granted_of_bind hgranted refusal)
  rcases commitLoop_filled alike hsound shared ready fits with
    ⟨progress, after, trace, hloop, filled⟩ | ⟨refusal, after, trace, hrefused⟩
  case inr => exact absurd (congrArg Run.result hrefused) (Op.granted_of_bind hgranted' refusal)
  have hsize := fits.pageSize_lt (show 0 < start + count by omega)
  have hplace : Op.forEach (List.range' start count) (placeRegion 1)
      (mapper.withStore (mapper.store.acquired start (start + count))) =
        ⟨.ok (), mapper.stocked start (start + count),
          (mapper.placements start (start + count)).map .placement⟩ :=
    placeRegions_one hsize hlimit (Nat.le_of_lt (whole.lt_word ready.le_size))
  obtain ⟨result, store, store', activity, passed, passed', hpass, hpass', hstore, hpassed⟩ :=
    pretouchPages_alike (mapper.stocked start (start + count)) after filled.store
      filled.alwaysPretouch_eq filled.activity_eq start count pretoucher
  obtain rfl : result = .ok () :=
    (congrArg Run.result hpass).symm.trans (whole.pretouch_stocked ready legal hcount chunked)
  have hsteps := Bitmap.setRangeSteps_eq_ok (Nat.le_add_right start count) ready.le_size
  have hpages : progress.fresh = (List.range' start count).reverse := by
    rw [filled.fresh_eq, Nat.add_sub_cancel_left]
  have hzero : progress.zeroFilled = zeroFilled := by
    rw [Bool.eq_iff_iff, filled.zeroFilled_iff, hclean]
  rw [Op.bind_eq_after hcommit, Op.bind_eq_after hplace, Op.bind_eq_after hpass,
    Op.bind_eq_after (changeBits_run hsteps), Op.get_bind, Op.pure_run, Op.bind_eq_after hloop,
    hpages, pretouchFresh_range hcount, Op.bind_eq_after hpass', Op.get_bind, Op.pure_run]
  constructor
  case result_eq =>
    show Except.ok (⟨(List.range' start count).reverse.length, progress.zeroFilled,
        if after.memoryKind.isPlaced then (List.range' start count).reverse.length else 0,
        (if after.memoryKind.isPlaced then (List.range' start count).reverse.length else 0) *
          store'.pageSize⟩ : Backing) =
      .ok ⟨count, zeroFilled, if mapper.memoryKind.isPlaced then count else 0,
        (if mapper.memoryKind.isPlaced then count else 0) * store.pageSize⟩
    rw [List.length_reverse, List.length_range', hzero, filled.memoryKind_eq, hstore.pageSize_eq]
  case related =>
    exact ⟨⟨filled.regionSize_eq, filled.memoryKind_eq, filled.alwaysPretouch_eq, rfl,
      filled.listener_eq⟩, hstore, filled.committed_eq, filled.nodes_eq⟩
  case seen_eq =>
    simp only [Run.after_mk, List.filter_append, List.append_nil, List.nil_append, filled.seen_eq,
      hseen, hpassed, filter_isSeen_placements]

/-! ## Uncommitting one region after the other -/

/-- One page is given up, unless that is refused. -/
theorem releasePage_one (legal : mapper.store.Legal true page (page + 1))
    (sound : mapper.store.Sound) :
    (∃ trace,
      releasePage page page mapper =
        ⟨.ok (), mapper.withStore (mapper.store.released page (page + 1)), trace⟩ ∧
      trace.filter Effect.isSeen = []) ∨
    (∃ refusal trace,
      releasePage page page mapper = ⟨.error (.error refusal), mapper, trace⟩) := by
  rcases uncommitPages_legal legal sound Nat.one_pos with
    ⟨shown, huncommit, hseen⟩ | ⟨refusal, shown, hrefused⟩
  · left
    have hrelease : releasePage page page mapper =
        ⟨.ok (), mapper.withStore (mapper.store.released page (page + 1)),
          shown ++ [.record (.pageReleased page
            ((mapper.withStore (mapper.store.released page (page + 1))).pageAddress page)
            page)]⟩ := by
      rw [releasePage, Op.bind_eq_after huncommit, Op.get_bind, Op.note_run]
      rfl
    refine ⟨_, hrelease, ?_⟩
    rw [List.filter_append, hseen]
    rfl
  · exact .inr ⟨refusal, shown, Op.bind_run_error hrefused⟩

/-- A region with a page of its own is uncommitted by giving that page up, unless that is
refused. -/
theorem SharedBooks.uncommitRegion_one (books : SharedBooks 1 references mapper)
    (hregion : region < mapper.committed.size) (hset : mapper.committed.bit region = true)
    (released : Nat) :
    (∃ trace,
      uncommitRegion 1 released region mapper =
        ⟨.ok (released + 1),
          (mapper.withStore (mapper.store.released region (region + 1))).withRegion false 1
            references region (references.entry (region / 1) - 1), trace⟩ ∧
      (∃ references', SharedBooks 1 references'
        ((mapper.withStore (mapper.store.released region (region + 1))).withRegion false 1
          references region (references.entry (region / 1) - 1))) ∧
      trace.filter Effect.isSeen = []) ∨
    (∃ refusal after trace,
      uncommitRegion 1 released region mapper = ⟨.error (.error refusal), after, trace⟩) := by
  have hsound : mapper.store.Sound := books.store_sound
  have hpage := books.table.page_lt hregion
  have hentry := books.entry_one hregion
  rw [hset, Bool.toNat_true] at hentry
  have legal : mapper.store.Legal true region (region + 1) :=
    hsound.legal_of_set (Nat.lt_succ_self region) (hset ▸ books.bit_one hregion)
  have hread := readReferences_run books.strategy_eq hpage
  have hreferred : (references.entry (region / 1) != 0) = true := by
    rw [hentry]
    rfl
  have huncommitted := uncommitRegion_run books hregion hset released
  unfold uncommitRegion at huncommitted ⊢
  simp only [] at huncommitted ⊢
  rw [Op.bind_eq_after hread, Run.after_nil, hreferred, Op.require_true, pure_bind,
    if_pos hentry, if_pos hentry] at huncommitted ⊢
  have hown : releasePage region region mapper = releasePage (region / 1) region mapper := by
    rw [Nat.div_one]
  rcases releasePage_one legal hsound with
    ⟨shown, hrelease, hseen⟩ | ⟨refusal, shown, hrefused⟩
  · left
    have hstrategy : (mapper.withStore (mapper.store.released region (region + 1))).strategy =
        .small 1 references := books.strategy_eq
    rw [hown] at hrelease
    rw [Op.bind_eq_after hrelease, clearRegion_run hstrategy hpage hregion, Run.after_mk,
      List.append_nil] at huncommitted ⊢
    refine ⟨_, rfl, ?_, hseen⟩
    rcases huncommitted with ⟨_, _, references', _, _, hrun, hbooks, -⟩ | ⟨_, _, hrun, -⟩
    · cases hrun
      exact ⟨references', hbooks⟩
    · cases hrun
  · rw [hown] at hrefused
    exact .inr ⟨refusal, mapper, shown, Op.bind_run_error hrefused⟩

/-- A mapper that began like another one has uncommitted the regions `[start, region)` one by
one. -/
structure Emptied (mapper : Mapper PageSpace) (start region released : Nat)
    (after : Mapper PageSpace) (trace : List Effect) : Prop extends SameSettings mapper after where
  books : ∃ references, SharedBooks 1 references after
  store : (mapper.store.released start region).Alike after.store
  committed_eq : after.committed = mapper.committed.wipe start region
  nodes_eq : after.nodes = mapper.nodes
  released_eq : released = region - start
  seen_eq : trace.filter Effect.isSeen = []

/-- Nothing is uncommitted yet. -/
theorem Emptied.begin (alike : mapper.Alike other) (books : SharedBooks 1 references other)
    (start : Nat) : Emptied mapper start start 0 other [] where
  toSameSettings := alike.toSameSettings
  books := ⟨references, books⟩
  store := (mapper.store.released_self start).symm.trans alike.store
  committed_eq := by
    rw [Bitmap.wipe, Bitmap.bring_of_le _ (Nat.le_refl start), alike.committed_eq]
  nodes_eq := alike.nodes_eq
  released_eq := (Nat.sub_self start).symm
  seen_eq := rfl

theorem Emptied.next {released : Nat} {trace : List Effect}
    (emptied : Emptied mapper start region released after trace) (sound : mapper.store.Sound)
    (hfirst : start ≤ region) (hregion : region < mapper.committed.size)
    (hset : mapper.committed.bit region = true)
    (hcommittable : region + 1 ≤ mapper.store.committablePages) :
    (∃ total later shown, uncommitRegion 1 released region after = ⟨.ok total, later, shown⟩ ∧
      Emptied mapper start (region + 1) total later (trace ++ shown)) ∨
    (∃ refusal later shown,
      uncommitRegion 1 released region after = ⟨.error (.error refusal), later, shown⟩) := by
  obtain ⟨references, books⟩ := emptied.books
  have hbits := emptied.committed_eq
  have hregion' : region < after.committed.size := by rwa [hbits, Bitmap.size_wipe]
  have hout : ¬ (start ≤ region ∧ region < region) := by omega
  have hstill : after.committed.bit region = true := by
    rw [hbits, Bitmap.bit_wipe (Nat.le_of_lt hregion), hset, decide_eq_false hout]
    rfl
  refine Or.imp_left ?_ (books.uncommitRegion_one hregion' hstill released)
  intro hnext
  obtain ⟨shown, hrun, hbooks, hseen⟩ := hnext
  refine ⟨_, _, shown, hrun, ?_⟩
  constructor
  case toSameSettings =>
    exact ⟨emptied.regionSize_eq, emptied.memoryKind_eq, emptied.alwaysPretouch_eq,
      emptied.activity_eq, emptied.listener_eq⟩
  case books => exact hbooks
  case store =>
    exact (PageSpace.released_parts sound hfirst (Nat.lt_succ_self region) hcommittable).trans
      (emptied.store.released region (region + 1))
  case committed_eq =>
    show after.committed.wipe region (region + 1) = mapper.committed.wipe start (region + 1)
    rw [hbits]
    exact Bitmap.bring_bring hfirst (Nat.le_succ region) hregion false
  case nodes_eq => exact emptied.nodes_eq
  case released_eq =>
    rw [emptied.released_eq]
    omega
  case seen_eq => rw [List.filter_append, emptied.seen_eq, hseen, List.append_nil]

/-- The regions of a batch are uncommitted one by one, unless a page is refused. -/
theorem uncommitLoop_emptied (alike : mapper.Alike other) (sound : mapper.store.Sound)
    (books : SharedBooks 1 references other) (ready : mapper.Ready true start count)
    (hcommittable : start + count ≤ mapper.store.committablePages) :
    (∃ released after trace, uncommitShared 1 start count other = ⟨.ok released, after, trace⟩ ∧
      Emptied mapper start (start + count) released after trace) ∨
    (∃ refusal after trace,
      uncommitShared 1 start count other = ⟨.error (.error refusal), after, trace⟩) := by
  apply Op.fold_range_or_error (Emptied mapper start) (.begin alike books start)
  intro region released after trace hfirst hlast emptied
  exact emptied.next sound hfirst (Nat.lt_of_lt_of_le hlast ready.le_size)
    (ready.bit_eq region hfirst hlast) (Nat.le_trans hlast hcommittable)

/-! ## Uncommitting all pages at once -/

theorem uncommitWhole_one (hword : start + count < Word.limit) :
    uncommitWhole 1 start count mapper =
      (do
        uncommitPages start count
        changeBits fun bits => bits.clearRangeSteps start (start + count)
        pure count : Op Refusal (Mapper PageSpace) Nat) mapper := by
  have hstart : Word.mul start 1 = .ok start := Word.mul_one_eq_ok (by omega)
  have hcount : Word.mul count 1 = .ok count := Word.mul_one_eq_ok (by omega)
  rw [uncommitWhole, hstart, hcount]
  rfl

/-- A batch of uncommits agrees under both strategies, unless a page is refused. -/
theorem uncommitOnePage_agrees (alike : mapper.Alike other) (whole : WholeBooks 1 mapper)
    (shared : SharedBooks 1 references other) (ready : mapper.Ready true start count)
    (hgranted : (uncommitWhole 1 start count mapper).Granted)
    (hgranted' : (uncommitShared 1 start count other).Granted) :
    Agrees (uncommitWhole 1 start count mapper) (uncommitShared 1 start count other) := by
  have hsound : mapper.store.Sound := whole.store_sound
  have hsteps := Bitmap.clearRangeSteps_eq_ok (Nat.le_add_right start count) ready.le_size
  rcases Nat.eq_zero_or_pos count with rfl | hcount
  -- An uncommit of no regions calls the store for no pages, or does not call it at all.
  · have hbits : (mapper.committed.wipe start start) = mapper.committed :=
      Bitmap.bring_of_le _ (Nat.le_refl start) false
    have hnone : uncommitPages start 0 mapper =
        ⟨.ok (), mapper, [.call ⟨.uncommit, start, 0⟩]⟩ := rfl
    rw [uncommitWhole_one (whole.lt_word ready.le_size), Op.bind_eq_after hnone,
      Op.bind_eq_after (changeBits_run hsteps)]
    exact ⟨rfl, ⟨⟨alike.regionSize_eq, alike.memoryKind_eq, alike.alwaysPretouch_eq,
      alike.activity_eq, alike.listener_eq⟩, alike.store, alike.committed_eq.trans hbits.symm,
      alike.nodes_eq⟩, rfl⟩
  have legal := hsound.legal_of_set (Nat.lt_add_of_pos_right hcount) (whole.bit_eq ready)
  rw [uncommitWhole_one (whole.lt_word ready.le_size)] at hgranted ⊢
  rcases uncommitPages_legal legal hsound hcount with
    ⟨shown, huncommit, hseen⟩ | ⟨refusal, shown, hrefused⟩
  case inr => exact absurd (congrArg Run.result hrefused) (Op.granted_of_bind hgranted refusal)
  rcases uncommitLoop_emptied alike hsound shared ready legal.le_committable with
    ⟨released, after, trace, hloop, emptied⟩ | ⟨refusal, after, trace, hrefused⟩
  case inr => exact absurd (congrArg Run.result hrefused) (hgranted' refusal)
  rw [Op.bind_eq_after huncommit, Op.bind_eq_after (changeBits_run hsteps), Op.pure_run, hloop]
  constructor
  case result_eq =>
    show Except.ok released = .ok count
    rw [emptied.released_eq, Nat.add_sub_cancel_left]
  case related =>
    exact ⟨⟨emptied.regionSize_eq, emptied.memoryKind_eq, emptied.alwaysPretouch_eq,
      emptied.activity_eq, emptied.listener_eq⟩, emptied.store, emptied.committed_eq,
      emptied.nodes_eq⟩
  case seen_eq =>
    simp only [Run.after_mk, List.append_nil, emptied.seen_eq, hseen]

end Mapper

end RegionBacking
