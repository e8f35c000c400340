import RegionBacking.Proofs.Bitmap.Residents
import RegionBacking.Proofs.Mapper.Steps

/-!
# The books of a mapper

A mapper keeps three records of one thing: the bits of the regions, the references of the pages, and
the pages that its store has committed. `SharedBooks` and `WholeBooks` say for the two strategies
that they agree, and `Sound` that one of the two holds; then a page is backed just if a committed
region lies on it (`Sound.backed_iff`). `SharedTable` is what of it holds without a store. `Reaches`
is what a part of a batch may do on the way from one mapper to another.
-/

namespace RegionBacking

/-! ## Regions and pages -/

namespace Strategy

/-- Whether a page is one of those that back a region. -/
def Hosts (strategy : Strategy) (page region : Nat) : Prop :=
  match strategy with
  | large pagesPerRegion => page / pagesPerRegion = region
  | small regionsPerPage _ => region / regionsPerPage = page

instance (strategy : Strategy) (page region : Nat) : Decidable (strategy.Hosts page region) :=
  match strategy with
  | large pagesPerRegion => inferInstanceAs (Decidable (page / pagesPerRegion = region))
  | small regionsPerPage _ => inferInstanceAs (Decidable (region / regionsPerPage = page))

/-- A strategy without the references: which one it is, and how many pages or regions go
together. -/
def shape : Strategy → StrategyKind × Nat
  | large pagesPerRegion => (.large, pagesPerRegion)
  | small regionsPerPage _ => (.small, regionsPerPage)

/-- References make no difference to where a region lies. -/
theorem hosts_of_shape_eq {a b : Strategy} (h : a.shape = b.shape) : a.Hosts = b.Hosts := by
  cases a <;> cases b <;> cases h <;> rfl

end Strategy

namespace Mapper

variable {σ : Type} {mapper after : Mapper σ} {regionsPerPage page region : Nat}
  {references : GranuleTable}

/-! ## The table of references -/

/-- The references of a page are the number of committed regions on it. -/
structure SharedTable (regionsPerPage : Nat) (references : GranuleTable) (mapper : Mapper σ) :
    Prop where
  strategy_eq : mapper.strategy = .small regionsPerPage references
  share_pos : 0 < regionsPerPage
  /-- Every region has a page. -/
  size_le : mapper.committed.size ≤ regionsPerPage * references.size
  tidy : mapper.committed.Tidy
  entry_eq : ∀ page, references.entry page = mapper.committed.residents regionsPerPage page

namespace SharedTable

/-- The table and the bits are all that it takes. -/
theorem congr (table : SharedTable regionsPerPage references mapper)
    (hstrategy : after.strategy = mapper.strategy) (hbits : after.committed = mapper.committed) :
    SharedTable regionsPerPage references after where
  strategy_eq := hstrategy.trans table.strategy_eq
  share_pos := table.share_pos
  size_le := hbits ▸ table.size_le
  tidy := hbits ▸ table.tidy
  entry_eq := hbits ▸ table.entry_eq

theorem page_lt (table : SharedTable regionsPerPage references mapper)
    (hregion : region < mapper.committed.size) : region / regionsPerPage < references.size :=
  Nat.div_lt_of_lt_mul (Nat.lt_of_lt_of_le hregion table.size_le)

/-- A page with a committed region is referred to. -/
theorem entry_pos (table : SharedTable regionsPerPage references mapper)
    (hset : mapper.committed.bit region = true) :
    0 < references.entry (region / regionsPerPage) := by
  rw [table.entry_eq, Bitmap.residents_pos_iff table.tidy]
  exact ⟨region, hset, rfl⟩

/-- A page with a region that is not committed has room for one more. -/
theorem entry_lt (table : SharedTable regionsPerPage references mapper)
    (hregion : region < mapper.committed.size) (hclear : mapper.committed.bit region = false) :
    references.entry (region / regionsPerPage) < regionsPerPage := by
  -- With one region more there still are no more on the page than can be.
  have hfill := Bitmap.residents_fill hregion hclear regionsPerPage (region / regionsPerPage)
  have hle := (mapper.committed.fill region (region + 1)).residents_le table.share_pos
    (region / regionsPerPage)
  rw [if_pos rfl] at hfill
  rw [table.entry_eq]
  omega

/-- One more region and one more reference. -/
theorem add (table : SharedTable regionsPerPage references mapper)
    (hregion : region < mapper.committed.size) (hclear : mapper.committed.bit region = false)
    (hstrategy : after.strategy = .small regionsPerPage (references.put (region / regionsPerPage)
      (references.entry (region / regionsPerPage) + 1)))
    (hbits : after.committed = mapper.committed.fill region (region + 1)) :
    SharedTable regionsPerPage (references.put (region / regionsPerPage)
      (references.entry (region / regionsPerPage) + 1)) after where
  strategy_eq := hstrategy
  share_pos := table.share_pos
  size_le := by
    rw [hbits, Bitmap.size_fill, GranuleTable.size_put]
    exact table.size_le
  tidy := hbits ▸ table.tidy.bring hregion true
  entry_eq page := by
    rw [hbits, Bitmap.residents_fill hregion hclear, GranuleTable.entry_put, ← table.entry_eq]
    split
    · next hpage => rw [hpage]
    · rw [Nat.add_zero]

/-- One region less and one reference less. -/
theorem remove (table : SharedTable regionsPerPage references mapper)
    (hregion : region < mapper.committed.size) (hset : mapper.committed.bit region = true)
    (hstrategy : after.strategy = .small regionsPerPage (references.put (region / regionsPerPage)
      (references.entry (region / regionsPerPage) - 1)))
    (hbits : after.committed = mapper.committed.wipe region (region + 1)) :
    SharedTable regionsPerPage (references.put (region / regionsPerPage)
      (references.entry (region / regionsPerPage) - 1)) after where
  strategy_eq := hstrategy
  share_pos := table.share_pos
  size_le := by
    rw [hbits, Bitmap.size_wipe, GranuleTable.size_put]
    exact table.size_le
  tidy := hbits ▸ table.tidy.bring hregion false
  entry_eq page := by
    have hwipe := Bitmap.residents_wipe hregion hset regionsPerPage page
    rw [← table.entry_eq] at hwipe
    rw [hbits, GranuleTable.entry_put]
    split
    · next hpage =>
      rw [if_pos hpage] at hwipe
      rw [← hpage]
      omega
    · next hpage =>
      rw [if_neg hpage] at hwipe
      omega

end SharedTable

variable [PageStore σ] [LawfulStore σ]

/-! ## Books in order -/

/-- The books of a mapper whose regions share pages. -/
structure SharedBooks (regionsPerPage : Nat) (references : GranuleTable) (mapper : Mapper σ) :
    Prop where
  strategy_eq : mapper.strategy = .small regionsPerPage references
  share_pos : 0 < regionsPerPage
  /-- The references of a page are an entry of the table. -/
  entry_lt_limit : ∀ page, references.entry page < entryLimit
  size_references : references.size = PageStore.pages mapper.store
  /-- Every region has a page. -/
  size_le : mapper.committed.size ≤ regionsPerPage * references.size
  tidy : mapper.committed.Tidy
  store_sound : StoreView.Sound mapper.store
  entry_eq : ∀ page, references.entry page = mapper.committed.residents regionsPerPage page
  backed_eq : ∀ page, backed mapper.store page = decide (0 < references.entry page)

/-- The references are right on their own account, whatever the store holds. -/
theorem SharedBooks.table (books : SharedBooks regionsPerPage references mapper) :
    SharedTable regionsPerPage references mapper :=
  ⟨books.strategy_eq, books.share_pos, books.size_le, books.tidy, books.entry_eq⟩

/-- The books of a mapper whose regions have pages of their own. -/
structure WholeBooks (pagesPerRegion : Nat) (mapper : Mapper σ) : Prop where
  strategy_eq : mapper.strategy = .large pagesPerRegion
  share_pos : 0 < pagesPerRegion
  pages_lt : PageStore.pages mapper.store < Word.limit
  /-- Every region has its pages. -/
  size_le : mapper.committed.size * pagesPerRegion ≤ PageStore.pages mapper.store
  tidy : mapper.committed.Tidy
  store_sound : StoreView.Sound mapper.store
  backed_eq : ∀ page, backed mapper.store page = mapper.committed.bit (page / pagesPerRegion)

/-- The books of a mapper are in order. -/
inductive Sound (mapper : Mapper σ) : Prop where
  | small (regionsPerPage : Nat) (references : GranuleTable)
      (books : SharedBooks regionsPerPage references mapper)
  | large (pagesPerRegion : Nat) (books : WholeBooks pagesPerRegion mapper)

namespace Sound

theorem tidy (sound : mapper.Sound) : mapper.committed.Tidy := by
  cases sound with
  | small _ _ books => exact books.tidy
  | large _ books => exact books.tidy

theorem store_sound (sound : mapper.Sound) : StoreView.Sound mapper.store := by
  cases sound with
  | small _ _ books => exact books.store_sound
  | large _ books => exact books.store_sound

theorem isCommitted_eq (sound : mapper.Sound) (region : Nat) :
    mapper.isCommitted region = mapper.committed.bit region := by
  unfold isCommitted
  cases hbit : mapper.committed.bit region
  · simp
  · simp [regionCount, sound.tidy region hbit]

/-- Books that are in order are those of the strategy. -/
theorem sharedBooks (sound : mapper.Sound) {regionsPerPage : Nat}
    (h : mapper.strategy.shape = (.small, regionsPerPage)) :
    ∃ references, SharedBooks regionsPerPage references mapper := by
  cases sound with
  | small regionsPerPage' references books =>
    rw [books.strategy_eq] at h
    cases h
    exact ⟨references, books⟩
  | large _ books =>
    rw [books.strategy_eq] at h
    cases h

theorem wholeBooks (sound : mapper.Sound) {pagesPerRegion : Nat}
    (h : mapper.strategy.shape = (.large, pagesPerRegion)) :
    WholeBooks pagesPerRegion mapper := by
  cases sound with
  | small _ _ books =>
    rw [books.strategy_eq] at h
    cases h
  | large _ books =>
    rw [books.strategy_eq] at h
    cases h
    exact books

/-- A page is backed just if a committed region lies on it. -/
theorem backed_iff (sound : mapper.Sound) (page : Nat) :
    backed mapper.store page = true ↔
      ∃ region, mapper.isCommitted region = true ∧ mapper.strategy.Hosts page region := by
  simp only [sound.isCommitted_eq]
  cases sound with
  | small regionsPerPage references books =>
    rw [books.backed_eq, decide_eq_true_eq, books.entry_eq, Bitmap.residents_pos_iff books.tidy,
      books.strategy_eq]
    rfl
  | large pagesPerRegion books =>
    rw [books.backed_eq, books.strategy_eq]
    constructor
    · intro hbit
      exact ⟨page / pagesPerRegion, hbit, rfl⟩
    · intro hregion
      obtain ⟨region, hbit, hhosts⟩ := hregion
      have hregion : page / pagesPerRegion = region := hhosts
      rwa [hregion]

end Sound

/-- The books of a mapper are its strategy, its bits and the pages that are backed. -/
theorem Sound.of_sameBacking (sound : mapper.Sound) (hstrategy : after.strategy = mapper.strategy)
    (hbits : after.committed = mapper.committed) (same : SameBacking mapper.store after.store) :
    after.Sound := by
  have hpages := same.geometry.pages_eq
  cases sound with
  | small regionsPerPage references books =>
    refine .small regionsPerPage references ⟨hstrategy.trans books.strategy_eq, books.share_pos,
      books.entry_lt_limit, ?_, ?_, ?_, same.sound, ?_, ?_⟩
    · exact books.size_references.trans hpages.symm
    · exact hbits ▸ books.size_le
    · exact hbits ▸ books.tidy
    · exact hbits ▸ books.entry_eq
    · intro page
      rw [same.backed_eq, books.backed_eq]
  | large pagesPerRegion books =>
    refine .large pagesPerRegion ⟨hstrategy.trans books.strategy_eq, books.share_pos, ?_, ?_, ?_,
      same.sound, ?_⟩
    · exact hpages.symm ▸ books.pages_lt
    · rw [hbits, hpages]
      exact books.size_le
    · exact hbits ▸ books.tidy
    · intro page
      rw [same.backed_eq, hbits, books.backed_eq]

/-- Nothing else that a mapper keeps is part of its books. -/
theorem Sound.congr (sound : mapper.Sound) (hstrategy : after.strategy = mapper.strategy)
    (hbits : after.committed = mapper.committed) (hstore : after.store = mapper.store) :
    after.Sound := by
  apply sound.of_sameBacking hstrategy hbits
  rw [hstore]
  exact .refl sound.store_sound

/-! ## The way of a batch -/

/-- A part of a batch leads from one mapper to another: the store went through legal calls, which
are the calls that the trace shows, the listener was not notified, and what no batch changes is as
it was. -/
structure Reaches (mapper after : Mapper σ) (answers : List Answer) (trace : List Effect) :
    Prop where
  run : StoreRun mapper.store answers after.store
  succeeds : Succeeds mapper.store after.store
  calls_eq : Effect.calls trace = answers.map (·.call)
  notifications_eq : Effect.notifications trace = []
  size_eq : after.committed.size = mapper.committed.size
  shape_eq : after.strategy.shape = mapper.strategy.shape

namespace Reaches

variable {last : Mapper σ} {answers answers' : List Answer} {trace trace' : List Effect}

theorem refl (h : StoreView.Sound mapper.store) : Reaches mapper mapper [] [] where
  run := .done _
  succeeds := .refl h
  calls_eq := rfl
  notifications_eq := rfl
  size_eq := rfl
  shape_eq := rfl

theorem trans (first : Reaches mapper after answers trace)
    (second : Reaches after last answers' trace') :
    Reaches mapper last (answers ++ answers') (trace ++ trace') where
  run := first.run.trans second.run
  succeeds := first.succeeds.trans second.succeeds
  calls_eq := by
    rw [Effect.calls_append, first.calls_eq, second.calls_eq, List.map_append]
  notifications_eq := by
    rw [Effect.notifications_append, first.notifications_eq, second.notifications_eq,
      List.append_nil]
  size_eq := second.size_eq.trans first.size_eq
  shape_eq := second.shape_eq.trans first.shape_eq

/-- A part of a batch that neither calls the store nor changes it. -/
theorem silently (h : StoreView.Sound mapper.store) (silent : Silent trace)
    (hstore : after.store = mapper.store) (hsize : after.committed.size = mapper.committed.size)
    (hshape : after.strategy.shape = mapper.strategy.shape) : Reaches mapper after [] trace where
  run := by
    rw [hstore]
    exact .done _
  succeeds := by
    rw [hstore]
    exact .refl h
  calls_eq := silent.calls_eq
  notifications_eq := silent.notifications_eq
  size_eq := hsize
  shape_eq := hshape

end Reaches

/-- The call that a batch never makes: one that commits regions uncommits no page, and one that
uncommits regions commits none. -/
def opposite (status : Bool) : StoreCallKind := if status then .uncommit else .commit

/-- A batch has brought the regions `[start, stop)` to a status, and its books are in order. -/
structure BroughtTo (status : Bool) (start stop : Nat) (mapper after : Mapper σ)
    (answers : List Answer) (trace : List Effect) : Prop where
  sound : after.Sound
  reaches : Reaches mapper after answers trace
  without : Without (opposite status) answers
  bit_eq : ∀ region, after.committed.bit region =
    if start ≤ region ∧ region < stop then status else mapper.committed.bit region

namespace BroughtTo

variable {status : Bool} {start region : Nat} {later : Mapper σ} {answers answers' : List Answer}
  {trace trace' : List Effect}

theorem refl (sound : mapper.Sound) (status : Bool) {stop : Nat} (h : stop ≤ start) :
    BroughtTo status start stop mapper mapper [] [] where
  sound := sound
  reaches := .refl sound.store_sound
  without := .nil
  bit_eq region := by
    have hout : ¬ (start ≤ region ∧ region < stop) := by omega
    rw [if_neg hout]

/-- Regions that share pages still do, and the books of them are in order. -/
theorem sharedBooks {regionsPerPage : Nat} {references : GranuleTable}
    (done : BroughtTo status start region mapper after answers trace)
    (books : SharedBooks regionsPerPage references mapper) :
    ∃ references', SharedBooks regionsPerPage references' after :=
  done.sound.sharedBooks
    (done.reaches.shape_eq.trans (congrArg Strategy.shape books.strategy_eq))

/-- The region at which a batch is has the bit that it had at first. -/
theorem bit_next (done : BroughtTo status start region mapper after answers trace) :
    after.committed.bit region = mapper.committed.bit region := by
  have hout : ¬ (start ≤ region ∧ region < region) := by omega
  rw [done.bit_eq, if_neg hout]

/-- A batch that goes on by one region. -/
theorem next (done : BroughtTo status start region mapper after answers trace)
    (hfirst : start ≤ region) (hregion : region < after.committed.size)
    (hreaches : Reaches after later answers' trace') (hsound : later.Sound)
    (hwithout : Without (opposite status) answers')
    (hbits : later.committed = after.committed.bring status region (region + 1)) :
    BroughtTo status start (region + 1) mapper later (answers ++ answers') (trace ++ trace') where
  sound := hsound
  reaches := done.reaches.trans hreaches
  without := done.without.append hwithout
  bit_eq other := by
    rw [hbits, Bitmap.bit_bring hregion, done.bit_eq]
    -- The region itself is the new end of the range; every other one is where it was.
    by_cases hsame : region ≤ other ∧ other < region + 1
    · have hrange : start ≤ other ∧ other < region + 1 := by omega
      rw [if_pos hsame, if_pos hrange]
    · have hrange : (start ≤ other ∧ other < region + 1) ↔ (start ≤ other ∧ other < region) := by
        omega
      rw [if_neg hsame, if_congr hrange rfl rfl]

/-- A batch whose next step changes neither the books nor the bits. -/
theorem stay (done : BroughtTo status start region mapper after answers trace)
    (hreaches : Reaches after later answers' trace')
    (hwithout : Without (opposite status) answers') (hsound : later.Sound)
    (hbits : later.committed = after.committed) :
    BroughtTo status start region mapper later (answers ++ answers') (trace ++ trace') where
  sound := hsound
  reaches := done.reaches.trans hreaches
  without := done.without.append hwithout
  bit_eq := hbits ▸ done.bit_eq

/-- A batch after which the counters change and something is told, neither of which the books or
the bits notice. -/
theorem report (done : BroughtTo status start region mapper after answers trace)
    (activity : Activity) (silent : Silent trace') :
    BroughtTo status start region mapper (after.withActivity activity) answers
      (trace ++ trace') := by
  have hreaches : Reaches after (after.withActivity activity) [] trace' :=
    .silently done.sound.store_sound silent rfl rfl rfl
  have hstay := done.stay hreaches .nil (done.sound.congr rfl rfl rfl) rfl
  rwa [List.append_nil] at hstay

end BroughtTo

/-- No pass of a pretoucher over the pages of a mapper leaves the machine words. -/
def Chunked (mapper : Mapper σ) (pretoucher : Option Pretoucher) : Prop :=
  ∀ worker ∈ pretoucher, PageStore.pages mapper.store +
    worker.chunkPages (PageStore.pageSize mapper.store) < Word.limit

theorem Chunked.of_succeeds {pretoucher : Option Pretoucher} (chunked : mapper.Chunked pretoucher)
    (h : Succeeds mapper.store after.store) : after.Chunked pretoucher := by
  intro worker hworker
  rw [h.geometry.pages_eq, h.geometry.pageSize_eq]
  exact chunked worker hworker

/-- The regions of every page can be counted. -/
def Countable (mapper : Mapper σ) : Prop :=
  ∀ regions references, mapper.strategy = .small regions references → regions < entryLimit

omit [PageStore σ] [LawfulStore σ] in
theorem Countable.of_shape_eq (countable : mapper.Countable)
    (h : after.strategy.shape = mapper.strategy.shape) : after.Countable := by
  intro regions references hsmall
  rw [hsmall] at h
  cases hstrategy : mapper.strategy with
  | large pages =>
    rw [hstrategy] at h
    cases h
  | small regions' references' =>
    rw [hstrategy] at h
    cases h
    exact countable regions references' hstrategy

/-- The pages of a mapper can be committed, pretouched and counted, unless the store refuses. -/
structure Roomy (mapper : Mapper σ) (pretoucher : Option Pretoucher) : Prop where
  fits : ∀ stop, stop ≤ PageStore.pages mapper.store → StoreView.Fits mapper.store stop
  chunked : mapper.Chunked pretoucher
  countable : mapper.Countable

/-! ## Calls of the store on the way -/

/-- A commit of pages that are not backed, by a mapper: the store backs them, or it stops and the
mapper is as it was. -/
theorem commitPages_cases {start count : Nat} (h : StoreView.Sound mapper.store)
    (unbacked : AllBacked mapper.store false start (start + count)) :
    (∃ zeroFilled store trace,
      commitPages start count mapper = ⟨.ok zeroFilled, mapper.withStore store, trace⟩ ∧
      Acquired mapper.store store start (start + count) ∧
      Reaches mapper (mapper.withStore store) [⟨⟨.commit, start, count⟩, zeroFilled⟩] trace ∧
      CallsOnly trace) ∨
    (∃ stop trace, commitPages start count mapper = ⟨.error stop, mapper, trace⟩ ∧
      Reaches mapper mapper [⟨⟨.commit, start, count⟩, false⟩] trace ∧ CallsOnly trace ∧
      stop.Rejects (StoreView.Fits mapper.store (start + count))
        (StoreView.Willing mapper.store) ∧
      (PageStore.commit start count mapper.store).result = .error stop) := by
  obtain ⟨result, store, trace, hrun, hquiet, hresult⟩ :=
    LawfulStore.commit_spec mapper.store start count h unbacked
  have hpages := commitPages_run start count mapper
  have hstores := (StoreRun.done mapper.store).snoc_commit start count unbacked
  rw [hrun] at hpages hstores
  have hcalls : Effect.calls (.call ⟨.commit, start, count⟩ :: trace) =
      [⟨.commit, start, count⟩] := congrArg (List.cons _) hquiet.calls_eq
  cases result with
  | ok zeroFilled =>
    exact Or.inl ⟨zeroFilled, store, _, hpages, hresult,
      ⟨hstores, hresult.toSucceeds, hcalls, hquiet.notifications_eq, rfl, rfl⟩, hquiet.callsOnly _⟩
  | error stop =>
    obtain ⟨rfl, hrejects⟩ := hresult
    exact Or.inr ⟨stop, _, hpages,
      ⟨hstores, .refl h, hcalls, hquiet.notifications_eq, rfl, rfl⟩, hquiet.callsOnly _, hrejects,
      congrArg Run.result hrun⟩

/-- An uncommit of backed pages, by a mapper: the store gives them up, or it refuses and the mapper
is as it was. -/
theorem uncommitPages_cases {start count : Nat} (h : StoreView.Sound mapper.store)
    (hbacked : AllBacked mapper.store true start (start + count)) :
    (∃ store trace, uncommitPages start count mapper = ⟨.ok (), mapper.withStore store, trace⟩ ∧
      Released mapper.store store start (start + count) ∧
      Reaches mapper (mapper.withStore store) [⟨⟨.uncommit, start, count⟩, false⟩] trace ∧
      CallsOnly trace) ∨
    (∃ stop trace, uncommitPages start count mapper = ⟨.error stop, mapper, trace⟩ ∧
      Reaches mapper mapper [⟨⟨.uncommit, start, count⟩, false⟩] trace ∧ CallsOnly trace ∧
      0 < count ∧ stop.Rejects True (StoreView.Willing mapper.store) ∧
      (PageStore.uncommit start count mapper.store).result = .error stop) := by
  obtain ⟨result, store, trace, hrun, hquiet, hresult⟩ :=
    LawfulStore.uncommit_spec mapper.store start count h hbacked
  have hpages := uncommitPages_run start count mapper
  have hstores := (StoreRun.done mapper.store).snoc_uncommit start count hbacked
  rw [hrun] at hpages hstores
  have hcalls : Effect.calls (.call ⟨.uncommit, start, count⟩ :: trace) =
      [⟨.uncommit, start, count⟩] := congrArg (List.cons _) hquiet.calls_eq
  cases result with
  | ok =>
    exact Or.inl ⟨store, _, hpages, hresult,
      ⟨hstores, hresult.toSucceeds, hcalls, hquiet.notifications_eq, rfl, rfl⟩, hquiet.callsOnly _⟩
  | error stop =>
    obtain ⟨rfl, hpos, hrejects⟩ := hresult
    exact Or.inr ⟨stop, _, hpages,
      ⟨hstores, .refl h, hcalls, hquiet.notifications_eq, rfl, rfl⟩, hquiet.callsOnly _, hpos,
      hrejects, congrArg Run.result hrun⟩

/-- A pass over pages, by a mapper: the same pages are backed after it. It comes to its end where
its pages are backed and its chunks are words. -/
theorem pretouchPages_reaches (h : StoreView.Sound mapper.store) (start count : Nat)
    (pretoucher : Option Pretoucher) :
    ∃ result store activity trace answers, pretouchPages start count pretoucher mapper =
        ⟨result, (mapper.withStore store).withActivity activity, trace⟩ ∧
      SameBacking mapper.store store ∧
      Reaches mapper ((mapper.withStore store).withActivity activity) answers trace ∧
      Without .uncommit answers ∧
      (AllBacked mapper.store true start (start + count) →
        (∀ worker ∈ pretoucher, start + count +
          worker.chunkPages (PageStore.pageSize mapper.store) < Word.limit) →
        result = .ok ()) := by
  unfold pretouchPages
  rw [Op.get_bind]
  cases pretoucher with
  -- Without a worker, or where pretouching is off, the store is not called.
  | none =>
    exact ⟨_, mapper.store, mapper.activity, [], [], rfl, .refl h, .refl h, .nil, fun _ _ => rfl⟩
  | some worker =>
    by_cases hpretouch : (mapper.alwaysPretouch && count != 0) = true
    · obtain ⟨result, store, trace, hrun, hquiet, hsame⟩ :=
        LawfulStore.pretouch_spec mapper.store start count worker h
      have hcall := onStore_run ⟨.pretouch, start, count⟩
        (PageStore.pretouch start count worker) mapper
      have hstores := (StoreRun.done mapper.store).snoc_pretouch start count worker
      rw [hrun] at hcall hstores
      have hcalls : Effect.calls (.call ⟨.pretouch, start, count⟩ :: trace) =
          [⟨.pretouch, start, count⟩] := congrArg (List.cons _) hquiet.calls_eq
      have hpassed : Reaches mapper (mapper.withStore store)
          [⟨⟨.pretouch, start, count⟩, false⟩] (.call ⟨.pretouch, start, count⟩ :: trace) :=
        ⟨hstores, hsame.toSucceeds, hcalls, hquiet.notifications_eq, rfl, rfl⟩
      have honly : Without .uncommit [⟨⟨.pretouch, start, count⟩, false⟩] :=
        .singleton (by decide) _ _ _
      simp only [hpretouch, if_true]
      cases result with
      | error stop =>
        refine ⟨_, store, mapper.activity, _, _, Op.bind_run_error hcall, hsame, hpassed, honly, ?_⟩
        -- The store promises that a pass over backed pages does not stop.
        intro hbacked hwords
        have hcount : 0 < count := by
          rw [Bool.and_eq_true, bne_iff_ne] at hpretouch
          omega
        obtain ⟨report, hreport⟩ := LawfulStore.pretouch_ok mapper.store start count worker h
          hcount (hwords worker rfl) hbacked
        rw [hrun] at hreport
        cases hreport
      | ok report =>
        have hcounted : Reaches (mapper.withStore store)
            ((mapper.withStore store).withActivity (mapper.activity.pretouch report.pages)) []
            [.event (.pretouch report.pages report.workers .zero)] :=
          .silently hsame.sound ⟨rfl, rfl⟩ rfl rfl rfl
        exact ⟨.ok (), store, _, _, _, Op.bind_eq_after hcall, hsame, hpassed.trans hcounted,
          honly.append .nil, fun _ _ => rfl⟩
    · simp only [hpretouch]
      exact ⟨_, mapper.store, mapper.activity, [], [], rfl, .refl h, .refl h, .nil, fun _ _ => rfl⟩

end Mapper

end RegionBacking
