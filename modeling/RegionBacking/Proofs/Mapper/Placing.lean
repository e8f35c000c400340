import RegionBacking.Proofs.Mapper.Completed
import RegionBacking.Proofs.Mapper.Resuming

/-!
# The memory that is placed

The placements that a commit asks for are told from the pages that are committed in front of it: one
for each region that leads, that is, whose first page no region in front of it has (`asked`). This
holds up to the region to which a commit comes, whether it comes to its end or not (`Placed`). So the
ranges of the placements share out the memory that the commit added, and each of them comes behind
the commit of its pages (`placed_throughout`).
-/

namespace RegionBacking

open Finset (Ico)

/-! ## The bytes of a placement -/

/-- The addresses of a placement. -/
def Placement.bytes (placement : Placement) : Finset Nat :=
  Ico placement.address (placement.address + placement.size)

namespace PageSpace

variable {space : PageSpace} {address : Nat}

/-- The addresses of a page, all of them also where it is cut off. -/
def wholePage (space : PageSpace) (page : Nat) : Finset Nat :=
  Ico (space.firstAddress page) (space.firstAddress page + space.pageSize)

/-- The bytes of pages that lie together are those that lie on one of the pages. -/
theorem mem_bytes_iff (hpos : 0 < space.pageSize) (first count region address : Nat) :
    address ∈ Placement.bytes ⟨space.firstAddress first, space.pageSize * count, region⟩ ↔
      space.base ≤ address ∧ first ≤ (address - space.base) / space.pageSize ∧
        (address - space.base) / space.pageSize < first + count := by
  have hrange : address ∈ Placement.bytes ⟨space.firstAddress first, space.pageSize * count, region⟩ ↔
      space.base + first * space.pageSize ≤ address ∧
        address < space.base + first * space.pageSize + count * space.pageSize := by
    rw [← Nat.mul_comm space.pageSize count]
    exact Finset.mem_Ico
  rw [hrange, Nat.le_div_iff_mul_le hpos, Nat.div_lt_iff_lt_mul hpos, Nat.add_mul]
  omega

theorem mem_wholePage_iff (hpos : 0 < space.pageSize) (page address : Nat) :
    address ∈ space.wholePage page ↔
      space.base ≤ address ∧ (address - space.base) / space.pageSize = page := by
  have hbytes := mem_bytes_iff hpos page 1 0 address
  rw [Placement.bytes, Nat.mul_one] at hbytes
  rw [wholePage, hbytes]
  omega

theorem eq_firstAddress {page : Nat} (h : space.pageStart page = .ok address) :
    address = space.firstAddress page := by
  obtain ⟨offset, hoffset, haddress⟩ := Except.of_bind_ok h
  obtain ⟨-, rfl⟩ := Word.mul_eq_ok_iff.mp hoffset
  exact (Word.add_eq_ok_iff.mp haddress).2

end PageSpace

/-! ## Effects that place nothing -/

/-- Whether an event reports placements. -/
def Event.isPlacement : Event → Bool
  | placement .. => true
  | _ => false

/-- The events of a trace that report placements. -/
def Effect.reports (trace : List Effect) : List Event :=
  (Effect.events trace).filter Event.isPlacement

theorem Effect.reports_append (a b : List Effect) : reports (a ++ b) = reports a ++ reports b := by
  rw [reports, events_append, List.filter_append]
  rfl

/-- Effects none of which is a placement or an event that reports placements. -/
structure Unplaced (trace : List Effect) : Prop where
  placements_eq : Effect.placements trace = []
  reports_eq : Effect.reports trace = []

theorem Unplaced.append {trace later : List Effect} (first : Unplaced trace)
    (second : Unplaced later) : Unplaced (trace ++ later) where
  placements_eq := by
    rw [Effect.placements_append, first.placements_eq, second.placements_eq, List.append_nil]
  reports_eq := by rw [Effect.reports_append, first.reports_eq, second.reports_eq, List.append_nil]

theorem CallsOnly.unplaced {trace : List Effect} (calls : CallsOnly trace) : Unplaced trace where
  placements_eq := calls.placements_eq
  reports_eq := by
    have hevents : Effect.events trace = [] :=
      calls.filterMap_eq_nil (fun _ => rfl) fun effect hstore => by
        cases effect <;> first | rfl | cases hstore
    rw [Effect.reports, hevents, List.filter_nil]

/-! ## The pages of a region -/

namespace Strategy

variable {strategy other : Strategy} {page region : Nat}

/-- The first page of a region. -/
def firstPage : Strategy → Nat → Nat
  | large pagesPerRegion, region => region * pagesPerRegion
  | small regionsPerPage _, region => region / regionsPerPage

/-- How many pages a region lies on. -/
def pagesEach : Strategy → Nat
  | large pagesPerRegion => pagesPerRegion
  | small .. => 1

theorem firstPage_of_shape_eq (h : other.shape = strategy.shape) :
    other.firstPage = strategy.firstPage := by
  cases other <;> cases strategy <;> cases h <;> rfl

theorem pagesEach_of_shape_eq (h : other.shape = strategy.shape) :
    other.pagesEach = strategy.pagesEach := by
  cases other <;> cases strategy <;> cases h <;> rfl

theorem hosts_iff (hpos : 0 < strategy.pagesEach) : strategy.Hosts page region ↔
    strategy.firstPage region ≤ page ∧ page < strategy.firstPage region + strategy.pagesEach := by
  cases strategy with
  | large pagesPerRegion =>
    show page / pagesPerRegion = region ↔
      region * pagesPerRegion ≤ page ∧ page < region * pagesPerRegion + pagesPerRegion
    rw [Nat.div_eq_iff (show 0 < pagesPerRegion from hpos)]
    have hpos : 0 < pagesPerRegion := hpos
    omega
  | small regionsPerPage references =>
    show region / regionsPerPage = page ↔
      region / regionsPerPage ≤ page ∧ page < region / regionsPerPage + 1
    omega

/-- Regions that have their first page in common have all their pages in common. -/
theorem hosts_firstPage_iff (hpos : 0 < strategy.pagesEach) (hhosts : strategy.Hosts page region)
    (another : Nat) :
    strategy.Hosts page another ↔ strategy.firstPage another = strategy.firstPage region := by
  cases strategy with
  | large pagesPerRegion =>
    obtain rfl : page / pagesPerRegion = region := hhosts
    exact ⟨fun h => congrArg (· * pagesPerRegion) h.symm, fun h =>
      (Nat.eq_of_mul_eq_mul_right hpos h).symm⟩
  | small regionsPerPage references =>
    obtain rfl : region / regionsPerPage = page := hhosts
    exact Iff.rfl

end Strategy

namespace Mapper

variable {mapper after last : Mapper PageSpace} {references : GranuleTable}
  {regionsPerPage pagesPerRegion start count stop region page : Nat}
  {pretoucher : Option Pretoucher} {progress next : Progress} {backing : Backing}
  {trace trace' : List Effect} {answers : List Answer}

theorem Sound.pagesEach_pos (sound : mapper.Sound) : 0 < mapper.strategy.pagesEach := by
  cases sound with
  | small _ _ books => rw [books.strategy_eq]; exact Nat.one_pos
  | large _ books => rw [books.strategy_eq]; exact books.share_pos

/-- Counters are no part of what turned. -/
theorem Turns.report {status : Bool} (turns : Turns status start stop mapper after)
    (activity : Activity) : Turns status start stop mapper (after.withActivity activity) where
  toContinues := ⟨turns.sound.congr rfl rfl rfl, turns.succeeds, turns.size_eq, turns.shape_eq⟩
  bit_eq := turns.bit_eq
  oneWay := turns.oneWay

/-- A commit of regions adds the pages that they have. -/
theorem Turns.isCommitted_iff (turns : Turns true start region mapper after)
    (sound : mapper.Sound) (page : Nat) : after.store.isCommitted page = true ↔
      mapper.store.isCommitted page = true ∨
        ∃ other, start ≤ other ∧ other < region ∧ mapper.strategy.Hosts page other := by
  have hpages : ∀ {some : Mapper PageSpace}, some.Sound → (some.store.isCommitted page = true ↔
      ∃ region, some.committed.bit region = true ∧ some.strategy.Hosts page region) := by
    intro some sound
    refine (sound.backed_iff page).trans ?_
    simp only [sound.isCommitted_eq]
  rw [hpages turns.sound, hpages sound, Strategy.hosts_of_shape_eq turns.shape_eq]
  constructor
  · rintro ⟨other, hbit, hhosts⟩
    rw [turns.bit_eq] at hbit
    split at hbit
    · next hrange => exact .inr ⟨other, hrange.1, hrange.2, hhosts⟩
    · exact .inl ⟨other, hbit, hhosts⟩
  · rintro (⟨other, hbit, hhosts⟩ | ⟨other, hfirst, hlast, hhosts⟩)
    · refine ⟨other, ?_, hhosts⟩
      rw [turns.bit_eq, hbit, ite_self]
    · exact ⟨other, by rw [turns.bit_eq, if_pos ⟨hfirst, hlast⟩], hhosts⟩

/-! ## The placements of a commit -/

/-- A region leads a batch if its first page is committed neither in front of the batch nor for an
earlier region of it. -/
def Leads (mapper : Mapper PageSpace) (start region : Nat) : Prop :=
  mapper.store.isCommitted (mapper.strategy.firstPage region) = false ∧
    ∀ other < region, start ≤ other →
      mapper.strategy.firstPage other ≠ mapper.strategy.firstPage region

instance (mapper : Mapper PageSpace) (start region : Nat) : Decidable (mapper.Leads start region) :=
  inferInstanceAs (Decidable (_ ∧ _))

/-- The request to place the pages of a region. -/
def placementOf (mapper : Mapper PageSpace) (region : Nat) : Placement :=
  ⟨mapper.store.firstAddress (mapper.strategy.firstPage region),
    mapper.store.pageSize * mapper.strategy.pagesEach, region⟩

/-- The requests of a batch that starts at `start` for the regions `[first, stop)`. -/
def askedFrom (mapper : Mapper PageSpace) (start first stop : Nat) : List Placement :=
  if mapper.memoryKind.isPlaced then
    ((List.range' first (stop - first)).filter (mapper.Leads start)).map mapper.placementOf
  else []

/-- The requests of a batch for its regions `[start, stop)`. -/
def asked (mapper : Mapper PageSpace) (start stop : Nat) : List Placement :=
  mapper.askedFrom start start stop

theorem askedFrom_self (mapper : Mapper PageSpace) (start first : Nat) :
    mapper.askedFrom start first first = [] := by
  rw [askedFrom, Nat.sub_self]
  exact ite_self []

theorem askedFrom_append (mapper : Mapper PageSpace) {start first mid stop : Nat}
    (hfirst : first ≤ mid) (hmid : mid ≤ stop) : mapper.askedFrom start first stop =
      mapper.askedFrom start first mid ++ mapper.askedFrom start mid stop := by
  have hrange : List.range' first (stop - first) =
      List.range' first (mid - first) ++ List.range' mid (stop - mid) := by
    have happend := @List.range'_append_1 first (mid - first) (stop - mid)
    rw [Nat.add_sub_cancel' hfirst] at happend
    rw [happend]
    congr 1
    omega
  unfold askedFrom
  split
  · rw [hrange, List.filter_append, List.map_append]
  · rfl

theorem askedFrom_succ (mapper : Mapper PageSpace) (start region : Nat) :
    mapper.askedFrom start region (region + 1) =
      if mapper.memoryKind.isPlaced ∧ mapper.Leads start region then [mapper.placementOf region]
      else [] := by
  rw [askedFrom, Nat.add_sub_cancel_left]
  by_cases hkind : mapper.memoryKind.isPlaced = true <;>
    by_cases hleads : mapper.Leads start region <;> simp [hkind, hleads]

theorem mem_asked (hkind : mapper.memoryKind.isPlaced = true) {placement : Placement} :
    placement ∈ mapper.asked start stop ↔ ∃ region, start ≤ region ∧ region < stop ∧
      mapper.Leads start region ∧ mapper.placementOf region = placement := by
  rw [asked, askedFrom, if_pos hkind, List.mem_map]
  refine exists_congr fun region => ?_
  rw [List.mem_filter, List.mem_range'_1, decide_eq_true_eq, and_assoc, and_assoc]
  refine and_congr_right fun hfirst => and_congr_left fun _ => ?_
  omega

theorem of_mem_asked {placement : Placement} (h : placement ∈ mapper.asked start stop) :
    ∃ region, start ≤ region ∧ region < stop ∧ mapper.placementOf region = placement := by
  by_cases hkind : mapper.memoryKind.isPlaced = true
  · obtain ⟨region, hfirst, hlast, -, hregion⟩ := (mem_asked hkind).mp h
    exact ⟨region, hfirst, hlast, hregion⟩
  · rw [asked, askedFrom, if_neg hkind] at h
    cases h

/-- The requests are told from the layout of the store and the shape of the strategy. -/
theorem placementOf_congr (same : PageSpace.SameLayout mapper.store after.store)
    (hshape : after.strategy.shape = mapper.strategy.shape) :
    after.placementOf = mapper.placementOf := by
  funext region
  rw [placementOf, placementOf, same.firstAddress_eq, same.pageSize_eq,
    Strategy.firstPage_of_shape_eq hshape, Strategy.pagesEach_of_shape_eq hshape]

/-- A region leads just if its first page is not committed yet when the batch comes to it. So a batch
can be taken up at any of its regions. -/
theorem Turns.leads_iff (turns : Turns true start region mapper after) (sound : mapper.Sound)
    (hfirst : start ≤ region) {other : Nat} (hother : region ≤ other) :
    after.Leads region other ↔ mapper.Leads start other := by
  have hpos := sound.pagesEach_pos
  have hhosts : mapper.strategy.Hosts (mapper.strategy.firstPage other) other :=
    (Strategy.hosts_iff hpos).mpr ⟨Nat.le_refl _, Nat.lt_add_of_pos_right hpos⟩
  have hpages := turns.isCommitted_iff sound (mapper.strategy.firstPage other)
  simp only [Strategy.hosts_firstPage_iff hpos hhosts] at hpages
  unfold Leads
  rw [Strategy.firstPage_of_shape_eq turns.shape_eq, ← Bool.not_eq_true, hpages,
    ← Bool.not_eq_true, not_or, and_assoc]
  refine and_congr_right fun _ => ⟨fun h index hlt hge hsame => ?_, fun h => ⟨?_, ?_⟩⟩
  · rcases Nat.lt_or_ge index region with hbefore | hbehind
    · exact h.1 ⟨index, hge, hbefore, hsame⟩
    · exact h.2 index hlt hbehind hsame
  · rintro ⟨index, hge, hlt, hsame⟩
    exact h index (Nat.lt_of_lt_of_le hlt hother) hge hsame
  · exact fun index hlt hge => h index hlt (Nat.le_trans hfirst hge)

/-- What a batch asks for from one of its regions on, it asks for where it is taken up there. -/
theorem Turns.asked_eq (turns : Turns true start region mapper after) (sound : mapper.Sound)
    (hkind : after.memoryKind = mapper.memoryKind) (hfirst : start ≤ region) (stop : Nat) :
    after.asked region stop = mapper.askedFrom start region stop := by
  rw [asked, askedFrom, askedFrom, hkind,
    placementOf_congr turns.oneWay.toSameLayout turns.shape_eq]
  congr 2
  apply List.filter_congr
  intro other hother
  exact decide_eq_decide.mpr (turns.leads_iff sound hfirst (List.mem_range'_1.mp hother).1)

/-! ## Placements that come behind commits -/

/-- Each placement of a trace comes behind the commits of its pages: the calls that are shown in
front of it lead the store to a state in which all pages of which it has a byte are committed. -/
def PlacesCommitted (space : PageSpace) (trace : List Effect) : Prop :=
  ∀ earlier placement later, trace = earlier ++ .placement placement :: later →
    ∃ answers middle, StoreRun space answers middle ∧
      Effect.calls earlier = answers.map (·.call) ∧
      ∀ page, ∀ address ∈ placement.bytes, address ∈ space.wholePage page →
        middle.isCommitted page = true

theorem placesCommitted_of_none {space : PageSpace} (h : Effect.placements trace = []) :
    PlacesCommitted space trace := by
  rintro earlier placement later rfl
  rw [Effect.placements_append] at h
  cases (List.append_eq_nil_iff.mp h).2

/-- A part of a commit that does not call the store and places committed pages only. -/
theorem placesCommitted_of_still {space : PageSpace} (hcalls : Effect.calls trace = [])
    (hpages : ∀ placement ∈ Effect.placements trace, ∀ page, ∀ address ∈ placement.bytes,
      address ∈ space.wholePage page → space.isCommitted page = true) :
    PlacesCommitted space trace := by
  rintro earlier placement later rfl
  rw [Effect.calls_append] at hcalls
  refine ⟨[], space, .done space, (List.append_eq_nil_iff.mp hcalls).1, hpages placement ?_⟩
  rw [Effect.placements_append]
  exact List.mem_append_right _ List.mem_cons_self

/-- An effect of two traces stands in the first one, or in the second one behind all of the first. -/
theorem append_eq_append_cons {effect : Effect} {earlier later : List Effect}
    (h : trace ++ trace' = earlier ++ effect :: later) :
    (∃ rest, trace = earlier ++ effect :: rest) ∨
      ∃ front, earlier = trace ++ front ∧ trace' = front ++ effect :: later := by
  rcases List.append_eq_append_iff.mp h with ⟨front, hearlier, hlater⟩ | ⟨rest, htrace, hlater⟩
  · exact .inr ⟨front, hearlier, hlater⟩
  · cases rest with
    | nil => exact .inr ⟨[], by rw [htrace, List.append_nil, List.append_nil], hlater.symm⟩
    | cons head rest =>
      cases hlater
      exact .inl ⟨rest, htrace⟩

theorem PlacesCommitted.trans (first : PlacesCommitted mapper.store trace)
    (second : PlacesCommitted after.store trace') (reaches : Reaches mapper after answers trace)
    (same : PageSpace.SameLayout mapper.store after.store) :
    PlacesCommitted mapper.store (trace ++ trace') := by
  intro earlier placement later h
  rcases append_eq_append_cons h with ⟨rest, htrace⟩ | ⟨front, rfl, htrace⟩
  · exact first earlier placement rest htrace
  · obtain ⟨answers', middle, run, hcalls, hpages⟩ := second front placement later htrace
    refine ⟨answers ++ answers', middle, reaches.run.trans run, ?_, ?_⟩
    · rw [Effect.calls_append, reaches.calls_eq, hcalls, List.map_append]
    · intro page address hbyte hpage
      refine hpages page address hbyte ?_
      rw [PageSpace.wholePage, same.firstAddress_eq, same.pageSize_eq]
      exact hpage

theorem PlacesCommitted.stay {space : PageSpace} (first : PlacesCommitted space trace)
    (hnone : Effect.placements trace' = []) : PlacesCommitted space (trace ++ trace') := by
  intro earlier placement later h
  rcases append_eq_append_cons h with ⟨rest, htrace⟩ | ⟨front, -, rfl⟩
  · exact first earlier placement rest htrace
  · rw [Effect.placements_append] at hnone
    cases (List.append_eq_nil_iff.mp hnone).2

/-! ## What the steps of a commit show -/

theorem mem_placementOf_iff (sound : mapper.Sound) (region address : Nat) :
    address ∈ (mapper.placementOf region).bytes ↔
      ∃ page, mapper.strategy.Hosts page region ∧ address ∈ mapper.store.wholePage page := by
  have hpos := sound.store_sound.pageSize_pos
  simp only [placementOf, PageSpace.mem_bytes_iff hpos, PageSpace.mem_wholePage_iff hpos,
    Strategy.hosts_iff sound.pagesEach_pos]
  constructor
  · rintro ⟨hbase, hpages⟩
    exact ⟨_, hpages, hbase, rfl⟩
  · rintro ⟨page, hpages, hbase, rfl⟩
    exact ⟨hbase, hpages⟩

/-- A page that has a byte of the placement of a region is one of the region. -/
theorem hosts_of_mem_bytes (sound : mapper.Sound) {address : Nat}
    (hbyte : address ∈ (mapper.placementOf region).bytes)
    (hpage : address ∈ mapper.store.wholePage page) : mapper.strategy.Hosts page region := by
  have hpos := sound.store_sound.pageSize_pos
  obtain ⟨other, hhosts, hother⟩ := (mem_placementOf_iff sound region address).mp hbyte
  rw [PageSpace.mem_wholePage_iff hpos] at hpage hother
  rwa [← hpage.2, hother.2]

/-- Pages that were placed, if the mapper places pages. -/
theorem of_placePages {first : Nat}
    (h : placePages first count region mapper = ⟨.ok (), after, trace⟩) :
    (∃ nodes, after = mapper.withNodes nodes) ∧ trace =
      if mapper.memoryKind.isPlaced then
        [.placement ⟨mapper.store.firstAddress first, mapper.store.pageSize * count, region⟩]
      else [] := by
  unfold placePages at h
  rw [Op.get_bind] at h
  split at h
  · next hplaced =>
    rw [if_pos hplaced]
    obtain ⟨_, _, _, _, hsize, hrest, rfl⟩ := Op.of_bind_run_ok h
    obtain ⟨hbytes, rfl, rfl⟩ := Op.of_checked_ok hsize
    obtain ⟨address, _, _, _, haddress, hlast, rfl⟩ := Op.of_bind_run_ok hrest
    obtain ⟨hstart, rfl, rfl⟩ := Op.of_checked_ok haddress
    obtain ⟨-, rfl⟩ := Word.mul_eq_ok_iff.mp hbytes
    obtain rfl := PageSpace.eq_firstAddress hstart
    cases hlast
    exact ⟨⟨_, rfl⟩, rfl⟩
  · next hplaced =>
    rw [if_neg hplaced]
    cases h
    exact ⟨⟨_, rfl⟩, rfl⟩

/-- Regions with pages of their own are placed one by one. -/
theorem of_placeRegions {regions : List Nat}
    (h : Op.forEach regions (placeRegion pagesPerRegion) mapper = ⟨.ok (), after, trace⟩)
    (hstrategy : mapper.strategy = .large pagesPerRegion) :
    (∃ nodes, after = mapper.withNodes nodes) ∧ trace =
      (if mapper.memoryKind.isPlaced then regions.map mapper.placementOf else []).map
        .placement := by
  induction regions generalizing mapper trace with
  | nil =>
    cases h
    refine ⟨⟨_, rfl⟩, ?_⟩
    rw [List.map_nil, ite_self]
    rfl
  | cons region rest ih =>
    rw [Op.forEach_cons] at h
    obtain ⟨_, middle, _, _, hregion, hrest, rfl⟩ := Op.of_bind_run_ok h
    obtain ⟨_, mapper, _, _, hfirst, hplace, rfl⟩ := Op.of_bind_run_ok hregion
    obtain ⟨hpage, rfl, rfl⟩ := Op.of_checked_ok hfirst
    obtain ⟨-, rfl⟩ := Word.mul_eq_ok_iff.mp hpage
    obtain ⟨⟨nodes, rfl⟩, rfl⟩ := of_placePages hplace
    obtain ⟨⟨nodes', rfl⟩, rfl⟩ := ih hrest hstrategy
    refine ⟨⟨nodes', rfl⟩, ?_⟩
    have hregion : mapper.placementOf region =
        ⟨mapper.store.firstAddress (region * pagesPerRegion),
          mapper.store.pageSize * pagesPerRegion, region⟩ := by
      rw [placementOf, hstrategy]
      rfl
    rw [List.map_cons, hregion]
    show _ ++ ((if mapper.memoryKind.isPlaced then rest.map mapper.placementOf else []).map _) = _
    split <;> rfl

theorem of_writeReferences {σ : Type} {mapper after : Mapper σ} {page : Nat}
    (h : writeReferences page count mapper = ⟨.ok (), after, trace⟩) : trace = [] := by
  unfold writeReferences at h
  rw [Op.get_bind] at h
  cases hreferences : mapper.strategy.references with
  | none =>
    rw [hreferences] at h
    cases h
    rfl
  | some references =>
    rw [hreferences] at h
    obtain ⟨_, _, _, _, hwrite, hlast, rfl⟩ := Op.of_bind_run_ok h
    obtain ⟨-, rfl, rfl⟩ := Op.of_checked_ok hwrite
    cases hlast
    rfl

/-- The last steps for a region show nothing. -/
theorem of_countRegion {σ : Type} {mapper after : Mapper σ} (h : (do
      if count + 1 < entryLimit then writeReferences page (count + 1) else Op.fail .addOverflow
      changeBits fun bits => bits.setBitSteps region
      pure progress : Op Refusal (Mapper σ) Progress) mapper = ⟨.ok next, after, trace⟩) :
    trace = [] := by
  by_cases hroom : count + 1 < entryLimit
  · simp only [if_pos hroom] at h
    obtain ⟨_, _, _, _, hwrite, hrest, rfl⟩ := Op.of_bind_run_ok h
    obtain ⟨_, _, _, _, hbits, hlast, rfl⟩ := Op.of_bind_run_ok hrest
    obtain rfl := of_writeReferences hwrite
    obtain ⟨-, rfl⟩ := of_changeBits_ok hbits
    cases hlast
    rfl
  · simp only [if_neg hroom, Op.fail_bind] at h
    cases h

/-- A region whose page has references shows nothing. Otherwise its page is committed, and placed
behind that. -/
theorem of_commitRegion (hstrategy : mapper.strategy = .small regionsPerPage references)
    (hpage : region / regionsPerPage < references.size)
    (h : commitRegion regionsPerPage progress region mapper = ⟨.ok next, after, trace⟩) :
    (references.entry (region / regionsPerPage) ≠ 0 ∧ trace = []) ∨
    (references.entry (region / regionsPerPage) = 0 ∧ ∃ zeroFilled store called record,
      commitPages (region / regionsPerPage) 1 mapper =
        ⟨.ok zeroFilled, mapper.withStore store, called⟩ ∧
      trace = called ++ ((if mapper.memoryKind.isPlaced then
        [.placement ((mapper.withStore store).placementOf region)] else []) ++
        [.record record])) := by
  unfold commitRegion at h
  simp only [] at h
  rw [Op.bind_eq_after (readReferences_run hstrategy hpage), Run.after_nil] at h
  by_cases hentry : references.entry (region / regionsPerPage) = 0
  · rw [if_pos hentry] at h
    obtain ⟨_, middle, _, _, hacquire, hrest, rfl⟩ := Op.of_bind_run_ok h
    obtain ⟨zeroFilled, committed, called, _, hcommit, hplaces, rfl⟩ := Op.of_bind_run_ok hacquire
    obtain ⟨_, placed, _, noted, hplace, hnoted, rfl⟩ := Op.of_bind_run_ok hplaces
    have hrecord : ∃ record, noted = [.record record] := by
      cases hnoted
      exact ⟨_, rfl⟩
    obtain ⟨record, rfl⟩ := hrecord
    have hstate := hcommit
    rw [commitPages_run] at hstate
    obtain rfl : mapper.withStore _ = committed := congrArg Run.state hstate
    obtain rfl := of_countRegion hrest
    obtain ⟨-, rfl⟩ := of_placePages hplace
    have hplacement : ∀ store : PageSpace, (mapper.withStore store).placementOf region =
        ⟨store.firstAddress (region / regionsPerPage), store.pageSize * 1, region⟩ := by
      intro store
      show Placement.mk (store.firstAddress (mapper.strategy.firstPage region)) _ region = _
      rw [hstrategy]
      exact congrArg (Placement.mk _ · region)
        (congrArg (store.pageSize * ·) (congrArg Strategy.pagesEach hstrategy))
    refine .inr ⟨hentry, zeroFilled, _, called, record, hcommit, ?_⟩
    rw [hplacement, List.append_nil]
    rfl
  · rw [if_neg hentry] at h
    left
    split at h
    · rw [pure_bind] at h
      exact ⟨hentry, of_countRegion h⟩
    · rw [pure_bind] at h
      exact ⟨hentry, of_countRegion h⟩

theorem views_of_placements (placements : List Placement) :
    Effect.placements (placements.map .placement) = placements ∧
      Effect.reports (placements.map .placement) = [] ∧
      Effect.calls (placements.map .placement) = [] := by
  induction placements with
  | nil => exact ⟨rfl, rfl, rfl⟩
  | cons placement rest ih => exact ⟨congrArg (placement :: ·) ih.1, ih.2.1, ih.2.2⟩

/-- Passes over pages place nothing. -/
theorem Passed.unplaced {σ : Type} [PageStore σ] [QuietStore σ] {mapper after : Mapper σ}
    {first : Nat} (passed : Passed mapper first count pretoucher after trace) :
    Unplaced trace := by
  cases passed with
  | idle => exact ⟨rfl, rfl⟩
  | @pass worker report store shown _ _ hrun =>
    have quiet := QuietStore.pretouch_quiet first count worker mapper.store
    rw [hrun] at quiet
    have hreport : Unplaced [.event (.pretouch report.pages report.workers .zero)] := ⟨rfl, rfl⟩
    exact (quiet.callsOnly ⟨.pretouch, first, count⟩).unplaced.append hreport

theorem pretouchFresh_unplaced {σ : Type} [PageStore σ] [QuietStore σ] {mapper after : Mapper σ}
    {fresh : List Nat} (h : pretouchFresh fresh pretoucher mapper = ⟨.ok (), after, trace⟩) :
    Unplaced trace := by
  unfold pretouchFresh at h
  cases hfirst : fresh.getLast? with
  | none =>
    rw [hfirst] at h
    cases h
    exact ⟨rfl, rfl⟩
  | some first =>
    cases hlast : fresh.head? with
    | none =>
      rw [hfirst, hlast] at h
      cases h
      exact ⟨rfl, rfl⟩
    | some last =>
      rw [hfirst, hlast] at h
      exact (of_pretouchPages_ok h).unplaced

/-! ## Commits that place what they commit -/

/-- A commit has come to a region, and on its way it has placed what it committed. -/
structure Placed (start region : Nat) (mapper after : Mapper PageSpace) (trace : List Effect) :
    Prop where
  turns : Turns true start region mapper after
  kind_eq : after.memoryKind = mapper.memoryKind
  placements_eq : Effect.placements trace = mapper.asked start region
  behind : PlacesCommitted mapper.store trace

/-- Pages that were committed and are placed then. -/
theorem placesCommitted_of_acquired (sound : mapper.Sound) (calls : CallsOnly trace)
    (reaches : Reaches mapper after answers trace) (hcalls : Effect.calls trace' = [])
    (hpages : ∀ placement ∈ Effect.placements trace',
      ∃ region, placement = mapper.placementOf region ∧
        ∀ page, mapper.strategy.Hosts page region → after.store.isCommitted page = true) :
    PlacesCommitted mapper.store (trace ++ trace') := by
  have same := reaches.run.reachable.sameLayout sound.store_sound
  refine (placesCommitted_of_none calls.placements_eq).trans
    (placesCommitted_of_still hcalls ?_) reaches same
  intro placement hplacement page address hbyte hpage
  obtain ⟨region, rfl, hcommitted⟩ := hpages placement hplacement
  rw [PageSpace.wholePage, same.firstAddress_eq, same.pageSize_eq] at hpage
  exact hcommitted page (hosts_of_mem_bytes sound hbyte hpage)

namespace Placed

theorem start_start (sound : mapper.Sound) (start : Nat) : Placed start start mapper mapper [] where
  turns := .refl sound true start
  kind_eq := rfl
  placements_eq := (mapper.askedFrom_self start start).symm
  behind := placesCommitted_of_none rfl

/-- A commit goes on without placing anything. -/
theorem stay (placed : Placed start region mapper after trace)
    (turns : Turns true start region mapper last) (hkind : last.memoryKind = after.memoryKind)
    (hnone : Effect.placements trace' = []) : Placed start region mapper last (trace ++ trace') where
  turns := turns
  kind_eq := hkind.trans placed.kind_eq
  placements_eq := by
    rw [Effect.placements_append, hnone, List.append_nil, placed.placements_eq]
  behind := placed.behind.stay hnone

end Placed

/-- A region that shares its page leads just if nothing refers to the page when the batch comes to
it. -/
theorem SharedBooks.leads_iff (books : SharedBooks regionsPerPage references mapper) :
    mapper.Leads region region ↔ references.entry (region / regionsPerPage) = 0 := by
  have hbacked : mapper.store.isCommitted (mapper.strategy.firstPage region) =
      decide (0 < references.entry (region / regionsPerPage)) := by
    rw [books.strategy_eq]
    exact books.backed_eq (region / regionsPerPage)
  rw [Leads, hbacked, decide_eq_false_iff_not, Nat.not_lt, Nat.le_zero]
  exact and_iff_left fun other hlt hge => absurd hlt (Nat.not_lt.mpr hge)

/-- What one region that shares its page shows, and that its placement comes behind the commit of
the page. -/
theorem commitRegion_placed (books : SharedBooks regionsPerPage references mapper)
    (hregion : region < mapper.committed.size)
    (h : commitRegion regionsPerPage progress region mapper = ⟨.ok next, after, trace⟩) :
    Effect.placements trace = mapper.askedFrom region region (region + 1) ∧
      Effect.reports trace = [] ∧ PlacesCommitted mapper.store trace := by
  have sound : mapper.Sound := .small _ _ books
  have hleads : mapper.Leads region region ↔ references.entry (region / regionsPerPage) = 0 :=
    books.leads_iff
  rw [askedFrom_succ]
  rcases of_commitRegion books.strategy_eq (books.table.page_lt hregion) h with
    ⟨hentry, rfl⟩ | ⟨hentry, zeroFilled, store, called, record, hcommit, rfl⟩
  · rw [if_neg fun h => hentry (hleads.mp h.2)]
    exact ⟨rfl, rfl, placesCommitted_of_none rfl⟩
  · have unbacked : AllBacked mapper.store false (region / regionsPerPage)
        (region / regionsPerPage + 1) := by
      intro page hfirst hlast
      obtain rfl : page = region / regionsPerPage := by omega
      rw [books.backed_eq, hentry]
      rfl
    rcases commitPages_cases books.store_sound unbacked with
      ⟨zeroFilled', store', called', hrun, hacquired, hreaches, hcalls⟩ | ⟨_, _, hrun, -⟩
    · cases hrun.symm.trans hcommit
      have same := hreaches.run.reachable.sameLayout sound.store_sound
      have hplacement := placementOf_congr same hreaches.shape_eq
      rw [hplacement]
      have hplaces : PlacesCommitted mapper.store (called ++
          ((if mapper.memoryKind.isPlaced then [.placement (mapper.placementOf region)] else []) ++
            [.record record])) := by
        refine placesCommitted_of_acquired sound hcalls hreaches ?_ ?_
        · split <;> rfl
        · intro placement hmem
          refine ⟨region, ?_, fun page hhosts => ?_⟩
          · split at hmem
            · exact List.mem_singleton.mp hmem
            · cases hmem
          · rw [books.strategy_eq] at hhosts
            obtain rfl : region / regionsPerPage = page := hhosts
            show backed store _ = true
            rw [hacquired.backed_eq, decide_eq_true ⟨Nat.le_refl _, Nat.lt_succ_self _⟩,
              Bool.or_true]
      refine ⟨?_, ?_, hplaces⟩
      · rw [Effect.placements_append, hcalls.placements_eq]
        by_cases hkind : mapper.memoryKind.isPlaced = true
        · rw [if_pos hkind, if_pos ⟨hkind, hleads.mpr hentry⟩]
          rfl
        · rw [if_neg hkind, if_neg fun h => hkind h.1]
          rfl
      · rw [Effect.reports_append, hcalls.unplaced.reports_eq]
        split <;> rfl
    · cases hrun.symm.trans hcommit

/-- The loop over the regions of a batch has placed what it committed, however far it came. -/
theorem placeLoop_run (books : SharedBooks regionsPerPage references mapper)
    (ready : mapper.Ready false start count) :
    (∃ progress after trace,
      Op.fold (commitRegion regionsPerPage) Progress.start (List.range' start count) mapper =
        ⟨.ok progress, after, trace⟩ ∧
      Placed start (start + count) mapper after trace ∧ Effect.reports trace = []) ∨
    (∃ stop after trace region,
      Op.fold (commitRegion regionsPerPage) Progress.start (List.range' start count) mapper =
        ⟨.error stop, after, trace⟩ ∧ start ≤ region ∧ region < start + count ∧
      Placed start region mapper after trace ∧ Effect.reports trace = []) := by
  have sound : mapper.Sound := .small _ _ books
  refine Or.imp_left ?_ (Op.fold_range
    (fun region (_ : Progress) after trace =>
      (∃ answers, BroughtTo true start region mapper after answers trace) ∧
      Placed start region mapper after trace ∧ Effect.reports trace = [])
    (fun region _ after trace => Placed start region mapper after trace ∧ Effect.reports trace = [])
    ⟨⟨[], .refl sound true (Nat.le_refl start)⟩, .start_start sound start, rfl⟩ ?_)
  · rintro ⟨progress, after, trace, hrun, -, hplaced⟩
    exact ⟨progress, after, trace, hrun, hplaced⟩
  intro region progress after trace hfirst hlast hinv
  obtain ⟨⟨answers, done⟩, placed, hreported⟩ := hinv
  obtain ⟨references', books'⟩ := done.sharedBooks books
  have hregion : region < after.committed.size := by
    rw [done.reaches.size_eq]
    exact Nat.lt_of_lt_of_le hlast ready.le_size
  have hfree := done.bit_next.trans (ready.bit_eq region hfirst hlast)
  rcases commitRegion_run books' hregion hfree progress with
    ⟨next, later, references'', answers', trace', hrun, books'', hreaches, hbits, advances, -,
      hposts⟩ |
    ⟨stop, trace', answers', hrun, hreaches, hwithout, hcalls, -⟩
  · obtain ⟨hplacements, hreports, hbehind⟩ := commitRegion_placed books' hregion hrun
    have hasked := placed.turns.asked_eq sound placed.kind_eq hfirst (region + 1)
    have hnext := done.next hfirst hregion hreaches (.small _ _ books'') advances.without hbits
    refine Or.inl ⟨next, later, trace', hrun, ⟨_, hnext⟩, ⟨hnext.turns sound,
      hposts.kind_eq.trans placed.kind_eq, ?_,
      placed.behind.trans hbehind done.reaches placed.turns.oneWay.toSameLayout⟩, ?_⟩
    · rw [Effect.placements_append, placed.placements_eq, hplacements, ← asked, hasked, asked, asked,
        ← mapper.askedFrom_append hfirst (Nat.le_succ region)]
    · rw [Effect.reports_append, hreported, hreports, List.append_nil]
  · refine Or.inr ⟨stop, after, trace', hrun, placed.stay placed.turns rfl hcalls.placements_eq, ?_⟩
    rw [Effect.reports_append, hreported, hcalls.unplaced.reports_eq, List.append_nil]

/-- A batch of commits has placed what it committed, however it ended. If it came to its end, its
backing tells how much that is. -/
structure PlacedAll (start count : Nat) (mapper : Mapper PageSpace)
    (run : Run Refusal (Mapper PageSpace) Backing) : Prop where
  placed : ∃ region, region ≤ start + count ∧ Placed start region mapper run.state run.trace
  reports_eq : Effect.reports run.trace = []
  of_ok : ∀ backing, run.result = .ok backing →
    Placed start (start + count) mapper run.state run.trace ∧
      (Effect.placements run.trace).length = backing.placements ∧
      backing.placedBytes =
        backing.placements * (mapper.store.pageSize * mapper.strategy.pagesEach)

theorem commitShared_placed (books : SharedBooks regionsPerPage references mapper)
    (ready : mapper.Ready false start count) (chunked : mapper.Chunked pretoucher) :
    PlacedAll start count mapper (commitShared regionsPerPage start count pretoucher mapper) := by
  have sound : mapper.Sound := .small _ _ books
  rcases placeLoop_run books ready with
    ⟨progress, after, trace, hloop, placed, hreported⟩ |
    ⟨stop, after, trace, region, hloop, -, hlast, placed, hreported⟩
  · rcases commitLoop_run books ready.le_size ready.bit_eq with
      ⟨_, _, _, hrun, ⟨answers, done, accounts⟩, -⟩ | ⟨_, _, _, _, hrun, -⟩
    · cases hrun.symm.trans hloop
      obtain ⟨references', books'⟩ := done.sharedBooks books
      have hset : ∀ region, start ≤ region → region < start + count →
          after.committed.bit region = true := by
        intro region hfirst hlast
        rw [done.bit_eq, if_pos ⟨hfirst, hlast⟩]
      obtain ⟨result, store, activity, passed, answers', hpass, hsame, hreaches, hwithout, hok⟩ :=
        pretouchFresh_run books' (done.reaches.size_eq ▸ ready.le_size) accounts hset pretoucher
      obtain rfl := hok (chunked.of_succeeds done.reaches.succeeds)
      have hdone := done.stay hreaches hwithout (done.sound.of_sameBacking rfl rfl hsame) rfl
      have unplaced := pretouchFresh_unplaced hpass
      have hplaced := placed.stay (hdone.turns sound) rfl unplaced.placements_eq
      have hend : ∃ backing, commitShared regionsPerPage start count pretoucher mapper =
          ⟨.ok backing, (after.withStore store).withActivity activity, trace ++ passed⟩ ∧
          backing.placedBytes = backing.placements * PageStore.pageSize store := by
        rw [commitShared, Op.bind_eq_after hloop, Op.bind_eq_after hpass, Op.get_bind, Op.pure_run,
          Run.after_mk, Run.after_mk, List.append_nil]
        exact ⟨_, rfl, rfl⟩
      obtain ⟨backing, hend, hbytes⟩ := hend
      have hlength := (commitShared_posted books ready hend).placements_eq
      have hreports : Effect.reports (trace ++ passed) = [] := by
        rw [Effect.reports_append, hreported, unplaced.reports_eq, List.append_nil]
      rw [hend]
      refine ⟨⟨start + count, Nat.le_refl _, hplaced⟩, hreports, ?_⟩
      rintro _ ⟨⟩
      have hpages : store.pageSize = mapper.store.pageSize :=
        hdone.reaches.succeeds.geometry.pageSize_eq
      refine ⟨hplaced, hlength, ?_⟩
      rw [hbytes, books.strategy_eq, ← hpages]
      exact congrArg (backing.placements * ·) (Nat.mul_one _).symm
    · cases hrun.symm.trans hloop
  · rw [commitShared, Op.bind_run_error hloop]
    exact ⟨⟨region, Nat.le_of_lt hlast, placed⟩, hreported, fun _ h => by cases h⟩

/-- Where regions have pages of their own, all regions of a batch lead. -/
theorem WholeBooks.leads (books : WholeBooks pagesPerRegion mapper)
    (hclear : mapper.committed.bit region = false) (start : Nat) : mapper.Leads start region := by
  unfold Leads
  rw [books.strategy_eq]
  constructor
  · have hbacked := books.backed_eq (region * pagesPerRegion)
    rw [Nat.mul_div_cancel _ books.share_pos, hclear] at hbacked
    exact hbacked
  · intro other hlt _ hsame
    exact Nat.ne_of_lt hlt (Nat.eq_of_mul_eq_mul_right books.share_pos hsame)

theorem WholeBooks.asked_eq (books : WholeBooks pagesPerRegion mapper)
    (ready : mapper.Ready false start count) : mapper.asked start (start + count) =
      if mapper.memoryKind.isPlaced then (List.range' start count).map mapper.placementOf
      else [] := by
  rw [asked, askedFrom, Nat.add_sub_cancel_left, List.filter_eq_self.mpr]
  intro region hregion
  rw [List.mem_range'_1] at hregion
  exact decide_eq_true (books.leads (ready.bit_eq region hregion.1 hregion.2) start)

/-- A batch of regions with pages of their own that came to its end: all pages were committed, and
its regions placed behind that. -/
theorem of_commitWhole (hstrategy : mapper.strategy = .large pagesPerRegion)
    (h : commitWhole pagesPerRegion start count pretoucher mapper = ⟨.ok backing, after, trace⟩) :
    ∃ zeroFilled store called passed,
      commitPages (start * pagesPerRegion) (count * pagesPerRegion) mapper =
        ⟨.ok zeroFilled, mapper.withStore store, called⟩ ∧ Unplaced passed ∧
      trace = called ++ ((if mapper.memoryKind.isPlaced then
        (List.range' start count).map (mapper.withStore store).placementOf else []).map
          .placement) ++ passed ∧
      backing.placedBytes = backing.placements * (after.store.pageSize * pagesPerRegion) := by
  unfold commitWhole at h
  obtain ⟨startPage, mapper, _, _, hstart, hrest, rfl⟩ := Op.of_bind_run_ok h
  obtain ⟨hfirst, rfl, rfl⟩ := Op.of_checked_ok hstart
  obtain ⟨pages, mapper, _, _, hcount, hcalls, rfl⟩ := Op.of_bind_run_ok hrest
  obtain ⟨hpages, rfl, rfl⟩ := Op.of_checked_ok hcount
  obtain ⟨-, rfl⟩ := Word.mul_eq_ok_iff.mp hfirst
  obtain ⟨-, rfl⟩ := Word.mul_eq_ok_iff.mp hpages
  obtain ⟨zeroFilled, committed, called, _, hcommit, hplaces, rfl⟩ := Op.of_bind_run_ok hcalls
  obtain ⟨_, middle, placed, _, hplace, hpasses, rfl⟩ := Op.of_bind_run_ok hplaces
  obtain ⟨_, last, passed, _, hpass, hchanges, rfl⟩ := Op.of_bind_run_ok hpasses
  obtain ⟨_, done, _, _, hbits, hend, rfl⟩ := Op.of_bind_run_ok hchanges
  cases hend
  have hstate := hcommit
  rw [commitPages_run] at hstate
  obtain rfl : mapper.withStore _ = committed := congrArg Run.state hstate
  obtain ⟨-, rfl⟩ := of_placeRegions hplace hstrategy
  obtain ⟨-, rfl⟩ := of_changeBits_ok hbits
  refine ⟨zeroFilled, _, called, passed, hcommit, (of_pretouchPages_ok hpass).unplaced, ?_, rfl⟩
  simp only [List.nil_append, List.append_nil, List.append_assoc]
  rfl

theorem commitWhole_placed (books : WholeBooks pagesPerRegion mapper)
    (ready : mapper.Ready false start count) (chunked : mapper.Chunked pretoucher) :
    PlacedAll start count mapper (commitWhole pagesPerRegion start count pretoucher mapper) := by
  have sound : mapper.Sound := .large _ books
  rcases commitWhole_run books ready.le_size ready.bit_eq chunked with
    ⟨backing, after, trace, answers, hrun, done, -⟩ | ⟨stop, trace, answers, hrun, done, hcalls, -⟩
  · have posted := commitWhole_posted books ready chunked hrun
    obtain ⟨_, posts⟩ := posted.posts
    obtain ⟨zeroFilled, store, called, passed, hcommit, unplaced, htrace, hbytes⟩ :=
      of_commitWhole books.strategy_eq hrun
    rcases commitPages_cases books.store_sound (books.allBacked ready.bit_eq) with
      ⟨_, _, _, hrun', hacquired, hreaches, hcalls⟩ | ⟨_, _, hrun', -⟩
    · cases hrun'.symm.trans hcommit
      have same := hreaches.run.reachable.sameLayout sound.store_sound
      have hplacement := placementOf_congr same hreaches.shape_eq
      rw [hplacement, ← books.asked_eq ready] at htrace
      obtain ⟨hplacements, hreports, hsilent⟩ :=
        views_of_placements (mapper.asked start (start + count))
      have hplaced : Placed start (start + count) mapper after trace := by
        refine ⟨done.turns sound, posts.kind_eq, ?_, ?_⟩
        · rw [htrace, Effect.placements_append, Effect.placements_append, hcalls.placements_eq,
            unplaced.placements_eq, List.append_nil, hplacements, List.nil_append]
        · rw [htrace]
          refine (placesCommitted_of_acquired sound hcalls hreaches hsilent ?_).stay
            unplaced.placements_eq
          intro placement hplaced
          rw [hplacements] at hplaced
          obtain ⟨region, hfirst, hlast, rfl⟩ := of_mem_asked hplaced
          refine ⟨region, rfl, fun page hhosts => ?_⟩
          rw [books.strategy_eq] at hhosts
          obtain rfl : page / pagesPerRegion = region := hhosts
          show backed store page = true
          rw [hacquired.backed_eq, decide_eq_true ((page_mem_iff books.share_pos page).mpr
            ⟨hfirst, hlast⟩), Bool.or_true]
      have hreported : Effect.reports trace = [] := by
        rw [htrace, Effect.reports_append, Effect.reports_append, hcalls.unplaced.reports_eq,
          unplaced.reports_eq, List.append_nil, hreports, List.nil_append]
      rw [hrun]
      refine ⟨⟨start + count, Nat.le_refl _, hplaced⟩, hreported, ?_⟩
      rintro _ ⟨⟩
      have hpages : after.store.pageSize = mapper.store.pageSize :=
        done.reaches.succeeds.geometry.pageSize_eq
      refine ⟨hplaced, posted.placements_eq, ?_⟩
      rw [hbytes, books.strategy_eq, hpages]
      rfl
    · cases hrun'.symm.trans hcommit
  · rw [hrun]
    exact ⟨⟨start, Nat.le_add_right _ _, (Placed.start_start sound start).stay (done.turns sound) rfl
      hcalls.placements_eq⟩, hcalls.unplaced.reports_eq, fun _ h => by cases h⟩

theorem backRegions_placed (sound : mapper.Sound) (ready : mapper.Ready false start count)
    (chunked : mapper.Chunked pretoucher) :
    PlacedAll start count mapper (backRegions start count pretoucher mapper) := by
  cases sound with
  | small regionsPerPage references books =>
    rw [backRegions_small books.strategy_eq]
    exact commitShared_placed books ready chunked
  | large pagesPerRegion books =>
    rw [backRegions_large books.strategy_eq]
    exact commitWhole_placed books ready chunked

/-! ## Whole commits -/

/-- The report of a commit tells its placements, if there are any. -/
theorem reportCommit_reports (start count : Nat) (backing : Backing) (mapper : Mapper PageSpace) :
    Effect.reports (reportCommit start count backing mapper).trace =
      if backing.placements = 0 then [] else
        [.placement backing.placements backing.placedBytes] := by
  unfold reportCommit
  rw [Op.get_bind]
  by_cases hnone : backing.placements = 0
  · rw [if_pos hnone, if_neg (not_not.mpr hnone)]
    rfl
  · rw [if_neg hnone, if_pos hnone]
    rfl

theorem unplaced_told (mapper : Mapper PageSpace) (start count : Nat) (zeroFilled : Bool) :
    Unplaced (mapper.told start count zeroFilled) := by
  unfold told
  split <;> exact ⟨rfl, rfl⟩

/-- A commit of regions has placed what it committed, however it ended. If it came to its end, it
has reported the number of its placements and their bytes, unless there are none. -/
structure PlacedCall (start count : Nat) (mapper : Mapper PageSpace)
    (run : Run Refusal (Mapper PageSpace) Unit) : Prop where
  placed : ∃ region, region ≤ start + count ∧ Placed start region mapper run.state run.trace
  of_ok : run.result = .ok () → Placed start (start + count) mapper run.state run.trace ∧
    Effect.reports run.trace = if Effect.placements run.trace = [] then [] else
      [.placement (Effect.placements run.trace).length
        ((Effect.placements run.trace).map (·.size)).sum]

/-- All placements of a batch have the same size. -/
theorem sum_asked (mapper : Mapper PageSpace) (start stop : Nat) :
    ((mapper.asked start stop).map (·.size)).sum =
      (mapper.asked start stop).length * (mapper.store.pageSize * mapper.strategy.pagesEach) := by
  have hsize : ∀ placement ∈ mapper.asked start stop,
      placement.size = mapper.store.pageSize * mapper.strategy.pagesEach := by
    intro placement hplacement
    obtain ⟨region, -, -, rfl⟩ := of_mem_asked hplacement
    rfl
  rw [List.map_congr_left hsize, List.map_const', List.sum_replicate_nat]

theorem commitRegions_placed (sound : mapper.Sound) (chunked : mapper.Chunked pretoucher) :
    PlacedCall start count mapper (commitRegions start count pretoucher mapper) := by
  by_cases ready : mapper.Ready false start count
  · rw [ready.commitRegions_eq]
    rcases Nat.eq_zero_or_pos count with rfl | hcount
    · rw [if_pos rfl, Mapper.count, Op.modify_bind, notify_run]
      have hstart := Placed.start_start sound start
      have unplaced := unplaced_told (mapper.withActivity (mapper.activity.commit 0 0)) start 0 true
      have hplaced := hstart.stay (hstart.turns.report (mapper.activity.commit 0 0)) rfl
        unplaced.placements_eq
      refine ⟨⟨start, Nat.le_refl _, hplaced⟩, fun _ => ⟨hplaced, ?_⟩⟩
      exact unplaced.reports_eq.trans (if_pos unplaced.placements_eq).symm
    · rw [if_neg (Nat.ne_of_gt hcount)]
      have all : PlacedAll start count mapper _ := backRegions_placed sound ready chunked
      cases hback : backRegions start count pretoucher mapper with
      | mk result after trace =>
      rw [hback] at all
      cases result with
      | ok backing =>
        obtain ⟨placed, hlength, hbytes⟩ := all.of_ok backing rfl
        obtain ⟨reported, hreport, -, hnone, -⟩ := reportCommit_run start count backing after
        have hreports := reportCommit_reports start count backing after
        rw [hreport] at hreports
        rw [Op.bind_eq_after (Op.recover_eq_ok hback), Op.bind_eq_after hreport, notify_run]
        have unplaced := unplaced_told (after.withActivity
          ((after.activity.commit count backing.pages).place backing.placements)) start count
          backing.zeroFilled
        generalize told _ start count backing.zeroFilled = told at unplaced ⊢
        have hlater : Effect.placements (reported ++ told) = [] := by
          rw [Effect.placements_append, hnone, unplaced.placements_eq, List.append_nil]
        have hplaced := placed.stay (placed.turns.report
          ((after.activity.commit count backing.pages).place backing.placements)) rfl hlater
        refine ⟨⟨start + count, Nat.le_refl _, hplaced⟩, fun _ => ⟨hplaced, ?_⟩⟩
        -- What was placed is what the backing tells, and so is what is reported.
        have hasked : Effect.placements trace = mapper.asked start (start + count) :=
          placed.placements_eq
        have hsum := sum_asked mapper start (start + count)
        rw [← hasked, hlength, ← hbytes] at hsum
        have hempty : Effect.placements trace = [] ↔ backing.placements = 0 := by
          rw [← List.length_eq_zero_iff, hlength]
        have hplacements : Effect.placements (trace ++ (reported ++ told)) =
            Effect.placements trace := by
          rw [Effect.placements_append, hlater, List.append_nil]
        show Effect.reports (trace ++ (reported ++ told)) =
          if Effect.placements (trace ++ (reported ++ told)) = [] then [] else _
        rw [Run.after_mk, Run.after_mk, hplacements, Effect.reports_append, Effect.reports_append,
          all.reports_eq, hreports, unplaced.reports_eq, List.append_nil, List.nil_append, hlength,
          hsum, if_congr hempty rfl rfl]
      | error stop =>
        cases stop with
        | fault fault =>
          rw [Op.bind_run_error (Op.recover_eq_fault hback)]
          exact ⟨all.placed, fun h => by cases h⟩
        | error refusal =>
          obtain ⟨region, hregion, placed⟩ := all.placed
          rw [Op.bind_run_error (Op.recover_eq_after hback)]
          exact ⟨⟨region, hregion, placed.stay (placed.turns.report _) rfl rfl⟩, fun h => by cases h⟩
  · obtain ⟨fault, -, hrun⟩ := commitRegions_fault ready pretoucher
    rw [hrun]
    exact ⟨⟨start, Nat.le_add_right _ _, .start_start sound start⟩, fun h => by cases h⟩

/-! ## Sharing out the memory -/

/-- The pages of a region are committed together. -/
theorem Sound.isCommitted_eq_of_hosts (sound : mapper.Sound)
    (hhosts : mapper.strategy.Hosts page region) : mapper.store.isCommitted page =
      mapper.store.isCommitted (mapper.strategy.firstPage region) := by
  have hpos := sound.pagesEach_pos
  have hfirst : mapper.strategy.Hosts (mapper.strategy.firstPage region) region :=
    (Strategy.hosts_iff hpos).mpr ⟨Nat.le_refl _, Nat.lt_add_of_pos_right hpos⟩
  have hbacked := sound.backed_iff page
  have hbacked' := sound.backed_iff (mapper.strategy.firstPage region)
  simp only [Strategy.hosts_firstPage_iff hpos hhosts] at hbacked
  simp only [Strategy.hosts_firstPage_iff hpos hfirst] at hbacked'
  exact Bool.eq_iff_iff.mpr (hbacked.trans hbacked'.symm)

/-- Of the regions of a batch that have a page in common, the first one leads if the page was not
committed. -/
theorem exists_leads (sound : mapper.Sound) (hhosts : mapper.strategy.Hosts page region)
    (hclear : mapper.store.isCommitted page = false) (hfirst : start ≤ region) :
    ∃ other, start ≤ other ∧ other ≤ region ∧ mapper.Leads start other ∧
      mapper.strategy.Hosts page other := by
  have hexists : ∃ other, start ≤ other ∧
      mapper.strategy.firstPage other = mapper.strategy.firstPage region := ⟨region, hfirst, rfl⟩
  obtain ⟨hge, hsame⟩ := Nat.find_spec hexists
  refine ⟨Nat.find hexists, hge, Nat.find_min' hexists ⟨hfirst, rfl⟩, ⟨?_, ?_⟩, ?_⟩
  · rw [hsame, ← sound.isCommitted_eq_of_hosts hhosts, hclear]
  · intro other hlt hother hpage
    exact Nat.find_min hexists hlt ⟨hother, hpage.trans hsame⟩
  · exact (Strategy.hosts_firstPage_iff sound.pagesEach_pos hhosts _).mpr hsame

/-- The placements of a commit share out the memory that it added. No two of them have a byte in
common, and together they have the bytes of just those pages that became committed. Each comes
behind the commit of its pages, starts where the first page of its region does, and names the least
region of the batch that has this page. -/
structure SharesOut (start count : Nat) (mapper after : Mapper PageSpace) (trace : List Effect) :
    Prop where
  disjoint : (Effect.placements trace).Pairwise fun a b => Disjoint a.bytes b.bytes
  mem_iff : ∀ address, (∃ placement ∈ Effect.placements trace, address ∈ placement.bytes) ↔
    ∃ page, mapper.store.isCommitted page = false ∧ after.store.isCommitted page = true ∧
      address ∈ mapper.store.wholePage page
  behind : PlacesCommitted mapper.store trace
  address_eq : ∀ placement ∈ Effect.placements trace, placement.address =
    mapper.store.firstAddress (mapper.strategy.firstPage placement.region)
  isLeast : ∀ placement ∈ Effect.placements trace,
    IsLeast {region | region ∈ Ico start (start + count) ∧
      mapper.strategy.firstPage region = mapper.strategy.firstPage placement.region}
      placement.region

theorem Placed.sharesOut (placed : Placed start region mapper after trace) (sound : mapper.Sound)
    (hkind : mapper.memoryKind.isPlaced = true) (hregion : region ≤ start + count) :
    SharesOut start count mapper after trace := by
  have hmem : ∀ placement, placement ∈ Effect.placements trace ↔ _ := fun placement =>
    (placed.placements_eq ▸ mem_asked hkind :
      placement ∈ Effect.placements trace ↔ ∃ other, start ≤ other ∧ other < region ∧
        mapper.Leads start other ∧ mapper.placementOf other = placement)
  refine ⟨?_, ?_, placed.behind, ?_, ?_⟩
  · rw [placed.placements_eq, asked, askedFrom, if_pos hkind, List.pairwise_map]
    have hsorted : (List.range' start (region - start)).Pairwise (· < ·) := List.pairwise_lt_range'
    refine (hsorted.filter _).imp_of_mem ?_
    intro a b ha hb hlt
    rw [List.mem_filter, List.mem_range'_1, decide_eq_true_eq] at ha hb
    rw [Finset.disjoint_left]
    intro address hbyte hbyte'
    obtain ⟨page, hhosts, hpage⟩ := (mem_placementOf_iff sound a address).mp hbyte
    have hhosts' := hosts_of_mem_bytes sound hbyte' hpage
    exact hb.2.2 a hlt ha.1.1 ((Strategy.hosts_firstPage_iff sound.pagesEach_pos hhosts' a).mp hhosts)
  · intro address
    constructor
    · rintro ⟨placement, hplacement, hbyte⟩
      obtain ⟨other, hfirst, hlast, leads, rfl⟩ := (hmem placement).mp hplacement
      obtain ⟨page, hhosts, hpage⟩ := (mem_placementOf_iff sound other address).mp hbyte
      exact ⟨page, (sound.isCommitted_eq_of_hosts hhosts).trans leads.1,
        (placed.turns.isCommitted_iff sound page).mpr (.inr ⟨other, hfirst, hlast, hhosts⟩), hpage⟩
    · rintro ⟨page, hclear, hset, hpage⟩
      rcases (placed.turns.isCommitted_iff sound page).mp hset with
        hbefore | ⟨other, hfirst, hlast, hhosts⟩
      · rw [hclear] at hbefore
        cases hbefore
      · obtain ⟨leader, hge, hle, leads, hhosts'⟩ := exists_leads sound hhosts hclear hfirst
        exact ⟨_, (hmem _).mpr ⟨leader, hge, Nat.lt_of_le_of_lt hle hlast, leads, rfl⟩,
          (mem_placementOf_iff sound leader address).mpr ⟨page, hhosts', hpage⟩⟩
  · intro placement hplacement
    obtain ⟨other, -, -, -, rfl⟩ := (hmem placement).mp hplacement
    rfl
  · intro placement hplacement
    obtain ⟨other, hfirst, hlast, leads, rfl⟩ := (hmem placement).mp hplacement
    refine ⟨⟨Finset.mem_Ico.mpr ⟨hfirst, Nat.lt_of_lt_of_le hlast hregion⟩, rfl⟩, ?_⟩
    rintro another ⟨hanother, hpage⟩
    by_contra hlt
    exact leads.2 another (Nat.lt_of_not_le hlt) (Finset.mem_Ico.mp hanother).1 hpage

/-- Whatever came before, and however a commit of regions ends: for the heap, its placements share
out the memory that it added, and if it comes to its end it reports their number and their bytes,
unless there are none. Memory of another kind is not placed. -/
theorem placed_throughout {settings : Settings} {usedSize : Nat} {memoryKind : MemoryKind}
    {pinned : Bool} {kind : StrategyKind} {machine : Machine} {first : Mapper PageSpace}
    (hfirst : (reserveWith settings usedSize memoryKind pinned kind machine).result = .ok first)
    (h : Reachable PageSpace.Meanwhile first mapper) {run : Run Refusal (Mapper PageSpace) Unit}
    (hrun : (Call.commit start count pretoucher).run mapper = run)
    (inWords : (Call.commit start count pretoucher).InWords) :
    (mapper.memoryKind = .heap → SharesOut start count mapper run.state run.trace ∧
      (run.result = .ok () → Effect.reports run.trace =
        if Effect.placements run.trace = [] then [] else
          [.placement (Effect.placements run.trace).length
            ((Effect.placements run.trace).map (·.size)).sum])) ∧
    (mapper.memoryKind ≠ .heap → Effect.placements run.trace = []) := by
  have inUse := (inUse_of_reserveWith hfirst).reachable h
  have call : PlacedCall start count mapper run :=
    hrun ▸ commitRegions_placed inUse.sound (inUse.chunked inWords)
  obtain ⟨region, hregion, placed⟩ := call.placed
  refine ⟨fun hheap => ⟨?_, fun hok => (call.of_ok hok).2⟩, fun hother => ?_⟩
  · exact placed.sharesOut inUse.sound (by rw [hheap]; rfl) hregion
  · rw [placed.placements_eq, asked, askedFrom, if_neg]
    intro hplaced
    cases hkind : mapper.memoryKind with
    | heap => exact hother hkind
    | markBitmap | cardTable | offsetTable | auxiliary =>
      rw [hkind] at hplaced
      cases hplaced

/-- One of four regions is committed, and with it the first of their two pages. A commit of the other
three regions places the second page, on the node of the first region there. -/
theorem placed_of_four_regions :
    ∃ first, (reserveWith .fourRegions 8192 .heap false .small .willing).result = .ok first ∧
      ∃ mapper, mapper = ((Call.commit 0 1 none).run first).state ∧
        ∃ run, (Call.commit 1 3 none).run mapper = run ∧ SharesOut 1 3 mapper run.state run.trace ∧
          Effect.placements run.trace = [⟨69632, 4096, 2⟩] ∧
          Effect.reports run.trace = [.placement 1 4096] := by
  have hviews : ∀ first : Mapper PageSpace,
      (reserveWith .fourRegions 8192 .heap false .small .willing).result = .ok first →
      ((Call.commit 0 1 none).run first).state.memoryKind = .heap ∧
      ((Call.commit 1 3 none).run ((Call.commit 0 1 none).run first).state).result = .ok () ∧
      Effect.placements
        ((Call.commit 1 3 none).run ((Call.commit 0 1 none).run first).state).trace =
          [⟨69632, 4096, 2⟩] := by
    intro first hfirst
    cases hfirst
    exact ⟨by decide +kernel, by decide +kernel, by decide +kernel⟩
  obtain ⟨hheap, hok, hplacements⟩ := hviews _ rfl
  obtain ⟨shares, hreports⟩ := (@placed_throughout _ 1 3 none .fourRegions 8192 .heap false .small
    .willing _ rfl (.single (.call (.commit 0 1 none) (by decide))) _ rfl (by decide)).1 hheap
  refine ⟨_, rfl, _, rfl, _, rfl, shares, hplacements, ?_⟩
  rw [hreports hok, hplacements]
  rfl

end Mapper

end RegionBacking
