import RegionBacking.Mapper.Steps
import RegionBacking.Proofs.Bitmap.Ranges
import RegionBacking.Proofs.Running
import RegionBacking.Proofs.Stores

/-!
# The steps of a batch, from a given mapper

What each step of a batch leaves behind: its result, the field of the mapper that it changes, and
which calls of the store it makes. Only calls of the store appear as calls, and no step notifies the
listener. `Posts` is what a part of a batch adds to the counters and shows of what they count.
-/

namespace RegionBacking

/-! ## Traces that neither call the store nor notify the listener -/

/-- Effects none of which is a call of the store or a notification. -/
structure Silent (trace : List Effect) : Prop where
  calls_eq : Effect.calls trace = []
  notifications_eq : Effect.notifications trace = []

namespace Silent

variable {trace later : List Effect}

theorem nil : Silent [] := ⟨rfl, rfl⟩

theorem append (first : Silent trace) (second : Silent later) : Silent (trace ++ later) where
  calls_eq := by rw [Effect.calls_append, first.calls_eq, second.calls_eq, List.append_nil]
  notifications_eq := by
    rw [Effect.notifications_append, first.notifications_eq, second.notifications_eq,
      List.append_nil]

end Silent

theorem Quiet.silent {trace : List Effect} (quiet : Quiet trace) : Silent trace :=
  ⟨quiet.calls_eq, quiet.notifications_eq⟩

/-! ## Writing an entry -/

/-- The table with another entry at an index. -/
def GranuleTable.put (table : GranuleTable) (index value : Nat) : GranuleTable :=
  { table with stored := table.stored.insert index value }

namespace GranuleTable

@[simp] theorem size_put (table : GranuleTable) (index value : Nat) :
    (table.put index value).size = table.size := rfl

theorem write_eq_ok {table : GranuleTable} {index : Nat} (h : index < table.size) (value : Nat) :
    table.write index value = .ok (table.put index value) := if_pos h

theorem read_eq_ok {table : GranuleTable} {index : Nat} (h : index < table.size) :
    table.read index = .ok (table.entry index) := if_pos h

theorem entry_put (table : GranuleTable) (index value other : Nat) :
    (table.put index value).entry other = if other = index then value else table.entry other := by
  simp only [put, entry, Std.TreeMap.getD_insert, Std.LawfulEqCmp.compare_eq_iff_eq,
    @eq_comm _ other index]

end GranuleTable

/-! ## Counters -/

namespace Activity

theorem pretouch_zero (activity : Activity) : activity.pretouch 0 = activity := by
  simp [pretouch]

theorem place_zero (activity : Activity) : activity.place 0 = activity := by
  simp [place]

theorem pretouch_pretouch (activity : Activity) (pages more : Nat) :
    (activity.pretouch pages).pretouch more = activity.pretouch (pages + more) := by
  simp [pretouch, UInt64.ofNat_add, UInt64.add_assoc]

end Activity

/-- Whether an event says which regions were committed or uncommitted. -/
def Event.isEntry : Event → Bool
  | commit .. => true
  | uncommit .. => true
  | _ => false

/-- The events of a trace that say which regions were committed or uncommitted. -/
def Effect.entries (trace : List Effect) : List Event :=
  (Effect.events trace).filter Event.isEntry

theorem Effect.entries_append (a b : List Effect) : entries (a ++ b) = entries a ++ entries b := by
  rw [entries, events_append, List.filter_append]
  rfl

theorem CallsOnly.entries_eq {trace : List Effect} (calls : CallsOnly trace) :
    Effect.entries trace = [] := by
  have hevents : Effect.events trace = [] :=
    calls.filterMap_eq_nil (fun _ => rfl) fun effect hstore => by
      cases effect <;> first | rfl | cases hstore
  rw [Effect.entries, hevents, List.filter_nil]

theorem CallsOnly.placements_eq {trace : List Effect} (calls : CallsOnly trace) :
    Effect.placements trace = [] :=
  calls.filterMap_eq_nil (fun _ => rfl) fun effect hstore => by
    cases effect <;> first | rfl | cases hstore

namespace Mapper

variable {σ : Type} {mapper : Mapper σ}

/-- A part of a batch leads from one mapper to another, on which it asked for `placed` placements,
as far as the mapper places pages at all. Of the counters only that of the pretouched pages has
grown, by `touched`, and no regions were reported. -/
structure Posts (mapper after : Mapper σ) (placed touched : Nat) (trace : List Effect) : Prop where
  activity_eq : after.activity = mapper.activity.pretouch touched
  kind_eq : after.memoryKind = mapper.memoryKind
  pretouch_eq : after.alwaysPretouch = mapper.alwaysPretouch
  length_placements : (Effect.placements trace).length =
    if mapper.memoryKind.isPlaced then placed else 0
  entries_eq : Effect.entries trace = []

namespace Posts

variable {after last : Mapper σ} {placed placed' touched touched' : Nat} {trace trace' : List Effect}

theorem trans (first : Posts mapper after placed touched trace)
    (second : Posts after last placed' touched' trace') :
    Posts mapper last (placed + placed') (touched + touched') (trace ++ trace') where
  activity_eq := by rw [second.activity_eq, first.activity_eq, Activity.pretouch_pretouch]
  kind_eq := second.kind_eq.trans first.kind_eq
  pretouch_eq := second.pretouch_eq.trans first.pretouch_eq
  length_placements := by
    rw [Effect.placements_append, List.length_append, first.length_placements,
      second.length_placements, first.kind_eq]
    split <;> rfl
  entries_eq := by rw [Effect.entries_append, first.entries_eq, second.entries_eq, List.append_nil]

/-- A part of a batch that at most calls the store posts nothing. -/
theorem of_callsOnly (calls : CallsOnly trace) (hactivity : after.activity = mapper.activity)
    (hkind : after.memoryKind = mapper.memoryKind)
    (hpretouch : after.alwaysPretouch = mapper.alwaysPretouch) :
    Posts mapper after 0 0 trace where
  activity_eq := by rw [hactivity, Activity.pretouch_zero]
  kind_eq := hkind
  pretouch_eq := hpretouch
  length_placements := by rw [calls.placements_eq, ite_self, List.length_nil]
  entries_eq := calls.entries_eq

theorem refl (mapper : Mapper σ) : Posts mapper mapper 0 0 [] := .of_callsOnly .nil rfl rfl rfl

end Posts

/-! ## The mapper with another field -/

/-- The mapper with another store. -/
def withStore (mapper : Mapper σ) (store : σ) : Mapper σ := { mapper with store }

/-- The mapper with other bits. -/
def withBits (mapper : Mapper σ) (committed : Bitmap) : Mapper σ := { mapper with committed }

/-- The mapper with another strategy. -/
def withStrategy (mapper : Mapper σ) (strategy : Strategy) : Mapper σ := { mapper with strategy }

/-- The mapper with other counters. -/
def withActivity (mapper : Mapper σ) (activity : Activity) : Mapper σ := { mapper with activity }

/-- The report of a pass adds its pages to the counter. -/
theorem Posts.of_pass (mapper : Mapper σ) (report : PretouchReport) :
    Posts mapper (mapper.withActivity (mapper.activity.pretouch report.pages)) 0 report.pages
      [.event (.pretouch report.pages report.workers .zero)] where
  activity_eq := rfl
  kind_eq := rfl
  pretouch_eq := rfl
  length_placements := (ite_self 0).symm
  entries_eq := rfl

/-! ## Bits and references -/

theorem posts_withBits (mapper : Mapper σ) (committed : Bitmap) :
    Posts mapper (mapper.withBits committed) 0 0 [] := .of_callsOnly .nil rfl rfl rfl

theorem changeBits_run {steps : Bitmap → Except Fault (List WordStep)} {list : List WordStep}
    (h : steps mapper.committed = .ok list) :
    changeBits steps mapper =
      ⟨.ok (), mapper.withBits (mapper.committed.applyAll list), []⟩ := by
  rw [changeBits, Op.get_bind, h]
  rfl

theorem readReferences_run {regionsPerPage page : Nat} {references : GranuleTable}
    (hstrategy : mapper.strategy = .small regionsPerPage references)
    (hpage : page < references.size) :
    readReferences page mapper = ⟨.ok (references.entry page), mapper, []⟩ := by
  rw [readReferences, Op.get_bind, hstrategy]
  show Op.checked (references.read page) mapper = _
  rw [GranuleTable.read_eq_ok hpage]
  rfl

theorem writeReferences_run {regionsPerPage page : Nat} {references : GranuleTable}
    (hstrategy : mapper.strategy = .small regionsPerPage references)
    (hpage : page < references.size) (count : Nat) :
    writeReferences page count mapper =
      ⟨.ok (), mapper.withStrategy (.small regionsPerPage (references.put page count)), []⟩ := by
  rw [writeReferences, Op.get_bind, hstrategy]
  show (Op.checked (references.write page count) >>= _) mapper = _
  rw [GranuleTable.write_eq_ok hpage, Op.checked_ok, pure_bind, Op.modify_run, hstrategy]
  rfl

/-! ## Calls of the store -/

theorem onStore_run {α : Type} (call : StoreCall) (op : Op Refusal σ α) (mapper : Mapper σ) :
    onStore call op mapper = ⟨(op mapper.store).result, mapper.withStore (op mapper.store).state,
      .call call :: (op mapper.store).trace⟩ := by
  rw [onStore, Op.emit_bind, Op.within_run]
  rfl

variable [PageStore σ]

theorem commitPages_run (start count : Nat) (mapper : Mapper σ) :
    commitPages start count mapper =
      ⟨(PageStore.commit start count mapper.store).result,
        mapper.withStore (PageStore.commit start count mapper.store).state,
        .call ⟨.commit, start, count⟩ :: (PageStore.commit start count mapper.store).trace⟩ :=
  onStore_run _ _ mapper

theorem uncommitPages_run (start count : Nat) (mapper : Mapper σ) :
    uncommitPages start count mapper =
      ⟨(PageStore.uncommit start count mapper.store).result,
        mapper.withStore (PageStore.uncommit start count mapper.store).state,
        .call ⟨.uncommit, start, count⟩ :: (PageStore.uncommit start count mapper.store).trace⟩ :=
  onStore_run _ _ mapper

/-! ## Passes -/

/-- How a pass over fresh pages comes to its end: there is nobody to touch them or nothing to be
touched, or the store was asked once and its report is counted. -/
inductive Passed (mapper : Mapper σ) (start count : Nat) :
    Option Pretoucher → Mapper σ → List Effect → Prop where
  | idle {pretoucher : Option Pretoucher}
    (h : pretoucher = none ∨ mapper.alwaysPretouch = false ∨ count = 0) :
    Passed mapper start count pretoucher mapper []
  | pass {worker : Pretoucher} {report : PretouchReport} {store : σ} {shown : List Effect}
    (halways : mapper.alwaysPretouch = true) (hpages : count ≠ 0)
    (hrun : PageStore.pretouch start count worker mapper.store = ⟨.ok report, store, shown⟩) :
    Passed mapper start count (some worker)
      ((mapper.withStore store).withActivity (mapper.activity.pretouch report.pages))
      (.call ⟨.pretouch, start, count⟩ ::
        (shown ++ [.event (.pretouch report.pages report.workers .zero)]))

theorem of_pretouchPages_ok {start count : Nat} {pretoucher : Option Pretoucher}
    {after : Mapper σ} {trace : List Effect}
    (h : pretouchPages start count pretoucher mapper = ⟨.ok (), after, trace⟩) :
    Passed mapper start count pretoucher after trace := by
  unfold pretouchPages at h
  rw [Op.get_bind] at h
  cases pretoucher with
  | none =>
    cases h
    exact .idle (.inl rfl)
  | some worker =>
    simp only [] at h
    split at h
    · next htouches =>
      obtain ⟨report, middle, called, _, hpass, hreport, rfl⟩ := Op.of_bind_run_ok h
      rw [onStore_run] at hpass
      match hrun : PageStore.pretouch start count worker mapper.store with
      | ⟨result, store, shown⟩ =>
        rw [hrun] at hpass
        cases hpass
        cases hreport
        rw [Bool.and_eq_true, bne_iff_ne] at htouches
        exact .pass htouches.1 htouches.2 hrun
    · next hidle =>
      cases h
      refine .idle (.inr ?_)
      rw [Bool.and_eq_true, Decidable.not_and_iff_not_or_not, Bool.not_eq_true, bne_iff_ne,
        Decidable.not_not] at hidle
      exact hidle

/-! ## Placing -/

/-- Pages whose address and bytes are words can be placed, which changes the nodes only. -/
theorem placePages_run (mapper : Mapper σ) (start count region : Nat)
    (hsize : PageStore.pageSize mapper.store * count < Word.limit)
    (haddress : ∃ address, PageStore.pageStart mapper.store start = .ok address) :
    ∃ nodes trace, placePages start count region mapper =
      ⟨.ok (), mapper.withNodes nodes, trace⟩ ∧ Silent trace ∧
      Posts mapper (mapper.withNodes nodes) 1 0 trace := by
  obtain ⟨address, haddress⟩ := haddress
  have hmul := Word.mul_eq_ok_iff.mpr ⟨hsize, rfl⟩
  unfold placePages
  rw [Op.get_bind]
  cases hplaced : mapper.memoryKind.isPlaced with
  | false =>
    refine ⟨mapper.nodes, [], rfl, .nil, mapper.activity.pretouch_zero.symm, rfl, rfl, ?_, rfl⟩
    rw [hplaced]
    rfl
  | true =>
    rw [if_pos rfl, hmul, haddress]
    refine ⟨_, [.placement _], rfl, ⟨rfl, rfl⟩, mapper.activity.pretouch_zero.symm, rfl, rfl, ?_, rfl⟩
    rw [hplaced]
    rfl

end Mapper

end RegionBacking
