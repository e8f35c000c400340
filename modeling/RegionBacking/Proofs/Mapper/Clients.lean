import RegionBacking.Proofs.Mapper.Balance
import RegionBacking.Proofs.Mapper.Counting

/-!
# Clients of a shared mapper

Clients that share a mapper call it one at a time, each for regions of its own. On these regions any
schedule does what the client alone would do (`mem_applyAll_callsOf`). So a call that is in order
when its client is alone is in order in every schedule, and all schedules come to the same set of
regions. Which call commits or gives up a page that clients share depends on the schedule; what is
committed in the end does not (`sameEnd_of_served`).
-/

namespace RegionBacking.Mapper

open Finset (Ico)

/-! ## Calls on a set of regions -/

namespace Call

/-- The regions of a call. -/
def range : Call → Finset Nat
  | commit start count _ => Ico start (start + count)
  | uncommit start count => Ico start (start + count)

variable {regions region : Nat} {set other : Finset Nat} {call : Call}

theorem mem_apply : region ∈ call.apply call.count set ↔
    if region ∈ call.range then call.isCommit = true else region ∈ set := by
  cases call with
  | commit start count pretoucher =>
    show region ∈ set ∪ Ico start (start + count) ↔
      if region ∈ Ico start (start + count) then true = true else region ∈ set
    split
    · next hrange => simp [hrange]
    · next hrange => simp [hrange]
  | uncommit start count =>
    show region ∈ set \ Ico start (start + count) ↔
      if region ∈ Ico start (start + count) then false = true else region ∈ set
    split
    · next hrange => simp [hrange]
    · next hrange => simp [hrange]

/-- Whether a call is in order is seen in its range. -/
theorem InOrder.congr (inOrder : call.InOrder regions set)
    (h : ∀ region ∈ call.range, region ∈ set ↔ region ∈ other) : call.InOrder regions other := by
  cases call with
  | commit start count pretoucher =>
    obtain ⟨hsize, hdisjoint⟩ := inOrder
    refine ⟨hsize, Finset.disjoint_right.mpr fun region hregion hother => ?_⟩
    exact Finset.disjoint_right.mp hdisjoint hregion ((h region hregion).mpr hother)
  | uncommit start count =>
    obtain ⟨hsize, hsubset⟩ := inOrder
    exact ⟨hsize, fun region hregion => (h region hregion).mp (hsubset hregion)⟩

end Call

/-- The set after calls that come to their end. -/
def applyAll (set : Finset Nat) (calls : List Call) : Finset Nat :=
  calls.foldl (fun set call => call.apply call.count set) set

/-- Each call is in order when the calls in front of it came to their end. -/
def AllInOrder (regions : Nat) : Finset Nat → List Call → Prop
  | _, [] => True
  | set, call :: later =>
    call.InOrder regions set ∧ AllInOrder regions (call.apply call.count set) later

instance (regions : Nat) (set : Finset Nat) (call : Call) :
    Decidable (call.InOrder regions set) :=
  match call with
  | .commit start count _ =>
    inferInstanceAs (Decidable (start + count ≤ regions ∧ Disjoint set (Ico start (start + count))))
  | .uncommit start count =>
    inferInstanceAs (Decidable (start + count ≤ regions ∧ Ico start (start + count) ⊆ set))

instance decidableAllInOrder (regions : Nat) :
    ∀ (set : Finset Nat) (calls : List Call), Decidable (AllInOrder regions set calls)
  | _, [] => .isTrue trivial
  | set, call :: later =>
    have := decidableAllInOrder regions (call.apply call.count set) later
    inferInstanceAs (Decidable (_ ∧ _))

/-! ## Schedules -/

section schedules

variable {Client : Type} [DecidableEq Client] {own : Client → Finset Nat}
  {script : Client → List Call} {schedule other : List (Client × Call)} {client : Client}
  {regions region : Nat}

/-- The calls of a schedule, without who makes them. -/
def callsIn (schedule : List (Client × Call)) : List Call := schedule.map Prod.snd

/-- The calls that a client makes in a schedule. -/
def callsOf (client : Client) (schedule : List (Client × Call)) : List Call :=
  callsIn (schedule.filter fun entry => entry.1 = client)

/-- A schedule lets each client make the calls of its script, in their order. -/
def Interleaves (script : Client → List Call) (schedule : List (Client × Call)) : Prop :=
  ∀ client, callsOf client schedule = script client

theorem callsOf_cons_self (client : Client) (call : Call) (schedule : List (Client × Call)) :
    callsOf client ((client, call) :: schedule) = call :: callsOf client schedule := by
  simp [callsOf, callsIn]

theorem callsOf_cons_of_ne {maker : Client} (h : maker ≠ client) (call : Call)
    (schedule : List (Client × Call)) :
    callsOf client ((maker, call) :: schedule) = callsOf client schedule := by
  simp [callsOf, callsIn, h]

theorem mem_callsOf {entry : Client × Call} (h : entry ∈ schedule) :
    entry.2 ∈ callsOf entry.1 schedule :=
  List.mem_map_of_mem (List.mem_filter.mpr ⟨h, decide_eq_true rfl⟩)

/-- What the scripts call for is what a schedule of them calls for. -/
theorem Interleaves.inside (h : Interleaves script schedule)
    {holds : Client → Call → Prop} (inside : ∀ client, ∀ call ∈ script client, holds client call) :
    ∀ entry ∈ schedule, holds entry.1 entry.2 := by
  intro entry hentry
  have hcall := mem_callsOf hentry
  rw [h entry.1] at hcall
  exact inside entry.1 entry.2 hcall

/-- On the regions of a client a schedule does what the calls of this client do. -/
theorem mem_applyAll_callsOf (disjoint : ∀ a b, a ≠ b → Disjoint (own a) (own b))
    (inside : ∀ entry ∈ schedule, entry.2.range ⊆ own entry.1) (hregion : region ∈ own client)
    {set alone : Finset Nat} (hsame : region ∈ set ↔ region ∈ alone) :
    region ∈ applyAll set (callsIn schedule) ↔
      region ∈ applyAll alone (callsOf client schedule) := by
  induction schedule generalizing set alone with
  | nil => exact hsame
  | cons entry rest ih =>
    obtain ⟨maker, call⟩ := entry
    have hrest : ∀ entry ∈ rest, entry.2.range ⊆ own entry.1 := fun entry hentry =>
      inside entry (List.mem_cons_of_mem _ hentry)
    by_cases hmaker : maker = client
    · subst hmaker
      rw [callsOf_cons_self]
      refine ih hrest ?_
      rw [Call.mem_apply, Call.mem_apply, hsame]
    · rw [callsOf_cons_of_ne hmaker]
      refine ih hrest ?_
      -- The call is for regions of another client, and this region is none of them.
      have hout : region ∉ call.range := fun hrange =>
        Finset.disjoint_left.mp (disjoint maker client hmaker)
          (inside (maker, call) List.mem_cons_self hrange) hregion
      rw [Call.mem_apply, if_neg hout]
      exact hsame

omit [DecidableEq Client] in
/-- A region of no client stays as it is. -/
theorem mem_applyAll_of_nobody (inside : ∀ entry ∈ schedule, entry.2.range ⊆ own entry.1)
    (hregion : ∀ client, region ∉ own client) {set : Finset Nat} :
    region ∈ applyAll set (callsIn schedule) ↔ region ∈ set := by
  induction schedule generalizing set with
  | nil => exact Iff.rfl
  | cons entry rest ih =>
    have hout : region ∉ entry.2.range := fun hrange =>
      hregion entry.1 (inside entry List.mem_cons_self hrange)
    refine (ih fun entry hentry => inside entry (List.mem_cons_of_mem _ hentry)).trans ?_
    rw [Call.mem_apply, if_neg hout]

/-- What is in order for each client alone is in order in a schedule. -/
theorem allInOrder_of_alone (disjoint : ∀ a b, a ≠ b → Disjoint (own a) (own b))
    (inside : ∀ entry ∈ schedule, entry.2.range ⊆ own entry.1) {set : Finset Nat}
    {alone : Client → Finset Nat}
    (hsame : ∀ client, ∀ region ∈ own client, region ∈ set ↔ region ∈ alone client)
    (legal : ∀ client, AllInOrder regions (alone client) (callsOf client schedule)) :
    AllInOrder regions set (callsIn schedule) := by
  induction schedule generalizing set alone with
  | nil => trivial
  | cons entry rest ih =>
    obtain ⟨maker, call⟩ := entry
    have hrange : call.range ⊆ own maker := inside (maker, call) List.mem_cons_self
    have hmaker := legal maker
    rw [callsOf_cons_self] at hmaker
    refine ⟨hmaker.1.congr fun region hregion => (hsame maker region (hrange hregion)).symm, ?_⟩
    -- Alone, only the client that made the call has come further.
    refine @ih (fun entry hentry => inside entry (List.mem_cons_of_mem _ hentry)) _
      (fun client => if client = maker then call.apply call.count (alone maker)
        else alone client) ?_ ?_
    · intro client region hregion
      by_cases hclient : client = maker
      · subst hclient
        rw [if_pos rfl, Call.mem_apply, Call.mem_apply, hsame client region hregion]
      · have hout : region ∉ call.range := fun hcall =>
          Finset.disjoint_left.mp (disjoint client maker hclient) hregion (hrange hcall)
        rw [if_neg hclient, Call.mem_apply, if_neg hout]
        exact hsame client region hregion
    · intro client
      by_cases hclient : client = maker
      · subst hclient
        rw [if_pos rfl]
        exact hmaker.2
      · have hother := legal client
        rw [callsOf_cons_of_ne (Ne.symm hclient)] at hother
        rwa [if_neg hclient]

/-- All schedules of the same scripts come to the same set. -/
theorem applyAll_eq_of_interleaves (disjoint : ∀ a b, a ≠ b → Disjoint (own a) (own b))
    (inside : ∀ client, ∀ call ∈ script client, call.range ⊆ own client)
    (h : Interleaves script schedule) (h' : Interleaves script other) (set : Finset Nat) :
    applyAll set (callsIn schedule) = applyAll set (callsIn other) := by
  ext region
  by_cases howned : ∃ client, region ∈ own client
  · obtain ⟨client, hregion⟩ := howned
    rw [mem_applyAll_callsOf disjoint (h.inside inside) hregion Iff.rfl,
      mem_applyAll_callsOf disjoint (h'.inside inside) hregion Iff.rfl, h client, h' client]
  · rw [not_exists] at howned
    rw [mem_applyAll_of_nobody (h.inside inside) howned,
      mem_applyAll_of_nobody (h'.inside inside) howned]

end schedules

/-! ## Calls that are granted -/

variable {mapper after last start a b : Mapper PageSpace} {call : Call} {calls : List Call}
  {set next : Finset Nat} {usable : Nat → Prop}

theorem Shows.readyOn (shows : mapper.Shows set) (sound : mapper.Sound)
    (inOrder : call.InOrder mapper.regionCount set) : call.ReadyOn mapper := by
  cases call with
  | commit start count pretoucher => exact (shows.ready_false_iff sound start count).mpr inOrder
  | uncommit start count => exact (shows.ready_true_iff sound start count).mpr inOrder

/-- A call in order for regions whose pages fit comes to its end unless it is refused. -/
theorem Live.ok_of_granted (live : mapper.Live) (granted : (call.run mapper).Granted)
    (inWords : call.InWords) (ready : call.ReadyOn mapper)
    (fits : ∀ region ∈ call.range, ∀ page, mapper.strategy.Hosts page region →
      mapper.store.Fits (page + 1)) : (call.run mapper).result = .ok () := by
  match hresult : (call.run mapper).result with
  | .ok () => rfl
  | .error (.error refusal) => exact absurd hresult (granted refusal)
  | .error (.fault fault) =>
    have hrun : call.run mapper =
        ⟨.error (.fault fault), (call.run mapper).state, (call.run mapper).trace⟩ := by
      rw [← hresult]
    have chunked := live.toInUse.chunked inWords
    cases call with
    | commit start count pretoucher =>
      obtain ⟨hcount, mid, earlier, hback, -⟩ := ready.of_commitRegions_error hrun
      have halts := halts_of_backRegions live.sound ready chunked hback
      obtain ⟨refusal, hrefusal⟩ := halts.exists_refusal ready hcount live.countable
        fun region hfirst hlast => fits region (Finset.mem_Ico.mpr ⟨hfirst, hlast⟩)
      cases hrefusal
    | uncommit start count =>
      cases faultCase_of_run live.sound chunked hrun with
      | outOfOrder unready => exact absurd ready unready

/-- So it does where nothing is refused. -/
theorem Live.call_ok (live : mapper.Live) (willing : mapper.store.Willing)
    (inWords : call.InWords) (ready : call.ReadyOn mapper)
    (fits : ∀ region ∈ call.range, ∀ page, mapper.strategy.Hosts page region →
      mapper.store.Fits (page + 1)) : (call.run mapper).result = .ok () :=
  live.ok_of_granted (live.toInUse.not_refused willing inWords) inWords ready fits

/-- By how much more regions were counted than are committed. -/
def regionSurplus (mapper : Mapper PageSpace) : UInt64 :=
  mapper.activity.regionsCommitted - mapper.activity.regionsUncommitted -
    .ofNat mapper.committedCount

/-- By how much more pages were counted than are committed. -/
def pageSurplus (mapper : Mapper PageSpace) : UInt64 :=
  mapper.activity.pagesCommitted - mapper.activity.pagesUncommitted - .ofNat mapper.committedPages

/-- A call that comes to its end is counted as it is done. -/
theorem Made.Posting.surplus_eq {made : Made} (posting : made.Posting)
    (hdone : made.outcome = .done) :
    made.after.regionSurplus = made.mapper.regionSurplus ∧
      made.after.pageSurplus = made.mapper.pageSurplus := by
  cases posting with
  | committed start count pretoucher pages _ call_eq _ does activity_eq =>
    have hregions := does.regions
    have hpages := does.pages
    simp only [Made.Moves, call_eq, Call.isCommit, if_true] at hregions hpages
    rw [regionSurplus, pageSurplus, hregions, hpages, activity_eq, UInt64.ofNat_add,
      UInt64.ofNat_add]
    simp only [Activity.place, Activity.commit, Activity.pretouch, regionSurplus, pageSurplus]
    constructor <;> grind
  | uncommitted start count pages call_eq _ does activity_eq =>
    have hregions := does.regions
    have hpages := does.pages
    simp only [Made.Moves, call_eq, Call.isCommit, Bool.false_eq_true, if_false] at hregions hpages
    rw [regionSurplus, pageSurplus, regionSurplus, pageSurplus, hregions, hpages, activity_eq,
      UInt64.ofNat_add, UInt64.ofNat_add]
    simp only [Activity.uncommit]
    constructor <;> grind
  | stopped part pages stop result_eq => exact absurd hdone (Made.outcome_ne_done result_eq)

/-- And its whole range is done. -/
theorem Made.Posting.shows {made : Made} (posting : made.Posting) (hdone : made.outcome = .done)
    (shows : made.mapper.Shows set) : made.after.Shows (made.call.apply made.call.count set) := by
  cases posting with
  | committed start count pretoucher _ _ call_eq _ does =>
    rw [call_eq, Call.count, ← call_eq]
    exact does.shows set shows
  | uncommitted start count _ call_eq _ does =>
    rw [call_eq, Call.count, ← call_eq]
    exact does.shows set shows
  | stopped part pages stop result_eq => exact absurd hdone (Made.outcome_ne_done result_eq)

/-- A mapper shows a set, and nothing keeps it from granting calls for usable regions. -/
structure Grants (usable : Nat → Prop) (set : Finset Nat) (mapper : Mapper PageSpace) : Prop where
  live : mapper.Live
  willing : mapper.store.Willing
  shows : mapper.Shows set
  fits : ∀ region, usable region → ∀ page, mapper.strategy.Hosts page region →
    mapper.store.Fits (page + 1)

/-- What calls that are granted keep of a mapper. -/
structure Served (mapper after : Mapper PageSpace) : Prop where
  continues : Continues mapper after
  layout : PageSpace.SameLayout mapper.store after.store
  regionSurplus_eq : after.regionSurplus = mapper.regionSurplus
  pageSurplus_eq : after.pageSurplus = mapper.pageSurplus

theorem Served.refl (sound : mapper.Sound) : Served mapper mapper :=
  ⟨.refl sound, .refl mapper.store, rfl, rfl⟩

theorem Served.trans (first : Served mapper after) (second : Served after last) :
    Served mapper last :=
  ⟨first.continues.trans second.continues, first.layout.trans second.layout,
    second.regionSurplus_eq.trans first.regionSurplus_eq,
    second.pageSurplus_eq.trans first.pageSurplus_eq⟩

/-- A call in order is granted, and the mapper goes on granting. -/
theorem Grants.step (grants : mapper.Grants usable set) (inWords : call.InWords)
    (inOrder : call.InOrder mapper.regionCount set)
    (inside : ∀ region ∈ call.range, usable region) :
    (Made.mk mapper call).outcome = .done ∧
      (Made.mk mapper call).after.Grants usable (call.apply call.count set) ∧
      Served mapper (Made.mk mapper call).after := by
  have live := grants.live
  have hok := live.call_ok grants.willing inWords (grants.shows.readyOn live.sound inOrder)
    fun region hregion => grants.fits region (inside region hregion)
  have hdone : (Made.mk mapper call).outcome = .done := congrArg Outcome.of hok
  have posting := Made.posting live.toInUse call inWords
  obtain ⟨answers, orderly⟩ := call_orderly live.sound live.spacious call inWords
  obtain ⟨hregions, hpages⟩ := posting.surplus_eq hdone
  refine ⟨hdone, ⟨live.follows (.call call inWords), ?_, ?_, ?_⟩, orderly.continues, ?_, hregions,
    hpages⟩
  · exact orderly.stores.willing live.sound.store_sound grants.willing
  · exact posting.shows hdone grants.shows
  -- The regions lie on the pages that they lay on, and the same pages fit.
  · intro region husable page hhosts
    rw [Made.after, Made.run, Strategy.hosts_of_shape_eq orderly.continues.shape_eq] at hhosts
    exact (orderly.continues.succeeds.fits_iff _).mpr (grants.fits region husable page hhosts)
  · exact (orderly.stores.legible live.sound.store_sound live.legible).2

/-! ## Calls one after the other -/

/-- Calls that are made one after the other. -/
def serve (mapper : Mapper PageSpace) : List Call → List Made
  | [] => []
  | call :: later => ⟨mapper, call⟩ :: (Made.mk mapper call).after.serve later

/-- The mapper after all of them. -/
def afterAll (mapper : Mapper PageSpace) (calls : List Call) : Mapper PageSpace :=
  calls.foldl (fun mapper call => (Made.mk mapper call).after) mapper

/-- Calls that are in order one after the other are all granted. -/
theorem Grants.serve (grants : mapper.Grants usable set)
    (inWords : ∀ call ∈ calls, call.InWords) (inOrder : AllInOrder mapper.regionCount set calls)
    (inside : ∀ call ∈ calls, ∀ region ∈ call.range, usable region) :
    (∀ made ∈ mapper.serve calls, made.outcome = .done) ∧
      (mapper.afterAll calls).Grants usable (applyAll set calls) ∧
      Served mapper (mapper.afterAll calls) := by
  induction calls generalizing mapper set with
  | nil => exact ⟨fun _ => nofun, grants, .refl grants.live.sound⟩
  | cons call later ih =>
    obtain ⟨hcall, hlater⟩ := inOrder
    obtain ⟨hdone, hgrants, hserved⟩ := grants.step (inWords call List.mem_cons_self) hcall
      (inside call List.mem_cons_self)
    have hsize : (Made.mk mapper call).after.regionCount = mapper.regionCount :=
      hserved.continues.size_eq
    obtain ⟨hall, hlast, hserved'⟩ := ih hgrants
      (fun call hcall => inWords call (List.mem_cons_of_mem _ hcall)) (hsize ▸ hlater)
      fun call hcall => inside call (List.mem_cons_of_mem _ hcall)
    refine ⟨fun made hmade => ?_, hlast, hserved.trans hserved'⟩
    rcases List.mem_cons.mp hmade with rfl | hmade
    · exact hdone
    · exact hall made hmade

/-! ## The same end -/

/-- Two mappers have the same regions and pages, and their counters the same differences. -/
structure SameEnd (a b : Mapper PageSpace) : Prop where
  committed_eq : a.committed = b.committed
  references_eq : ∀ page, a.references? page = b.references? page
  pages_eq : a.store.committed = b.store.committed
  bytes_eq : a.store.committedBytes = b.store.committedBytes
  regions_difference : a.activity.regionsCommitted - a.activity.regionsUncommitted =
    b.activity.regionsCommitted - b.activity.regionsUncommitted
  pages_difference : a.activity.pagesCommitted - a.activity.pagesUncommitted =
    b.activity.pagesCommitted - b.activity.pagesUncommitted

/-- The bits of the regions decide the references. -/
theorem references_eq_of_committed (sound : a.Sound) (sound' : b.Sound)
    (hshape : a.strategy.shape = b.strategy.shape)
    (hpages : PageStore.pages a.store = PageStore.pages b.store)
    (hcommitted : a.committed = b.committed) (page : Nat) :
    a.references? page = b.references? page := by
  cases sound with
  | small share references books =>
    obtain ⟨references', books'⟩ := sound'.sharedBooks
      (hshape.symm.trans (congrArg Strategy.shape books.strategy_eq))
    rw [references?, references?, books.strategy_eq, books'.strategy_eq]
    show (if page < references.size then some (references.entry page) else none) =
      if page < references'.size then some (references'.entry page) else none
    rw [books.size_references, books'.size_references, hpages, books.entry_eq, books'.entry_eq,
      hcommitted]
  | large share books =>
    have books' := sound'.wholeBooks
      (hshape.symm.trans (congrArg Strategy.shape books.strategy_eq))
    rw [references?, references?, books.strategy_eq, books'.strategy_eq]

/-- They decide the committed pages of the store. -/
theorem pages_eq_of_committed (sound : a.Sound) (sound' : b.Sound)
    (hshape : a.strategy.shape = b.strategy.shape)
    (layout : PageSpace.SameLayout a.store b.store) (hcommitted : a.committed = b.committed) :
    a.store.committed = b.store.committed := by
  have hstore : a.store.Sound := sound.store_sound
  have hstore' : b.store.Sound := sound'.store_sound
  apply Bitmap.ext_bit
  · rw [hstore.size_committed, hstore'.size_committed, layout.pageSize_eq, layout.reservation_eq]
  · intro page
    rw [← hstore.isCommitted_eq, ← hstore'.isCommitted_eq, Bool.eq_iff_iff]
    have hregions : ∀ region, a.isCommitted region = b.isCommitted region := fun region => by
      rw [sound.isCommitted_eq, sound'.isCommitted_eq, hcommitted]
    calc a.store.isCommitted page = true
        ↔ ∃ region, a.isCommitted region = true ∧ a.strategy.Hosts page region :=
          sound.backed_iff page
      _ ↔ ∃ region, b.isCommitted region = true ∧ b.strategy.Hosts page region := by
          simp only [hregions, Strategy.hosts_of_shape_eq hshape]
      _ ↔ b.store.isCommitted page = true := (sound'.backed_iff page).symm

/-- Calls that end with the same set end the same. -/
theorem sameEnd_of_served (grants : a.Grants usable set) (grants' : b.Grants usable set)
    (served : Served start a) (served' : Served start b) : SameEnd a b := by
  have sound := grants.live.sound
  have sound' := grants'.live.sound
  have layout : PageSpace.SameLayout a.store b.store := ⟨
    served'.layout.reservation_eq.trans served.layout.reservation_eq.symm,
    served'.layout.usedSize_eq.trans served.layout.usedSize_eq.symm,
    served'.layout.pinned_eq.trans served.layout.pinned_eq.symm⟩
  have hshape : a.strategy.shape = b.strategy.shape :=
    served.continues.shape_eq.trans served'.continues.shape_eq.symm
  have hcommitted : a.committed = b.committed := by
    apply Bitmap.ext_bit (served.continues.size_eq.trans served'.continues.size_eq.symm)
    intro region
    rw [grants.shows.bit_eq sound, grants'.shows.bit_eq sound']
  have hpages := pages_eq_of_committed sound sound' hshape layout hcommitted
  have hregionCount : a.committedCount = b.committedCount := by
    rw [committedCount, committedCount, hcommitted]
  have hpageCount : a.committedPages = b.committedPages :=
    congrArg Bitmap.count hpages
  refine ⟨hcommitted, ?_, hpages, ?_, ?_, ?_⟩
  · exact references_eq_of_committed sound sound' hshape
      (served.continues.succeeds.geometry.pages_eq.trans
        served'.continues.succeeds.geometry.pages_eq.symm) hcommitted
  · exact layout.committedBytes_eq sound.store_sound sound'.store_sound hpages
  · have hsurplus := served.regionSurplus_eq.trans served'.regionSurplus_eq.symm
    rw [regionSurplus, regionSurplus, hregionCount] at hsurplus
    exact (UInt64.sub_left_inj _).mp hsurplus
  · have hsurplus := served.pageSurplus_eq.trans served'.pageSurplus_eq.symm
    rw [pageSurplus, pageSurplus, hpageCount] at hsurplus
    exact (UInt64.sub_left_inj _).mp hsurplus

/-! ## Regions of the used part -/

section used

variable {settings : Settings} {usedSize : Nat} {memoryKind : MemoryKind} {pinned : Bool}
  {kind : StrategyKind} {machine : Machine} {first : Mapper PageSpace} {strategy : Strategy}
  {page region regionSize granule : Nat}

/-- A page of a region begins in front of where the region ends. -/
theorem mul_lt_of_suits {σ : Type} [PageStore σ] {store : σ}
    (suits : strategy.Suits kind store regionSize granule) (hhosts : strategy.Hosts page region) :
    page * granule < (region + 1) * regionSize := by
  cases kind with
  | large =>
    obtain ⟨pages, rfl, hpages⟩ := suits
    obtain ⟨hgranule, hpos, rfl⟩ := Strategy.pagesPerRegion?_eq_ok hpages
    obtain rfl : page / pages = region := hhosts
    rw [← Nat.mul_assoc, Nat.mul_comm (page / pages + 1)]
    exact Nat.mul_lt_mul_of_pos_right (Nat.lt_mul_div_succ page hpos) hgranule
  | small =>
    obtain ⟨regions, references, rfl, hregions, -⟩ := suits
    obtain ⟨hregion, -, rfl, -⟩ := Strategy.regionsPerPage?_eq_ok hregions
    obtain rfl : region / regions = page := hhosts
    calc region / regions * (regions * regionSize)
        = region / regions * regions * regionSize := (Nat.mul_assoc _ _ _).symm
      _ ≤ region * regionSize := Nat.mul_le_mul_right _ (Nat.div_mul_le_self _ _)
      _ < (region + 1) * regionSize := Nat.mul_lt_mul_of_pos_right (Nat.lt_succ_self _) hregion

/-- The pages of the regions that lie in the used part can be committed, whatever came before. -/
theorem fits_of_inside
    (hfirst : (reserveWith settings usedSize memoryKind pinned kind machine).result = .ok first)
    (hplace : kind = .large → ∀ total, machine.place total < Word.addressLimit)
    (h : Reachable PageSpace.Meanwhile first mapper)
    (hinside : (region + 1) * settings.regionSize ≤ usedSize * settings.commitFactor)
    (hhosts : mapper.strategy.Hosts page region) : mapper.store.Fits (page + 1) := by
  have inUse := inUse_of_reserveWith hfirst
  have continues := h.continues PageSpace.harmless_meanwhile inUse.sound inUse.spacious
  rw [Strategy.hosts_of_shape_eq continues.shape_eq] at hhosts
  refine (continues.succeeds.fits_iff _).mpr ?_
  obtain ⟨fresh, created⟩ := of_reserveWith_ok hfirst
  obtain ⟨hpos, hdvd⟩ := Settings.pageSize_dvd_reservedSize created.valid
  have hlimit : first.store.base + settings.reservedSize < Word.limit := by
    cases kind with
    | large => exact limit_lt_of_fresh fresh (hplace rfl)
    | small => exact created.limit_lt
  have hpageSize : first.store.pageSize = settings.pageSize := fresh.handedOut.pageSize_eq
  have hbytes : page * settings.pageSize < usedSize := by
    refine Nat.lt_of_mul_lt_mul_right (a := settings.commitFactor) ?_
    calc page * settings.pageSize * settings.commitFactor
        = page * (settings.pageSize * settings.commitFactor) := Nat.mul_assoc _ _ _
      _ < (region + 1) * settings.regionSize := mul_lt_of_suits created.strategy_of hhosts
      _ ≤ usedSize * settings.commitFactor := hinside
  have hpage : page < first.store.committablePages := by
    rw [PageSpace.lt_committablePages_iff (hpageSize ▸ hpos), hpageSize, fresh.usedSize_eq]
    exact hbytes
  refine (fits_usable fresh hdvd hlimit).mono ?_
  rwa [PageSpace.committablePages, fresh.usedSize_eq, hpageSize] at hpage

end used

/-! ## Schedules of a shared mapper -/

/-- Clients that have regions of their own may share a mapper, in any order. Each has a script of
calls that is in order when the client is alone, for regions in the used part, and the machine
refuses nothing. Then in every schedule that lets each client keep to its script all calls come to
their end, and all schedules end the same, also where regions of different clients share pages. -/
theorem schedules_agree_throughout {settings : Settings} {usedSize : Nat} {memoryKind : MemoryKind}
    {pinned : Bool} {kind : StrategyKind} {machine : Machine} {first : Mapper PageSpace}
    {Client : Type} [DecidableEq Client] {own : Client → Finset Nat}
    {script : Client → List Call}
    (hfirst : (reserveWith settings usedSize memoryKind pinned kind machine).result = .ok first)
    (hshare : settings.pageSize * settings.commitFactor / settings.regionSize < entryLimit)
    (hplace : kind = .large → ∀ total, machine.place total < Word.addressLimit)
    (h : Reachable PageSpace.Meanwhile first start) (willing : start.store.Willing)
    (shows : start.Shows set) (disjoint : ∀ a b, a ≠ b → Disjoint (own a) (own b))
    (hused : ∀ client, ∀ region ∈ own client,
      (region + 1) * settings.regionSize ≤ usedSize * settings.commitFactor)
    (inside : ∀ client, ∀ call ∈ script client, call.range ⊆ own client)
    (inWords : ∀ client, ∀ call ∈ script client, call.InWords)
    (legal : ∀ client, AllInOrder start.regionCount set (script client)) :
    (∀ schedule, Interleaves script schedule →
      ∀ made ∈ start.serve (callsIn schedule), made.outcome = .done) ∧
    ∀ schedule other, Interleaves script schedule → Interleaves script other →
      SameEnd (start.afterAll (callsIn schedule)) (start.afterAll (callsIn other)) := by
  have live := live_of_reserveWith hfirst hshare
  have grants : start.Grants (fun region => ∃ client, region ∈ own client) set := by
    refine ⟨live.reachable h, willing, shows, ?_⟩
    rintro region ⟨client, hregion⟩ page hhosts
    exact fits_of_inside hfirst hplace h (hused client region hregion) hhosts
  have hserve : ∀ schedule, Interleaves script schedule →
      (∀ made ∈ start.serve (callsIn schedule), made.outcome = .done) ∧
        (start.afterAll (callsIn schedule)).Grants (fun region => ∃ client, region ∈ own client)
          (applyAll set (callsIn schedule)) ∧
        Served start (start.afterAll (callsIn schedule)) := by
    intro schedule hschedule
    have hranges := hschedule.inside inside
    apply grants.serve
    · exact List.forall_mem_map.mpr (hschedule.inside inWords)
    · refine allInOrder_of_alone disjoint hranges (fun _ _ _ => Iff.rfl) ?_
      exact fun client => (hschedule client).symm ▸ legal client
    · refine List.forall_mem_map.mpr fun entry hentry region hregion => ?_
      exact ⟨entry.1, hranges entry hentry hregion⟩
  constructor
  · exact fun schedule hschedule => (hserve schedule hschedule).1
  · intro schedule other hschedule hother
    obtain ⟨-, hgrants, hserved⟩ := hserve schedule hschedule
    obtain ⟨-, hgrants', hserved'⟩ := hserve other hother
    rw [applyAll_eq_of_interleaves disjoint inside hother hschedule] at hgrants'
    exact sameEnd_of_served hgrants hgrants' hserved hserved'

/-- Two clients with one region each on the same page: one of them commits and uncommits its region,
the other one commits its own before that, or in between. -/
theorem schedules_agree_of_four_regions :
    ∃ first, (reserveWith .fourRegions 8192 .heap false .small .willing).result = .ok first ∧
      SameEnd (first.afterAll [.commit 1 1 none, .commit 0 1 none, .uncommit 0 1])
        (first.afterAll [.commit 0 1 none, .commit 1 1 none, .uncommit 0 1]) := by
  obtain ⟨first, hfirst, willing, hclear⟩ : ∃ first,
      (reserveWith .fourRegions 8192 .heap false .small .willing).result = .ok first ∧
      first.store.Willing ∧ first.committed = .empty 4 := ⟨_, rfl, fun _ _ => rfl, rfl⟩
  have shows : first.Shows ∅ := shows_of_bit (inUse_of_reserveWith hfirst).sound fun region => by
    rw [hclear, Bitmap.bit_empty]
    rfl
  have agree := @schedules_agree_throughout first ∅ .fourRegions 8192 .heap false .small .willing
    first Bool _ (fun client => if client then {1} else {0})
    (fun client => if client then [.commit 1 1 none] else [.commit 0 1 none, .uncommit 0 1])
    hfirst (by decide) nofun .refl willing shows (by decide) (by decide) (by decide) (by decide)
    (by rw [regionCount, hclear]; decide)
  exact ⟨first, hfirst, agree.2
    [(true, .commit 1 1 none), (false, .commit 0 1 none), (false, .uncommit 0 1)]
    [(false, .commit 0 1 none), (true, .commit 1 1 none), (false, .uncommit 0 1)]
    (by unfold Interleaves; decide) (by unfold Interleaves; decide)⟩

end RegionBacking.Mapper
