import RegionBacking.Proofs.Bitmap.Enumeration
import RegionBacking.Proofs.Mapper.Spaces

/-!
# A mapper as a set of regions

Seen from outside, a mapper is the set of its committed regions. `SetStep` says what a call may do
to such a set: which calls are faults, and what is left of a call that is refused. A mapper over a
page space all of which can be used goes through any sequence of calls as such a set does, whatever
the machine refuses, and shows this set after each of them.
-/

namespace RegionBacking.Mapper

open Finset (Ico)

/-! ## Calls on a set of regions -/

/-- How a call ends. -/
inductive Outcome where
  | done
  | refused
  | fault
deriving DecidableEq, Repr

/-- How an operation without a value ended. -/
def Outcome.of : Except (Stop Refusal) Unit → Outcome
  | .ok () => done
  | .error (.error _) => refused
  | .error (.fault _) => fault

theorem Outcome.of_eq_done_iff {result : Except (Stop Refusal) Unit} :
    Outcome.of result = .done ↔ result = .ok () := by
  constructor
  · intro h
    cases result with
    | ok => rfl
    | error stop => cases stop <;> cases h
  · rintro rfl
    rfl

theorem Outcome.of_eq_fault_iff {result : Except (Stop Refusal) Unit} :
    Outcome.of result = .fault ↔ ∃ cause, result = .error (.fault cause) := by
  match result with
  | .ok () => simp [Outcome.of]
  | .error (.error refusal) => simp [Outcome.of]
  | .error (.fault cause) => simp [Outcome.of]

namespace Call

/-- The first region of a call. -/
def start : Call → Nat
  | commit start _ _ => start
  | uncommit start _ => start

/-- The number of regions of a call. -/
def count : Call → Nat
  | commit _ count _ => count
  | uncommit _ count => count

/-- A call is in order if its range lies below the number of regions, and the regions of a commit
are not in the set, or those of an uncommit all are. -/
def InOrder (regions : Nat) (set : Finset Nat) : Call → Prop
  | commit start count _ => start + count ≤ regions ∧ Disjoint set (Ico start (start + count))
  | uncommit start count => start + count ≤ regions ∧ Ico start (start + count) ⊆ set

/-- The set after the first `part` regions of a call. -/
def apply (part : Nat) (set : Finset Nat) : Call → Finset Nat
  | commit start _ _ => set ∪ Ico start (start + part)
  | uncommit start _ => set \ Ico start (start + part)

theorem apply_zero (call : Call) (set : Finset Nat) : call.apply 0 set = set := by
  cases call <;> simp [apply]

end Call

/-- What a call may do to a set of regions. Out of order it is a fault. In order it is done as a
whole, or it is refused: then nothing is done where regions have pages of their own, and a proper
part of the range, from its start, where they share pages. -/
inductive SetStep (kind : StrategyKind) (regions : Nat) (call : Call) (set : Finset Nat) :
    Outcome → Finset Nat → Prop where
  | fault (h : ¬ call.InOrder regions set) : SetStep kind regions call set .fault set
  | done (h : call.InOrder regions set) :
    SetStep kind regions call set .done (call.apply call.count set)
  | refusedWhole (h : call.InOrder regions set) (hkind : kind = .large) :
    SetStep kind regions call set .refused set
  | refusedShared (h : call.InOrder regions set) (hkind : kind = .small) (part : Nat)
    (hpart : part < call.count) : SetStep kind regions call set .refused (call.apply part set)

/-- A step of a set is a fault just if the call is out of order. -/
theorem SetStep.fault_iff {kind : StrategyKind} {regions : Nat} {call : Call} {set next : Finset Nat}
    {outcome : Outcome} (step : SetStep kind regions call set outcome next) :
    outcome = .fault ↔ ¬ call.InOrder regions set := by
  cases step with
  | fault h => simp [h]
  | done h => simp [h]
  | refusedWhole h => simp [h]
  | refusedShared h => simp [h]

/-! ## The set of a mapper -/

/-- All that can be asked of a mapper about committed regions is answered by a set. -/
structure Shows (mapper : Mapper PageSpace) (set : Finset Nat) : Prop where
  isCommitted_eq : ∀ region, mapper.isCommitted region = decide (region ∈ set)
  committedCount_eq : mapper.committedCount = set.card
  mem_committedRegions : ∀ region, region ∈ mapper.committedRegions ↔ region ∈ set
  ascending : mapper.committedRegions.Pairwise (· < ·)

variable {mapper after : Mapper PageSpace} {set : Finset Nat} {start stop count : Nat}

theorem shows_of_bit (sound : mapper.Sound)
    (h : ∀ region, mapper.committed.bit region = decide (region ∈ set)) : mapper.Shows set := by
  have hmem : ∀ region, region ∈ mapper.committedRegions ↔ region ∈ set := by
    intro region
    rw [committedRegions, Bitmap.mem_ones_iff sound.tidy, h, decide_eq_true_eq]
  refine ⟨?_, ?_, hmem, Bitmap.ones_pairwise_lt sound.tidy⟩
  · intro region
    rw [sound.isCommitted_eq, h]
  · refine Bitmap.count_eq_card sound.tidy fun region => ?_
    rw [h, decide_eq_true_eq]

theorem Shows.bit_eq (shows : mapper.Shows set) (sound : mapper.Sound) (region : Nat) :
    mapper.committed.bit region = decide (region ∈ set) := by
  rw [← sound.isCommitted_eq, shows.isCommitted_eq]

theorem Shows.ready_false_iff (shows : mapper.Shows set) (sound : mapper.Sound)
    (start count : Nat) :
    mapper.Ready false start count ↔
      start + count ≤ mapper.regionCount ∧ Disjoint set (Ico start (start + count)) := by
  rw [Finset.disjoint_right]
  constructor
  · intro ready
    obtain ⟨hsize, hbits⟩ := ready
    refine ⟨hsize, ?_⟩
    intro region hregion
    obtain ⟨hfirst, hlast⟩ := Finset.mem_Ico.mp hregion
    rw [← decide_eq_false_iff_not, ← shows.bit_eq sound]
    exact hbits region hfirst hlast
  · intro hfree
    obtain ⟨hsize, hset⟩ := hfree
    refine ⟨hsize, ?_⟩
    intro region hfirst hlast
    rw [shows.bit_eq sound, decide_eq_false_iff_not]
    exact hset (Finset.mem_Ico.mpr ⟨hfirst, hlast⟩)

theorem Shows.ready_true_iff (shows : mapper.Shows set) (sound : mapper.Sound)
    (start count : Nat) :
    mapper.Ready true start count ↔
      start + count ≤ mapper.regionCount ∧ Ico start (start + count) ⊆ set := by
  constructor
  · intro ready
    obtain ⟨hsize, hbits⟩ := ready
    refine ⟨hsize, ?_⟩
    intro region hregion
    obtain ⟨hfirst, hlast⟩ := Finset.mem_Ico.mp hregion
    have hbit := hbits region hfirst hlast
    rwa [shows.bit_eq sound, decide_eq_true_eq] at hbit
  · intro hheld
    obtain ⟨hsize, hset⟩ := hheld
    refine ⟨hsize, ?_⟩
    intro region hfirst hlast
    rw [shows.bit_eq sound, decide_eq_true_eq]
    exact hset (Finset.mem_Ico.mpr ⟨hfirst, hlast⟩)

/-- What is committed joins the set, and what is uncommitted leaves it. -/
theorem BroughtTo.shows {status : Bool} {answers : List Answer} {trace : List Effect}
    (done : BroughtTo status start stop mapper after answers trace) (shows : mapper.Shows set)
    (sound : mapper.Sound) :
    after.Shows (if status then set ∪ Ico start stop else set \ Ico start stop) := by
  apply shows_of_bit done.sound
  intro region
  rw [done.bit_eq, shows.bit_eq sound]
  cases status <;> by_cases hrange : start ≤ region ∧ region < stop <;> simp [hrange]

/-! ## Mappers with room -/

/-- What holds of a mapper all of whose pages can be committed. -/
structure Serving (kind : StrategyKind) (regions : Nat) (mapper : Mapper PageSpace) : Prop where
  live : mapper.Live
  shape_eq : mapper.strategy.shape.1 = kind
  regionCount_eq : mapper.regionCount = regions
  size_lt : mapper.store.reservation.size < Word.limit
  fits : ∀ stop, stop ≤ PageStore.pages mapper.store → mapper.store.Fits stop

/-- All pages of a space can be committed if all of it can be used and its addresses are such as a
machine hands out. -/
theorem fits_of_fresh {space : PageSpace} {size pageSize : Nat} {pinned : Bool} {machine : Machine}
    (fresh : space.Fresh size size pageSize pinned machine) (hpage : pageSize ∣ size)
    (hplace : ∀ total, machine.place total < Word.addressLimit) :
    ∀ stop, stop ≤ PageStore.pages space → space.Fits stop := by
  intro stop hstop
  have hsize : space.reservation.size = size := fresh.handedOut.size_eq
  have hpageSize : space.pageSize = pageSize := fresh.handedOut.pageSize_eq
  have hpages : PageStore.pages space = size / pageSize := congrArg₂ (· / ·) hsize hpageSize
  apply (fits_usable fresh hpage (limit_lt_of_fresh fresh hplace)).mono
  rwa [Word.divCeil_of_dvd (hpageSize ▸ fresh.sound.pageSize_pos) hpage, ← hpages]

namespace Serving

variable {kind : StrategyKind} {regions : Nat}

theorem roomy (serving : mapper.Serving kind regions) {pretoucher : Option Pretoucher}
    (h : ∀ worker ∈ pretoucher, worker.chunkSize < Word.limit) : mapper.Roomy pretoucher where
  fits := serving.fits
  chunked worker hworker := PageSpace.chunk_lt_word serving.live.sound.store_sound serving.size_lt
    (h worker hworker)
  countable := serving.live.countable

theorem follows (serving : mapper.Serving kind regions)
    (h : Follows PageSpace.Meanwhile mapper after) : after.Serving kind regions := by
  have live := serving.live
  have continues := h.continues PageSpace.harmless_meanwhile live.sound live.spacious
  have hsize : after.store.reservation.size = mapper.store.reservation.size :=
    continues.succeeds.geometry.reservedSize_eq
  refine ⟨live.follows h, ?_, ?_, ?_, ?_⟩
  · rw [continues.shape_eq, serving.shape_eq]
  · exact continues.size_eq.trans serving.regionCount_eq
  · exact hsize ▸ serving.size_lt
  · intro stop hstop
    rw [continues.succeeds.geometry.pages_eq] at hstop
    exact (continues.succeeds.fits_iff stop).mpr (serving.fits stop hstop)

theorem reachable (serving : mapper.Serving kind regions)
    (h : Reachable PageSpace.Meanwhile mapper after) : after.Serving kind regions := by
  induction h with
  | refl => exact serving
  | tail _ follows ih => exact ih.follows follows

end Serving

/-- All of a page space is used, so a mapper over it has room from the start. -/
theorem serving_of_reserveWith {settings : Settings} {memoryKind : MemoryKind} {pinned : Bool}
    {kind : StrategyKind} {machine : Machine} {first : Mapper PageSpace}
    (hfirst : (reserveWith settings settings.reservedSize memoryKind pinned kind machine).result =
      .ok first)
    (hshare : settings.pageSize * settings.commitFactor / settings.regionSize < entryLimit)
    (hplace : ∀ total, machine.place total < Word.addressLimit) :
    first.Serving kind settings.regionCount := by
  obtain ⟨fresh, created⟩ := of_reserveWith_ok hfirst
  refine ⟨live_of_reserveWith hfirst hshare, ?_, created.regionCount_eq, ?_, ?_⟩
  · have hstrategy := created.strategy_of
    cases kind with
    | large =>
      obtain ⟨pages, hlarge, -⟩ := hstrategy
      rw [hlarge]
      rfl
    | small =>
      obtain ⟨regions, references, hsmall, -⟩ := hstrategy
      rw [hsmall]
      rfl
  · rw [fresh.handedOut.size_eq]
    exact Nat.lt_of_le_of_lt (Nat.le_add_right _ _) fresh.handedOut.size_lt
  · exact fits_of_fresh fresh (Settings.pageSize_dvd_reservedSize created.valid).2 hplace

/-! ## One call -/

/-- What is left of a call that did not come to its end, apart from the regions: a fault changes
nothing, and a refusal changes only the counters where regions have pages of their own. -/
structure Keeps (kind : StrategyKind) (call : Call) (mapper : Mapper PageSpace) : Prop where
  of_fault : ∀ fault, (call.run mapper).result = .error (.fault fault) →
    (call.run mapper).state = mapper
  of_refusal : kind = .large → ∀ refusal, (call.run mapper).result = .error (.error refusal) →
    ∃ activity, (call.run mapper).state = mapper.withActivity activity

/-- A call of a mapper is a step of the set that it shows. -/
def Matches (kind : StrategyKind) (regions : Nat) (call : Call) (mapper : Mapper PageSpace)
    (set : Finset Nat) : Prop :=
  ∃ next, SetStep kind regions call set (.of (call.run mapper).result) next ∧
    (call.run mapper).state.Shows next ∧ mapper.Keeps kind call

variable {kind : StrategyKind} {regions : Nat}

theorem matches_of_done {call : Call} {trace : List Effect} (inOrder : call.InOrder regions set)
    (hrun : call.run mapper = ⟨.ok (), after, trace⟩)
    (hshows : after.Shows (call.apply call.count set)) :
    mapper.Matches kind regions call set := by
  refine ⟨call.apply call.count set, ?_, ?_, ?_, ?_⟩
  all_goals rw [hrun]
  · exact .done inOrder
  · exact hshows
  · exact fun _ => nofun
  · exact fun _ _ => nofun

theorem matches_of_fault {call : Call} {fault : Fault} (outOfOrder : ¬ call.InOrder regions set)
    (hrun : call.run mapper = ⟨.error (.fault fault), mapper, []⟩) (hshows : mapper.Shows set) :
    mapper.Matches kind regions call set := by
  refine ⟨set, ?_, ?_, ?_, ?_⟩
  all_goals rw [hrun]
  · exact .fault outOfOrder
  · exact hshows
  · exact fun _ _ => rfl
  · exact fun _ _ => nofun

theorem matches_of_refusal {call : Call} {refusal : Refusal} {trace : List Effect} {part : Nat}
    (serving : mapper.Serving kind regions) (inOrder : call.InOrder regions set)
    (hrun : call.run mapper = ⟨.error (.error refusal), after, trace⟩) (hpart : part < call.count)
    (hshows : after.Shows (call.apply part set))
    (hlarge : ∀ pages, mapper.strategy = .large pages →
      part = 0 ∧ ∃ activity, after = mapper.withActivity activity) :
    mapper.Matches kind regions call set := by
  have hshape := serving.shape_eq
  cases hstrategy : mapper.strategy with
  | large pages =>
    rw [hstrategy] at hshape
    obtain ⟨rfl, hactivity⟩ := hlarge pages hstrategy
    rw [Call.apply_zero] at hshows
    refine ⟨set, ?_, ?_, ?_, ?_⟩
    all_goals rw [hrun]
    · exact .refusedWhole inOrder hshape.symm
    · exact hshows
    · exact fun _ => nofun
    · exact fun _ _ _ => hactivity
  | small regionsPerPage references =>
    rw [hstrategy] at hshape
    refine ⟨call.apply part set, ?_, ?_, ?_, ?_⟩
    all_goals rw [hrun]
    · exact .refusedShared inOrder hshape.symm part hpart
    · exact hshows
    · exact fun _ => nofun
    · intro hkind
      subst hkind
      cases hshape

theorem commit_matches (serving : mapper.Serving kind regions) (shows : mapper.Shows set)
    (start count : Nat) (pretoucher : Option Pretoucher)
    (inWords : (Call.commit start count pretoucher).InWords) :
    mapper.Matches kind regions (.commit start count pretoucher) set := by
  have sound := serving.live.sound
  have hready := shows.ready_false_iff sound start count
  rw [serving.regionCount_eq] at hready
  by_cases ready : mapper.Ready false start count
  · rcases commitRegions_run sound ready pretoucher fun pages hlarge worker hworker =>
        serving.live.spacious pages hlarge worker (inWords worker hworker) with
      ⟨zeroFilled, after, trace, answers, hrun, hdone, -⟩ |
      ⟨stop, after, trace, answers, region, hrun, hdone, hfirst, hlast, hlarge, hroom⟩
    · exact matches_of_done (hready.mp ready) hrun (hdone.shows shows sound)
    · obtain ⟨hlt, refusal, rfl⟩ := hroom (serving.roomy inWords)
      -- The call stopped at a region of its range: those before it are the part that is done.
      obtain ⟨part, rfl⟩ := Nat.exists_eq_add_of_le hfirst
      refine matches_of_refusal serving (hready.mp ready) hrun (Nat.lt_of_add_lt_add_left hlt)
        (hdone.shows shows sound) ?_
      intro pages hpages
      obtain ⟨hpart, hactivity⟩ := hlarge pages hpages
      exact ⟨by omega, hactivity⟩
  · obtain ⟨fault, -, hrun⟩ := commitRegions_fault ready pretoucher
    exact matches_of_fault (fun inOrder => ready (hready.mpr inOrder)) hrun shows

theorem uncommit_matches (serving : mapper.Serving kind regions) (shows : mapper.Shows set)
    (start count : Nat) : mapper.Matches kind regions (.uncommit start count) set := by
  have sound := serving.live.sound
  have hready := shows.ready_true_iff sound start count
  rw [serving.regionCount_eq] at hready
  by_cases ready : mapper.Ready true start count
  · rcases uncommitRegions_run sound ready with ⟨after, trace, answers, hrun, hdone⟩ |
      ⟨stop, after, trace, answers, region, hrun, hdone, hfirst, hlt, hlarge, hrejects⟩
    · exact matches_of_done (hready.mp ready) hrun (hdone.shows shows sound)
    · obtain ⟨refusal, rfl⟩ := hrejects.exists_refusal trivial
      obtain ⟨part, rfl⟩ := Nat.exists_eq_add_of_le hfirst
      refine matches_of_refusal serving (hready.mp ready) hrun (Nat.lt_of_add_lt_add_left hlt)
        (hdone.shows shows sound) ?_
      intro pages hpages
      obtain ⟨hpart, rfl⟩ := hlarge pages hpages
      exact ⟨by omega, after.activity, rfl⟩
  · obtain ⟨fault, -, hrun⟩ := uncommitRegions_fault ready
    exact matches_of_fault (fun inOrder => ready (hready.mpr inOrder)) hrun shows

/-- Every call of a mapper is a step of the set that it shows. -/
theorem call_matches (serving : mapper.Serving kind regions) (shows : mapper.Shows set)
    (call : Call) (inWords : call.InWords) : mapper.Matches kind regions call set := by
  cases call with
  | commit start count pretoucher =>
    exact commit_matches serving shows start count pretoucher inWords
  | uncommit start count => exact uncommit_matches serving shows start count

/-! ## Any sequence of calls -/

/-- A call, and what the machine refuses during it. -/
structure Turn where
  refuses : Request → Bool
  call : Call

/-- The mapper on a machine that refuses other requests. -/
def refusing (mapper : Mapper PageSpace) (refuses : Request → Bool) : Mapper PageSpace :=
  { mapper with store := mapper.store.refusing refuses }

/-- Turn by turn a mapper shows a set of regions and does one of its steps. -/
def Tracks (kind : StrategyKind) (regions : Nat) :
    List Turn → Mapper PageSpace → Finset Nat → Prop
  | [], mapper, set => mapper.Shows set
  | turn :: later, mapper, set =>
    mapper.Shows set ∧
      ∃ next,
        SetStep kind regions turn.call set
          (.of (turn.call.run (mapper.refusing turn.refuses)).result) next ∧
        (mapper.refusing turn.refuses).Keeps kind turn.call ∧
        Tracks kind regions later (turn.call.run (mapper.refusing turn.refuses)).state next

theorem tracks_of_serving (turns : List Turn) (inWords : ∀ turn ∈ turns, turn.call.InWords)
    (serving : mapper.Serving kind regions) (shows : mapper.Shows set) :
    Tracks kind regions turns mapper set := by
  induction turns generalizing mapper set with
  | nil => exact shows
  | cons turn later ih =>
    have hturn := inWords turn List.mem_cons_self
    -- Other refusals change nothing that the mapper shows.
    have started : (mapper.refusing turn.refuses).Serving kind regions :=
      serving.follows (.store _ (.refusing turn.refuses))
    obtain ⟨next, hstep, hshows, hkeeps⟩ := call_matches started
      ⟨shows.isCommitted_eq, shows.committedCount_eq, shows.mem_committedRegions, shows.ascending⟩
      turn.call hturn
    exact ⟨shows, next, hstep, hkeeps, ih (fun turn h => inWords turn (List.mem_cons_of_mem _ h))
      (started.follows (.call turn.call hturn)) hshows⟩

/-- A mapper over a page space all of which can be used refines a set of regions, whatever it is
called for and whatever the machine refuses. Of the machine `hplace` asks that all address space it
hands out starts below the limit of addresses. -/
theorem refines_region_set {settings : Settings} {memoryKind : MemoryKind} {pinned : Bool}
    {machine : Machine} {first : Mapper PageSpace}
    (hfirst : (reserveWith settings settings.reservedSize memoryKind pinned kind machine).result =
      .ok first)
    (hshare : settings.pageSize * settings.commitFactor / settings.regionSize < entryLimit)
    (hplace : ∀ total, machine.place total < Word.addressLimit)
    (turns : List Turn) (inWords : ∀ turn ∈ turns, turn.call.InWords) :
    Tracks kind settings.regionCount turns first ∅ := by
  have serving := serving_of_reserveWith hfirst hshare hplace
  obtain ⟨-, created⟩ := of_reserveWith_ok hfirst
  refine tracks_of_serving turns inWords serving (shows_of_bit serving.live.sound fun region => ?_)
  rw [created.committed_eq, Bitmap.bit_empty]
  rfl

/-- Two calls of four regions: a commit that is refused its second page commits one region only, so
an uncommit of the next one is a fault. -/
theorem refines_region_set_of_four_regions :
    ∃ first, (reserveWith .fourRegions 8192 .heap false .small .willing).result = .ok first ∧
      Tracks .small 4
        [⟨fun request => request.address == 69632, .commit 1 3 none⟩,
          ⟨fun _ => false, .uncommit 2 1⟩] first ∅ :=
  ⟨_, rfl, @refines_region_set .small .fourRegions .heap false .willing _ rfl (by decide)
    (fun _ => show 65536 < Word.addressLimit by decide) _ (by decide)⟩

end RegionBacking.Mapper
