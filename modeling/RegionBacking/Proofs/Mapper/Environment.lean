import RegionBacking.Proofs.Mapper.Counting

/-!
# Mappers by the settings of the environment

The environment sets the reserved size and never the used size alone, so a mapper that is set up by
it can use all of its reservation, and no page is cut off. What is left that can go wrong is the
counting of the regions of a page, which its settings decide. Where an entry can count them, a call
of such a mapper is a fault only if it is out of order, and in order it comes to its end unless the
machine refuses something (`Dependable`).
-/

namespace RegionBacking

/-- Whatever the environment says, all that is reserved is used. -/
theorem Settings.usedSize_ofEnvironment (processors : Nat) (environment : Environment) :
    (ofEnvironment processors environment).usedSize =
      (ofEnvironment processors environment).reservedSize := rfl

namespace Mapper

variable {kind : StrategyKind} {regions : Nat} {mapper first : Mapper PageSpace} {call : Call}
  {machine : Machine} {processors : Nat} {environment : Settings.Environment}

/-- The committed regions. -/
def held (mapper : Mapper PageSpace) : Finset Nat := mapper.committedRegions.toFinset

theorem Shows.held_eq {set : Finset Nat} (shows : mapper.Shows set) : mapper.held = set := by
  ext region
  rw [held, List.mem_toFinset, shows.mem_committedRegions]

theorem Sound.shows_held (sound : mapper.Sound) : mapper.Shows mapper.held := by
  refine shows_of_bit sound fun region => ?_
  rw [Bool.eq_iff_iff, decide_eq_true_eq, held, List.mem_toFinset, committedRegions,
    Bitmap.mem_ones_iff sound.tidy]

/-! ## One call -/

/-- A call does what it is to do whenever it can. It is a fault just if it is out of order; that is
what the fault says then, and nothing has changed. In order it comes to its end unless it is
refused. -/
structure Dependable (mapper : Mapper PageSpace) (call : Call) : Prop where
  fault_iff : (∃ fault, (call.run mapper).result = .error (.fault fault)) ↔
    ¬ call.InOrder mapper.regionCount mapper.held
  of_fault : ∀ fault, (call.run mapper).result = .error (.fault fault) →
    fault.isOfRegions = true ∧ (call.run mapper).state = mapper
  of_granted : call.InOrder mapper.regionCount mapper.held →
    (∀ refusal, (call.run mapper).result ≠ .error (.error refusal)) →
    (call.run mapper).result = .ok () ∧
      (call.run mapper).state.held = call.apply call.count mapper.held

/-- A call is in order for the regions that are held just if it is ready on the mapper. -/
theorem Sound.inOrder_iff (sound : mapper.Sound) :
    call.InOrder mapper.regionCount mapper.held ↔ call.ReadyOn mapper := by
  cases call with
  | commit start count pretoucher =>
    exact (sound.shows_held.ready_false_iff sound start count).symm
  | uncommit start count => exact (sound.shows_held.ready_true_iff sound start count).symm

theorem Serving.dependable (serving : mapper.Serving kind regions) (inWords : call.InWords) :
    mapper.Dependable call := by
  have sound := serving.live.sound
  obtain ⟨next, hstep, hshows, hkeeps⟩ :=
    call_matches serving sound.shows_held call inWords
  rw [← serving.regionCount_eq] at hstep
  have hfault := Outcome.of_eq_fault_iff.symm.trans hstep.fault_iff
  refine ⟨hfault, fun fault hresult => ⟨?_, hkeeps.of_fault fault hresult⟩,
    fun inOrder granted => ?_⟩
  · have outOfOrder := hfault.mp ⟨fault, hresult⟩
    cases faultCase sound (serving.live.toInUse.chunked inWords) hresult with
    | outOfOrder _ hkind => exact hkind
    | halted ready => exact (outOfOrder (sound.inOrder_iff.mpr ready)).elim
  · match hresult : (call.run mapper).result with
    | .ok () =>
      rw [hresult] at hstep
      cases hstep with
      | done => exact ⟨rfl, hshows.held_eq⟩
    | .error (.error refusal) => exact absurd hresult (granted refusal)
    | .error (.fault fault) => exact absurd inOrder (hfault.mp ⟨fault, hresult⟩)

/-- Where the machine refuses nothing, a region that is not committed can be. -/
theorem Serving.commit_one (serving : mapper.Serving kind regions) (willing : mapper.store.Willing)
    {region : Nat} (hregion : region < regions) (hfree : region ∉ mapper.held)
    {pretoucher : Option Pretoucher} (inWords : (Call.commit region 1 pretoucher).InWords) :
    ((Call.commit region 1 pretoucher).run mapper).result = .ok () ∧
      ((Call.commit region 1 pretoucher).run mapper).state.held = insert region mapper.held := by
  have inOrder : (Call.commit region 1 pretoucher).InOrder mapper.regionCount mapper.held := by
    refine ⟨serving.regionCount_eq ▸ hregion, ?_⟩
    rw [Nat.Ico_succ_singleton]
    exact Finset.disjoint_singleton_right.mpr hfree
  obtain ⟨hresult, hheld⟩ := (serving.dependable inWords).of_granted inOrder
    (serving.live.toInUse.not_refused willing inWords)
  refine ⟨hresult, hheld.trans ?_⟩
  rw [Call.apply, Call.count, Nat.Ico_succ_singleton, Finset.union_comm]
  rfl

/-! ## Setting up -/

/-- Settings by which a mapper is set up have passed their tests. -/
theorem reserveWith_of_reserve_ok {settings : Settings}
    (hfirst : (reserve settings machine).result = .ok first) :
    (reserveWith settings settings.usedSize settings.memoryKind settings.preCommitted
      settings.strategyKind machine).result = .ok first := by
  cases valid : settings.validate with
  | ok => rwa [← reserve_eq_reserveWith valid]
  | error error =>
    rw [reserve, valid] at hfirst
    cases hfirst

/-- A space whose used part is cut into pages has no page that is cut off. -/
theorem tailSize_of_reserve_ok {settings : Settings}
    (hfirst : (reserve settings machine).result = .ok first)
    (hused : settings.usedSize = settings.reservedSize) : first.store.tailSize = 0 := by
  obtain ⟨fresh, created⟩ := of_reserveWith_ok (reserveWith_of_reserve_ok hfirst)
  have hpageSize : first.store.pageSize = settings.pageSize := fresh.handedOut.pageSize_eq
  rw [PageSpace.tailSize, fresh.usedSize_eq, hused, hpageSize]
  exact Nat.mod_eq_zero_of_dvd (Settings.pageSize_dvd_reservedSize created.valid).2

/-- What can be relied on in a mapper at any time. -/
structure Usable (settings : Settings) (mapper : Mapper PageSpace) : Prop where
  regionCount_eq : mapper.regionCount = settings.regionCount
  dependable : ∀ call : Call, call.InWords → mapper.Dependable call
  /-- Where the machine refuses nothing, each region that is not committed can be. -/
  commit_one : mapper.store.Willing → ∀ region < settings.regionCount, region ∉ mapper.held →
    ∀ pretoucher, (Call.commit region 1 pretoucher).InWords →
      ((Call.commit region 1 pretoucher).run mapper).result = .ok () ∧
        ((Call.commit region 1 pretoucher).run mapper).state.held = insert region mapper.held

/-- A mapper that is set up by the environment can use all that it reserves, and no page is cut off.
As long as an entry can count the regions of a page, that is enough: whatever happened to the mapper
before, no call of it is a fault but one that is out of order. -/
theorem usable_throughout (processors : Nat) (environment : Settings.Environment)
    {settings : Settings} (hsettings : settings = .ofEnvironment processors environment)
    (hfirst : (reserveFromEnvironment processors environment machine).result = .ok first)
    (hshare : settings.pageSize * settings.commitFactor / settings.regionSize < entryLimit)
    (hplace : ∀ total, machine.place total < Word.addressLimit) :
    settings.usedSize = settings.reservedSize ∧ first.store.tailSize = 0 ∧
    ∀ mapper, Reachable PageSpace.Meanwhile first mapper → mapper.Usable settings := by
  have hused : settings.usedSize = settings.reservedSize :=
    hsettings ▸ Settings.usedSize_ofEnvironment processors environment
  have hreserve : (reserve settings machine).result = .ok first := hsettings ▸ hfirst
  refine ⟨hused, tailSize_of_reserve_ok hreserve hused, fun mapper h => ?_⟩
  have hwith := reserveWith_of_reserve_ok hreserve
  rw [hused] at hwith
  have serving := (serving_of_reserveWith hwith hshare hplace).reachable h
  exact ⟨serving.regionCount_eq, fun call inWords => serving.dependable inWords,
    fun willing region hregion hfree pretoucher inWords =>
      serving.commit_one willing hregion hfree inWords⟩

/-- An environment of small regions, on pages that four of them share. Its factor is no numeral, so
the standard one holds. -/
def fewRegions : Settings.Environment
  | "FGC_MAPPER_RESERVED_SIZE" => some "8192"
  | "FGC_MAPPER_REGION_SIZE" => some "+1024"
  | "FGC_MAPPER_COMMIT_FACTOR" => some "two"
  | _ => none

theorem usable_of_few_regions :
    ∃ first, (reserveFromEnvironment 8 fewRegions .willing).result = .ok first ∧
      first.store.tailSize = 0 ∧ first.regionCount = 8 ∧
      ((Call.commit 7 1 none).run first).result = .ok () := by
  have hsettings : Settings.ofEnvironment 8 fewRegions =
      { Settings.standard 8 with reservedSize := 8192, usedSize := 8192, regionSize := 1024 } := by
    decide +kernel
  obtain ⟨first, hfirst, willing, hfree⟩ : ∃ first,
      (reserveFromEnvironment 8 fewRegions .willing).result = .ok first ∧
      first.store.Willing ∧ 7 ∉ first.held := by
    rw [reserveFromEnvironment, hsettings]
    exact ⟨_, rfl, fun _ _ => rfl, by decide +kernel⟩
  obtain ⟨-, htail, husable⟩ := usable_throughout 8 fewRegions hsettings.symm hfirst (by decide)
    (fun _ => show 65536 < Word.addressLimit by decide)
  have usable := husable first .refl
  exact ⟨first, hfirst, htail, usable.regionCount_eq,
    (usable.commit_one willing 7 (by decide) hfree none (by decide)).1⟩

end Mapper

end RegionBacking
