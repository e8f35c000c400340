import RegionBacking.Proofs.Mapper.Faults
import RegionBacking.Proofs.Mapper.References
import RegionBacking.Proofs.Mapper.RegionSet

/-!
# Counting the regions of a page

The references of a page are an entry of a table, which is less than `entryLimit`, while the
settings may put any number of regions on a page. All of a page space being usable, a commit in
order that the machine does not refuse comes to its end just if no page gets as many regions as an
entry cannot hold (`SharedBooks.commit_ok_iff`); that is so at all times where the settings put
fewer on each.
-/

namespace RegionBacking

namespace Mapper

/-! ## Willing machines -/

section willing

variable {mapper after : Mapper PageSpace} {refusal : Refusal}

/-- A store that is willing when a call begins still is where the call stops. -/
theorem BroughtTo.willing {status : Bool} {start stop : Nat} {answers : List Answer}
    {trace : List Effect} (brought : BroughtTo status start stop mapper after answers trace)
    (sound : mapper.Sound) (willing : mapper.store.Willing) : after.store.Willing :=
  brought.reaches.run.willing sound.store_sound willing

/-- A commit halts with a refusal only where the machine refuses something. -/
theorem Halts.unwilling {start count : Nat} {trace : List Effect}
    (halts : Halts mapper after start count trace (.error refusal)) (sound : mapper.Sound) :
    ¬ mapper.store.Willing := by
  intro willing
  cases halts with
  | whole _ _ rejects => exact rejects.unwilling willing
  | shared _ _ _ _ _ _ _ brought stalls =>
    cases stalls with
    | page _ rejects => exact rejects.unwilling (brought.willing sound willing)

/-- Where the machine refuses nothing, no call is refused. -/
theorem Sound.not_refused (sound : mapper.Sound) {call : Call}
    (chunked : mapper.Chunked call.pretoucher) (willing : mapper.store.Willing)
    (refusal : Refusal) :
    (call.run mapper).result ≠ .error (.error refusal) := by
  intro hrefused
  have hrun : call.run mapper =
      ⟨.error (.error refusal), (call.run mapper).state, (call.run mapper).trace⟩ := by
    rw [← hrefused]
  cases call with
  | commit start count pretoucher =>
    by_cases ready : mapper.Ready false start count
    · obtain ⟨-, mid, earlier, hback, -⟩ := ready.of_commitRegions_error hrun
      have halts := halts_of_backRegions sound ready chunked hback
      exact halts.unwilling sound willing
    · obtain ⟨fault, -, hfault⟩ := commitRegions_fault ready pretoucher
      cases hfault.symm.trans hrun
  | uncommit start count =>
    by_cases ready : mapper.Ready true start count
    · rcases uncommitRegions_run sound ready with
        ⟨after, trace, answers, hdone, -⟩ |
        ⟨stop, after, trace, answers, region, hstop, brought, -, -, -, rejects⟩
      · cases hdone.symm.trans hrun
      · cases hstop.symm.trans hrun
        exact rejects.unwilling (brought.willing sound willing)
    · obtain ⟨fault, -, hfault⟩ := uncommitRegions_fault ready
      cases hfault.symm.trans hrun

theorem InUse.not_refused (inUse : mapper.InUse) (willing : mapper.store.Willing) {call : Call}
    (inWords : call.InWords) (refusal : Refusal) :
    (call.run mapper).result ≠ .error (.error refusal) :=
  inUse.sound.not_refused (inUse.chunked inWords) willing refusal

end willing

/-! ## Commits of regions that share pages -/

section lawful

variable {σ : Type} [PageStore σ] [LawfulStore σ] {mapper : Mapper σ} {regionsPerPage : Nat}
  {references : GranuleTable} {start count : Nat} {pretoucher : Option Pretoucher}

/-- After a commit each page has its old and its new regions, and an entry that counts them. -/
theorem SharedBooks.counted_of_ok (books : SharedBooks regionsPerPage references mapper)
    (ready : mapper.Ready false start count)
    (h : (commitRegions start count pretoucher mapper).result = .ok ()) (page : Nat) :
    mapper.committed.residents regionsPerPage page +
      Bitmap.newcomers regionsPerPage page start (start + count) < entryLimit := by
  have hshared : ∀ pages, mapper.strategy = .large pages → mapper.Chunked pretoucher := by
    intro pages hlarge
    cases books.strategy_eq.symm.trans hlarge
  rcases commitRegions_run (.small _ _ books) ready pretoucher hshared with
    ⟨zeroFilled, after, trace, answers, hrun, hbrought, -⟩ |
    ⟨stop, after, trace, answers, region, hrun, -⟩
  · obtain ⟨references', books'⟩ := hbrought.sharedBooks books
    rw [← hbrought.residents_eq ready (Nat.le_refl _), ← books'.entry_eq]
    exact books'.entry_lt_limit page
  · rw [hrun] at h
    cases h

/-- Where all pages fit, a commit in order is at fault only because a page gets more regions than an
entry can count. -/
theorem SharedBooks.full_of_fault (books : SharedBooks regionsPerPage references mapper)
    (ready : mapper.Ready false start count)
    (fits : ∀ stop, stop ≤ PageStore.pages mapper.store → StoreView.Fits mapper.store stop)
    (chunked : mapper.Chunked pretoucher) {fault : Fault}
    (h : ((Call.commit start count pretoucher).run mapper).result = .error (.fault fault)) :
    fault = .addOverflow ∧ ∃ page, entryLimit ≤ mapper.committed.residents regionsPerPage page +
      Bitmap.newcomers regionsPerPage page start (start + count) := by
  have chunked : mapper.Chunked (Call.commit start count pretoucher).pretoucher := chunked
  cases faultCase (.small _ _ books) chunked h with
  | outOfOrder unready => exact absurd ready unready
  | halted _ halts =>
    cases halts with
    | whole _ books' => cases books.strategy_eq.symm.trans books'.strategy_eq
    | shared _ _ books' answers region start_le lt_stop brought stalls =>
      cases books.strategy_eq.symm.trans books'.strategy_eq
      have hregion := Nat.lt_of_lt_of_le lt_stop ready.le_size
      cases stalls with
      | page _ rejects =>
        have hpage := fits _ (books.size_references ▸ books.table.page_lt hregion)
        obtain ⟨refusal, hrefusal⟩ :=
          rejects.exists_refusal ((brought.reaches.succeeds.fits_iff _).mpr hpage)
        cases hrefusal
      | count full =>
        -- The regions in front of this one fill the entry of its page, and it is one more.
        refine ⟨rfl, region / regionsPerPage, ?_⟩
        have hlater := Bitmap.newcomers_lt start_le lt_stop regionsPerPage
        rw [brought.residents_eq ready (Nat.le_of_lt lt_stop)] at full
        omega

/-- A page never has more regions than belong on it, those of a commit included. -/
theorem SharedBooks.counted_le (books : SharedBooks regionsPerPage references mapper)
    (ready : mapper.Ready false start count) (page : Nat) :
    mapper.committed.residents regionsPerPage page +
      Bitmap.newcomers regionsPerPage page start (start + count) ≤ regionsPerPage := by
  have hjoined := Bitmap.residents_of_joined (Bitmap.size_fill _ _ _) ready.le_size ready.bit_eq
    (Bitmap.bit_bring ready.le_size true) regionsPerPage page
  rw [← hjoined]
  exact Bitmap.residents_le _ books.share_pos page

/-- A commit in order that is not refused comes to its end just if all its regions can be
counted. -/
theorem SharedBooks.commit_ok_iff (books : SharedBooks regionsPerPage references mapper)
    (ready : mapper.Ready false start count)
    (fits : ∀ stop, stop ≤ PageStore.pages mapper.store → StoreView.Fits mapper.store stop)
    (chunked : mapper.Chunked pretoucher)
    (granted : ∀ refusal,
      ((Call.commit start count pretoucher).run mapper).result ≠ .error (.error refusal)) :
    ((Call.commit start count pretoucher).run mapper).result = .ok () ↔
      ∀ page, mapper.committed.residents regionsPerPage page +
        Bitmap.newcomers regionsPerPage page start (start + count) < entryLimit := by
  constructor
  · exact fun h page => books.counted_of_ok ready h page
  · intro counted
    match hresult : ((Call.commit start count pretoucher).run mapper).result with
    | .ok () => rfl
    | .error (.error refusal) => exact absurd hresult (granted refusal)
    | .error (.fault fault) =>
      obtain ⟨-, page, hfull⟩ := books.full_of_fault ready fits chunked hresult
      exact absurd (counted page) (Nat.not_lt.mpr hfull)

end lawful

/-! ## Mappers over page spaces -/

/-- What holds at all times of a mapper whose pages are shared and all of which can be used. -/
structure Tallied (regionsPerPage : Nat) (mapper : Mapper PageSpace) : Prop where
  inUse : mapper.InUse
  books : ∃ references, SharedBooks regionsPerPage references mapper
  fits : ∀ stop, stop ≤ PageStore.pages mapper.store → mapper.store.Fits stop

variable {settings : Settings} {memoryKind : MemoryKind} {pinned : Bool} {machine : Machine}
  {first mapper : Mapper PageSpace} {start count : Nat} {pretoucher : Option Pretoucher}

theorem tallied_of_reachable
    (hfirst : (reserveWith settings settings.reservedSize memoryKind pinned .small machine).result =
      .ok first)
    (hplace : ∀ total, machine.place total < Word.addressLimit)
    (h : Reachable PageSpace.Meanwhile first mapper) :
    mapper.Tallied (settings.pageSize * settings.commitFactor / settings.regionSize) := by
  obtain ⟨fresh, created⟩ := of_reserveWith_ok hfirst
  have inUse := inUse_of_reserveWith hfirst
  have continues := h.continues PageSpace.harmless_meanwhile inUse.sound inUse.spacious
  refine ⟨inUse.reachable h, created.sharedBooks continues, ?_⟩
  -- Which pages fit was decided when the space was set up.
  intro stop hstop
  rw [continues.succeeds.geometry.pages_eq] at hstop
  apply (continues.succeeds.fits_iff stop).mpr
  exact fits_of_fresh fresh (Settings.pageSize_dvd_reservedSize created.valid).2 hplace stop hstop

/-- Whatever happened to a mapper before, a commit in order that is not refused comes to its end
just if no page gets as many regions as an entry cannot hold, and it cannot be at fault otherwise.
Where the settings put fewer on a page, it always does. -/
theorem commits_counted_throughout
    (hfirst : (reserveWith settings settings.reservedSize memoryKind pinned .small machine).result =
      .ok first)
    (hplace : ∀ total, machine.place total < Word.addressLimit)
    (h : Reachable PageSpace.Meanwhile first mapper) (ready : mapper.Ready false start count)
    (inWords : (Call.commit start count pretoucher).InWords)
    (granted : ∀ refusal,
      ((Call.commit start count pretoucher).run mapper).result ≠ .error (.error refusal)) :
    (((Call.commit start count pretoucher).run mapper).result = .ok () ↔
      ∀ page, mapper.tenants (settings.pageSize * settings.commitFactor / settings.regionSize) page +
        Bitmap.newcomers (settings.pageSize * settings.commitFactor / settings.regionSize) page
          start (start + count) < entryLimit) ∧
    (∀ fault, ((Call.commit start count pretoucher).run mapper).result = .error (.fault fault) →
      fault = .addOverflow) ∧
    (settings.pageSize * settings.commitFactor / settings.regionSize < entryLimit →
      ((Call.commit start count pretoucher).run mapper).result = .ok ()) := by
  have tallied := tallied_of_reachable hfirst hplace h
  obtain ⟨references, books⟩ := tallied.books
  have chunked : mapper.Chunked pretoucher := tallied.inUse.chunked inWords
  have hiff := books.commit_ok_iff ready tallied.fits chunked granted
  refine ⟨?_, ?_, ?_⟩
  · simp only [tenants_eq_residents tallied.inUse.sound]
    exact hiff
  · intro fault hfault
    exact (books.full_of_fault ready tallied.fits chunked hfault).1
  · intro hshare
    exact hiff.mpr fun page => Nat.lt_of_le_of_lt (books.counted_le ready page) hshare

/-- At first all regions are ready to be committed. -/
theorem Created.ready {store : PageSpace} {kind : StrategyKind}
    (created : Created store settings kind first) : first.Ready false 0 settings.regionCount where
  le_size := Nat.le_of_eq (by rw [Nat.zero_add, ← created.regionCount_eq, regionCount])
  bit_eq region _ _ := by rw [created.committed_eq, Bitmap.bit_empty]

/-- A commit of four regions, two to a page. -/
theorem commits_counted_of_four_regions :
    ∃ first, (reserveWith .fourRegions 8192 .heap false .small .willing).result = .ok first ∧
      ((Call.commit 0 4 none).run first).result = .ok () := by
  obtain ⟨first, hfirst, willing⟩ : ∃ first,
      (reserveWith .fourRegions 8192 .heap false .small .willing).result = .ok first ∧
      first.store.Willing := ⟨_, rfl, fun _ _ => rfl⟩
  have ready : first.Ready false 0 4 := (of_reserveWith_ok hfirst).2.ready
  have counted := @commits_counted_throughout .fourRegions .heap false .willing first first 0 4 none
    hfirst (fun _ => show 65536 < Word.addressLimit by decide) .refl ready (by decide)
    ((inUse_of_reserveWith hfirst).not_refused willing (by decide))
  exact ⟨first, hfirst, counted.2.2 (by decide)⟩

end Mapper

/-- A single page with as many regions on it as an entry cannot hold. -/
def Settings.crowdedPage : Settings :=
  { Settings.fourRegions with
    reservedSize := 4096, usedSize := 4096, regionSize := 1, commitFactor := 1048576 }

/-- Although its settings are right and nothing is refused, a mapper cannot commit all regions of
such a page: to count the last one is a fault. -/
theorem Mapper.commit_faults_of_crowded_page :
    Settings.crowdedPage.validate = .ok () ∧
    ∃ first, (reserveWith .crowdedPage 4096 .heap false .small .willing).result = .ok first ∧
      first.store.Willing ∧ first.Ready false 0 4294967296 ∧
      ((Call.commit 0 4294967296 none).run first).result = .error (.fault .addOverflow) := by
  obtain ⟨first, hfirst, willing⟩ : ∃ first,
      (reserveWith .crowdedPage 4096 .heap false .small .willing).result = .ok first ∧
      first.store.Willing := ⟨_, rfl, fun _ _ => rfl⟩
  have ready : first.Ready false 0 4294967296 := (of_reserveWith_ok hfirst).2.ready
  have tallied : first.Tallied 4294967296 := tallied_of_reachable hfirst
    (fun _ => show 65536 < Word.addressLimit by decide) .refl
  obtain ⟨references, books⟩ := tallied.books
  have inWords : (Call.commit 0 4294967296 none).InWords := by decide
  refine ⟨rfl, first, hfirst, willing, ready, ?_⟩
  match hresult : ((Call.commit 0 4294967296 none).run first).result with
  | .ok () =>
    -- The entry would count all regions of the page.
    have hcounted := books.counted_of_ok ready hresult 0
    have hall := Bitmap.newcomers_window 4294967296 0
    rw [Nat.zero_mul, Nat.zero_add, Nat.one_mul] at hall
    rw [Nat.zero_add, hall] at hcounted
    exact absurd hcounted (Nat.not_lt.mpr (Nat.le_add_left _ _))
  | .error (.error refusal) =>
    exact absurd hresult (tallied.inUse.not_refused willing inWords refusal)
  | .error (.fault fault) =>
    obtain ⟨rfl, -⟩ :=
      books.full_of_fault ready tallied.fits (tallied.inUse.chunked inWords) hresult
    rfl

end RegionBacking
