import RegionBacking.Proofs.Mapper.Spaces

/-!
# The references of shared pages

Where several regions share a page, a mapper counts for each page how many regions on it are
committed. The counts are right at all times, whatever was called, refused or at fault, and a page
is committed just as long as its count is not zero. So the store is never asked to commit a page
that is committed or to uncommit one that is not.
-/

namespace RegionBacking.Mapper

open Finset

variable {σ : Type} [PageStore σ]

/-- The number of committed regions on a page that so many regions share. -/
def tenants (mapper : Mapper σ) (regionsPerPage page : Nat) : Nat :=
  #{region ∈ range mapper.regionCount |
    region / regionsPerPage = page ∧ mapper.isCommitted region = true}

variable [LawfulStore σ] {mapper : Mapper σ} {regionsPerPage : Nat}

/-- The references of a mapper are right, and its next call keeps to them. -/
structure Referenced (regionsPerPage : Nat) (mapper : Mapper σ) : Prop where
  references_eq : ∀ page, page < PageStore.pages mapper.store →
    mapper.references? page = some (mapper.tenants regionsPerPage page)
  tenants_le : ∀ page, mapper.tenants regionsPerPage page ≤ regionsPerPage
  backed_iff : ∀ page, backed mapper.store page = true ↔ 0 < mapper.tenants regionsPerPage page
  /-- The calls that the store gets are those of a run in which no backed page is committed and no
  other page is uncommitted. -/
  calls_legal : ∀ call : Call, call.InWords → ∃ answers,
    StoreRun mapper.store answers (call.run mapper).state.store ∧
    Effect.calls (call.run mapper).trace = answers.map (·.call)
  /-- No page loses a reference that it does not have. -/
  counted : ∀ start count stop, (uncommitRegions start count mapper).result = .error stop →
    stop.Counted

theorem tenants_eq_residents (sound : mapper.Sound) (regionsPerPage page : Nat) :
    mapper.tenants regionsPerPage page = mapper.committed.residents regionsPerPage page := by
  unfold tenants Bitmap.residents
  simp only [sound.isCommitted_eq]
  rfl

theorem SharedBooks.referenced {references : GranuleTable}
    (books : SharedBooks regionsPerPage references mapper) : mapper.Referenced regionsPerPage := by
  have sound : mapper.Sound := .small _ _ books
  have spacious : mapper.Spacious := by
    intro pages hlarge
    rw [books.strategy_eq] at hlarge
    cases hlarge
  constructor
  · intro page hpage
    rw [tenants_eq_residents sound, ← books.entry_eq, references?, books.strategy_eq]
    exact if_pos (Nat.lt_of_lt_of_eq hpage books.size_references.symm)
  · intro page
    rw [tenants_eq_residents sound]
    exact Bitmap.residents_le _ books.share_pos page
  · intro page
    rw [tenants_eq_residents sound, books.backed_eq, books.entry_eq, decide_eq_true_eq]
  · intro call inWords
    obtain ⟨answers, orderly⟩ := call_orderly sound spacious call inWords
    exact ⟨answers, orderly.stores, orderly.calls_eq⟩
  · intro start count stop hstop
    obtain ⟨answers, orderly⟩ := uncommit_orderly sound start count
    exact (orderly.of_uncommit start count rfl).2.2 stop hstop

/-- The references are right at all times if the books were in order at first. -/
theorem Reachable.referenced {between : σ → σ → Prop} {settings : Settings} {store : σ}
    {first : Mapper σ} (h : Reachable between first mapper) (harmless : Harmless between)
    (created : Created store settings .small first) (sound : first.Sound) :
    mapper.Referenced (settings.pageSize * settings.commitFactor / settings.regionSize) := by
  have spacious : first.Spacious := by
    obtain ⟨regions, references, hsmall, -⟩ := created.strategy_of
    intro pages hlarge
    rw [hsmall] at hlarge
    cases hlarge
  -- Whatever happened, the strategy still is the one that the mapper was set up with.
  obtain ⟨references, books⟩ := created.sharedBooks (h.continues harmless sound spacious)
  exact books.referenced

/-- The references of shared pages are right at all times: over a page space, pinned or not and
however much of it can be used, and over a scripted store, which may be refused any call. -/
theorem references_right_throughout (settings : Settings)
    (hshare : settings.pageSize * settings.commitFactor / settings.regionSize < entryLimit) :
    (∀ (usedSize : Nat) (memoryKind : MemoryKind) (pinned : Bool) (machine : Machine)
        (first mapper : Mapper PageSpace),
      (reserveWith settings usedSize memoryKind pinned .small machine).result = .ok first →
      Reachable PageSpace.Meanwhile first mapper →
      mapper.Referenced (settings.pageSize * settings.commitFactor / settings.regionSize)) ∧
    (∀ (store : ScriptedStore) (first mapper : Mapper ScriptedStore),
      (∀ page, store.committed.contains page = false) →
      (createWith store settings .small ()).result = .ok first →
      Reachable ScriptedStore.Rescripted first mapper →
      mapper.Referenced (settings.pageSize * settings.commitFactor / settings.regionSize)) := by
  constructor
  · intro usedSize memoryKind pinned machine first mapper hfirst h
    obtain ⟨-, created⟩ := of_reserveWith_ok hfirst
    have live := live_of_reserveWith hfirst hshare
    exact h.referenced PageSpace.harmless_meanwhile created live.sound
  · intro store first mapper hclear hfirst h
    have created := Mapper.created hfirst
    have sound := sound_of_scripted hclear created
    exact h.referenced ScriptedStore.harmless_rescripted created sound

/-- Of four regions on two pages three are committed, or just two where the second page is
refused. -/
theorem references_right_of_four_regions :
    (∃ first, (reserveWith .fourRegions 8192 .heap false .small .willing).result = .ok first ∧
      ((Call.commit 0 3 none).run first).state.references? 1 = some 1 ∧
      ((Call.commit 0 3 none).run first).state.Referenced 2) ∧
    (∃ first, (createWith (⟨8192, 4096, 65536, true, [], [1], [], ∅⟩ : ScriptedStore)
        .fourRegions .small ()).result = .ok first ∧
      ((Call.commit 0 3 none).run first).state.references? 1 = some 0 ∧
      ((Call.commit 0 3 none).run first).state.Referenced 2) := by
  obtain ⟨hspaces, hscripted⟩ := references_right_throughout .fourRegions (by decide)
  constructor
  · refine ⟨_, rfl, by decide +kernel, ?_⟩
    exact hspaces 8192 .heap false .willing _ _ rfl (.single (.call (.commit 0 3 none) (by decide)))
  · refine ⟨_, rfl, by decide +kernel, ?_⟩
    exact hscripted ⟨8192, 4096, 65536, true, [], [1], [], ∅⟩ _ _ (fun _ => rfl) rfl
      (.single (.call (.commit 0 3 none) (by decide)))

end RegionBacking.Mapper
