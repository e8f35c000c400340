import RegionBacking.Proofs.Mapper.Creation
import RegionBacking.Proofs.Mapper.Usage
import RegionBacking.Proofs.PageSpace.Meanwhile

/-!
# Mappers over page spaces

A mapper over a page space of its own is set up in one go, and `InUse` is what holds of it from then
on: its books are in order, its space is legible, and no pass over pages leaves the machine words.
It is `Live` if the regions of a page can be counted as well, which its settings decide. Scripted
stores, which have no memory behind them, take part with their books only.
-/

namespace RegionBacking

/-! ## Page spaces as stores -/

namespace PageSpace

variable {space : PageSpace}

/-- A chunk of pages is a word, and so is its end. -/
theorem chunk_lt_word (sound : space.Sound) (hsize : space.reservation.size < Word.limit)
    {worker : Pretoucher} (hworker : worker.chunkSize < Word.limit) :
    PageStore.pages space + worker.chunkPages (PageStore.pageSize space) < Word.limit := by
  have hpages : 0 + PageStore.pages space ≤ space.committed.size := by
    rw [sound.size_committed, Nat.zero_add]
    refine Nat.div_le_div_right (show space.reservation.size ≤ _ from ?_)
    have hpos := sound.pageSize_pos
    omega
  have hwords := (range_lt_word sound hsize hpages hworker).1
  rwa [Nat.zero_add] at hwords

theorem Fresh.unbacked {reservedSize usedSize pageSize : Nat} {pinned : Bool} {machine : Machine}
    (fresh : space.Fresh reservedSize usedSize pageSize pinned machine) (page : Nat) :
    backed space page = false := by
  show space.isCommitted page = false
  rw [fresh.sound.isCommitted_eq, fresh.clear]

end PageSpace

namespace Mapper

variable {settings : Settings} {usedSize : Nat} {memoryKind : MemoryKind} {pinned : Bool}
  {kind : StrategyKind} {machine : Machine}

/-! ## Setting up -/

/-- A mapper of a kind over a page space of its own, of which so many bytes can be used. -/
def reserveWith (settings : Settings) (usedSize : Nat) (memoryKind : MemoryKind) (pinned : Bool)
    (kind : StrategyKind) : Op Refusal Machine (Mapper PageSpace) := do
  let space ← PageSpace.reserve settings.reservedSize usedSize settings.pageSize memoryKind pinned
  createWith space settings kind

/-- A mapper that is set up by its settings alone is of the kind that they ask for. -/
theorem reserve_eq_reserveWith (h : settings.validate = .ok ()) :
    reserve settings = reserveWith settings settings.usedSize settings.memoryKind
      settings.preCommitted settings.strategyKind := by
  rw [reserve, h]
  rfl

theorem of_reserveWith_ok {first : Mapper PageSpace}
    (h : (reserveWith settings usedSize memoryKind pinned kind machine).result = .ok first) :
    first.store.Fresh settings.reservedSize usedSize settings.pageSize pinned machine ∧
      Created first.store settings kind first := by
  unfold reserveWith at h
  obtain ⟨space, _, _, hspace, hcreate⟩ := Op.of_bind_ok h
  have created := Mapper.created hcreate
  rw [created.store_eq]
  exact ⟨PageSpace.fresh (congrArg Run.result hspace), created⟩

/-! ## Pages that can be committed -/

/-- All pages of the used part fit where the addresses of the reservation are words. -/
theorem fits_usable {space : PageSpace} {size pageSize : Nat}
    (fresh : space.Fresh size usedSize pageSize pinned machine) (hpage : pageSize ∣ size)
    (hlimit : space.base + size < Word.limit) : space.Fits (Word.divCeil usedSize pageSize) := by
  have hpageSize : space.pageSize = pageSize := fresh.handedOut.pageSize_eq
  have hpos : 0 < pageSize := hpageSize ▸ fresh.sound.pageSize_pos
  have hused : usedSize ≤ size :=
    fresh.handedOut.size_eq ▸ fresh.usedSize_eq ▸ fresh.sound.usedSize_le
  constructor
  · rw [PageSpace.committablePages, fresh.usedSize_eq, hpageSize]
  · rw [PageSpace.firstAddress, hpageSize]
    calc space.base + Word.divCeil usedSize pageSize * pageSize
        ≤ space.base + Word.divCeil size pageSize * pageSize :=
          Nat.add_le_add_left (Nat.mul_le_mul_right _ (Nat.div_le_div_right (by omega))) _
      _ = space.base + size := by rw [Word.divCeil_of_dvd hpos hpage, Nat.div_mul_cancel hpage]
      _ < Word.limit := hlimit

/-- The addresses of a reservation are words, if it starts where a machine hands out addresses. -/
theorem limit_lt_of_fresh {space : PageSpace} {size pageSize : Nat}
    (fresh : space.Fresh size usedSize pageSize pinned machine)
    (hplace : ∀ total, machine.place total < Word.addressLimit) :
    space.base + size < Word.limit := by
  have hpageSize : space.pageSize = pageSize := fresh.handedOut.pageSize_eq
  -- The base lies less than a page behind the place of the machine, and all three of place, page
  -- and size stay far below the end of the words.
  obtain ⟨total, hle, hmax, htotal, hbase⟩ := fresh.handedOut.base_lt
  have hplace := hplace total
  have haddress : Word.addressLimit = 140737488355328 := rfl
  have hlimit : Word.limit = 18446744073709551616 := rfl
  have hos : Word.osPage = 4096 := rfl
  rw [PageSpace.base]
  omega

/-- The references are a table for the addresses of the reservation, so these are words. -/
theorem Created.limit_lt {space : PageSpace} {first : Mapper PageSpace}
    (created : Created space settings .small first) :
    space.base + settings.reservedSize < Word.limit := by
  obtain ⟨_, references, _, _, hreferences⟩ := created.strategy_of
  obtain ⟨_, _, base, hbase, hlimit⟩ :=
    Strategy.noReferences_eq_ok hreferences created.page_dvd
  obtain ⟨offset, hoffset, hbase⟩ := Except.of_bind_ok hbase
  obtain ⟨-, rfl⟩ := Word.mul_eq_ok_iff.mp hoffset
  obtain ⟨-, rfl⟩ := Word.add_eq_ok_iff.mp hbase
  rwa [created.reservedSize_eq, Nat.zero_mul, Nat.add_zero] at hlimit

/-! ## The strategy of the settings -/

section lawful

variable {σ : Type} [PageStore σ] [LawfulStore σ] {store : σ} {first mapper : Mapper σ}

/-- Whatever comes after a mapper whose regions share pages keeps the books of as many regions on a
page as its settings put there. -/
theorem Created.sharedBooks (created : Created store settings .small first)
    (continues : Continues first mapper) :
    ∃ references, SharedBooks
      (settings.pageSize * settings.commitFactor / settings.regionSize) references mapper := by
  obtain ⟨regions, references, hsmall, hregions, -⟩ := created.strategy_of
  obtain ⟨-, -, -, rfl⟩ := Strategy.regionsPerPage?_eq_ok hregions
  exact continues.sound.sharedBooks
    (continues.shape_eq.trans (congrArg Strategy.shape hsmall))

/-- Whatever comes after a mapper whose regions have pages of their own keeps the books of as many
pages for a region as its settings give it. -/
theorem Created.wholeBooks (created : Created store settings .large first)
    (continues : Continues first mapper) :
    WholeBooks (settings.regionSize / (settings.pageSize * settings.commitFactor)) mapper := by
  obtain ⟨pages, hlarge, hpages⟩ := created.strategy_of
  obtain ⟨hgranule, -, hmul⟩ := Strategy.pagesPerRegion?_eq_ok hpages
  rw [← Nat.eq_div_of_mul_eq_left (Nat.ne_of_gt hgranule) hmul]
  exact continues.sound.wholeBooks
    (continues.shape_eq.trans (congrArg Strategy.shape hlarge))

end lawful

/-! ## Mappers in use -/

/-- What holds of a mapper over a page space at all times. -/
structure InUse (mapper : Mapper PageSpace) : Prop where
  sound : mapper.Sound
  size_lt : mapper.store.reservation.size < Word.limit
  legible : mapper.store.Legible

theorem inUse_of_reserveWith {first : Mapper PageSpace}
    (h : (reserveWith settings usedSize memoryKind pinned kind machine).result = .ok first) :
    first.InUse := by
  obtain ⟨fresh, created⟩ := of_reserveWith_ok h
  have hsize : first.store.reservation.size < Word.limit := by
    rw [fresh.handedOut.size_eq]
    exact Nat.lt_of_le_of_lt (Nat.le_add_right _ _) fresh.handedOut.size_lt
  refine ⟨?_, hsize, fresh.legible⟩
  cases kind with
  | large =>
    refine created.sound_large ?_ fresh.sound fresh.unbacked
    exact Nat.lt_of_le_of_lt (Nat.div_le_self _ _) hsize
  | small => exact created.sound_small fresh.sound fresh.unbacked

namespace InUse

variable {mapper after : Mapper PageSpace}

/-- No pass over the pages of a space leaves the machine words. -/
theorem chunked (inUse : mapper.InUse) {call : Call} (inWords : call.InWords) :
    mapper.Chunked call.pretoucher := fun worker hworker =>
  PageSpace.chunk_lt_word inUse.sound.store_sound inUse.size_lt (inWords worker hworker)

theorem spacious (inUse : mapper.InUse) : mapper.Spacious := fun _ _ _ hworker =>
  PageSpace.chunk_lt_word inUse.sound.store_sound inUse.size_lt hworker

theorem follows (inUse : mapper.InUse) (h : Follows PageSpace.Meanwhile mapper after) :
    after.InUse := by
  have continues := h.continues PageSpace.harmless_meanwhile inUse.sound inUse.spacious
  have hsize : after.store.reservation.size = mapper.store.reservation.size :=
    continues.succeeds.geometry.reservedSize_eq
  refine ⟨continues.sound, hsize ▸ inUse.size_lt, ?_⟩
  cases h with
  | call call inWords =>
    obtain ⟨answers, orderly⟩ := call_orderly inUse.sound inUse.spacious call inWords
    exact (orderly.stores.legible inUse.sound.store_sound inUse.legible).1
  | listener listener => exact inUse.legible
  | nodes nodes => exact inUse.legible
  | store store meanwhile => exact meanwhile.legible inUse.sound.store_sound inUse.legible

theorem reachable (inUse : mapper.InUse) (h : Reachable PageSpace.Meanwhile mapper after) :
    after.InUse := by
  induction h with
  | refl => exact inUse
  | tail _ follows ih => exact ih.follows follows

end InUse

/-! ## Mappers that are live -/

/-- A mapper in use that can count the regions of every page. -/
structure Live (mapper : Mapper PageSpace) : Prop extends InUse mapper where
  countable : mapper.Countable

theorem live_of_reserveWith {first : Mapper PageSpace}
    (h : (reserveWith settings usedSize memoryKind pinned kind machine).result = .ok first)
    (hshare : settings.pageSize * settings.commitFactor / settings.regionSize < entryLimit) :
    first.Live := by
  refine ⟨inUse_of_reserveWith h, ?_⟩
  obtain ⟨-, created⟩ := of_reserveWith_ok h
  have hstrategy := created.strategy_of
  intro regions references hsmall
  cases kind with
  | large =>
    obtain ⟨pages, hlarge, -⟩ := hstrategy
    rw [hlarge] at hsmall
    cases hsmall
  | small =>
    obtain ⟨regions', references', hsmall', hregions, -⟩ := hstrategy
    obtain ⟨-, -, -, rfl⟩ := Strategy.regionsPerPage?_eq_ok hregions
    rw [hsmall'] at hsmall
    cases hsmall
    exact hshare

namespace Live

variable {mapper after : Mapper PageSpace}

theorem spacious (live : mapper.Live) : mapper.Spacious := live.toInUse.spacious

theorem follows (live : mapper.Live) (h : Follows PageSpace.Meanwhile mapper after) :
    after.Live := by
  have continues := h.continues PageSpace.harmless_meanwhile live.sound live.spacious
  exact ⟨live.toInUse.follows h, live.countable.of_shape_eq continues.shape_eq⟩

theorem reachable (live : mapper.Live) (h : Reachable PageSpace.Meanwhile mapper after) :
    after.Live := by
  induction h with
  | refl => exact live
  | tail _ follows ih => exact ih.follows follows

end Live

/-! ## Mappers over scripted stores -/

/-- The books of a mapper that was just set up over an empty scripted store are in order. -/
theorem sound_of_scripted {store : ScriptedStore} {first : Mapper ScriptedStore}
    (hclear : ∀ page, store.committed.contains page = false)
    (created : Created store settings .small first) : first.Sound := by
  -- The table was made for addresses that are words, so those of the pages are.
  obtain ⟨_, references, _, _, hreferences⟩ := created.strategy_of
  obtain ⟨_, _, base, hbase, hlimit⟩ :=
    Strategy.noReferences_eq_ok hreferences created.page_dvd
  refine created.sound_small ⟨?_, ?_⟩ hclear
  · exact Nat.lt_of_le_of_lt (Nat.le_add_left _ _) hlimit
  · intro page hpage
    obtain ⟨offset, hoffset, hbase⟩ := Except.of_bind_ok hbase
    obtain ⟨-, rfl⟩ := Word.mul_eq_ok_iff.mp hoffset
    obtain ⟨-, rfl⟩ := Word.add_eq_ok_iff.mp hbase
    have hbytes : page * store.pageSize ≤ store.reservedSize :=
      Nat.le_trans (Nat.mul_le_mul_right _ (Nat.le_of_lt hpage)) (Nat.div_mul_le_self _ _)
    have hlimit : store.base + 0 * store.pageSize + store.reservedSize < Word.limit := hlimit
    omega

end Mapper

/-! ## A small machine -/

/-- Two pages of a reservation, each of which backs two of four regions. -/
def Settings.fourRegions : Settings where
  reservedSize := 8192
  usedSize := 8192
  pageSize := 4096
  regionSize := 2048
  commitFactor := 1
  memoryKind := .heap
  alwaysPretouch := true
  pretouchThreads := some 2
  pretouchChunkSize := 4096
  nodeAware := false
  preCommitted := false

end RegionBacking
