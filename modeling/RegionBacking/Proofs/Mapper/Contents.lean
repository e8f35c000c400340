import RegionBacking.Proofs.Mapper.Spaces

/-!
# What is in the regions of a mapper

Two things are sure of the bytes behind regions, at all times and whatever a call does. A region
that is committed before and after a call keeps its bytes, although it may share its page with
regions that the call commits or uncommits. And where the listener hears that regions are committed
with zeroes, they read as zero at that moment.
-/

namespace RegionBacking

open PageSpace (UsedByte)

theorem Effect.not_mem_of_notifications_eq {trace : List Effect}
    (h : Effect.notifications trace = []) (notification : Notification) :
    Effect.notification notification ∉ trace := by
  intro hmem
  have hmem : notification ∈ Effect.notifications trace := List.mem_filterMap.mpr ⟨_, hmem, rfl⟩
  rw [h] at hmem
  cases hmem

namespace Mapper

variable {settings : Settings} {usedSize : Nat} {memoryKind : MemoryKind} {pinned : Bool}
  {kind : StrategyKind} {machine : Machine} {first mapper after : Mapper PageSpace}
  {page region : Nat}

/-! ## Regions that stay committed -/

/-- The pages of a committed region are committed. -/
theorem bit_of_hosts (sound : mapper.Sound) (hcommitted : mapper.isCommitted region = true)
    (hhosts : mapper.strategy.Hosts page region) : mapper.store.committed.bit page = true := by
  have hbacked := (sound.backed_iff page).mpr ⟨region, hcommitted, hhosts⟩
  rw [← sound.store_sound.isCommitted_eq]
  exact hbacked

/-- A call keeps the bytes of the regions that are committed before and after it. -/
theorem Orderly.read_eq {call : Call} {answers : List Answer}
    (orderly : mapper.Orderly call answers) (sound : mapper.Sound)
    (hbefore : mapper.isCommitted region = true)
    (hafter : (call.run mapper).state.isCommitted region = true)
    (hhosts : mapper.strategy.Hosts page region) {address : Nat}
    (used : mapper.store.UsedByte page address) :
    (call.run mapper).state.store.read address = mapper.store.read address := by
  cases call with
  | commit start count pretoucher =>
    -- A commit uncommits no page: the page was committed before, so it keeps its bytes.
    have without := orderly.of_commit start count pretoucher rfl
    have hpage := bit_of_hosts sound hbefore hhosts
    exact (orderly.stores.keeps_committed sound.store_sound without hpage).2 address used
  | uncommit start count =>
    -- An uncommit commits no page, and the page still is committed at its end.
    have without := (orderly.of_uncommit start count rfl).1
    have hhosts' : (Call.run (.uncommit start count) mapper).state.strategy.Hosts page region := by
      rw [Strategy.hosts_of_shape_eq orderly.continues.shape_eq]
      exact hhosts
    have hpage := bit_of_hosts orderly.continues.sound hafter hhosts'
    exact (orderly.stores.keeps_remaining sound.store_sound without hpage).2 address used

/-- No call damages live data: the used bytes behind a region that is committed before and after it
are accessible both times and have the same value, whether the call comes to its end, is refused or
is at fault. -/
theorem live_bytes_kept
    (hfirst : (reserveWith settings usedSize memoryKind pinned kind machine).result = .ok first)
    (hshare : settings.pageSize * settings.commitFactor / settings.regionSize < entryLimit)
    (h : Reachable PageSpace.Meanwhile first mapper) (call : Call) (inWords : call.InWords)
    (hbefore : mapper.isCommitted region = true)
    (hafter : (call.run mapper).state.isCommitted region = true)
    (hhosts : mapper.strategy.Hosts page region) {address : Nat}
    (used : mapper.store.UsedByte page address) :
    ∃ byte, mapper.store.read address = some byte ∧
      (call.run mapper).state.store.read address = some byte := by
  have live := (live_of_reserveWith hfirst hshare).reachable h
  obtain ⟨answers, orderly⟩ := call_orderly live.sound live.spacious call inWords
  have hpage := bit_of_hosts live.sound hbefore hhosts
  obtain ⟨byte, hbyte⟩ := live.legible.accessible page address used (.inr hpage)
  exact ⟨byte, hbyte, (orderly.read_eq live.sound hbefore hafter hhosts used).trans hbyte⟩

/-- The mapper with another byte at an address, if that is accessible. -/
def poke (mapper : Mapper PageSpace) (address : Nat) (value : UInt8) : Mapper PageSpace :=
  { mapper with store := (mapper.store.write? address value).getD mapper.store }

theorem follows_poke {address : Nat} (value : UInt8)
    (hpage : mapper.store.isCommitted page = true)
    (hfirst : mapper.store.firstAddress page ≤ address)
    (hlast : address < mapper.store.firstAddress (page + 1))
    (haccessible : (mapper.store.write? address value).isSome = true) :
    Follows PageSpace.Meanwhile mapper (mapper.poke address value) := by
  obtain ⟨store, hstore⟩ := Option.isSome_iff_exists.mp haccessible
  have hpoke : mapper.poke address value = { mapper with store } := by rw [poke, hstore]; rfl
  rw [hpoke]
  exact .store store (.write page address value store hpage hfirst hlast hstore)

/-- Two regions share a page: a byte of the first one outlasts the commit of the second one. -/
theorem live_bytes_kept_of_four_regions :
    ∃ first, (reserveWith .fourRegions 8192 .heap false .small .willing).result = .ok first ∧
      ∃ byte, (((Call.commit 0 1 none).run first).state.poke 65541 7).store.read 65541 = some byte ∧
        ((Call.commit 1 2 none).run
          (((Call.commit 0 1 none).run first).state.poke 65541 7)).state.store.read 65541 =
            some byte := by
  refine ⟨_, rfl, ?_⟩
  refine @live_bytes_kept .fourRegions 8192 .heap false .small .willing _ _ 0 0 rfl (by decide)
    (.tail (.single (.call (.commit 0 1 none) (by decide))) (@follows_poke _ 0 _ 7 ?_ ?_ ?_ ?_))
    (.commit 1 2 none) (by decide) ?_ ?_ ?_ _ ⟨?_, ?_, ?_⟩
  all_goals decide +kernel

/-! ## Regions that are committed with zeroes -/

theorem mem_told {mapper : Mapper PageSpace} {start count : Nat} {zeroFilled : Bool}
    {notification : Notification}
    (h : Effect.notification notification ∈ mapper.told start count zeroFilled) :
    notification = ⟨start, count, zeroFilled⟩ ∧
      mapper.told start count zeroFilled = [.notification notification] := by
  unfold told at h ⊢
  split at h
  · next hlive =>
    cases List.mem_singleton.mp h
    exact ⟨rfl, if_pos hlive⟩
  · cases h

/-- The listener hears of a commit that came to its end, and of nothing else; this is the last that
the call does. -/
theorem of_notification (live : mapper.Live) {call : Call} (inWords : call.InWords)
    {notification : Notification}
    (h : Effect.notification notification ∈ (call.run mapper).trace) :
    ∃ start count pretoucher zeroFilled after earlier answers,
      call = .commit start count pretoucher ∧ notification = ⟨start, count, zeroFilled⟩ ∧
      call.run mapper = ⟨.ok (), after, earlier ++ [.notification notification]⟩ ∧
      BroughtTo true start (start + count) mapper after answers earlier ∧
      (zeroFilled = true → ∀ region, start ≤ region → region < start + count →
        ∀ page, mapper.strategy.Hosts page region → ∃ answer ∈ answers, answer.Zeroes page) := by
  cases call with
  | commit start count pretoucher =>
    by_cases ready : mapper.Ready false start count
    · rcases commitRegions_run live.sound ready pretoucher fun pages hlarge worker hworker =>
          live.spacious pages hlarge worker (inWords worker hworker) with
        ⟨zeroFilled, after, trace, answers, hrun, hdone, hzeroes⟩ |
        ⟨stop, after, trace, answers, region, hrun, hdone, -⟩
      · have hcall : (Call.commit start count pretoucher).run mapper = _ := hrun
        rw [hcall] at h
        have hsilent := Effect.not_mem_of_notifications_eq hdone.reaches.notifications_eq
        -- Nothing before the end of the call notifies the listener.
        have htold := (List.mem_append.mp h).resolve_left (hsilent notification)
        obtain ⟨hnotification, htold⟩ := mem_told htold
        refine ⟨start, count, pretoucher, zeroFilled, after, trace, answers, rfl, hnotification, ?_,
          hdone, hzeroes⟩
        rw [hcall, htold]
      · have hcall : (Call.commit start count pretoucher).run mapper = _ := hrun
        rw [hcall] at h
        exact absurd h (Effect.not_mem_of_notifications_eq hdone.reaches.notifications_eq _)
    · obtain ⟨fault, -, hrun⟩ := commitRegions_fault ready pretoucher
      have hcall : (Call.commit start count pretoucher).run mapper = _ := hrun
      rw [hcall] at h
      cases h
  | uncommit start count =>
    obtain ⟨answers, orderly⟩ := uncommit_orderly live.sound start count
    have hsilent := (orderly.of_uncommit start count rfl).2.1
    exact absurd h (Effect.not_mem_of_notifications_eq hsilent _)

/-- What the listener hears is true: at the moment at which it hears that regions are committed with
zeroes, every used byte behind them reads as zero. -/
theorem zeroes_when_told {call : Call} {start count : Nat}
    (hfirst : (reserveWith settings usedSize memoryKind pinned kind machine).result = .ok first)
    (hshare : settings.pageSize * settings.commitFactor / settings.regionSize < entryLimit)
    (h : Reachable PageSpace.Meanwhile first mapper) (inWords : call.InWords)
    (hnotified : Effect.notification ⟨start, count, true⟩ ∈ (call.run mapper).trace) :
    (∃ pretoucher, call = .commit start count pretoucher) ∧
    (∃ earlier, (call.run mapper).trace = earlier ++ [.notification ⟨start, count, true⟩] ∧
      Effect.notifications earlier = []) ∧
    ∀ region, start ≤ region → region < start + count →
      ∀ page, (call.run mapper).state.strategy.Hosts page region →
        ∀ address, (call.run mapper).state.store.UsedByte page address →
          (call.run mapper).state.store.read address = some 0 := by
  have live := (live_of_reserveWith hfirst hshare).reachable h
  obtain ⟨start, count, pretoucher, zeroFilled, after, earlier, answers, rfl, hnotification, hrun,
    hdone, hzeroes⟩ := of_notification live inWords hnotified
  cases hnotification
  refine ⟨⟨pretoucher, rfl⟩, ⟨earlier, by rw [hrun], hdone.reaches.notifications_eq⟩, ?_⟩
  rw [hrun]
  intro region hstart hstop page hhosts address used
  have hhosts : mapper.strategy.Hosts page region := by
    rw [← Strategy.hosts_of_shape_eq hdone.reaches.shape_eq]
    exact hhosts
  have hstores := hdone.reaches.run
  have hlayout := (hstores.legible live.sound.store_sound live.legible).2
  -- Each page of the range was assured to read as zero, by an answer that no uncommit followed.
  exact hstores.zeroes live.sound.store_sound live.legible hdone.without
    (hzeroes rfl region hstart hstop page hhosts) address
    ((hlayout.usedByte_iff page address).mp used)

/-- Three regions are committed and pretouched; the listener hears of zeroes and is right. -/
theorem zeroes_when_told_of_four_regions :
    ∃ first, (reserveWith .fourRegions 8192 .heap false .small .willing).result = .ok first ∧
      .notification ⟨0, 3, true⟩ ∈
        ((Call.commit 0 3 (some ⟨2, 4096⟩)).run { first with listener := .live }).trace ∧
      ((Call.commit 0 3 (some ⟨2, 4096⟩)).run
        { first with listener := .live }).state.store.read 69632 = some 0 := by
  refine ⟨_, rfl, by decide +kernel, ?_⟩
  have htold := @zeroes_when_told .fourRegions 8192 .heap false .small .willing _ _
    (.commit 0 3 (some ⟨2, 4096⟩)) 0 3 rfl (by decide) (.single (.listener .live)) (by decide)
    (by decide +kernel)
  refine htold.2.2 2 (by decide) (by decide) 1 ?_ 69632 ⟨?_, ?_, ?_⟩
  all_goals decide +kernel

end Mapper

end RegionBacking
