import RegionBacking.Proofs.Mapper.Spaces

/-!
# Calls at fault

A call is at fault where it is out of order, and where a page that it needs is none that its store
can commit or count any further; no call is at fault because of the pages that are committed.
`FaultCase` says what a call has done by then. Nothing, where regions have pages of their own; where
they share pages, what is in front of the region at which the call stops. So a call at fault leaves
no trace just if nothing can begin (`untouched_of_fault_iff`).
-/

namespace RegionBacking.Mapper

section lawful

variable {σ : Type} [PageStore σ] [LawfulStore σ] {mapper after : Mapper σ} {call : Call}
  {fault : Fault} {trace : List Effect} {start count : Nat}

/-! ## What a call has done when it stops -/

/-- How a commit in order stops where it backs its regions, and what it has done by then. -/
inductive Halts (mapper after : Mapper σ) (start count : Nat) (trace : List Effect)
    (stop : Stop Refusal) : Prop where
  /-- The store stopped at the pages of all regions. -/
  | whole (pagesPerRegion : Nat) (books : WholeBooks pagesPerRegion mapper)
    (rejects : stop.Rejects
      (StoreView.Fits mapper.store (start * pagesPerRegion + count * pagesPerRegion))
      (StoreView.Willing mapper.store))
    (unchanged : after = mapper) (calls : CallsOnly trace)
    (stopped : (PageStore.commit (start * pagesPerRegion) (count * pagesPerRegion)
      mapper.store).result = .error stop) : Halts mapper after start count trace stop
  /-- One of the regions stalled, with those in front of it committed. -/
  | shared (regionsPerPage : Nat) (references : GranuleTable)
    (books : SharedBooks regionsPerPage references mapper) (answers : List Answer) (region : Nat)
    (start_le : start ≤ region) (lt_stop : region < start + count)
    (brought : BroughtTo true start region mapper after answers trace)
    (stalls : after.Stalls regionsPerPage region stop)
    (of_first : region = start → after = mapper ∧ CallsOnly trace) :
    Halts mapper after start count trace stop

theorem halts_of_backRegions {pretoucher : Option Pretoucher} {stop : Stop Refusal}
    (sound : mapper.Sound) (ready : mapper.Ready false start count)
    (chunked : mapper.Chunked pretoucher)
    (h : backRegions start count pretoucher mapper = ⟨.error stop, after, trace⟩) :
    Halts mapper after start count trace stop := by
  cases sound with
  | small regionsPerPage references books =>
    rw [backRegions_small books.strategy_eq] at h
    rcases commitShared_run books ready.le_size ready.bit_eq pretoucher with
      ⟨backing, after', trace', answers, hrun, -⟩ |
      ⟨stop', after', trace', answers, region, hrun, hbrought, hfirst, -, hstopped⟩
    all_goals
      rw [hrun] at h
      cases h
    obtain ⟨hlast, hstalls, hstart⟩ := hstopped chunked
    exact .shared regionsPerPage references books answers region hfirst hlast hbrought hstalls
      hstart
  | large pagesPerRegion books =>
    rw [backRegions_large books.strategy_eq] at h
    rcases commitWhole_run books ready.le_size ready.bit_eq chunked with
      ⟨backing, after', trace', answers, hrun, -⟩ |
      ⟨stop', trace', answers, hrun, -, hcalls, hrejects, hstopped⟩
    all_goals
      rw [hrun] at h
      cases h
    exact .whole pagesPerRegion books hrejects rfl hcalls hstopped

/-- Where the pages of all its regions fit and can count them, a commit halts only because the store
refuses. -/
theorem Halts.exists_refusal {stop : Stop Refusal}
    (halts : Halts mapper after start count trace stop) (ready : mapper.Ready false start count)
    (hcount : 0 < count) (countable : mapper.Countable)
    (fits : ∀ region, start ≤ region → region < start + count → ∀ page,
      mapper.strategy.Hosts page region → StoreView.Fits mapper.store (page + 1)) :
    ∃ refusal, stop = .error refusal := by
  cases halts with
  | whole pagesPerRegion books rejects =>
    -- The last page of all is one of the last region.
    have hlast : 0 < (start + count) * pagesPerRegion :=
      Nat.mul_pos (by omega) books.share_pos
    have hhosts : mapper.strategy.Hosts ((start + count) * pagesPerRegion - 1)
        (start + count - 1) := by
      rw [books.strategy_eq]
      show ((start + count) * pagesPerRegion - 1) / pagesPerRegion = start + count - 1
      have hsplit : (start + count) * pagesPerRegion =
          (start + count - 1) * pagesPerRegion + pagesPerRegion := by
        rw [← Nat.succ_mul, Nat.succ_eq_add_one, Nat.sub_add_cancel (by omega)]
      have hpos := books.share_pos
      apply Nat.div_eq_of_lt_le <;> rw [hsplit]
      · omega
      · rw [Nat.succ_mul]
        omega
    have hfits := fits (start + count - 1) (by omega) (by omega) _ hhosts
    rw [Nat.sub_add_cancel hlast, Nat.add_mul] at hfits
    exact rejects.exists_refusal hfits
  | shared regionsPerPage references books answers region start_le lt_stop brought stalls =>
    have hregion : region < mapper.committed.size := Nat.lt_of_lt_of_le lt_stop ready.le_size
    have hhosts : mapper.strategy.Hosts (region / regionsPerPage) region := by
      rw [books.strategy_eq]
      rfl
    have hfits := fits region start_le lt_stop _ hhosts
    refine stalls.exists_refusal ((brought.reaches.succeeds.fits_iff _).mpr hfits) ?_
    exact books.room_of_next (countable _ _ books.strategy_eq) brought hregion
      (ready.bit_eq region start_le lt_stop)

/-- The regions of a call are there, and in the state that it needs. -/
def Call.ReadyOn (mapper : Mapper σ) : Call → Prop
  | commit start count _ => mapper.Ready false start count
  | uncommit start count => mapper.Ready true start count

omit [LawfulStore σ] in
/-- A call that is not at fault was in order. -/
theorem Call.readyOn_of_result
    (h : ∀ fault, (call.run mapper).result ≠ .error (.fault fault)) : call.ReadyOn mapper := by
  by_contra unready
  cases call with
  | commit start count pretoucher =>
    obtain ⟨fault, -, hrun⟩ := commitRegions_fault unready pretoucher
    exact h fault (congrArg Run.result hrun)
  | uncommit start count =>
    obtain ⟨fault, -, hrun⟩ := uncommitRegions_fault unready
    exact h fault (congrArg Run.result hrun)

omit [LawfulStore σ] in
theorem Call.readyOn_of_ok (h : (call.run mapper).result = .ok ()) : call.ReadyOn mapper := by
  refine Call.readyOn_of_result fun fault hfault => ?_
  rw [h] at hfault
  cases hfault

/-- How a call comes to be at fault: it is out of order, or it is a commit in order that halts. -/
inductive FaultCase (mapper after : Mapper σ) (trace : List Effect) (fault : Fault) :
    Call → Prop where
  | outOfOrder {call : Call} (unready : ¬ call.ReadyOn mapper) (hkind : fault.isOfRegions = true)
    (unchanged : after = mapper) (silent : trace = []) : FaultCase mapper after trace fault call
  | halted {start count : Nat} {pretoucher : Option Pretoucher}
    (ready : mapper.Ready false start count)
    (halts : Halts mapper after start count trace (.fault fault)) :
    FaultCase mapper after trace fault (.commit start count pretoucher)

theorem faultCase_of_run (sound : mapper.Sound) (chunked : mapper.Chunked call.pretoucher)
    (h : call.run mapper = ⟨.error (.fault fault), after, trace⟩) :
    FaultCase mapper after trace fault call := by
  cases call with
  | commit start count pretoucher =>
    by_cases ready : mapper.Ready false start count
    · obtain ⟨-, mid, earlier, hback, -, hlast⟩ := ready.of_commitRegions_error h
      obtain ⟨rfl, rfl⟩ := hlast fault rfl
      exact .halted ready (halts_of_backRegions sound ready chunked hback)
    · obtain ⟨fault', hkind, hrun⟩ := commitRegions_fault ready pretoucher
      cases hrun.symm.trans h
      exact .outOfOrder ready hkind rfl rfl
  | uncommit start count =>
    by_cases ready : mapper.Ready true start count
    -- An uncommit in order stops only where the store refuses.
    · rcases uncommitRegions_run sound ready with
        ⟨after', trace', answers, hrun, -⟩ |
        ⟨stop, after', trace', answers, region, hrun, -, -, -, -, hrejects⟩
      · cases hrun.symm.trans h
      · obtain ⟨refusal, rfl⟩ := hrejects.exists_refusal trivial
        cases hrun.symm.trans h
    · obtain ⟨fault', hkind, hrun⟩ := uncommitRegions_fault ready
      cases hrun.symm.trans h
      exact .outOfOrder ready hkind rfl rfl

/-- Every fault of a call is one of the cases. -/
theorem faultCase (sound : mapper.Sound) (chunked : mapper.Chunked call.pretoucher)
    (h : (call.run mapper).result = .error (.fault fault)) :
    FaultCase mapper (call.run mapper).state (call.run mapper).trace fault call := by
  apply faultCase_of_run sound chunked
  rw [← h]

/-- A call left everything as it was: all that the mapper keeps, its store and the machine behind
that included, and nothing was placed, reported or told. -/
structure Untouched (call : Call) (mapper : Mapper σ) : Prop where
  state_eq : (call.run mapper).state = mapper
  placements_eq : Effect.placements (call.run mapper).trace = []
  events_eq : Effect.events (call.run mapper).trace = []
  notifications_eq : Effect.notifications (call.run mapper).trace = []

omit [LawfulStore σ] in
/-- A call that at most called the store leaves no trace. -/
theorem untouched_of_callsOnly (hstate : (call.run mapper).state = mapper)
    (calls : CallsOnly (call.run mapper).trace) : mapper.Untouched call where
  state_eq := hstate
  placements_eq := calls.filterMap_eq_nil (fun _ => rfl) fun effect h => by
    cases effect <;> first | rfl | cases h
  events_eq := calls.filterMap_eq_nil (fun _ => rfl) fun effect h => by
    cases effect <;> first | rfl | cases h
  notifications_eq := calls.filterMap_eq_nil (fun _ => rfl) fun effect h => by
    cases effect <;> first | rfl | cases h

/-- A commit in order of regions that share pages can begin: the page of its first region can be
committed, and can count one more. -/
inductive Begins (mapper : Mapper σ) : Call → Prop where
  | commit {regionsPerPage : Nat} {references : GranuleTable} {pretoucher : Option Pretoucher}
    (start count : Nat) (strategy_eq : mapper.strategy = .small regionsPerPage references)
    (ready : mapper.Ready false start count) (count_pos : 0 < count)
    (fits : StoreView.Fits mapper.store (start / regionsPerPage + 1))
    (room : references.entry (start / regionsPerPage) + 1 < entryLimit) :
    Begins mapper (.commit start count pretoucher)

/-- The regions that a batch has committed are among the residents of their pages. -/
theorem BroughtTo.residents_eq {answers : List Answer} {stop : Nat}
    (brought : BroughtTo true start stop mapper after answers trace)
    (ready : mapper.Ready false start count) (hstop : stop ≤ start + count) (share page : Nat) :
    after.committed.residents share page =
      mapper.committed.residents share page + Bitmap.newcomers share page start stop := by
  refine Bitmap.residents_of_joined brought.reaches.size_eq (Nat.le_trans hstop ready.le_size) ?_
    brought.bit_eq share page
  intro region hfirst hlast
  exact ready.bit_eq region hfirst (Nat.lt_of_lt_of_le hlast hstop)

/-- A commit that came past its first region had begun. -/
theorem SharedBooks.begins {regionsPerPage region : Nat} {references : GranuleTable}
    {answers : List Answer} {pretoucher : Option Pretoucher}
    (books : SharedBooks regionsPerPage references mapper) (ready : mapper.Ready false start count)
    (brought : BroughtTo true start region mapper after answers trace) (hfirst : start < region)
    (hlast : region ≤ start + count) : mapper.Begins (.commit start count pretoucher) := by
  obtain ⟨references', books'⟩ := brought.sharedBooks books
  have hcommitted : after.committed.bit start = true := by
    rw [brought.bit_eq, if_pos ⟨Nat.le_refl start, hfirst⟩]
  refine .commit start count books.strategy_eq ready (by omega) ?_ ?_
  -- The page of the first region is backed by now, so it fits.
  · apply (brought.reaches.succeeds.fits_iff _).mp
    apply LawfulStore.fits_of_backed _ _ books'.store_sound
    rw [books'.backed_eq, decide_eq_true (books'.table.entry_pos hcommitted)]
  -- And the entry that counts it, which still is one of the table, has grown.
  · have hgrown := brought.residents_eq ready hlast regionsPerPage (start / regionsPerPage)
    have hnew := Bitmap.newcomers_lt (Nat.le_refl start) hfirst regionsPerPage
    have hlimit := books'.entry_lt_limit (start / regionsPerPage)
    rw [books'.entry_eq] at hlimit
    rw [books.entry_eq]
    omega

/-- A region that stalls at once keeps a commit from beginning. -/
theorem Stalls.not_begins {regionsPerPage : Nat} {references : GranuleTable}
    {pretoucher : Option Pretoucher} (stalls : mapper.Stalls regionsPerPage start (.fault fault))
    (books : SharedBooks regionsPerPage references mapper) :
    ¬ mapper.Begins (.commit start count pretoucher) := by
  intro begins
  cases begins with
  | commit _ _ hstrategy _ _ fits room =>
    rw [books.strategy_eq] at hstrategy
    cases hstrategy
    rw [books.entry_eq] at room
    obtain ⟨refusal, hrefusal⟩ := stalls.exists_refusal fits room
    cases hrefusal

/-- A halt leaves no trace just if the commit cannot begin. -/
theorem Halts.untouched_iff {pretoucher : Option Pretoucher}
    (ready : mapper.Ready false start count)
    (halts : Halts mapper ((Call.commit start count pretoucher).run mapper).state start count
      ((Call.commit start count pretoucher).run mapper).trace (.fault fault)) :
    mapper.Untouched (.commit start count pretoucher) ↔
      ¬ mapper.Begins (.commit start count pretoucher) := by
  cases halts with
  | whole pagesPerRegion books _ unchanged calls =>
    refine iff_of_true (untouched_of_callsOnly unchanged calls) ?_
    rintro ⟨_, _, hstrategy⟩
    rw [books.strategy_eq] at hstrategy
    cases hstrategy
  | shared regionsPerPage references books answers region start_le lt_stop brought stalls
      of_first =>
    rcases Nat.eq_or_lt_of_le start_le with hsame | hlt
    · subst hsame
      obtain ⟨unchanged, calls⟩ := of_first rfl
      rw [unchanged] at stalls
      exact iff_of_true (untouched_of_callsOnly unchanged calls) (stalls.not_begins books)
    -- The first region is committed and was not before, so the mapper is another one.
    · refine iff_of_false ?_ (not_not.mpr (books.begins ready brought hlt (Nat.le_of_lt lt_stop)))
      intro untouched
      have hset := brought.bit_eq start
      rw [untouched.state_eq, if_pos ⟨Nat.le_refl _, hlt⟩,
        ready.bit_eq _ (Nat.le_refl _) (by omega)] at hset
      cases hset

theorem untouched_of_fault_iff (sound : mapper.Sound) (chunked : mapper.Chunked call.pretoucher)
    (h : (call.run mapper).result = .error (.fault fault)) :
    mapper.Untouched call ↔ ¬ mapper.Begins call := by
  cases faultCase sound chunked h with
  | outOfOrder unready _ unchanged silent =>
    have huntouched := untouched_of_callsOnly unchanged (by rw [silent]; exact .nil)
    refine iff_of_true huntouched ?_
    rintro ⟨_, _, _, ready⟩
    exact unready ready
  | halted ready halts => exact halts.untouched_iff ready

end lawful

/-! ## Mappers over page spaces -/

variable {settings : Settings} {usedSize : Nat} {memoryKind : MemoryKind} {pinned : Bool}
  {kind : StrategyKind} {machine : Machine} {first mapper : Mapper PageSpace} {call : Call}
  {fault : Fault}

/-- Whatever happened to a mapper before, a call at fault leaves everything as it was, unless it is
a commit that can begin: then its first region is committed at least, although one behind it is at
fault. -/
theorem faults_untouched_throughout
    (hfirst : (reserveWith settings usedSize memoryKind pinned kind machine).result = .ok first)
    (h : Reachable PageSpace.Meanwhile first mapper) (inWords : call.InWords)
    (hfault : (call.run mapper).result = .error (.fault fault)) :
    mapper.Untouched call ↔ ¬ mapper.Begins call := by
  have inUse := (inUse_of_reserveWith hfirst).reachable h
  exact untouched_of_fault_iff inUse.sound (inUse.chunked inWords) hfault

/-- Of two pages only one can be used: a commit of the regions on the other one cannot begin. -/
theorem faults_untouched_of_four_regions :
    ∃ first, (reserveWith .fourRegions 4096 .heap false .small .willing).result = .ok first ∧
      ((Call.commit 2 2 none).run first).result = .error (.fault (.pagesBeyondUsed 1 2 1)) ∧
      first.Untouched (.commit 2 2 none) := by
  refine ⟨_, rfl, by decide +kernel, ?_⟩
  apply (@faults_untouched_throughout .fourRegions 4096 .heap false .small .willing _ _
    (.commit 2 2 none) (.pagesBeyondUsed 1 2 1) rfl .refl (by decide) (by decide +kernel)).mpr
  rintro ⟨_, _, hstrategy, _, _, fits, _⟩
  cases hstrategy
  exact absurd fits.le_committable (by decide)

/-- But a commit of all four regions begins on the page that can be used, and is at fault where it
comes to the other one. So a call that is at fault has committed two regions. -/
theorem commit_beyond_used_leaves_regions :
    ∃ first, (reserveWith .fourRegions 4096 .heap false .small .willing).result = .ok first ∧
      ((Call.commit 0 4 none).run first).result = .error (.fault (.pagesBeyondUsed 1 2 1)) ∧
      ((Call.commit 0 4 none).run first).state.committedRegions = [0, 1] ∧
      first.committedRegions = [] ∧ ¬ first.Untouched (.commit 0 4 none) := by
  refine ⟨_, rfl, by decide +kernel, by decide +kernel, by decide +kernel, ?_⟩
  intro untouched
  have hsame := congrArg committedRegions untouched.state_eq
  revert hsame
  decide +kernel

end RegionBacking.Mapper
