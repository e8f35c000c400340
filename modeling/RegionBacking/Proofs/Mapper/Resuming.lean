import RegionBacking.Proofs.Mapper.Clients
import RegionBacking.Proofs.PageSpace.OneWay

/-!
# Calls that are refused and taken up again

A call for regions that share pages takes them one by one, so where the operating system refuses a
page the call has done what is in front of one of its regions: a commit stops at the first region of
its range on that page, an uncommit at the last one (`breaks_of_refused`). What a mapper has become
is told from the regions that turned, since pages turn with these and bytes with the pages
(`Turns.sameState`). So the call has come just as far as one for the regions in front, and a call
for the other regions takes it to the end that it would have had (`resumed_throughout`).
-/

namespace RegionBacking.Mapper

open Finset (Ico)

variable {mapper after last other : Mapper PageSpace} {call : Call} {refusal : Refusal}
  {status : Bool} {start count mid stop region : Nat} {pretoucher : Option Pretoucher}
  {trace : List Effect}

/-! ## The same state -/

/-- Two mappers have the same regions, references, pages and bytes. -/
structure SameState (a b : Mapper PageSpace) : Prop where
  committed_eq : a.committed = b.committed
  references_eq : ∀ page, a.references? page = b.references? page
  store : a.store.Alike b.store

/-- The regions `[start, stop)` of a mapper came to a status, and pages with them only to the
same. -/
structure Turns (status : Bool) (start stop : Nat) (mapper after : Mapper PageSpace) : Prop
    extends Continues mapper after where
  bit_eq : ∀ region, after.committed.bit region =
    if start ≤ region ∧ region < stop then status else mapper.committed.bit region
  oneWay : PageSpace.OneWay status mapper.store after.store

theorem BroughtTo.turns {answers : List Answer} {trace : List Effect}
    (brought : BroughtTo status start stop mapper after answers trace) (sound : mapper.Sound) :
    Turns status start stop mapper after where
  toContinues := .of_reaches brought.sound brought.reaches
  bit_eq := brought.bit_eq
  oneWay := brought.reaches.run.oneWay sound.store_sound brought.without

namespace Turns

theorem refl (sound : mapper.Sound) (status : Bool) (start : Nat) :
    Turns status start start mapper mapper :=
  (BroughtTo.refl sound status (Nat.le_refl start)).turns sound

theorem trans (first : Turns status start mid mapper after)
    (second : Turns status mid stop after last) (hstart : start ≤ mid) (hstop : mid ≤ stop) :
    Turns status start stop mapper last where
  toContinues := first.toContinues.trans second.toContinues
  bit_eq region := by
    rw [second.bit_eq, first.bit_eq]
    split_ifs <;> first | rfl | omega
  oneWay := first.oneWay.trans second.oneWay

/-- Who turned the same regions of a mapper has the same state. -/
theorem sameState (turns : Turns status start stop mapper after)
    (turns' : Turns status start stop mapper other) : SameState after other := by
  have hshape := turns.shape_eq.trans turns'.shape_eq.symm
  have hcommitted : after.committed = other.committed := by
    apply Bitmap.ext_bit (turns.size_eq.trans turns'.size_eq.symm)
    intro region
    rw [turns.bit_eq, turns'.bit_eq]
  have layout : PageSpace.SameLayout after.store other.store := ⟨
    turns'.oneWay.reservation_eq.trans turns.oneWay.reservation_eq.symm,
    turns'.oneWay.usedSize_eq.trans turns.oneWay.usedSize_eq.symm,
    turns'.oneWay.pinned_eq.trans turns.oneWay.pinned_eq.symm⟩
  have hpages := pages_eq_of_committed turns.sound turns'.sound hshape layout hcommitted
  refine ⟨hcommitted, ?_, ?_⟩
  · exact references_eq_of_committed turns.sound turns'.sound hshape
      (turns.succeeds.geometry.pages_eq.trans turns'.succeeds.geometry.pages_eq.symm) hcommitted
  · exact turns.oneWay.alike turns'.oneWay turns.sound.store_sound turns'.sound.store_sound
      hpages.symm

/-- The regions behind those that turned are as they were. -/
theorem ready (turns : Turns status start mid mapper after)
    (ready : mapper.Ready (!status) start count) (hstart : start ≤ mid)
    (hstop : mid ≤ start + count) : after.Ready (!status) mid (start + count - mid) where
  le_size := by
    rw [turns.size_eq, Nat.add_sub_cancel' hstop]
    exact ready.le_size
  bit_eq region hfirst hlast := by
    rw [turns.bit_eq, if_neg fun hin => by omega]
    exact ready.bit_eq region (by omega) (by omega)

end Turns

/-! ## Parts of a call -/

namespace Call

/-- The same operation on other regions. -/
def onRange (start count : Nat) : Call → Call
  | commit _ _ pretoucher => .commit start count pretoucher
  | uncommit .. => .uncommit start count

@[simp] theorem isCommit_onRange (call : Call) (start count : Nat) :
    (call.onRange start count).isCommit = call.isCommit := by
  cases call <;> rfl

@[simp] theorem start_onRange (call : Call) (start count : Nat) :
    (call.onRange start count).start = start := by
  cases call <;> rfl

@[simp] theorem count_onRange (call : Call) (start count : Nat) :
    (call.onRange start count).count = count := by
  cases call <;> rfl

@[simp] theorem pretoucher_onRange (call : Call) (start count : Nat) :
    (call.onRange start count).pretoucher = call.pretoucher := by
  cases call <;> rfl

theorem inWords_onRange (inWords : call.InWords) (start count : Nat) :
    (call.onRange start count).InWords := by
  rw [InWords, pretoucher_onRange]
  exact inWords

theorem onRange_self (call : Call) : call.onRange call.start call.count = call := by
  cases call <;> rfl

theorem mem_range : region ∈ call.range ↔
    call.start ≤ region ∧ region < call.start + call.count := by
  cases call <;> exact Finset.mem_Ico

theorem readyOn_iff : call.ReadyOn mapper ↔
    mapper.Ready (!call.isCommit) call.start call.count := by
  cases call <;> exact Iff.rfl

/-- The request that a call makes for a page. -/
def requestFor (space : PageSpace) (page : Nat) : Call → Request
  | commit .. => space.commitRequest page (page + 1)
  | uncommit .. => space.uncommitRequest page (page + 1)

/-- The refusal that says that the request for a page was refused. -/
def refusalFor (space : PageSpace) (page : Nat) : Call → Refusal
  | commit .. => .outOfMemory (space.usedSpan page (page + 1)) page
  | uncommit .. => .uncommit (.pages page (page + 1) (space.firstAddress page) .outOfMemory)

/-- A call meets a page at one of its regions: a commit at the first one that lies on the page, an
uncommit at the last one. -/
def Meets (call : Call) (strategy : Strategy) (page region : Nat) : Prop :=
  let regions : Set Nat := {other | other ∈ call.range ∧ strategy.Hosts page other}
  if call.isCommit then IsLeast regions region else IsGreatest regions region

end Call

/-! ## Where a call is refused -/

/-- A call is refused a page where it meets it: the operating system refuses the request for the
page, and the error says so. -/
structure RefusedAt (mapper : Mapper PageSpace) (call : Call) (refusal : Refusal)
    (page region : Nat) : Prop where
  meets : call.Meets mapper.strategy page region
  refuses : (call.run mapper).state.store.machine.refuses
    (call.requestFor (call.run mapper).state.store page) = true
  refusal_eq : refusal = call.refusalFor (call.run mapper).state.store page

/-- A refused call was in order, and what is in front of one of its regions is done. This one would
be the first committed region on its page, or it is the last one. -/
structure Breaks (mapper : Mapper PageSpace) (call : Call) (refusal : Refusal)
    (share page region : Nat) : Prop where
  ready : call.ReadyOn mapper
  refusedAt : mapper.RefusedAt call refusal page region
  turns : Turns call.isCommit call.start region mapper (call.run mapper).state
  pinned_eq : (call.run mapper).state.store.pinned = false
  page_eq : region / share = page
  residents_eq : (call.run mapper).state.committed.residents share page =
    if call.isCommit then 0 else 1

section meets

variable {answers : List Answer} {share : Nat}

/-- Where a commit comes to a page without committed regions, it comes to its first region there. -/
theorem BroughtTo.isLeast (brought : BroughtTo true start region mapper after answers trace)
    (hfirst : start ≤ region) (hlast : region < start + count)
    (vacant : after.committed.residents share (region / share) = 0) :
    IsLeast {other | other ∈ Ico start (start + count) ∧ other / share = region / share}
      region := by
  refine ⟨⟨Finset.mem_Ico.mpr ⟨hfirst, hlast⟩, rfl⟩, ?_⟩
  rintro other ⟨hother, hpage⟩
  by_contra hbefore
  have hset : after.committed.bit other = true := by
    rw [brought.bit_eq, if_pos ⟨(Finset.mem_Ico.mp hother).1, Nat.lt_of_not_le hbefore⟩]
  have hpos := (Bitmap.residents_pos_iff brought.sound.tidy).mpr ⟨other, hset, hpage⟩
  omega

/-- Where an uncommit comes to a page with one committed region left, it comes to its last region
there. -/
theorem BroughtTo.isGreatest (brought : BroughtTo false start region mapper after answers trace)
    (ready : mapper.Ready true start count) (hfirst : start ≤ region)
    (hlast : region < start + count) (last : after.committed.residents share (region / share) = 1) :
    IsGreatest {other | other ∈ Ico start (start + count) ∧ other / share = region / share}
      region := by
  refine ⟨⟨Finset.mem_Ico.mpr ⟨hfirst, hlast⟩, rfl⟩, ?_⟩
  rintro other ⟨hother, hpage⟩
  by_contra hbehind
  have hset : ∀ index, region ≤ index → index < start + count →
      after.committed.bit index = true := by
    intro index hge hlt
    rw [brought.bit_eq, if_neg fun hin => Nat.not_lt.mpr hge hin.2]
    exact ready.bit_eq index (Nat.le_trans hfirst hge) hlt
  have hregion := brought.sound.tidy region (hset region (Nat.le_refl region) hlast)
  have hlater := hset other (by omega) (Finset.mem_Ico.mp hother).2
  -- Without the region there is none left on the page, and yet the other one is.
  have hwipe := Bitmap.residents_wipe hregion (hset region (Nat.le_refl region) hlast) share
    (region / share)
  rw [if_pos rfl, last] at hwipe
  have hkept : (after.committed.wipe region (region + 1)).bit other = true := by
    rw [Bitmap.wipe, Bitmap.bit_bring hregion, if_neg fun hin => by omega]
    exact hlater
  have hpos := (Bitmap.residents_pos_iff (brought.sound.tidy.bring hregion false)).mpr
    ⟨other, hkept, hpage⟩
  change 0 < (after.committed.wipe region (region + 1)).residents share (region / share) at hpos
  omega

end meets

theorem breaks_of_commit {share : Nat} (inUse : mapper.InUse)
    (hshape : mapper.strategy.shape = (.small, share)) (ready : mapper.Ready false start count)
    (inWords : (Call.commit start count pretoucher).InWords)
    (h : commitRegions start count pretoucher mapper = ⟨.error (.error refusal), after, trace⟩) :
    ∃ page region, mapper.Breaks (.commit start count pretoucher) refusal share page region := by
  have hstate : ((Call.commit start count pretoucher).run mapper).state = after :=
    congrArg Run.state h
  obtain ⟨-, middle, earlier, hback, ⟨activity, rfl⟩, -⟩ := ready.of_commitRegions_error h
  cases halts_of_backRegions inUse.sound ready (inUse.chunked inWords) hback with
  | whole _ books =>
    rw [books.strategy_eq] at hshape
    cases hshape
  | shared _ references books answers region start_le lt_stop brought stalls =>
    rw [books.strategy_eq] at hshape
    cases hshape
    cases stalls with
    | page vacant _ stopped =>
      obtain ⟨hpinned, hrefuses, rfl⟩ :=
        PageSpace.of_commit_refused brought.sound.store_sound stopped
      have hmeets : (Call.commit start count pretoucher).Meets mapper.strategy (region / share)
          region := by
        rw [Call.Meets, books.strategy_eq]
        exact brought.isLeast start_le lt_stop vacant
      refine ⟨region / share, region, ready, ⟨hmeets, ?_, ?_⟩, ?_, ?_, rfl, ?_⟩
      all_goals rw [hstate]
      · exact hrefuses
      · rfl
      · exact (brought.report activity .nil).turns inUse.sound
      · exact hpinned
      · exact vacant

theorem breaks_of_uncommit {share : Nat} (inUse : mapper.InUse)
    (hshape : mapper.strategy.shape = (.small, share)) (ready : mapper.Ready true start count)
    (h : uncommitRegions start count mapper = ⟨.error (.error refusal), after, trace⟩) :
    ∃ page region, mapper.Breaks (.uncommit start count) refusal share page region := by
  have hstate : ((Call.uncommit start count).run mapper).state = after := congrArg Run.state h
  obtain ⟨references, books⟩ := inUse.sound.sharedBooks hshape
  have hback := unbackRegions_small books.strategy_eq start count
  rw [ready.uncommitRegions_eq] at h
  rcases uncommitShared_run books ready.le_size ready.bit_eq with
    ⟨_, _, _, hrun, -⟩ |
    ⟨_, middle, _, region, hrun, start_le, lt_stop, ⟨answers, brought⟩, sticks, -⟩
  · rw [Op.bind_eq_after (hback.trans hrun)] at h
    cases h
  · cases (Op.bind_run_error (hback.trans hrun)).symm.trans h
    obtain ⟨hpinned, hrefuses, rfl⟩ :=
      PageSpace.of_uncommit_refused brought.sound.store_sound sticks.stopped
    have hmeets : (Call.uncommit start count).Meets mapper.strategy (region / share) region := by
      rw [Call.Meets, books.strategy_eq]
      exact brought.isGreatest ready start_le lt_stop sticks.last
    refine ⟨region / share, region, ready, ⟨hmeets, ?_, ?_⟩, ?_, ?_, rfl, ?_⟩
    all_goals rw [hstate]
    · exact hrefuses
    · rfl
    · exact brought.turns inUse.sound
    · exact hpinned
    · exact sticks.last

theorem breaks_of_refused {share : Nat} (inUse : mapper.InUse)
    (hshape : mapper.strategy.shape = (.small, share)) (inWords : call.InWords)
    (hrefused : (call.run mapper).result = .error (.error refusal)) :
    ∃ page region, mapper.Breaks call refusal share page region := by
  have hrun : call.run mapper =
      ⟨.error (.error refusal), (call.run mapper).state, (call.run mapper).trace⟩ := by
    rw [← hrefused]
  have ready := Call.readyOn_of_result fun fault hfault => nomatch hrefused.symm.trans hfault
  cases call with
  | commit start count pretoucher => exact breaks_of_commit inUse hshape ready inWords hrun
  | uncommit start count => exact breaks_of_uncommit inUse hshape ready hrun

/-! ## Calls that are not refused -/

/-- The mapper on a machine that refuses nothing. -/
def freed (mapper : Mapper PageSpace) : Mapper PageSpace :=
  mapper.refusing fun _ => false

theorem follows_freed (mapper : Mapper PageSpace) :
    Follows PageSpace.Meanwhile mapper mapper.freed :=
  .store _ (.refusing fun _ => false)

/-- A call that comes to its end has turned its range. -/
theorem turns_of_ok (inUse : mapper.InUse) (inWords : call.InWords)
    (hok : (call.run mapper).result = .ok ()) :
    Turns call.isCommit call.start (call.start + call.count) mapper (call.run mapper).state := by
  have ready := Call.readyOn_of_ok hok
  cases call with
  | commit start count pretoucher =>
    rcases commitRegions_run inUse.sound ready pretoucher fun _ _ => inUse.chunked inWords with
      ⟨_, _, _, _, hrun, brought, -⟩ | ⟨_, _, _, _, _, hrun, -⟩
    · have hstate : ((Call.commit start count pretoucher).run mapper).state = _ :=
        congrArg Run.state hrun
      rw [hstate]
      exact brought.turns inUse.sound
    · cases (congrArg Run.result hrun).symm.trans hok
  | uncommit start count =>
    rcases uncommitRegions_run inUse.sound ready with
      ⟨_, _, _, hrun, brought⟩ | ⟨_, _, _, _, _, hrun, -⟩
    · have hstate : ((Call.uncommit start count).run mapper).state = _ := congrArg Run.state hrun
      rw [hstate]
      exact brought.turns inUse.sound
    · cases (congrArg Run.result hrun).symm.trans hok

/-- An operation on regions that are in order for it, and whose pages fit, comes to its end unless it
is refused. -/
theorem Live.onRange_ok_of_granted (live : mapper.Live) (inWords : call.InWords)
    (ready : mapper.Ready (!call.isCommit) start count)
    (fits : ∀ region, start ≤ region → region < start + count → ∀ page,
      mapper.strategy.Hosts page region → mapper.store.Fits (page + 1))
    (granted : ((call.onRange start count).run mapper).Granted) :
    ((call.onRange start count).run mapper).result = .ok () := by
  apply live.ok_of_granted granted (Call.inWords_onRange inWords start count)
  · rw [Call.readyOn_iff, Call.isCommit_onRange, Call.start_onRange, Call.count_onRange]
    exact ready
  · intro region hregion
    rw [Call.mem_range, Call.start_onRange, Call.count_onRange] at hregion
    exact fits region hregion.1 hregion.2

/-- So it does where nothing is refused. -/
theorem Live.onRange_ok (live : mapper.Live) (inWords : call.InWords)
    (ready : mapper.Ready (!call.isCommit) start count)
    (fits : ∀ region, start ≤ region → region < start + count → ∀ page,
      mapper.strategy.Hosts page region → mapper.store.Fits (page + 1)) :
    ((call.onRange start count).run mapper.freed).result = .ok () ∧
      Turns call.isCommit start (start + count) mapper
        ((call.onRange start count).run mapper.freed).state := by
  have follows := follows_freed mapper
  have continues := follows.continues PageSpace.harmless_meanwhile live.sound live.spacious
  have live' := live.follows follows
  have inWords' := Call.inWords_onRange inWords start count
  have hok : ((call.onRange start count).run mapper.freed).result = .ok () := by
    refine live'.onRange_ok_of_granted inWords ⟨ready.le_size, ready.bit_eq⟩ ?_
      (live'.toInUse.not_refused (fun _ _ => rfl) inWords')
    intro region hge hlt page hhosts
    exact (continues.succeeds.fits_iff _).mpr (fits region hge hlt page hhosts)
  have turns := turns_of_ok live'.toInUse inWords' hok
  rw [Call.isCommit_onRange, Call.start_onRange, Call.count_onRange] at turns
  have freely : PageSpace.OneWay call.isCommit mapper.store mapper.freed.store :=
    .of_machine call.isCommit mapper.store fun _ => rfl
  exact ⟨hok, continues.trans turns.toContinues, turns.bit_eq, freely.trans turns.oneWay⟩

/-! ## Taking a call up again -/

/-- A refused call has done just what the same operation on the regions in front of one does where
nothing is refused. The same operation on the other regions comes to its end once nothing is refused
any more, and with that all is as after the whole call where nothing is refused. -/
structure Resumes (mapper : Mapper PageSpace) (call : Call) (region : Nat) : Prop where
  front_ok : ((call.onRange call.start (region - call.start)).run mapper.freed).result = .ok ()
  front_same : SameState ((call.onRange call.start (region - call.start)).run mapper.freed).state
    (call.run mapper).state
  whole_ok : (call.run mapper.freed).result = .ok ()
  rest_ok : ((call.onRange region (call.start + call.count - region)).run
    (call.run mapper).state.freed).result = .ok ()
  rest_same : SameState ((call.onRange region (call.start + call.count - region)).run
    (call.run mapper).state.freed).state (call.run mapper.freed).state

theorem Call.Meets.mem_range {strategy : Strategy} {page : Nat}
    (meets : call.Meets strategy page region) : region ∈ call.range := by
  unfold Call.Meets at meets
  split at meets
  · exact meets.1.1
  · exact meets.1.1

theorem Breaks.resumes {share page : Nat} (breaks : mapper.Breaks call refusal share page region)
    (live : mapper.Live) (inWords : call.InWords)
    (fits : ∀ region ∈ call.range, ∀ page, mapper.strategy.Hosts page region →
      mapper.store.Fits (page + 1)) : mapper.Resumes call region := by
  obtain ⟨hfirst, hlast⟩ := Call.mem_range.mp breaks.refusedAt.meets.mem_range
  have ready := Call.readyOn_iff.mp breaks.ready
  have turns := breaks.turns
  have fits : ∀ region, call.start ≤ region → region < call.start + call.count → ∀ page,
      mapper.strategy.Hosts page region → mapper.store.Fits (page + 1) :=
    fun region hge hlt => fits region (Call.mem_range.mpr ⟨hge, hlt⟩)
  have hfront : call.start + (region - call.start) = region := Nat.add_sub_cancel' hfirst
  have hrest : region + (call.start + call.count - region) = call.start + call.count :=
    Nat.add_sub_cancel' (Nat.le_of_lt hlast)
  obtain ⟨hfrontOk, hfrontTurns⟩ := @Live.onRange_ok mapper call call.start
    (region - call.start) live inWords (ready.part (Nat.le_refl _) (by omega))
    fun region hge hlt => fits region hge (by omega)
  obtain ⟨hwholeOk, hwholeTurns⟩ := live.onRange_ok inWords ready fits
  rw [Call.onRange_self] at hwholeOk hwholeTurns
  -- The pages of the other regions still fit where the call has stopped.
  obtain ⟨hrestOk, hrestTurns⟩ := @Live.onRange_ok (call.run mapper).state call region
    (call.start + call.count - region) (live.follows (.call call inWords))
    inWords (turns.ready ready hfirst (Nat.le_of_lt hlast)) fun other hge hlt page hhosts => by
      rw [Strategy.hosts_of_shape_eq turns.shape_eq] at hhosts
      exact (turns.succeeds.fits_iff _).mpr (fits other (by omega) (by omega) page hhosts)
  rw [hfront] at hfrontTurns
  rw [hrest] at hrestTurns
  exact ⟨hfrontOk, hfrontTurns.sameState turns, hwholeOk, hrestOk,
    (turns.trans hrestTurns hfirst (Nat.le_of_lt hlast)).sameState hwholeTurns⟩

/-- Where regions share pages, a call that is refused has done a part of its range and can be taken
up again. It stops at a page that the operating system refuses, a commit at the first region of its
range on this page and an uncommit at the last one. It has done what the same operation on the
regions in front does, and once nothing is refused any more the same operation on the other regions
comes to its end, with all that the call itself would have done. -/
theorem resumed_throughout {settings : Settings} {usedSize : Nat} {memoryKind : MemoryKind}
    {pinned : Bool} {machine : Machine} {first : Mapper PageSpace}
    (hfirst : (reserveWith settings usedSize memoryKind pinned .small machine).result = .ok first)
    (hshare : settings.pageSize * settings.commitFactor / settings.regionSize < entryLimit)
    (h : Reachable PageSpace.Meanwhile first mapper) (inWords : call.InWords)
    (hused : ∀ region ∈ call.range,
      (region + 1) * settings.regionSize ≤ usedSize * settings.commitFactor)
    (hrefused : (call.run mapper).result = .error (.error refusal)) :
    ∃ page region, mapper.RefusedAt call refusal page region ∧ mapper.Resumes call region := by
  have live := live_of_reserveWith hfirst hshare
  have continues := h.continues PageSpace.harmless_meanwhile live.sound live.spacious
  obtain ⟨-, created⟩ := of_reserveWith_ok hfirst
  obtain ⟨share, references, hsmall, -⟩ := created.strategy_of
  have hshape : mapper.strategy.shape = (.small, share) :=
    continues.shape_eq.trans (congrArg Strategy.shape hsmall)
  have live := live.reachable h
  obtain ⟨page, region, breaks⟩ := breaks_of_refused live.toInUse hshape inWords hrefused
  exact ⟨page, region, breaks.refusedAt, breaks.resumes live inWords fun region hregion page =>
    fits_of_inside hfirst nofun h (hused region hregion)⟩

/-- Four regions are committed, and the second of their two pages is not taken back. An uncommit of
three of the regions gives up neither page: the first one is still needed, and at the last region
the call is refused. -/
theorem resumed_of_four_regions :
    ∃ first, (reserveWith .fourRegions 8192 .heap false .small .willing).result = .ok first ∧
      ∃ mapper, mapper = (((Call.commit 0 4 none).run first).state.refusing
          fun request => request.address == 69632) ∧
        ((Call.uncommit 1 3).run mapper).result =
          .error (.error (.uncommit (.pages 1 2 69632 .outOfMemory))) ∧
        ∃ page region, mapper.RefusedAt (.uncommit 1 3)
            (.uncommit (.pages 1 2 69632 .outOfMemory)) page region ∧
          mapper.Resumes (.uncommit 1 3) region := by
  have hrefused : ∀ first : Mapper PageSpace,
      (reserveWith .fourRegions 8192 .heap false .small .willing).result = .ok first →
      ((Call.uncommit 1 3).run (((Call.commit 0 4 none).run first).state.refusing
        fun request => request.address == 69632)).result =
          .error (.error (.uncommit (.pages 1 2 69632 .outOfMemory))) := by
    intro first hfirst
    cases hfirst
    decide +kernel
  refine ⟨_, rfl, _, rfl, hrefused _ rfl, ?_⟩
  exact @resumed_throughout _ (.uncommit 1 3) _ .fourRegions 8192 .heap false .willing _ rfl
    (by decide) (.tail (.single (.call (.commit 0 4 none) (by decide))) (.store _ (.refusing _)))
    (by decide) (by decide) (hrefused _ rfl)

end RegionBacking.Mapper
