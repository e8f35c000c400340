import RegionBacking.Proofs.Mapper.Placing
import RegionBacking.Proofs.PageSpace.Granting

/-!
# Calls that are granted

A call that comes to its end was granted all that it asked for: where regions share pages, the
request for each page that it needed or gave up; where they do not, one request for the pages of all
regions. A part of the call asks for no other pages. So it is granted as well where regions share
pages, and elsewhere if the machine grants each part of what it grants (`granted_part`).
-/

namespace RegionBacking.Mapper

variable {mapper after other : Mapper PageSpace} {call : Call} {refusal : Refusal}
  {references : GranuleTable} {share start count mid region : Nat} {pretoucher : Option Pretoucher}
  {trace : List Effect}

/-! ## Requests of a call -/

/-- The request that a call makes for pages that lie together. -/
def Call.requestOf (space : PageSpace) (start stop : Nat) : Call → Request
  | commit .. => space.commitRequest start stop
  | uncommit .. => space.uncommitRequest start stop

theorem Call.requestFor_eq (call : Call) (space : PageSpace) (page : Nat) :
    call.requestFor space page = call.requestOf space page (page + 1) := by
  cases call <;> rfl

/-- A store with the same layout, on a machine that refuses the same, is allowed the same. -/
theorem Call.allows_iff (call : Call) {space other : PageSpace}
    (same : PageSpace.SameLayout space other)
    (hrefuses : other.machine.refuses = space.machine.refuses) (start stop : Nat) :
    other.Allows (call.requestOf other start stop) ↔
      space.Allows (call.requestOf space start stop) := by
  obtain ⟨hcommit, huncommit⟩ := same.requests_eq
  have hrequest : call.requestOf other start stop = call.requestOf space start stop := by
    cases call
    · exact congrFun (congrFun hcommit start) stop
    · exact congrFun (congrFun huncommit start) stop
  rw [hrequest, PageSpace.Allows, PageSpace.Allows, hrefuses, same.pinned_eq]

/-- The bits of regions that turned. -/
theorem Turns.committed_eq {status : Bool} {stop : Nat} (turns : Turns status start stop mapper after)
    (hstop : stop ≤ mapper.committed.size) :
    after.committed = mapper.committed.bring status start stop := by
  apply Bitmap.ext_bit
  · rw [turns.size_eq, Bitmap.size_bring]
  · intro region
    rw [turns.bit_eq, Bitmap.bit_bring hstop]

/-! ## Where regions share pages -/

/-- A region that is the last one on its page is uncommitted only if the page is given up. -/
theorem SharedBooks.of_uncommitRegion_ok (books : SharedBooks share references mapper)
    (hregion : region < mapper.committed.size)
    (hlast : mapper.committed.residents share (region / share) = 1) {released total : Nat}
    (h : uncommitRegion share released region mapper = ⟨.ok total, after, trace⟩) :
    (PageStore.uncommit (region / share) 1 mapper.store).result = .ok () := by
  have hentry : references.entry (region / share) = 1 := (books.entry_eq _).trans hlast
  unfold uncommitRegion at h
  simp only [] at h
  rw [Op.bind_eq_after (readReferences_run books.strategy_eq (books.table.page_lt hregion)),
    Run.after_nil, hentry, show ((1 : Nat) != 0) = true from rfl, Op.require_true, pure_bind,
    if_pos rfl] at h
  obtain ⟨_, _, _, _, hrelease, -⟩ := Op.of_bind_run_ok h
  unfold releasePage at hrelease
  obtain ⟨_, _, _, _, hpages, -⟩ := Op.of_bind_run_ok hrelease
  rw [uncommitPages_run] at hpages
  exact congrArg Run.result hpages

variable {start count : Nat} {answers : List Answer}

/-- A commit that came to its end was granted the request for each page that it needed. -/
theorem SharedBooks.allows_of_commit (books : SharedBooks share references mapper)
    (ready : mapper.Ready false start count) (hfirst : start ≤ region)
    (hlast : region < start + count)
    (vacant : (mapper.committed.bring true start region).residents share (region / share) = 0)
    {backing : Backing}
    (h : commitShared share start count pretoucher mapper = ⟨.ok backing, after, trace⟩) :
    mapper.store.Allows (mapper.store.commitRequest (region / share) (region / share + 1)) := by
  unfold commitShared at h
  obtain ⟨_, _, _, _, hloop, -⟩ := Op.of_bind_run_ok h
  obtain ⟨reached, middle, earlier, next, later, shown, hfront, hstep⟩ :=
    Op.of_fold_range_ok hloop hfirst hlast
  have hend : start + (region - start) = region := Nat.add_sub_cancel' hfirst
  have hregion : region < mapper.committed.size := Nat.lt_of_lt_of_le hlast ready.le_size
  have front : mapper.Ready false start (region - start) :=
    ready.part (Nat.le_refl start) (by omega)
  rcases commitLoop_run books front.le_size front.bit_eq with
    ⟨_, _, _, hrun, ⟨answers, brought, -⟩, -⟩ | ⟨_, _, _, _, hrun, -⟩
  · cases hrun.symm.trans hfront
    rw [hend] at brought
    have turns := brought.turns (.small _ _ books)
    obtain ⟨_, books'⟩ := brought.sharedBooks books
    have hclear := brought.bit_next.trans (ready.bit_eq region hfirst hlast)
    rw [← turns.committed_eq (Nat.le_of_lt hregion)] at vacant
    rcases books'.table.commitRegion_cases (turns.size_eq ▸ hregion) hclear reached with
      ⟨_, _, _, _, _, hrun', -, -, takes, serves, -⟩ | ⟨_, _, _, hrun', -⟩
    · cases hrun'.symm.trans hstep
      obtain ⟨hrefuses, same⟩ := brought.reaches.run.refuses_sameLayout books.store_sound
      refine ((Call.commit start count pretoucher).allows_iff same hrefuses _ _).mp ?_
      cases takes with
      | fresh zeroFilled =>
        cases serves.transcript with
        | commit hcommit =>
          exact PageSpace.allows_of_commit_ok brought.sound.store_sound Nat.one_pos
            (congrArg Run.result hcommit)
      | again needed => exact absurd vacant needed
      | shared needed => exact absurd vacant needed
    · cases hrun'.symm.trans hstep
  · cases hrun.symm.trans hfront

/-- An uncommit that came to its end was granted the request for each page that it gave up. -/
theorem SharedBooks.allows_of_uncommit (books : SharedBooks share references mapper)
    (ready : mapper.Ready true start count) (hfirst : start ≤ region)
    (hlast : region < start + count)
    (last : (mapper.committed.bring false start region).residents share (region / share) = 1)
    {released : Nat} (h : uncommitShared share start count mapper = ⟨.ok released, after, trace⟩) :
    mapper.store.Allows (mapper.store.uncommitRequest (region / share) (region / share + 1)) := by
  obtain ⟨reached, middle, earlier, next, later, shown, hfront, hstep⟩ :=
    Op.of_fold_range_ok h hfirst hlast
  have hend : start + (region - start) = region := Nat.add_sub_cancel' hfirst
  have hregion : region < mapper.committed.size := Nat.lt_of_lt_of_le hlast ready.le_size
  have front : mapper.Ready true start (region - start) :=
    ready.part (Nat.le_refl start) (by omega)
  rcases uncommitShared_run books front.le_size front.bit_eq with
    ⟨_, _, _, hrun, ⟨answers, brought⟩, -⟩ | ⟨_, _, _, _, hrun, -⟩
  · cases hrun.symm.trans hfront
    rw [hend] at brought
    have turns := brought.turns (.small _ _ books)
    obtain ⟨_, books'⟩ := brought.sharedBooks books
    rw [← turns.committed_eq (Nat.le_of_lt hregion)] at last
    obtain ⟨hrefuses, same⟩ := brought.reaches.run.refuses_sameLayout books.store_sound
    refine ((Call.uncommit start count).allows_iff same hrefuses _ _).mp ?_
    exact PageSpace.allows_of_uncommit_ok brought.sound.store_sound Nat.one_pos
      (books'.of_uncommitRegion_ok (turns.size_eq ▸ hregion) last hstep)
  · cases hrun.symm.trans hfront

/-- So for a call of either kind: where it comes to a region that turns its page, it was granted the
request for the page. -/
theorem Call.allows_of_shared (inUse : mapper.InUse)
    (hshape : mapper.strategy.shape = (.small, share)) (hregion : region ∈ call.range)
    (residents_eq : (mapper.committed.bring call.isCommit call.start region).residents share
      (region / share) = if call.isCommit then 0 else 1)
    (hok : (call.run mapper).result = .ok ()) :
    mapper.store.Allows (call.requestFor mapper.store (region / share)) := by
  obtain ⟨references, books⟩ := inUse.sound.sharedBooks hshape
  obtain ⟨hfirst, hlast⟩ := Call.mem_range.mp hregion
  have hrun : call.run mapper = ⟨.ok (), (call.run mapper).state, (call.run mapper).trace⟩ := by
    rw [← hok]
  cases call with
  | commit start count pretoucher =>
    have hfirst : start ≤ region := hfirst
    have hlast : region < start + count := hlast
    obtain ⟨ready, _, _, _, _, hback, -⟩ := of_commitRegions_ok (by omega) hrun
    rw [backRegions_small books.strategy_eq] at hback
    exact books.allows_of_commit ready hfirst hlast residents_eq hback
  | uncommit start count =>
    have ready : mapper.Ready true start count := Call.readyOn_of_ok hok
    have hrun : uncommitRegions start count mapper = _ := hrun
    rw [ready.uncommitRegions_eq] at hrun
    obtain ⟨_, _, _, _, hback, -⟩ := Op.of_bind_run_ok hrun
    rw [unbackRegions_small books.strategy_eq] at hback
    exact books.allows_of_uncommit ready hfirst hlast residents_eq hback

/-! ## Where regions have pages of their own -/

section whole

variable {pages : Nat}

/-- An uncommit of whole regions comes to its end only if their pages are given up. -/
theorem of_uncommitWhole_ok {total : Nat}
    (h : uncommitWhole pages start count mapper = ⟨.ok total, after, trace⟩) :
    (PageStore.uncommit (start * pages) (count * pages) mapper.store).result = .ok () := by
  unfold uncommitWhole at h
  obtain ⟨_, mapper, _, _, hstart, hrest, -⟩ := Op.of_bind_run_ok h
  obtain ⟨hfirst, rfl, rfl⟩ := Op.of_checked_ok hstart
  obtain ⟨_, mapper, _, _, hcount, hcalls, -⟩ := Op.of_bind_run_ok hrest
  obtain ⟨hpages, rfl, rfl⟩ := Op.of_checked_ok hcount
  obtain ⟨-, rfl⟩ := Word.mul_eq_ok_iff.mp hfirst
  obtain ⟨-, rfl⟩ := Word.mul_eq_ok_iff.mp hpages
  obtain ⟨_, _, _, _, hrun, -⟩ := Op.of_bind_run_ok hcalls
  rw [uncommitPages_run] at hrun
  exact congrArg Run.result hrun

/-- A call that came to its end was granted the request for the pages of all its regions, and these
can be committed. -/
theorem Call.allows_of_whole (books : WholeBooks pages mapper) (hcount : 0 < call.count)
    (hok : (call.run mapper).result = .ok ()) :
    call.start * pages + call.count * pages ≤ mapper.store.committablePages ∧
      mapper.store.Allows (call.requestOf mapper.store (call.start * pages)
        (call.start * pages + call.count * pages)) := by
  have hpages : 0 < call.count * pages := Nat.mul_pos hcount books.share_pos
  have hrun : call.run mapper = ⟨.ok (), (call.run mapper).state, (call.run mapper).trace⟩ := by
    rw [← hok]
  cases call with
  | commit start count pretoucher =>
    obtain ⟨-, _, _, _, _, hback, -⟩ := of_commitRegions_ok hcount hrun
    rw [backRegions_large books.strategy_eq] at hback
    obtain ⟨_, _, _, _, _, _, -, serves, -⟩ := of_commitWhole_ok hback
    cases serves.transcript with
    | commit hcommit =>
      have hcommit := congrArg Run.result hcommit
      exact ⟨(PageSpace.legal_of_commit_ok books.store_sound hpages hcommit).le_committable,
        PageSpace.allows_of_commit_ok books.store_sound hpages hcommit⟩
  | uncommit start count =>
    have ready : mapper.Ready true start count := Call.readyOn_of_ok hok
    have hrun : uncommitRegions start count mapper = _ := hrun
    rw [ready.uncommitRegions_eq] at hrun
    obtain ⟨_, _, _, _, hback, -⟩ := Op.of_bind_run_ok hrun
    rw [unbackRegions_large books.strategy_eq] at hback
    have huncommit := of_uncommitWhole_ok hback
    exact ⟨(PageSpace.legal_of_uncommit_ok books.store_sound hpages huncommit).le_committable,
      PageSpace.allows_of_uncommit_ok books.store_sound hpages huncommit⟩

/-- A call that is refused was not granted that request. -/
theorem Call.not_allows_of_whole (books : WholeBooks pages mapper) (inUse : mapper.InUse)
    (inWords : call.InWords) (hrefused : (call.run mapper).result = .error (.error refusal)) :
    0 < call.count ∧ ¬ mapper.store.Allows
      (call.requestOf mapper.store (call.start * pages)
        (call.start * pages + call.count * pages)) := by
  have hrun : call.run mapper =
      ⟨.error (.error refusal), (call.run mapper).state, (call.run mapper).trace⟩ := by
    rw [← hrefused]
  have ready := Call.readyOn_of_result fun fault hfault => by
    rw [hrefused] at hfault
    cases hfault
  cases call with
  | commit start count pretoucher =>
    have ready : mapper.Ready false start count := ready
    obtain ⟨hcount, _, _, hback, -⟩ := ready.of_commitRegions_error hrun
    cases halts_of_backRegions inUse.sound ready (inUse.chunked inWords) hback with
    | whole _ books' _ _ _ stopped =>
      cases books.strategy_eq.symm.trans books'.strategy_eq
      obtain ⟨hpinned, hrefuses, -⟩ := PageSpace.of_commit_refused books.store_sound stopped
      refine ⟨hcount, fun allows => ?_⟩
      cases hrefuses.symm.trans (allows hpinned)
    | shared _ _ books' => cases books.strategy_eq.symm.trans books'.strategy_eq
  | uncommit start count =>
    have ready : mapper.Ready true start count := ready
    have hrun : uncommitRegions start count mapper = _ := hrun
    have hback := unbackRegions_large books.strategy_eq start count
    rw [ready.uncommitRegions_eq] at hrun
    rcases uncommitWhole_run books ready.le_size ready.bit_eq with
      ⟨_, _, _, _, hwhole, -⟩ | ⟨_, _, _, hwhole, -, hcount, -, -, stopped⟩
    · rw [Op.bind_eq_after (hback.trans hwhole)] at hrun
      cases congrArg Run.result hrun
    · rw [Op.bind_run_error (hback.trans hwhole)] at hrun
      cases congrArg Run.result hrun
      obtain ⟨hpinned, hrefuses, -⟩ := PageSpace.of_uncommit_refused books.store_sound stopped
      refine ⟨hcount, fun allows => ?_⟩
      cases hrefuses.symm.trans (allows hpinned)

end whole

/-! ## Parts of a call -/

/-- The parts of a call are granted what the call is: regions share pages, or the machine grants each
part of what it grants, or it is asked nothing. -/
def GrantsParts (mapper : Mapper PageSpace) : Prop :=
  mapper.strategy.kind = .small ∨ mapper.store.machine.GrantsParts ∨ mapper.store.pinned = true

theorem Call.requestOf_onRange (call : Call) (start count : Nat) (space : PageSpace)
    (first last : Nat) :
    (call.onRange start count).requestOf space first last = call.requestOf space first last := by
  cases call <;> rfl

/-- Where a call comes to its end, a part of it is not refused behind the regions in front of it. -/
theorem granted_part (inUse : mapper.InUse) (inUse' : other.InUse)
    (turns : Turns call.isCommit call.start mid mapper other)
    (hrefuses : other.store.machine.refuses = mapper.store.machine.refuses)
    (grantsParts : mapper.GrantsParts) (inWords : call.InWords) (hmid : call.start ≤ mid)
    (hstop : mid + count ≤ call.start + call.count) (hok : (call.run mapper).result = .ok ()) :
    ((call.onRange mid count).run other).Granted := by
  have inWords' := Call.inWords_onRange inWords mid count
  have hsize := (Call.readyOn_iff.mp (Call.readyOn_of_ok hok)).le_size
  intro refusal hrefused
  cases inUse.sound with
  | small share references books =>
    have hshape : mapper.strategy.shape = (.small, share) :=
      congrArg Strategy.shape books.strategy_eq
    obtain ⟨page, region, breaks⟩ :=
      breaks_of_refused inUse' (turns.shape_eq.trans hshape) inWords' hrefused
    obtain ⟨hge, hlt⟩ := Call.mem_range.mp breaks.refusedAt.meets.mem_range
    obtain ⟨answers, orderly⟩ := call_orderly inUse'.sound inUse'.spacious _ inWords'
    obtain ⟨hkept, -⟩ := orderly.stores.refuses_sameLayout inUse'.sound.store_sound
    have hresidents := breaks.residents_eq
    have hrefused := breaks.refusedAt.refuses
    have further := breaks.turns
    rw [Call.start_onRange] at hge
    rw [Call.start_onRange, Call.count_onRange] at hlt
    rw [Call.isCommit_onRange] at hresidents
    rw [Call.isCommit_onRange, Call.start_onRange] at further
    rw [Call.requestFor_eq, Call.requestOf_onRange] at hrefused
    -- With the regions in front of the part, the whole call has come to the same region.
    have reached := turns.trans further hmid hge
    rw [reached.committed_eq (by omega), ← breaks.page_eq] at hresidents
    have allows := Call.allows_of_shared inUse hshape (Call.mem_range.mpr ⟨by omega, by omega⟩)
      hresidents hok
    rw [breaks.page_eq, Call.requestFor_eq] at allows
    have allows := (call.allows_iff reached.oneWay.toSameLayout (hkept.trans hrefuses) _ _).mpr allows
    cases hrefused.symm.trans (allows breaks.pinned_eq)
  | large pages books =>
    have books' := inUse'.sound.wholeBooks
      (turns.shape_eq.trans (congrArg Strategy.shape books.strategy_eq))
    obtain ⟨hcount, refused⟩ := Call.not_allows_of_whole books' inUse' inWords' hrefused
    rw [Call.count_onRange] at hcount
    rw [Call.requestOf_onRange, Call.start_onRange, Call.count_onRange,
      call.allows_iff turns.oneWay.toSameLayout hrefuses] at refused
    obtain ⟨hcommittable, allows⟩ := Call.allows_of_whole books (show 0 < call.count by omega) hok
    rcases grantsParts with hsmall | hparts | hpinned
    · rw [books.strategy_eq] at hsmall
      cases hsmall
    · apply refused
      have hfirst := Nat.mul_le_mul_right pages hmid
      have hlast := Nat.mul_le_mul_right pages hstop
      have hpos : 0 < count * pages := Nat.mul_pos hcount books.share_pos
      rw [Nat.add_mul, Nat.add_mul] at hlast
      cases call <;> exact allows.part hparts books.store_sound hfirst hlast (by omega) hcommittable
    · apply refused
      intro hclear
      cases hpinned.symm.trans hclear

end RegionBacking.Mapper
