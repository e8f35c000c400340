import RegionBacking.Mapper.Batch
import RegionBacking.Proofs.Mapper.SharedPages
import RegionBacking.Proofs.Mapper.WholePages

/-!
# Whole calls of a mapper

A call is a fault and does nothing, unless its range lies in the mapper and none of its regions is
in the state that the call brings about. Otherwise it comes to its end, or it stops after the
regions before one of the range, with books in order; where whole pages are committed nothing is
done then, apart from the counters. An uncommit stops only where the store refuses, and so does a
commit with room for its pages.
-/

namespace RegionBacking.Mapper

variable {σ : Type} {mapper : Mapper σ} {start count : Nat}

/-- The regions of a range are those of the mapper, and all of them are committed, or none is. -/
structure Ready (mapper : Mapper σ) (status : Bool) (start count : Nat) : Prop where
  le_size : start + count ≤ mapper.committed.size
  bit_eq : ∀ region, start ≤ region → region < start + count →
    mapper.committed.bit region = status

/-- So are those of a part of the range. -/
theorem Ready.part {status : Bool} {first more : Nat} (ready : mapper.Ready status start count)
    (hfirst : start ≤ first) (hlast : first + more ≤ start + count) :
    mapper.Ready status first more where
  le_size := Nat.le_trans hlast ready.le_size
  bit_eq region hge hlt :=
    ready.bit_eq region (Nat.le_trans hfirst hge) (Nat.lt_of_lt_of_le hlt hlast)

/-! ## Calls out of order -/

theorem checkRegions_of_le (h : start + count ≤ mapper.committed.size) :
    checkRegions start count mapper = ⟨.ok (start + count), mapper, []⟩ := by
  rw [checkRegions, Op.get_bind, regionCount, decide_eq_true h]
  rfl

theorem checkRegions_of_not (h : ¬ start + count ≤ mapper.committed.size) :
    checkRegions start count mapper =
      ⟨.error (.fault (.regionsOutOfRange start count mapper.committed.size)), mapper, []⟩ := by
  rw [checkRegions, Op.get_bind, regionCount, decide_eq_false h]
  rfl

/-! ## Reports -/

/-- The notification of a commit, if there is a listener. -/
def told (mapper : Mapper σ) (start count : Nat) (zeroFilled : Bool) : List Effect :=
  if mapper.listener = .live then [.notification ⟨start, count, zeroFilled⟩] else []

theorem notify_run (start count : Nat) (zeroFilled : Bool) (mapper : Mapper σ) :
    notify start count zeroFilled mapper =
      ⟨.ok (), mapper, mapper.told start count zeroFilled⟩ := by
  rw [notify, Op.get_bind, told]
  split <;> rfl

theorem calls_told (mapper : Mapper σ) (start count : Nat) (zeroFilled : Bool) :
    Effect.calls (mapper.told start count zeroFilled) = [] := by
  unfold told
  split <;> rfl

theorem told_entries (mapper : Mapper σ) (start count : Nat) (zeroFilled : Bool) :
    Effect.entries (mapper.told start count zeroFilled) = [] ∧
      Effect.placements (mapper.told start count zeroFilled) = [] := by
  unfold told
  split <;> exact ⟨rfl, rfl⟩

theorem notifications_told (mapper : Mapper σ) (start count : Nat) (zeroFilled : Bool) :
    Effect.notifications (mapper.told start count zeroFilled) =
      if mapper.listener = .live then [⟨start, count, zeroFilled⟩] else [] := by
  unfold told
  split <;> rfl

/-- A report of a commit changes the counters only, and an event says what was committed. -/
theorem reportCommit_run (start count : Nat) (backing : Backing) (mapper : Mapper σ) :
    ∃ trace, reportCommit start count backing mapper =
        ⟨.ok (), mapper.withActivity
          ((mapper.activity.commit count backing.pages).place backing.placements), trace⟩ ∧
      Silent trace ∧ Effect.placements trace = [] ∧ Effect.entries trace =
        [.commit mapper.memoryKind start count backing.pages backing.zeroFilled] := by
  unfold reportCommit
  rw [Op.get_bind]
  by_cases hplaced : backing.placements ≠ 0
  · simp only [if_pos hplaced]
    exact ⟨[.event _, .record _, .event _], rfl, ⟨rfl, rfl⟩, rfl, rfl⟩
  · simp only [if_neg hplaced]
    rw [not_not.mp hplaced, Activity.place_zero]
    exact ⟨[.record _, .event _], rfl, ⟨rfl, rfl⟩, rfl, rfl⟩

variable [PageStore σ]

/-- A commit out of order is a fault and does nothing. Which fault it is, the bits decide. -/
theorem commitRegions_fault_of_bits (h : ¬ mapper.Ready false start count)
    (pretoucher : Option Pretoucher) :
    ∃ fault : Fault, fault.isOfRegions = true ∧
      ∀ other : Mapper σ, other.committed = mapper.committed →
        commitRegions start count pretoucher other = ⟨.error (.fault fault), other, []⟩ := by
  unfold commitRegions
  by_cases hstop : start + count ≤ mapper.committed.size
  · obtain ⟨clear, hclear, hiff⟩ := Bitmap.isRangeClear_eq (Nat.le_add_right start count) hstop
    cases clear with
    -- A bit of the range is set already, which the second check finds.
    | false =>
      refine ⟨.regionCommitted ((mapper.committed.findSet? start (start + count)).getD start) start
        (start + count), rfl, ?_⟩
      intro other hbits
      rw [← hbits] at hstop hclear ⊢
      rw [Op.bind_eq_after (checkRegions_of_le hstop), Run.after_nil, Op.get_bind, hclear,
        Op.checked_ok, pure_bind]
      rfl
    | true => exact absurd ⟨hstop, hiff.mp rfl⟩ h
  · refine ⟨.regionsOutOfRange start count mapper.committed.size, rfl, ?_⟩
    intro other hbits
    rw [← hbits] at hstop ⊢
    exact Op.bind_run_error (checkRegions_of_not hstop)

theorem commitRegions_fault (h : ¬ mapper.Ready false start count)
    (pretoucher : Option Pretoucher) :
    ∃ fault : Fault, fault.isOfRegions = true ∧
      commitRegions start count pretoucher mapper = ⟨.error (.fault fault), mapper, []⟩ := by
  obtain ⟨fault, hkind, hrun⟩ := commitRegions_fault_of_bits h pretoucher
  exact ⟨fault, hkind, hrun mapper rfl⟩

/-- An uncommit out of order is a fault and does nothing. Which fault it is, the bits decide. -/
theorem uncommitRegions_fault_of_bits (h : ¬ mapper.Ready true start count) :
    ∃ fault : Fault, fault.isOfRegions = true ∧
      ∀ other : Mapper σ, other.committed = mapper.committed →
        uncommitRegions start count other = ⟨.error (.fault fault), other, []⟩ := by
  unfold uncommitRegions
  by_cases hstop : start + count ≤ mapper.committed.size
  · obtain ⟨set, hset, hiff⟩ := Bitmap.isRangeSet_eq (Nat.le_add_right start count) hstop
    cases set with
    | false =>
      refine ⟨.regionNotCommitted ((mapper.committed.findClear? start (start + count)).getD start)
        start (start + count), rfl, ?_⟩
      intro other hbits
      rw [← hbits] at hstop hset ⊢
      rw [Op.bind_eq_after (checkRegions_of_le hstop), Run.after_nil, Op.get_bind, hset,
        Op.checked_ok, pure_bind]
      rfl
    | true => exact absurd ⟨hstop, hiff.mp rfl⟩ h
  · refine ⟨.regionsOutOfRange start count mapper.committed.size, rfl, ?_⟩
    intro other hbits
    rw [← hbits] at hstop ⊢
    exact Op.bind_run_error (checkRegions_of_not hstop)

theorem uncommitRegions_fault (h : ¬ mapper.Ready true start count) :
    ∃ fault : Fault, fault.isOfRegions = true ∧
      uncommitRegions start count mapper = ⟨.error (.fault fault), mapper, []⟩ := by
  obtain ⟨fault, hkind, hrun⟩ := uncommitRegions_fault_of_bits h
  exact ⟨fault, hkind, hrun mapper rfl⟩

/-! ## Calls in order -/

/-- A commit in order passes its two checks. -/
theorem Ready.commitRegions_eq (ready : mapper.Ready false start count)
    (pretoucher : Option Pretoucher) :
    commitRegions start count pretoucher mapper =
      (if count = 0 then do
        Mapper.count fun activity => activity.commit 0 0
        notify start 0 true
      else do
        let backing ← (backRegions start count pretoucher).recover (reportFailure start count)
        reportCommit start count backing
        notify start count backing.zeroFilled : Op Refusal (Mapper σ) Unit) mapper := by
  obtain ⟨clear, hclear, hiff⟩ :=
    Bitmap.isRangeClear_eq (Nat.le_add_right start count) ready.le_size
  rw [commitRegions, Op.bind_eq_after (checkRegions_of_le ready.le_size), Run.after_nil,
    Op.get_bind, hclear, hiff.mpr ready.bit_eq]
  rfl

/-- An uncommit in order passes its two checks. -/
theorem Ready.uncommitRegions_eq (ready : mapper.Ready true start count) :
    uncommitRegions start count mapper =
      (do
        let pages ← unbackRegions start count
        Mapper.count fun activity => activity.uncommit count pages
        Op.note (.regionsUncommitted mapper.memoryKind start (start + count) pages)
        Op.emit (.event (.uncommit mapper.memoryKind start count pages)) :
          Op Refusal (Mapper σ) Unit) mapper := by
  obtain ⟨set, hset, hiff⟩ :=
    Bitmap.isRangeSet_eq (Nat.le_add_right start count) ready.le_size
  rw [uncommitRegions, Op.bind_eq_after (checkRegions_of_le ready.le_size), Run.after_nil,
    Op.get_bind, hset, hiff.mpr ready.bit_eq]
  rfl

/-- A commit in order that stops does so where it backs its regions. If it is at fault, that is the
last it does. -/
theorem Ready.of_commitRegions_error {after : Mapper σ} {pretoucher : Option Pretoucher}
    {stop : Stop Refusal} {trace : List Effect} (ready : mapper.Ready false start count)
    (h : commitRegions start count pretoucher mapper = ⟨.error stop, after, trace⟩) :
    0 < count ∧ ∃ mid earlier,
      backRegions start count pretoucher mapper = ⟨.error stop, mid, earlier⟩ ∧
      (∃ activity, after = mid.withActivity activity) ∧
      ∀ fault, stop = .fault fault → mid = after ∧ earlier = trace := by
  rw [ready.commitRegions_eq] at h
  rcases Nat.eq_zero_or_pos count with rfl | hcount
  · rw [if_pos rfl, Mapper.count, Op.modify_bind, notify_run] at h
    cases h
  · refine ⟨hcount, ?_⟩
    rw [if_neg (Nat.ne_of_gt hcount)] at h
    match hback : backRegions start count pretoucher mapper with
    | ⟨.ok backing, mid, earlier⟩ =>
      obtain ⟨reported, hreport, -⟩ := reportCommit_run start count backing mid
      rw [Op.bind_eq_after (Op.recover_eq_ok hback), Op.bind_eq_after hreport, notify_run] at h
      cases h
    | ⟨.error (.fault fault), mid, earlier⟩ =>
      rw [Op.bind_run_error (Op.recover_eq_fault hback)] at h
      cases h
      exact ⟨_, _, rfl, ⟨after.activity, rfl⟩, fun _ _ => ⟨rfl, rfl⟩⟩
    | ⟨.error (.error refusal), mid, earlier⟩ =>
      rw [Op.bind_run_error (Op.recover_eq_after hback)] at h
      cases h
      exact ⟨mid, earlier, rfl, ⟨_, rfl⟩, fun _ => nofun⟩

/-! ## By strategy -/

theorem backRegions_small {regionsPerPage : Nat} {references : GranuleTable}
    (h : mapper.strategy = .small regionsPerPage references) (start count : Nat)
    (pretoucher : Option Pretoucher) :
    backRegions start count pretoucher mapper =
      commitShared regionsPerPage start count pretoucher mapper := by
  rw [backRegions, Op.get_bind, h]

theorem backRegions_large {pagesPerRegion : Nat} (h : mapper.strategy = .large pagesPerRegion)
    (start count : Nat) (pretoucher : Option Pretoucher) :
    backRegions start count pretoucher mapper =
      commitWhole pagesPerRegion start count pretoucher mapper := by
  rw [backRegions, Op.get_bind, h]

theorem unbackRegions_small {regionsPerPage : Nat} {references : GranuleTable}
    (h : mapper.strategy = .small regionsPerPage references) (start count : Nat) :
    unbackRegions start count mapper = uncommitShared regionsPerPage start count mapper := by
  rw [unbackRegions, Op.get_bind, h]

theorem unbackRegions_large {pagesPerRegion : Nat} (h : mapper.strategy = .large pagesPerRegion)
    (start count : Nat) :
    unbackRegions start count mapper = uncommitWhole pagesPerRegion start count mapper := by
  rw [unbackRegions, Op.get_bind, h]

variable [LawfulStore σ]

/-! ## Committing the pages -/

theorem backRegions_run (sound : mapper.Sound) (hcount : 0 < count)
    (ready : mapper.Ready false start count) (pretoucher : Option Pretoucher)
    (chunked : ∀ pages, mapper.strategy = .large pages → mapper.Chunked pretoucher) :
    (∃ backing after trace answers,
      backRegions start count pretoucher mapper = ⟨.ok backing, after, trace⟩ ∧
      BroughtTo true start (start + count) mapper after answers trace ∧
      (backing.zeroFilled = true → ∀ region, start ≤ region → region < start + count →
        ∀ page, mapper.strategy.Hosts page region → ∃ answer ∈ answers, answer.Zeroes page)) ∨
    (∃ stop after trace answers region,
      backRegions start count pretoucher mapper = ⟨.error stop, after, trace⟩ ∧
      BroughtTo true start region mapper after answers trace ∧
      start ≤ region ∧ region ≤ start + count ∧
      (∀ pages, mapper.strategy = .large pages → region = start ∧ after = mapper) ∧
      (Roomy mapper pretoucher → region < start + count ∧ ∃ refusal, stop = .error refusal)) := by
  cases sound with
  | small regionsPerPage references books =>
    rw [backRegions_small books.strategy_eq, books.strategy_eq]
    rcases commitShared_run books ready.le_size ready.bit_eq pretoucher with
      ⟨backing, after, trace, answers, hrun, hdone, hzeroes⟩ |
      ⟨stop, after, trace, answers, region, hrun, hdone, hfirst, hlast, hstopped⟩
    · refine Or.inl ⟨backing, after, trace, answers, hrun, hdone, ?_⟩
      intro hflag region hfirst hlast page hhosts
      obtain rfl : region / regionsPerPage = page := hhosts
      exact hzeroes hflag region hfirst hlast
    · refine Or.inr ⟨stop, after, trace, answers, region, hrun, hdone, hfirst, hlast,
        fun _ => nofun, fun roomy => ?_⟩
      obtain ⟨hlt, hstalls, -⟩ := hstopped roomy.chunked
      have hregion : region < mapper.committed.size := Nat.lt_of_lt_of_le hlt ready.le_size
      have hfits : StoreView.Fits mapper.store (region / regionsPerPage + 1) :=
        roomy.fits _ (books.size_references ▸ books.table.page_lt hregion)
      refine ⟨hlt, hstalls.exists_refusal ((hdone.reaches.succeeds.fits_iff _).mpr hfits) ?_⟩
      exact books.room_of_next (roomy.countable _ _ books.strategy_eq) hdone hregion
        (ready.bit_eq region hfirst hlt)
  | large pagesPerRegion books =>
    rw [backRegions_large books.strategy_eq]
    rcases commitWhole_run books ready.le_size ready.bit_eq
        (chunked pagesPerRegion books.strategy_eq) with
      ⟨backing, after, trace, answers, hrun, hdone, hzeroes⟩ |
      ⟨stop, trace, answers, hrun, hdone, -, hrejects, -⟩
    · refine Or.inl ⟨backing, after, trace, answers, hrun, hdone, ?_⟩
      intro hflag region hfirst hlast page hhosts
      rw [books.strategy_eq] at hhosts
      obtain rfl : page / pagesPerRegion = region := hhosts
      exact hzeroes hflag page hfirst hlast
    · exact Or.inr ⟨stop, mapper, trace, answers, start, hrun, hdone, Nat.le_refl _,
        Nat.le_add_right _ _, fun _ _ => ⟨rfl, rfl⟩,
        fun roomy => ⟨Nat.lt_add_of_pos_right hcount,
          hrejects.exists_refusal (roomy.fits _ (books.mul_le ready.le_size))⟩⟩

/-! ## Uncommitting the pages -/

theorem unbackRegions_run (sound : mapper.Sound) (ready : mapper.Ready true start count) :
    (∃ pages after trace answers,
      unbackRegions start count mapper = ⟨.ok pages, after, trace⟩ ∧
      BroughtTo false start (start + count) mapper after answers trace) ∨
    (∃ stop after trace answers region,
      unbackRegions start count mapper = ⟨.error stop, after, trace⟩ ∧
      BroughtTo false start region mapper after answers trace ∧
      start ≤ region ∧ region < start + count ∧
      (∀ pages, mapper.strategy = .large pages → region = start ∧ after = mapper) ∧
      stop.Rejects True (StoreView.Willing after.store)) := by
  cases sound with
  | small regionsPerPage references books =>
    rw [unbackRegions_small books.strategy_eq, books.strategy_eq]
    rcases uncommitShared_run books ready.le_size ready.bit_eq with
      ⟨pages, after, trace, hrun, ⟨answers, hdone⟩, -⟩ |
      ⟨stop, after, trace, region, hrun, hfirst, hlast, ⟨answers, hdone⟩, hsticks, -⟩
    · exact Or.inl ⟨pages, after, trace, answers, hrun, hdone⟩
    · exact Or.inr ⟨stop, after, trace, answers, region, hrun, hdone, hfirst, hlast,
        fun _ => nofun, hsticks.rejects⟩
  | large pagesPerRegion books =>
    rw [unbackRegions_large books.strategy_eq]
    rcases uncommitWhole_run books ready.le_size ready.bit_eq with
      ⟨pages, after, trace, answers, hrun, hdone, -⟩ |
      ⟨stop, trace, answers, hrun, hdone, hcount, hrejects, -⟩
    · exact Or.inl ⟨pages, after, trace, answers, hrun, hdone⟩
    · exact Or.inr ⟨stop, mapper, trace, answers, start, hrun, hdone, Nat.le_refl _,
        Nat.lt_add_of_pos_right hcount, fun _ _ => ⟨rfl, rfl⟩, hrejects⟩

/-! ## Whole calls -/

/-- A commit in order. It comes to its end, and last of all the listener hears of it; or it stops
with the regions before one of the range done. -/
theorem commitRegions_run (sound : mapper.Sound) (ready : mapper.Ready false start count)
    (pretoucher : Option Pretoucher)
    (chunked : ∀ pages, mapper.strategy = .large pages → mapper.Chunked pretoucher) :
    (∃ zeroFilled after trace answers,
      commitRegions start count pretoucher mapper =
        ⟨.ok (), after, trace ++ after.told start count zeroFilled⟩ ∧
      BroughtTo true start (start + count) mapper after answers trace ∧
      (zeroFilled = true → ∀ region, start ≤ region → region < start + count →
        ∀ page, mapper.strategy.Hosts page region → ∃ answer ∈ answers, answer.Zeroes page)) ∨
    (∃ stop after trace answers region,
      commitRegions start count pretoucher mapper = ⟨.error stop, after, trace⟩ ∧
      BroughtTo true start region mapper after answers trace ∧
      start ≤ region ∧ region ≤ start + count ∧
      (∀ pages, mapper.strategy = .large pages →
        region = start ∧ ∃ activity, after = mapper.withActivity activity) ∧
      (Roomy mapper pretoucher → region < start + count ∧ ∃ refusal, stop = .error refusal)) := by
  rw [ready.commitRegions_eq]
  rcases Nat.eq_zero_or_pos count with rfl | hcount
  · left
    -- A commit of no regions does not call the store: only the counters change.
    have hdone := (BroughtTo.refl sound true (Nat.le_refl start)).report
      (mapper.activity.commit 0 0) .nil
    refine ⟨true, _, [], [], ?_, hdone, fun _ region hfirst hlast => absurd hfirst (by omega)⟩
    rw [if_pos rfl, Mapper.count, Op.modify_bind, notify_run]
    rfl
  · rw [if_neg (Nat.ne_of_gt hcount)]
    rcases backRegions_run sound hcount ready pretoucher chunked with
      ⟨backing, after, trace, answers, hrun, hdone, hzeroes⟩ |
      ⟨stop, after, trace, answers, region, hrun, hdone, hfirst, hlast, hlarge, hroom⟩
    · left
      obtain ⟨reported, hreport, hsilent, -⟩ := reportCommit_run start count backing after
      refine ⟨backing.zeroFilled, _, _, _, ?_, hdone.report
        ((after.activity.commit count backing.pages).place backing.placements) hsilent, hzeroes⟩
      rw [Op.bind_eq_after (Op.recover_eq_ok hrun), Op.bind_eq_after hreport, notify_run,
        Run.after_mk, Run.after_mk, ← List.append_assoc]
    · right
      -- A refusal is counted and reported on its way out, a fault is not.
      cases stop with
      | fault fault =>
        exact ⟨_, after, trace, answers, region, Op.bind_run_error (Op.recover_eq_fault hrun),
          hdone, hfirst, hlast, fun pages hpages => ⟨(hlarge pages hpages).1, mapper.activity,
            (hlarge pages hpages).2⟩, hroom⟩
      | error refusal =>
        refine ⟨_, _, _, _, region, Op.bind_run_error (Op.recover_eq_after hrun),
          hdone.report after.activity.commitFailure ⟨rfl, rfl⟩, hfirst, hlast,
          fun pages hpages => ⟨(hlarge pages hpages).1, after.activity.commitFailure, ?_⟩, hroom⟩
        exact congrArg (·.withActivity after.activity.commitFailure) (hlarge pages hpages).2

/-- An uncommit in order. It comes to its end, or the store refuses with the regions before one of
the range done. -/
theorem uncommitRegions_run (sound : mapper.Sound) (ready : mapper.Ready true start count) :
    (∃ after trace answers,
      uncommitRegions start count mapper = ⟨.ok (), after, trace⟩ ∧
      BroughtTo false start (start + count) mapper after answers trace) ∨
    (∃ stop after trace answers region,
      uncommitRegions start count mapper = ⟨.error stop, after, trace⟩ ∧
      BroughtTo false start region mapper after answers trace ∧
      start ≤ region ∧ region < start + count ∧
      (∀ pages, mapper.strategy = .large pages → region = start ∧ after = mapper) ∧
      stop.Rejects True (StoreView.Willing after.store)) := by
  rw [ready.uncommitRegions_eq]
  rcases unbackRegions_run sound ready with
    ⟨pages, after, trace, answers, hrun, hdone⟩ |
    ⟨stop, after, trace, answers, region, hrun, hdone, hrest⟩
  · left
    exact ⟨_, _, _, Op.bind_run_ok hrun,
      hdone.report (after.activity.uncommit count pages) ⟨rfl, rfl⟩⟩
  · right
    exact ⟨stop, after, trace, answers, region, Op.bind_run_error hrun, hdone, hrest⟩

end RegionBacking.Mapper
