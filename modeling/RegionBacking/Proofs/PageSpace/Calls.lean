import RegionBacking.Proofs.PageSpace.Bookkeeping
import RegionBacking.Proofs.Pretouch
import RegionBacking.Proofs.Stores

/-!
# Calls of a page space

A page space whose books are in order takes a call in one of three ways. A range that is not legal
is a fault; a request that the operating system refuses is a refusal; in both cases the space is
left as it was. Otherwise the space is the one that `acquired` or `released` names. A pinned space
makes no request.
-/

namespace RegionBacking.PageSpace

variable {space : PageSpace} {start stop count : Nat}

/-! ## Addresses of pages -/

theorem pageStart_eq_ok {page : Nat} (h : space.firstAddress page < Word.limit) :
    space.pageStart page = .ok (space.firstAddress page) := by
  unfold firstAddress at h
  have hmul : Word.mul page space.pageSize = .ok (page * space.pageSize) :=
    Word.mul_eq_ok_iff.mpr ⟨by omega, rfl⟩
  have hadd : Word.add space.base (page * space.pageSize) = .ok (space.firstAddress page) :=
    Word.add_eq_ok_iff.mpr ⟨h, rfl⟩
  rw [pageStart, hmul]
  exact hadd

theorem pageStart_eq_error {page : Nat} (h : ¬ space.firstAddress page < Word.limit) :
    ∃ fault : Fault, fault.isOfBounds = true ∧ space.pageStart page = .error fault := by
  unfold firstAddress at h
  unfold pageStart Word.mul Word.add
  split
  · exact ⟨.addOverflow, rfl, if_neg h⟩
  · exact ⟨.mulOverflow, rfl, rfl⟩

theorem pageBounds_eq_ok (h : start ≤ stop) (hstop : space.firstAddress stop < Word.limit) :
    space.pageBounds start stop =
      .ok (space.firstAddress start, min (space.firstAddress stop) space.usedLimit) := by
  have hstart := space.firstAddress_mono h
  rw [pageBounds, pageStart_eq_ok (by omega), pageStart_eq_ok hstop]
  rfl

theorem pageBounds_eq_error (start : Nat) (hstop : ¬ space.firstAddress stop < Word.limit) :
    ∃ fault : Fault, fault.isOfBounds = true ∧ space.pageBounds start stop = .error fault := by
  obtain ⟨fault, hkind, hfault⟩ := pageStart_eq_error hstop
  rw [pageBounds, hfault]
  -- If the first address is no word either, that is the fault that is met.
  by_cases hstart : space.firstAddress start < Word.limit
  · exact ⟨fault, hkind, by rw [pageStart_eq_ok hstart]; rfl⟩
  · obtain ⟨fault', hkind', hfault'⟩ := pageStart_eq_error hstart
    exact ⟨fault', hkind', by rw [hfault']; rfl⟩

/-! ## Legal ranges -/

/-- The pages below one are there, and their addresses are words. -/
structure Fits (space : PageSpace) (stop : Nat) : Prop where
  le_committable : stop ≤ space.committablePages
  lt_limit : space.firstAddress stop < Word.limit

theorem Fits.mono {first : Nat} (fits : space.Fits stop) (h : first ≤ stop) : space.Fits first :=
  ⟨Nat.le_trans h fits.le_committable, Nat.lt_of_le_of_lt (space.firstAddress_mono h) fits.lt_limit⟩

/-- A page whose end is a word has a size that is one. -/
theorem Fits.pageSize_lt (fits : space.Fits stop) (h : 0 < stop) : space.pageSize < Word.limit := by
  have hone := Nat.le_mul_of_pos_left space.pageSize h
  have hlimit := fits.lt_limit
  rw [firstAddress] at hlimit
  omega

/-- The pages `[start, stop)` fit, and all of them are committed or none is, as is asked for. -/
structure Legal (space : PageSpace) (committed : Bool) (start stop : Nat) : Prop
    extends Fits space stop where
  bit_eq : ∀ page, start ≤ page → page < stop → space.committed.bit page = committed

/-- Committed pages are legal to uncommit. -/
theorem Sound.legal_of_set (sound : space.Sound) (h : start < stop)
    (set : ∀ page, start ≤ page → page < stop → space.committed.bit page = true) :
    space.Legal true start stop := by
  have hlast := set (stop - 1) (by omega) (by omega)
  have hcommittable := sound.lt_committable _ hlast
  have haddress := sound.address_lt _ hlast
  rw [Nat.sub_add_cancel (by omega)] at haddress
  exact ⟨⟨by omega, haddress⟩, set⟩

/-- The index of a page is a word where its address is one. -/
theorem Legal.lt_word {committed : Bool} (legal : space.Legal committed start stop)
    (sound : space.Sound) : stop < Word.limit := by
  have hlimit := legal.lt_limit
  have hmul := Nat.le_mul_of_pos_right stop sound.pageSize_pos
  unfold firstAddress at hlimit
  omega

theorem checkPages_of_le (h : start + count ≤ space.committablePages)
    (hword : start + count < Word.limit) :
    checkPages start count space = ⟨.ok (start + count), space, []⟩ := by
  have hadd : Word.add start count = .ok (start + count) := Word.add_eq_ok_iff.mpr ⟨hword, rfl⟩
  simp [checkPages, hadd, h]

theorem checkPages_of_not (h : ¬ (start + count ≤ space.committablePages ∧
    start + count < Word.limit)) :
    ∃ fault : Fault, fault.isOfBounds = true ∧
      checkPages start count space = ⟨.error (.fault fault), space, []⟩ := by
  by_cases hword : start + count < Word.limit
  · have hadd : Word.add start count = .ok (start + count) := Word.add_eq_ok_iff.mpr ⟨hword, rfl⟩
    have hout : ¬ start + count ≤ space.committablePages := fun hle => h ⟨hle, hword⟩
    exact ⟨.pagesBeyondUsed start (start + count) space.committablePages, rfl,
      by simp [checkPages, hadd, hout]; rfl⟩
  · have hadd : Word.add start count = .error .addOverflow := if_neg hword
    exact ⟨.addOverflow, rfl, by simp [checkPages, hadd]⟩

/-! ## Requests to the operating system -/

/-- The request that backs the pages `[start, stop)`. -/
def commitRequest (space : PageSpace) (start stop : Nat) : Request :=
  ⟨.commit, space.firstAddress start, space.usedSpan start stop⟩

/-- The request that gives the pages `[start, stop)` up. -/
def uncommitRequest (space : PageSpace) (start stop : Nat) : Request :=
  ⟨.uncommit, space.firstAddress start, space.usedSpan start stop⟩

/-- The requests of a call: a pinned space makes none. -/
def requested (space : PageSpace) (request : Request) : List Effect :=
  if space.pinned then [] else [.request request]

/-- Effects that are a given request or a record of the log. -/
def Asks (request : Request) (trace : List Effect) : Prop :=
  ∀ effect ∈ trace, effect = .request request ∨ ∃ record, effect = .record record

namespace Asks

variable {request other : Request} {trace : List Effect}

theorem single (request : Request) : Asks request [.request request] :=
  fun _ h => .inl (List.mem_singleton.mp h)

theorem record (asks : Asks request trace) (record : Record) :
    Asks request (trace ++ [.record record]) := by
  intro effect heffect
  rcases List.mem_append.mp heffect with h | h
  · exact asks effect h
  · exact .inr ⟨record, List.mem_singleton.mp h⟩

theorem requested (space : PageSpace) (request : Request) :
    Asks request (space.requested request) := by
  unfold PageSpace.requested
  split
  · exact fun _ => nofun
  · exact single request

theorem quiet (asks : Asks request trace) : Quiet trace := by
  intro effect heffect
  rcases asks effect heffect with rfl | ⟨record, rfl⟩
  · rfl
  · rfl

theorem eq_of_mem (asks : Asks request trace) (h : other ∈ Effect.requests trace) :
    other = request := by
  obtain ⟨effect, heffect, hview⟩ := List.mem_filterMap.mp h
  rcases asks effect heffect with rfl | ⟨record, rfl⟩
  · cases hview
    rfl
  · cases hview

end Asks

/-- The machine refuses nothing, or nothing is asked of it: a pinned space makes no request. -/
def Willing (space : PageSpace) : Prop :=
  space.pinned = false → ∀ request, space.machine.refuses request = false

/-- A request of a space is granted, or its machine is not willing. -/
theorem granted_or_refused (space : PageSpace) (request : Request) :
    (space.pinned = false → space.machine.refuses request = false) ∨
      (space.pinned = false ∧ space.machine.refuses request = true ∧ ¬ space.Willing) := by
  by_cases hgranted : space.pinned = false → space.machine.refuses request = false
  · exact .inl hgranted
  · have unwilling : ¬ space.Willing := fun willing => hgranted fun hpinned => willing hpinned _
    rw [Classical.not_imp, Bool.not_eq_false] at hgranted
    exact .inr ⟨hgranted.1, hgranted.2, unwilling⟩

/-- What the operating system answers to a request for a range of the used part. -/
theorem perform_eq {machine : Machine} {request : Request} {change : Memory → Memory}
    (hlength : request.length ≠ 0) (haligned : Word.osPage ∣ request.address) :
    Machine.perform request change machine =
      if machine.refuses request then ⟨.error (.error .outOfMemory), machine, [.request request]⟩
      else ⟨.ok (), { machine with memory := change machine.memory }, [.request request]⟩ := by
  have hmod : request.address % Word.osPage = 0 := Nat.mod_eq_zero_of_dvd haligned
  unfold Machine.perform
  simp only [Op.emit_bind, Op.get_bind, hlength, hmod, ne_eq, not_true_eq_false, or_self, if_false]
  split <;> rfl

/-- A range of committable pages has used bytes. -/
theorem usedSpan_pos (sound : space.Sound) (h : start < stop)
    (hstop : stop ≤ space.committablePages) : 0 < space.usedSpan start stop := by
  have hstart := (lt_committablePages_iff sound.pageSize_pos start).mp (by omega)
  have hmul := Nat.mul_lt_mul_of_pos_right h sound.pageSize_pos
  simp only [usedSpan, firstAddress, usedLimit]
  omega

theorem osPage_dvd_firstAddress (sound : space.Sound) (page : Nat) :
    Word.osPage ∣ space.firstAddress page :=
  Nat.dvd_add sound.base_aligned (Dvd.dvd.mul_left sound.pageSize_aligned page)

/-- The used part of a range of pages lies in the reservation. -/
theorem checkRange_eq {ε σ : Type} (sound : space.Sound) (h : start < stop)
    (hstop : stop ≤ space.committablePages) :
    (space.reservation.checkRange (space.firstAddress start) (space.usedSpan start stop) :
        Op ε σ Unit) = pure () := by
  have hused := sound.usedSize_le
  have hspan := usedSpan_pos sound h hstop
  have hlow : space.reservation.base ≤ space.firstAddress start := Nat.le_add_right _ _
  have hhigh : Word.saturatingAdd (space.firstAddress start) (space.usedSpan start stop) ≤
      space.reservation.limit := by
    unfold usedSpan usedLimit base at *
    unfold Word.saturatingAdd Reservation.limit
    omega
  simp [Reservation.checkRange, hlow, hhigh]

theorem onMachine_run {ε α : Type} {op : Op ε Machine α} {machine : Machine}
    {result : Except (Stop ε) α} {trace : List Effect}
    (h : op space.machine = ⟨result, machine, trace⟩) :
    onMachine op space = ⟨result, { space with machine }, trace⟩ := by
  rw [onMachine, Op.within_run, h]

theorem commitRange_run (sound : space.Sound) (h : start < stop)
    (hstop : stop ≤ space.committablePages) :
    space.reservation.commitRange (space.firstAddress start) (space.usedSpan start stop)
        space.machine =
      if space.machine.refuses (space.commitRequest start stop) then
        ⟨.error (.error .outOfMemory), space.machine, [.request (space.commitRequest start stop)]⟩
      else
        ⟨.ok (), { space.machine with memory := space.zeroedMemory start stop },
          [.request (space.commitRequest start stop)]⟩ := by
  have hlength := Nat.ne_of_gt (usedSpan_pos sound h hstop)
  rw [Reservation.commitRange, checkRange_eq sound h hstop, pure_bind, Machine.commit,
    perform_eq hlength (osPage_dvd_firstAddress sound start)]
  rfl

/-- The operating system backs the pages `[start, stop)` unless it refuses to. -/
theorem back_run (sound : space.Sound) (h : start < stop) (hstop : stop ≤ space.committablePages) :
    back start (space.firstAddress start) (min (space.firstAddress stop) space.usedLimit) space =
      if space.machine.refuses (space.commitRequest start stop) then
        ⟨.error (.error (.outOfMemory (space.usedSpan start stop) start)), space,
          [.request (space.commitRequest start stop),
            .record (.commitRefused (space.usedSpan start stop) start .outOfMemory)]⟩
      else
        ⟨.ok (), { space with
            machine := { space.machine with memory := space.zeroedMemory start stop } },
          [.request (space.commitRequest start stop)]⟩ := by
  have hrun := commitRange_run sound h hstop
  have hspan : min (space.firstAddress stop) space.usedLimit - space.firstAddress start =
    space.usedSpan start stop := rfl
  rw [back, Op.get_bind, hspan]
  by_cases hrefuses : space.machine.refuses (space.commitRequest start stop) = true
  · rw [if_pos hrefuses] at hrun ⊢
    exact Op.recover_eq_after (onMachine_run hrun)
  · rw [if_neg hrefuses] at hrun ⊢
    exact Op.recover_eq_ok (onMachine_run hrun)

theorem uncommitRange_run (sound : space.Sound) (h : start < stop)
    (hstop : stop ≤ space.committablePages) :
    space.reservation.uncommitRange (space.firstAddress start) (space.usedSpan start stop)
        space.machine =
      if space.machine.refuses (space.uncommitRequest start stop) then
        ⟨.error (.error .outOfMemory), space.machine, [.request (space.uncommitRequest start stop)]⟩
      else
        ⟨.ok (), { space.machine with memory := space.closedMemory start stop },
          [.request (space.uncommitRequest start stop)]⟩ := by
  have hlength := Nat.ne_of_gt (usedSpan_pos sound h hstop)
  rw [Reservation.uncommitRange, checkRange_eq sound h hstop, pure_bind, Machine.uncommit,
    perform_eq hlength (osPage_dvd_firstAddress sound start)]
  rfl

/-- The operating system takes the pages `[start, stop)` back unless it refuses to. -/
theorem unback_run (sound : space.Sound) (h : start < stop)
    (hstop : stop ≤ space.committablePages) :
    unback start stop (space.firstAddress start) (min (space.firstAddress stop) space.usedLimit)
        space =
      if space.machine.refuses (space.uncommitRequest start stop) then
        ⟨.error (.error (.uncommit (.pages start stop (space.firstAddress start) .outOfMemory))),
          space, [.request (space.uncommitRequest start stop)]⟩
      else
        ⟨.ok (), { space with
            machine := { space.machine with memory := space.closedMemory start stop } },
          [.request (space.uncommitRequest start stop)]⟩ := by
  have hrun := uncommitRange_run sound h hstop
  have hspan : min (space.firstAddress stop) space.usedLimit - space.firstAddress start =
    space.usedSpan start stop := rfl
  rw [unback, Op.get_bind, hspan]
  by_cases hrefuses : space.machine.refuses (space.uncommitRequest start stop) = true
  · rw [if_pos hrefuses] at hrun ⊢
    exact Op.recover_eq_after (onMachine_run hrun)
  · rw [if_neg hrefuses] at hrun ⊢
    exact Op.recover_eq_ok (onMachine_run hrun)

/-! ## Committing -/

theorem commit_zero (start : Nat) (space : PageSpace) :
    commit start 0 space = ⟨.ok true, space, []⟩ := rfl

/-- The pages of a legal range are checked and found to be as they have to be. -/
theorem Legal.isRangeClear_eq (legal : space.Legal false start stop) (sound : space.Sound)
    (h : start ≤ stop) : space.committed.isRangeClear start stop = .ok true := by
  obtain ⟨clear, hclear, hiff⟩ :=
    Bitmap.isRangeClear_eq h (Nat.le_trans legal.le_committable sound.committablePages_le)
  rw [hclear, hiff.mpr legal.bit_eq]

/-- A range that is not legal is a fault, and nothing happens: the range leads too far, or a page of
it is committed. -/
theorem commit_eq_fault (sound : space.Sound) (hpos : 0 < count)
    (h : ¬ space.Legal false start (start + count)) :
    ∃ fault : Fault, (fault.isOfBounds = true ∨ fault.isOfPages = true ∧
        ¬ ∀ page, start ≤ page → page < start + count → space.committed.bit page = false) ∧
      commit start count space = ⟨.error (.fault fault), space, []⟩ := by
  have hle : start ≤ start + count := Nat.le_add_right start count
  unfold commit
  rw [if_neg (Nat.ne_of_gt hpos)]
  -- A range is not legal because of its end, of one of its bits, or of an address: in this order.
  by_cases hin : start + count ≤ space.committablePages ∧ start + count < Word.limit
  · obtain ⟨clear, hclear, hiff⟩ :=
      Bitmap.isRangeClear_eq hle (Nat.le_trans hin.1 sound.committablePages_le)
    rw [Op.bind_eq_after (checkPages_of_le hin.1 hin.2), Run.after_nil, Op.get_bind, hclear,
      Op.checked_ok, pure_bind]
    cases clear with
    | false => exact ⟨_, .inr ⟨rfl, fun hbits => Bool.false_ne_true (hiff.mpr hbits)⟩, rfl⟩
    | true =>
      -- The bits are as they have to be, so it is an address that is no word.
      have hlimit : ¬ space.firstAddress (start + count) < Word.limit := by
        intro hlimit
        exact h ⟨⟨hin.1, hlimit⟩, hiff.mp rfl⟩
      obtain ⟨fault, hkind, hfault⟩ := pageBounds_eq_error start hlimit
      exact ⟨fault, .inl hkind, by rw [Op.require_true, pure_bind, hfault]; rfl⟩
  · obtain ⟨fault, hkind, hfault⟩ := checkPages_of_not hin
    exact ⟨fault, .inl hkind, Op.bind_run_error hfault⟩

theorem legal_of_commit_ok (sound : space.Sound) (hpos : 0 < count) {zeroFilled : Bool}
    (h : (commit start count space).result = .ok zeroFilled) :
    space.Legal false start (start + count) := by
  by_contra illegal
  obtain ⟨fault, -, hrun⟩ := commit_eq_fault sound hpos illegal
  rw [hrun] at h
  cases h

/-- A legal range passes the checks of a commit. -/
theorem Legal.commit_eq (legal : space.Legal false start (start + count)) (sound : space.Sound)
    (hpos : 0 < count) :
    commit start count space =
      (do
        let zeroFilled ←
          if space.pinned then do
            let clean ← Op.checked (space.dirty.isRangeClear start (start + count))
            let dirty ← Op.checked (space.dirty.clearRange start (start + count))
            Op.modify fun space => { space with dirty }
            pure clean
          else do
            back start (space.firstAddress start)
              (min (space.firstAddress (start + count)) space.usedLimit)
            pure true
        let committed ← Op.checked (space.committed.setRange start (start + count))
        Op.modify fun after =>
          { after with
            committed
            committedBytes := after.committedBytes + space.usedSpan start (start + count) }
        Op.note (.pagesCommitted start (start + count) (space.firstAddress start) zeroFilled)
        pure zeroFilled : Op Refusal PageSpace Bool) space := by
  have hle : start ≤ start + count := Nat.le_add_right start count
  rw [commit, if_neg (Nat.ne_of_gt hpos),
    Op.bind_eq_after (checkPages_of_le legal.le_committable (legal.lt_word sound)),
    Run.after_nil, Op.get_bind, legal.isRangeClear_eq sound hle, Op.checked_ok, pure_bind,
    Op.require_true, pure_bind, pageBounds_eq_ok hle legal.lt_limit, Op.checked_ok, pure_bind]
  rfl

/-- Where the operating system refuses to back a range, nothing happens. -/
theorem commit_eq_refused (sound : space.Sound) (hpos : 0 < count)
    (legal : space.Legal false start (start + count)) (hpinned : space.pinned = false)
    (hrefuses : space.machine.refuses (space.commitRequest start (start + count)) = true) :
    commit start count space =
      ⟨.error (.error (.outOfMemory (space.usedSpan start (start + count)) start)), space,
        [.request (space.commitRequest start (start + count)),
          .record (.commitRefused (space.usedSpan start (start + count)) start .outOfMemory)]⟩ := by
  have hlt : start < start + count := Nat.lt_add_of_pos_right hpos
  have hback := back_run sound hlt legal.le_committable
  rw [if_pos hrefuses] at hback
  rw [legal.commit_eq sound hpos, hpinned]
  simp only [Bool.false_eq_true, if_false]
  exact Op.bind_run_error hback

/-- A commit that is not refused comes to its end. Its pages are sure to read as zero unless one of
them is dirty. -/
theorem commit_eq_ok (sound : space.Sound) (hpos : 0 < count)
    (legal : space.Legal false start (start + count))
    (hgranted : space.pinned = false →
      space.machine.refuses (space.commitRequest start (start + count)) = false) :
    ∃ zeroFilled,
      commit start count space =
        ⟨.ok zeroFilled, space.acquired start (start + count),
          space.requested (space.commitRequest start (start + count)) ++
            [.record (.pagesCommitted start (start + count) (space.firstAddress start)
              zeroFilled)]⟩ ∧
      (zeroFilled = true ↔
        ∀ page, start ≤ page → page < start + count → space.dirty.bit page = false) := by
  have hlt : start < start + count := Nat.lt_add_of_pos_right hpos
  have hle := Nat.le_of_lt hlt
  have hcommitted := Nat.le_trans legal.le_committable sound.committablePages_le
  have hdirty := Nat.le_trans legal.le_committable sound.committablePages_le_dirty
  rw [legal.commit_eq sound hpos]
  cases hpinned : space.pinned with
  | false =>
    -- The operating system maps new memory. Only pinned spaces have dirty pages, so none is dirty.
    have hback := back_run sound hlt legal.le_committable
    rw [if_neg (by simp [hgranted hpinned])] at hback
    simp only [Bool.false_eq_true, if_false]
    rw [Op.bind_eq_after hback, pure_bind, Bitmap.setRange_eq_ok hle hcommitted]
    exact ⟨true, by simp [acquired, requested, usedSpan, hpinned, -bind_pure_comp],
      fun _ page _ _ => sound.not_dirty hpinned page, fun _ => rfl⟩
  | true =>
    -- The memory stays as it is, so it is the dirty bits of the range that tell.
    obtain ⟨clean, hclean, hiff⟩ := Bitmap.isRangeClear_eq hle hdirty
    simp only [if_true]
    rw [hclean, Bitmap.clearRange_eq_ok hle hdirty, Op.checked_ok, pure_bind, Op.checked_ok,
      pure_bind, Op.modify_bind, pure_bind, Bitmap.setRange_eq_ok hle hcommitted]
    exact ⟨clean, by simp [acquired, requested, usedSpan, hpinned, -bind_pure_comp], hiff⟩

/-- A commit of a legal range comes to its end, or the operating system refuses it. -/
theorem Legal.commit_run (legal : space.Legal false start (start + count)) (sound : space.Sound)
    (hpos : 0 < count) :
    (∃ zeroFilled trace,
      commit start count space = ⟨.ok zeroFilled, space.acquired start (start + count), trace⟩ ∧
      Asks (space.commitRequest start (start + count)) trace ∧ (zeroFilled = true ↔
        ∀ page, start ≤ page → page < start + count → space.dirty.bit page = false)) ∨
    (∃ refusal trace, commit start count space = ⟨.error (.error refusal), space, trace⟩ ∧
      Asks (space.commitRequest start (start + count)) trace ∧ ¬ space.Willing) := by
  rcases space.granted_or_refused (space.commitRequest start (start + count)) with
    hgranted | ⟨hpinned, hrefuses, unwilling⟩
  · obtain ⟨zeroFilled, hrun, hiff⟩ := commit_eq_ok sound hpos legal hgranted
    exact .inl ⟨zeroFilled, _, hrun, (Asks.requested _ _).record _, hiff⟩
  · exact .inr ⟨_, _, commit_eq_refused sound hpos legal hpinned hrefuses,
      (Asks.single _).record _, unwilling⟩

/-- A commit is refused only where the operating system refuses its request. -/
theorem of_commit_refused (sound : space.Sound) {refusal : Refusal}
    (h : (commit start count space).result = .error (.error refusal)) :
    space.pinned = false ∧
      space.machine.refuses (space.commitRequest start (start + count)) = true ∧
      refusal = .outOfMemory (space.usedSpan start (start + count)) start := by
  rcases Nat.eq_zero_or_pos count with rfl | hpos
  · cases h
  by_cases legal : space.Legal false start (start + count)
  · rcases space.granted_or_refused (space.commitRequest start (start + count)) with
      hgranted | ⟨hpinned, hrefuses, -⟩
    · obtain ⟨zeroFilled, hrun, -⟩ := commit_eq_ok sound hpos legal hgranted
      rw [hrun] at h
      cases h
    · rw [commit_eq_refused sound hpos legal hpinned hrefuses] at h
      cases h
      exact ⟨hpinned, hrefuses, rfl⟩
  · obtain ⟨fault, -, hrun⟩ := commit_eq_fault sound hpos legal
    rw [hrun] at h
    cases h

/-- A commit acquires its pages, or it leaves the space as it was: it is a commit of no pages, or it
stops. -/
theorem commit_cases (sound : space.Sound) (start count : Nat) :
    (∃ result trace, commit start count space = ⟨result, space, trace⟩ ∧ Quiet trace ∧
      (∀ zeroFilled, result = .ok zeroFilled → count = 0) ∧
      (∀ stop, result = .error stop →
        (∀ page, start ≤ page → page < start + count → space.committed.bit page = false) →
        stop.Rejects (space.Fits (start + count)) space.Willing)) ∨
    (0 < count ∧ space.Legal false start (start + count) ∧ ∃ zeroFilled trace,
      commit start count space = ⟨.ok zeroFilled, space.acquired start (start + count), trace⟩ ∧
      Quiet trace ∧
      (zeroFilled = true →
        ∀ page, start ≤ page → page < start + count → space.dirty.bit page = false)) := by
  rcases Nat.eq_zero_or_pos count with rfl | hpos
  · exact Or.inl ⟨_, _, commit_zero start space, .nil, fun _ _ => rfl, fun _ => nofun⟩
  by_cases legal : space.Legal false start (start + count)
  · rcases legal.commit_run sound hpos with
      ⟨zeroFilled, trace, hrun, asks, hiff⟩ | ⟨refusal, trace, hrun, asks, unwilling⟩
    · exact Or.inr ⟨hpos, legal, zeroFilled, trace, hrun, asks.quiet, hiff.mp⟩
    · refine Or.inl ⟨_, trace, hrun, asks.quiet, fun _ => nofun, ?_⟩
      intro stop hstop _
      cases hstop
      exact .refused _ unwilling
  · obtain ⟨fault, hkind, hrun⟩ := commit_eq_fault sound hpos legal
    refine Or.inl ⟨_, _, hrun, .nil, fun _ => nofun, ?_⟩
    intro stop hstop clear
    cases hstop
    have hbounds := hkind.resolve_right fun h => h.2 clear
    exact .unfit fault (fun fits => legal ⟨fits, clear⟩) (Fault.isOfPages_of_isOfBounds hbounds)

/-! ## Uncommitting -/

theorem uncommit_zero (start : Nat) (space : PageSpace) :
    uncommit start 0 space = ⟨.ok (), space, []⟩ := rfl

theorem Legal.isRangeSet_eq (legal : space.Legal true start stop) (sound : space.Sound)
    (h : start ≤ stop) : space.committed.isRangeSet start stop = .ok true := by
  obtain ⟨set, hset, hiff⟩ :=
    Bitmap.isRangeSet_eq h (Nat.le_trans legal.le_committable sound.committablePages_le)
  rw [hset, hiff.mpr legal.bit_eq]

/-- A range that is not legal is a fault, and nothing happens: the range leads too far, or a page of
it is not committed. -/
theorem uncommit_eq_fault (sound : space.Sound) (hpos : 0 < count)
    (h : ¬ space.Legal true start (start + count)) :
    ∃ fault : Fault, (fault.isOfBounds = true ∨ fault.isOfPages = true) ∧
      uncommit start count space = ⟨.error (.fault fault), space, []⟩ := by
  have hle : start ≤ start + count := Nat.le_add_right start count
  unfold uncommit
  rw [if_neg (Nat.ne_of_gt hpos)]
  -- As for a commit: the end of the range, then its bits, then its addresses.
  by_cases hin : start + count ≤ space.committablePages ∧ start + count < Word.limit
  · obtain ⟨set, hset, hiff⟩ :=
      Bitmap.isRangeSet_eq hle (Nat.le_trans hin.1 sound.committablePages_le)
    rw [Op.bind_eq_after (checkPages_of_le hin.1 hin.2), Run.after_nil, Op.get_bind, hset,
      Op.checked_ok, pure_bind]
    cases set with
    | false => exact ⟨.pagesNotCommitted start (start + count), .inr rfl, rfl⟩
    | true =>
      have hlimit : ¬ space.firstAddress (start + count) < Word.limit := by
        intro hlimit
        exact h ⟨⟨hin.1, hlimit⟩, hiff.mp rfl⟩
      obtain ⟨fault, hkind, hfault⟩ := pageBounds_eq_error start hlimit
      exact ⟨fault, .inl hkind, by rw [Op.require_true, pure_bind, hfault]; rfl⟩
  · obtain ⟨fault, hkind, hfault⟩ := checkPages_of_not hin
    exact ⟨fault, .inl hkind, Op.bind_run_error hfault⟩

theorem legal_of_uncommit_ok (sound : space.Sound) (hpos : 0 < count)
    (h : (uncommit start count space).result = .ok ()) :
    space.Legal true start (start + count) := by
  by_contra illegal
  obtain ⟨fault, -, hrun⟩ := uncommit_eq_fault sound hpos illegal
  rw [hrun] at h
  cases h

/-- A legal range passes the checks of an uncommit. -/
theorem Legal.uncommit_eq (legal : space.Legal true start (start + count)) (sound : space.Sound)
    (hpos : 0 < count) :
    uncommit start count space =
      (do
        if space.pinned then
          let dirty ← Op.checked (space.dirty.setRange start (start + count))
          Op.modify fun space => { space with dirty }
        else
          unback start (start + count) (space.firstAddress start)
            (min (space.firstAddress (start + count)) space.usedLimit)
        let committed ← Op.checked (space.committed.clearRange start (start + count))
        let committedBytes ←
          Op.checked (Word.sub space.committedBytes (space.usedSpan start (start + count)))
        Op.modify fun space => { space with committed, committedBytes }
        Op.note (.pagesUncommitted start (start + count) (space.firstAddress start)) :
          Op Refusal PageSpace Unit) space := by
  have hle : start ≤ start + count := Nat.le_add_right start count
  rw [uncommit, if_neg (Nat.ne_of_gt hpos),
    Op.bind_eq_after (checkPages_of_le legal.le_committable (legal.lt_word sound)),
    Run.after_nil, Op.get_bind, legal.isRangeSet_eq sound hle, Op.checked_ok, pure_bind,
    Op.require_true, pure_bind, pageBounds_eq_ok hle legal.lt_limit, Op.checked_ok, pure_bind]
  rfl

/-- Where the operating system refuses to take a range back, nothing happens. -/
theorem uncommit_eq_refused (sound : space.Sound) (hpos : 0 < count)
    (legal : space.Legal true start (start + count)) (hpinned : space.pinned = false)
    (hrefuses : space.machine.refuses (space.uncommitRequest start (start + count)) = true) :
    uncommit start count space =
      ⟨.error (.error (.uncommit (.pages start (start + count) (space.firstAddress start)
          .outOfMemory))), space,
        [.request (space.uncommitRequest start (start + count))]⟩ := by
  have hlt : start < start + count := Nat.lt_add_of_pos_right hpos
  have hunback := unback_run sound hlt legal.le_committable
  rw [if_pos hrefuses] at hunback
  rw [legal.uncommit_eq sound hpos, hpinned]
  simp only [Bool.false_eq_true, if_false]
  exact Op.bind_run_error hunback

/-- The bytes of committed pages are counted as committed, so they can be taken off. -/
theorem sub_committedBytes (sound : space.Sound) (h : start < stop)
    (legal : space.Legal true start stop) :
    Word.sub space.committedBytes (space.usedSpan start stop) =
      .ok (space.committedBytes - space.usedSpan start stop) := by
  have hsplit := committedBytes_split sound h legal.le_committable legal.bit_eq
  exact Word.sub_eq_ok_iff.mpr ⟨by omega, rfl⟩

/-- An uncommit that is not refused comes to its end. -/
theorem uncommit_eq_ok (sound : space.Sound) (hpos : 0 < count)
    (legal : space.Legal true start (start + count))
    (hgranted : space.pinned = false →
      space.machine.refuses (space.uncommitRequest start (start + count)) = false) :
    uncommit start count space =
      ⟨.ok (), space.released start (start + count),
        space.requested (space.uncommitRequest start (start + count)) ++
          [.record (.pagesUncommitted start (start + count) (space.firstAddress start))]⟩ := by
  have hlt : start < start + count := Nat.lt_add_of_pos_right hpos
  have hle := Nat.le_of_lt hlt
  have hcommitted := Nat.le_trans legal.le_committable sound.committablePages_le
  have hdirty := Nat.le_trans legal.le_committable sound.committablePages_le_dirty
  have hsub := sub_committedBytes sound hlt legal
  rw [legal.uncommit_eq sound hpos, hsub, Bitmap.clearRange_eq_ok hle hcommitted]
  cases hpinned : space.pinned with
  | false =>
    -- The operating system takes the memory back.
    have hunback := unback_run sound hlt legal.le_committable
    rw [if_neg (by simp [hgranted hpinned])] at hunback
    simp only [Bool.false_eq_true, if_false]
    rw [Op.bind_eq_after hunback]
    simp [released, requested, hpinned]
  | true =>
    simp only [if_true]
    -- The memory keeps its contents, so the pages are dirty from now on.
    rw [Bitmap.setRange_eq_ok hle hdirty, Op.checked_ok, pure_bind, Op.modify_bind]
    simp [released, requested, hpinned]

/-- An uncommit of a legal range comes to its end, or the operating system refuses it. -/
theorem Legal.uncommit_run (legal : space.Legal true start (start + count)) (sound : space.Sound)
    (hpos : 0 < count) :
    (∃ trace, uncommit start count space =
      ⟨.ok (), space.released start (start + count), trace⟩ ∧
      Asks (space.uncommitRequest start (start + count)) trace) ∨
    (∃ refusal trace, uncommit start count space = ⟨.error (.error refusal), space, trace⟩ ∧
      Asks (space.uncommitRequest start (start + count)) trace ∧ ¬ space.Willing) := by
  rcases space.granted_or_refused (space.uncommitRequest start (start + count)) with
    hgranted | ⟨hpinned, hrefuses, unwilling⟩
  · exact .inl ⟨_, uncommit_eq_ok sound hpos legal hgranted, (Asks.requested _ _).record _⟩
  · exact .inr ⟨_, _, uncommit_eq_refused sound hpos legal hpinned hrefuses, .single _, unwilling⟩

/-- An uncommit is refused only where the operating system refuses its request. -/
theorem of_uncommit_refused (sound : space.Sound) {refusal : Refusal}
    (h : (uncommit start count space).result = .error (.error refusal)) :
    space.pinned = false ∧
      space.machine.refuses (space.uncommitRequest start (start + count)) = true ∧
      refusal =
        .uncommit (.pages start (start + count) (space.firstAddress start) .outOfMemory) := by
  rcases Nat.eq_zero_or_pos count with rfl | hpos
  · cases h
  by_cases legal : space.Legal true start (start + count)
  · rcases space.granted_or_refused (space.uncommitRequest start (start + count)) with
      hgranted | ⟨hpinned, hrefuses, -⟩
    · rw [uncommit_eq_ok sound hpos legal hgranted] at h
      cases h
    · rw [uncommit_eq_refused sound hpos legal hpinned hrefuses] at h
      cases h
      exact ⟨hpinned, hrefuses, rfl⟩
  · obtain ⟨fault, -, hrun⟩ := uncommit_eq_fault sound hpos legal
    rw [hrun] at h
    cases h

/-- An uncommit releases its pages, or it leaves the space as it was: it is an uncommit of no pages,
or it stops. One of committed pages stops only where it is refused. -/
theorem uncommit_cases (sound : space.Sound) (start count : Nat) :
    (∃ result trace, uncommit start count space = ⟨result, space, trace⟩ ∧ Quiet trace ∧
      (result = .ok () → count = 0) ∧
      (∀ stop, result = .error stop → 0 < count ∧
        ((∀ page, start ≤ page → page < start + count → space.committed.bit page = true) →
          stop.Rejects True space.Willing))) ∨
    (0 < count ∧ space.Legal true start (start + count) ∧ ∃ trace,
      uncommit start count space = ⟨.ok (), space.released start (start + count), trace⟩ ∧
      Quiet trace) := by
  rcases Nat.eq_zero_or_pos count with rfl | hpos
  · exact Or.inl ⟨_, _, uncommit_zero start space, .nil, fun _ => rfl, fun _ => nofun⟩
  by_cases legal : space.Legal true start (start + count)
  · rcases legal.uncommit_run sound hpos with
      ⟨trace, hrun, asks⟩ | ⟨refusal, trace, hrun, asks, unwilling⟩
    · exact Or.inr ⟨hpos, legal, trace, hrun, asks.quiet⟩
    · refine Or.inl ⟨_, trace, hrun, asks.quiet, nofun, ?_⟩
      intro stop hstop
      cases hstop
      exact ⟨hpos, fun _ => .refused _ unwilling⟩
  · obtain ⟨fault, -, hrun⟩ := uncommit_eq_fault sound hpos legal
    refine Or.inl ⟨_, _, hrun, .nil, nofun, fun _ _ => ⟨hpos, fun set => ?_⟩⟩
    exact absurd (sound.legal_of_set (Nat.lt_add_of_pos_right hpos) set) legal

/-! ## Pretouching -/

/-- Touching pages changes no byte, and nothing but the memory is concerned. -/
theorem foldl_touch (ranges : List PageRange) (space : PageSpace) :
    ∃ machine : Machine, ranges.foldl touch space = { space with machine } ∧
      machine.refuses = space.machine.refuses ∧
      ∀ address, machine.memory.read address = space.read address := by
  induction ranges generalizing space with
  | nil => exact ⟨space.machine, rfl, rfl, fun _ => rfl⟩
  | cons range rest ih =>
    obtain ⟨machine, hafter, hrefuses, hread⟩ := ih (space.touch range)
    refine ⟨machine, hafter, hrefuses, ?_⟩
    intro address
    rw [hread]
    exact Memory.read_touch _ _ _ _ address

/-- A pretouch is a pass over pages that all are committed, or it is a fault at once. -/
theorem pretouch_checked (space : PageSpace) (start count : Nat) (pretoucher : Pretoucher) :
    (∃ fault : Fault, fault.isOfSpace = true ∧
      pretouch start count pretoucher space = ⟨.error (.fault fault), space, []⟩) ∨
    ((∀ page, start ≤ page → page < start + count → space.committed.bit page = true) ∧
      pretouch start count pretoucher space =
        pretoucher.run start count space.pageSize space.touchFault? touch space) := by
  unfold pretouch
  rw [Op.get_bind]
  by_cases hword : start + count < Word.limit
  · have hadd : Word.add start count = .ok (start + count) :=
      Word.add_eq_ok_iff.mpr ⟨hword, rfl⟩
    rw [hadd, Op.checked_ok, pure_bind]
    by_cases hsize : start + count ≤ space.committed.size
    · obtain ⟨set, hset, hiff⟩ := Bitmap.isRangeSet_eq (Nat.le_add_right start count) hsize
      rw [hset, Op.checked_ok, pure_bind]
      cases set with
      | false => exact .inl ⟨_, rfl, rfl⟩
      | true => exact .inr ⟨hiff.mp rfl, rfl⟩
    · rw [Bitmap.isRangeSet_eq_error fun h => hsize h.2]
      exact .inl ⟨_, rfl, rfl⟩
  · have hadd : Word.add start count = .error .addOverflow := if_neg hword
    rw [hadd]
    exact .inl ⟨_, rfl, rfl⟩

/-- However pretouching ends, no byte is changed, and nothing but the memory is concerned. -/
theorem pretouch_cases (space : PageSpace) (start count : Nat) (pretoucher : Pretoucher) :
    ∃ (result : Except (Stop Refusal) PretouchReport) (machine : Machine) (trace : List Effect),
      pretouch start count pretoucher space = ⟨result, { space with machine }, trace⟩ ∧
      Quiet trace ∧ machine.refuses = space.machine.refuses ∧
      ∀ address, machine.memory.read address = space.read address := by
  rcases pretouch_checked space start count pretoucher with ⟨fault, -, hrun⟩ | ⟨-, hrun⟩
  · exact ⟨_, space.machine, _, hrun, .nil, rfl, fun _ => rfl⟩
  · obtain ⟨trace, hrecords, hpass⟩ :=
      pretoucher.run_eq Refusal start count space.pageSize space.touchFault? touch space
    obtain ⟨machine, hafter, hrefuses, hread⟩ := foldl_touch
      (pretoucher.pass start count space.pageSize space.touchFault?).touched space
    rw [hafter] at hpass
    exact ⟨_, machine, trace, hrun.trans hpass, .of_records hrecords, hrefuses, hread⟩

/-- A space has far fewer pages than there are words. -/
theorem size_committed_le (sound : space.Sound) (hsize : space.reservation.size < Word.limit) :
    space.committed.size ≤ Word.limit / Word.osPage := by
  have hpage : Word.osPage ≤ space.pageSize :=
    Nat.le_of_dvd sound.pageSize_pos sound.pageSize_aligned
  have hbytes : space.reservation.size ≤ Word.limit / Word.osPage * space.pageSize :=
    calc space.reservation.size ≤ Word.limit / Word.osPage * Word.osPage := Nat.le_of_lt hsize
      _ ≤ Word.limit / Word.osPage * space.pageSize := Nat.mul_le_mul_left _ hpage
  have hpos := sound.pageSize_pos
  rw [sound.size_committed, Word.divCeil]
  apply Nat.le_of_lt_succ
  rw [Nat.div_lt_iff_lt_mul hpos, Nat.succ_mul]
  omega

/-- Neither the pages of a range and one chunk more nor twice as many pages leave the words. -/
theorem range_lt_word (sound : space.Sound) (hsize : space.reservation.size < Word.limit)
    (hrange : start + count ≤ space.committed.size) {pretoucher : Pretoucher}
    (hchunk : pretoucher.chunkSize < Word.limit) :
    start + count + pretoucher.chunkPages space.pageSize < Word.limit ∧
      count + count < Word.limit := by
  have hpage : Word.osPage ≤ space.pageSize :=
    Nat.le_of_dvd sound.pageSize_pos sound.pageSize_aligned
  have hchunkPages : pretoucher.chunkPages space.pageSize ≤ Word.limit / Word.osPage := by
    refine Nat.max_le.mpr ⟨?_, by decide⟩
    calc pretoucher.chunkSize / max space.pageSize 1
        ≤ pretoucher.chunkSize / Word.osPage := Nat.div_le_div_left (by omega) (by decide)
      _ ≤ Word.limit / Word.osPage := Nat.div_le_div_right (Nat.le_of_lt hchunk)
  have hpages := size_committed_le sound hsize
  have hsizes : Word.limit / Word.osPage + Word.limit / Word.osPage < Word.limit := by decide
  omega

/-- Pretouching committed pages comes to its end as long as the chunks are words. -/
theorem pretouch_ok (sound : space.Sound) {pretoucher : Pretoucher} (hpos : 0 < count)
    (hlimit : start + count + pretoucher.chunkPages space.pageSize < Word.limit)
    (set : ∀ page, start ≤ page → page < start + count → space.committed.bit page = true) :
    ∃ report, (pretouch start count pretoucher space).result = .ok report := by
  have hadd : Word.add start count = .ok (start + count) :=
    Word.add_eq_ok_iff.mpr ⟨by omega, rfl⟩
  -- The last page of the range has its bit set, so the range ends within the bitmap.
  have hlast := sound.tidy (start + count - 1) (set _ (by omega) (by omega))
  obtain ⟨touchable, hset, hiff⟩ :=
    Bitmap.isRangeSet_eq (Nat.le_add_right start count) (show _ ≤ space.committed.size by omega)
  -- The addresses of committed pages are words, so none of the touches fails.
  have hsoft : ∀ page, start ≤ page → page < start + count → space.touchFault? page = none := by
    intro page hfirst hbefore
    have haddress := pageStart_eq_ok (Nat.lt_of_le_of_lt
      (space.firstAddress_mono (Nat.le_succ page))
      (sound.address_lt page (set page hfirst hbefore)))
    rw [touchFault?, haddress]
  unfold pretouch
  rw [Op.get_bind, hadd, Op.checked_ok, pure_bind, hset, hiff.mpr set]
  exact Pretoucher.run_ok hsoft hlimit touch space

/-- A pass over pages that comes to its end has touched all of them. -/
theorem pages_of_pretouch_ok {pretoucher : Pretoucher} {report : PretouchReport}
    (h : (pretouch start count pretoucher space).result = .ok report) : report.pages = count := by
  rcases pretouch_checked space start count pretoucher with ⟨fault, -, hrun⟩ | ⟨-, hrun⟩
  · rw [hrun] at h
    cases h
  · rw [hrun] at h
    exact Pretoucher.pages_of_run_ok h

end RegionBacking.PageSpace
