import RegionBacking.Proofs.PageSpace.Requests

/-!
# How setting up a page space ends

A reservation is asked for in two sums: the size is rounded up to pages of the operating system, and
the slack for the alignment is added. Where the second sum is no word, the caller is told so. The
first is made by way of `size + osPage`, and where that is no word, setting up is at fault. So the
sizes next to the end of the words are told apart: the last page of them is a fault for every page
size, also where the rounded size would be a word, and below it come the sizes of which the slack is
too much, as many as one page. Everything else ends with a space, or with an error of another kind.
-/

namespace RegionBacking

/-! ## Address space -/

theorem Machine.reserve_ne_fault (total : Nat) (machine : Machine) (fault : Fault) :
    (reserve total machine).result ≠ .error (.fault fault) := by
  unfold reserve
  split
  · nofun
  · rw [Op.emit_bind, Op.get_bind]
    split <;> nofun

theorem Machine.perform_ne_fault (request : Request) (change : Memory → Memory) (machine : Machine)
    (fault : Fault) : (perform request change machine).result ≠ .error (.fault fault) := by
  have shows : (perform request change machine).Shows (fun _ => True) fun _ => False :=
    perform_shows trivial change machine
  exact shows.of_fault fault

/-- A sum of at most two addresses that are handed out is a word. -/
theorem Word.add_addresses_lt {a b : Nat} (ha : a < addressLimit) (hb : b ≤ addressLimit) :
    a + b < limit := by
  have haddress : addressLimit = 140737488355328 := rfl
  have hlimit : limit = 18446744073709551616 := rfl
  omega

theorem Word.exists_alignUp {value alignment : Nat} (hpower : isPowerOfTwo alignment = true)
    (hsum : value + alignment < limit) : ∃ rounded, alignUp value alignment = .ok rounded := by
  unfold alignUp add
  rw [if_pos hpower, if_pos hsum]
  exact ⟨_, rfl⟩

theorem Word.alignUp_eq_overflow {value alignment : Nat} (hpower : isPowerOfTwo alignment = true)
    (hsum : limit ≤ value + alignment) : alignUp value alignment = .error .addOverflow := by
  unfold alignUp add
  rw [if_pos hpower, if_neg (Nat.not_lt.mpr hsum)]
  rfl

namespace Reservation

/-- The system has no range to give, or it does not make it inaccessible. -/
inductive Lacking : Stop Refusal → Prop
  | unavailable (total : Nat) (cause : OsError) :
      Lacking (.error (.addressSpace (.unavailable total cause)))
  | unprotected (cause : OsError) : Lacking (.error (.addressSpace (.unprotected cause)))

/-- Where no range is obtained, the system lacks it. -/
theorem obtain_stopsFor (total : Nat) (machine : Machine) :
    (obtain total machine).StopsFor Lacking := by
  unfold obtain
  apply Op.bind_stopsFor
  · refine Op.recover_stopsFor (fun fault h => absurd h (Machine.reserve_ne_fault _ _ _)) ?_
    intro cause after
    exact Op.refuse_stopsFor (.unavailable total cause) after
  · intro raw after _ _
    refine Op.bind_stopsFor ?_ fun _ _ _ _ => Op.pure_stopsFor _ _
    refine Op.recover_stopsFor (fun fault h => absurd h (Machine.perform_ne_fault _ _ _ _)) ?_
    intro cause last
    exact Op.bind_stopsFor (fun _ => nofun) fun _ _ _ _ =>
      Op.refuse_stopsFor (.unprotected cause) _

/-- A size and a page size for which a reservation can be asked. -/
structure Askable (size pageSize : Nat) : Prop where
  size_ne : size ≠ 0
  power : Word.isPowerOfTwo pageSize = true
  osPage_le : Word.osPage ≤ pageSize

variable {size pageSize : Nat} {machine : Machine}

/-- Pages smaller than those of the operating system are refused. -/
theorem reserve_eq_refused (hsize : size ≠ 0) (hpower : Word.isPowerOfTwo pageSize = true)
    (hpage : pageSize < Word.osPage) :
    reserve size pageSize machine =
      ⟨.error (.error (.configuration (.pageSizeTooSmall pageSize Word.osPage))), machine, []⟩ := by
  unfold reserve
  rw [if_neg (by simp [hsize, hpower]), if_pos hpage]
  rfl

/-- The sum by which the size is rounded up has to be a word. -/
theorem reserve_eq_overflow (askable : Askable size pageSize)
    (hsum : Word.limit ≤ size + Word.osPage) :
    reserve size pageSize machine = ⟨.error (.fault .addOverflow), machine, []⟩ := by
  unfold reserve
  rw [if_neg (by simp [askable.size_ne, askable.power]),
    if_neg (Nat.not_lt.mpr askable.osPage_le), Word.alignUp_eq_overflow (by decide) hsum]
  rfl

/-- What is left of a reservation once its size is rounded up. -/
theorem reserve_eq_rounded (askable : Askable size pageSize)
    (hsum : size + Word.osPage < Word.limit) :
    reserve size pageSize machine =
      (if Word.limit ≤ obtained size pageSize then Op.refuse (.addressSpace (.overflow size))
      else do
        let raw ← obtain (obtained size pageSize)
        let base ← Op.checked (Word.alignUp raw pageSize)
        Op.note (.reserved size base pageSize)
        pure ⟨base, size, pageSize⟩ : Op Refusal Machine Reservation) machine := by
  obtain ⟨rounded, hrounded⟩ := Word.exists_alignUp (by decide) hsum
  obtain ⟨-, -, hmultiple, hge, hlt⟩ := Word.alignUp_eq_ok hrounded
  obtain rfl : rounded = Machine.wholePages size := Machine.eq_wholePages hmultiple hge hlt
  unfold reserve
  rw [if_neg (by simp [askable.size_ne, askable.power]),
    if_neg (Nat.not_lt.mpr askable.osPage_le), hrounded, Op.checked_ok, pure_bind]
  rfl

/-- Where the sums are words, only the system can be in the way. -/
theorem reserve_stopsFor_lacking (askable : Askable size pageSize)
    (hsum : size + Word.osPage < Word.limit) (hobtained : obtained size pageSize < Word.limit)
    (hplace : ∀ total, machine.place total < Word.addressLimit) :
    (reserve size pageSize machine).StopsFor Lacking := by
  rw [reserve_eq_rounded askable hsum, if_neg (Nat.not_le.mpr hobtained)]
  apply Op.bind_stopsFor (obtain_stopsFor _ _)
  intro raw after _ hobtain
  -- The page is no larger than what was obtained, so the base is rounded up within the words.
  obtain ⟨rfl, htotal, -⟩ := of_obtain_ok hobtain
  have hle : pageSize ≤ Word.addressLimit := by
    unfold obtained slack at htotal
    split at htotal
    · omega
    · exact Nat.le_trans (by omega) (show Word.osPage ≤ Word.addressLimit by decide)
  obtain ⟨base, hbase⟩ := Word.exists_alignUp askable.power (Word.add_addresses_lt (hplace _) hle)
  rw [hbase, Op.checked_ok, pure_bind, Op.note_bind]
  exact fun _ => nofun

/-- How a reservation ends. -/
inductive Ending (size pageSize : Nat) : Except (Stop Refusal) Reservation → Prop
  /-- There is a reservation. -/
  | reserved {reservation : Reservation} (sum_lt : size + Word.osPage < Word.limit)
      (obtained_lt : obtained size pageSize < Word.limit) : Ending size pageSize (.ok reservation)
  /-- There is nothing to reserve, or the page size is none. -/
  | invalid (h : ¬ Askable size pageSize) :
      Ending size pageSize (.error (.error (.addressSpace (.invalidRequest size pageSize))))
  /-- The pages are too small. -/
  | small (h : ¬ Askable size pageSize) :
      Ending size pageSize
        (.error (.error (.configuration (.pageSizeTooSmall pageSize Word.osPage))))
  /-- The size cannot be rounded. -/
  | unrounded (askable : Askable size pageSize) (limit_le : Word.limit ≤ size + Word.osPage) :
      Ending size pageSize (.error (.fault .addOverflow))
  /-- The slack is too much. -/
  | overflow (askable : Askable size pageSize) (sum_lt : size + Word.osPage < Word.limit)
      (limit_le : Word.limit ≤ obtained size pageSize) :
      Ending size pageSize (.error (.error (.addressSpace (.overflow size))))
  /-- The system has no such range. -/
  | lacking {stop : Stop Refusal} (sum_lt : size + Word.osPage < Word.limit)
      (obtained_lt : obtained size pageSize < Word.limit) (lacking : Lacking stop) :
      Ending size pageSize (.error stop)

theorem reserve_ending (size pageSize : Nat)
    (hplace : ∀ total, machine.place total < Word.addressLimit) :
    Ending size pageSize (reserve size pageSize machine).result := by
  by_cases hvalid : size = 0 ∨ Word.isPowerOfTwo pageSize = false
  · unfold reserve
    rw [if_pos hvalid]
    refine .invalid fun askable => hvalid.elim askable.size_ne ?_
    simp [askable.power]
  rw [not_or, Bool.not_eq_false] at hvalid
  obtain ⟨hsize, hpower⟩ := hvalid
  by_cases hpage : pageSize < Word.osPage
  · rw [reserve_eq_refused hsize hpower hpage]
    exact .small fun askable => Nat.not_lt.mpr askable.osPage_le hpage
  have askable : Askable size pageSize := ⟨hsize, hpower, Nat.le_of_not_lt hpage⟩
  by_cases hsum : Word.limit ≤ size + Word.osPage
  · rw [reserve_eq_overflow askable hsum]
    exact .unrounded askable hsum
  have hsum := Nat.lt_of_not_le hsum
  by_cases hobtained : Word.limit ≤ obtained size pageSize
  · rw [reserve_eq_rounded askable hsum, if_pos hobtained]
    exact .overflow askable hsum hobtained
  have hobtained := Nat.lt_of_not_le hobtained
  cases hresult : (reserve size pageSize machine).result with
  | ok reservation => exact .reserved hsum hobtained
  | error stop =>
    exact .lacking hsum hobtained
      (reserve_stopsFor_lacking askable hsum hobtained hplace stop hresult)

namespace Ending

variable {result : Except (Stop Refusal) Reservation}

/-- The only fault is that the size cannot be rounded. -/
theorem fault_iff (ending : Ending size pageSize result) (fault : Fault) :
    result = .error (.fault fault) ↔
      fault = .addOverflow ∧ Askable size pageSize ∧ Word.limit ≤ size + Word.osPage := by
  constructor
  · rintro rfl
    cases ending with
    | unrounded askable limit_le => exact ⟨rfl, askable, limit_le⟩
    | lacking _ _ lacking => cases lacking
  · rintro ⟨rfl, askable, limit_le⟩
    cases ending with
    | invalid h | small h => exact absurd askable h
    | unrounded => rfl
    | reserved sum_lt | overflow _ sum_lt | lacking sum_lt =>
      exact absurd limit_le (Nat.not_le.mpr sum_lt)

/-- The caller is told that the size is too much just if the slack is. -/
theorem overflow_iff (ending : Ending size pageSize result) :
    result = .error (.error (.addressSpace (.overflow size))) ↔
      Askable size pageSize ∧ size + Word.osPage < Word.limit ∧
        Word.limit ≤ obtained size pageSize := by
  constructor
  · rintro rfl
    cases ending with
    | overflow askable sum_lt limit_le => exact ⟨askable, sum_lt, limit_le⟩
    | lacking _ _ lacking => cases lacking
  · rintro ⟨askable, sum_lt, limit_le⟩
    cases ending with
    | invalid h | small h => exact absurd askable h
    | unrounded _ h => exact absurd h (Nat.not_le.mpr sum_lt)
    | overflow => rfl
    | reserved _ obtained_lt | lacking _ obtained_lt =>
      exact absurd limit_le (Nat.not_le.mpr obtained_lt)

end Ending

/-- A reason to stop for want of address space. -/
def WantsSpace (stop : Stop Refusal) : Prop := ∃ cause, stop = .error (.addressSpace cause)

/-- Where the rounding is no obstacle, only address space can be wanting. -/
theorem reserve_stopsFor (askable : Askable size pageSize)
    (hsum : size + Word.osPage < Word.limit)
    (hplace : ∀ total, machine.place total < Word.addressLimit) :
    (reserve size pageSize machine).StopsFor WantsSpace := by
  intro stop hstop
  have ending := reserve_ending size pageSize hplace
  rw [hstop] at ending
  cases ending with
  | invalid | overflow => exact ⟨_, rfl⟩
  | small h => exact absurd askable h
  | unrounded _ limit_le => exact absurd limit_le (Nat.not_le.mpr hsum)
  | lacking _ _ lacking => cases lacking <;> exact ⟨_, rfl⟩

end Reservation

/-! ## Page spaces -/

namespace PageSpace

variable {reservedSize usedSize pageSize : Nat} {memoryKind : MemoryKind} {pinned : Bool}
  {machine : Machine}

/-- A space cannot be set up without its reservation. -/
theorem reserve_eq_stopped (hused : usedSize ≤ reservedSize) {stop : Stop Refusal} {after : Machine}
    {trace : List Effect}
    (h : Reservation.reserve reservedSize pageSize machine = ⟨.error stop, after, trace⟩) :
    reserve reservedSize usedSize pageSize memoryKind pinned machine =
      ⟨.error stop, after, trace⟩ := by
  unfold reserve
  rw [if_neg (Nat.not_lt.mpr hused), Op.bind_run_error h]

/-- Once there is a reservation, only the memory of a pinned space can be wanting. -/
theorem reserve_stopsFor {reasons : Stop Refusal → Prop} (hused : usedSize ≤ reservedSize)
    (h : (Reservation.reserve reservedSize pageSize machine).StopsFor reasons) :
    (reserve reservedSize usedSize pageSize memoryKind pinned machine).StopsFor
      fun stop => reasons stop ∨ pinned = true ∧ stop = .error (.outOfMemory usedSize 0) := by
  unfold reserve
  rw [if_neg (Nat.not_lt.mpr hused)]
  apply Op.bind_stopsFor (h.mono fun _ => Or.inl)
  intro reservation after trace hreserve
  split
  · next hcommits =>
    rw [Bool.and_eq_true] at hcommits
    -- The used part lies in the reservation, so the check of the range is passed.
    have hsize := (Reservation.handedOut hreserve).size_eq
    have hpasses : reservation.Passes reservation.base usedSize := by
      rw [Reservation.passes_iff]
      unfold Word.saturatingAdd Reservation.limit
      omega
    have hrun : reservation.commitRange reservation.base usedSize after =
        Machine.commit reservation.base usedSize after := Op.bind_eq_after (hpasses after)
    refine Op.bind_stopsFor (Op.recover_stopsFor ?_ ?_) fun _ _ _ _ _ => nofun
    · intro fault hfault
      rw [hrun] at hfault
      exact absurd hfault (Machine.perform_ne_fault _ _ _ _)
    · intro cause last
      rw [Op.note_bind]
      exact Op.refuse_stopsFor (Or.inr ⟨hcommits.1, rfl⟩) last
  · exact fun _ => nofun

/-- A reason to stop setting up a space: address space is wanting, or the memory of a pinned
space. -/
def WantsMemory (usedSize : Nat) (pinned : Bool) (stop : Stop Refusal) : Prop :=
  Reservation.WantsSpace stop ∨ pinned = true ∧ stop = .error (.outOfMemory usedSize 0)

/-- A space stops for what its reservation stops for, apart from what it asks for itself. -/
theorem reserve_eq_error_iff {stop : Stop Refusal}
    (hmemory : stop ≠ .error (.outOfMemory usedSize 0))
    (hmisfit : stop ≠ .error (.configuration (.usedSizeTooLarge usedSize reservedSize))) :
    (reserve reservedSize usedSize pageSize memoryKind pinned machine).result = .error stop ↔
      usedSize ≤ reservedSize ∧
        (Reservation.reserve reservedSize pageSize machine).result = .error stop := by
  constructor
  · intro h
    by_cases hused : usedSize ≤ reservedSize
    · -- Its reservation is taken as the only reason to stop before the memory is asked for.
      have stops : (reserve reservedSize usedSize pageSize memoryKind pinned machine).StopsFor
          fun stop => (Reservation.reserve reservedSize pageSize machine).result = .error stop ∨
            pinned = true ∧ stop = .error (.outOfMemory usedSize 0) :=
        reserve_stopsFor hused fun _ => id
      exact ⟨hused, (stops stop h).resolve_right fun hpinned => hmemory hpinned.2⟩
    · unfold reserve at h
      rw [if_pos (Nat.lt_of_not_le hused)] at h
      cases h
      exact absurd rfl hmisfit
  · rintro ⟨hused, h⟩
    cases hrun : Reservation.reserve reservedSize pageSize machine with
    | mk result after trace =>
      rw [hrun] at h
      obtain rfl : result = .error stop := h
      rw [reserve_eq_stopped hused hrun]

/-- The sizes of which setting up tells that they are too much, and those where it is at fault. For
a reservation and for a page space over it alike, the only fault there is, on any machine and for
any arguments, is that of the sum by which the size is rounded up; just the sizes that pass this one
and whose slack is too much get the error that says so. -/
theorem overflows_told_apart (size pageSize : Nat)
    (hplace : ∀ total, machine.place total < Word.addressLimit) :
    (∀ fault, (Reservation.reserve size pageSize machine).result = .error (.fault fault) ↔
      fault = .addOverflow ∧ Reservation.Askable size pageSize ∧
        Word.limit ≤ size + Word.osPage) ∧
    ((Reservation.reserve size pageSize machine).result =
        .error (.error (.addressSpace (.overflow size))) ↔
      Reservation.Askable size pageSize ∧ size + Word.osPage < Word.limit ∧
        Word.limit ≤ Reservation.obtained size pageSize) ∧
    ∀ usedSize memoryKind pinned,
      (∀ fault, (reserve size usedSize pageSize memoryKind pinned machine).result =
          .error (.fault fault) ↔
        usedSize ≤ size ∧ fault = .addOverflow ∧ Reservation.Askable size pageSize ∧
          Word.limit ≤ size + Word.osPage) ∧
      ((reserve size usedSize pageSize memoryKind pinned machine).result =
          .error (.error (.addressSpace (.overflow size))) ↔
        usedSize ≤ size ∧ Reservation.Askable size pageSize ∧ size + Word.osPage < Word.limit ∧
          Word.limit ≤ Reservation.obtained size pageSize) := by
  have ending := Reservation.reserve_ending size pageSize hplace
  refine ⟨ending.fault_iff, ending.overflow_iff, ?_⟩
  intro usedSize memoryKind pinned
  constructor
  · intro fault
    rw [← ending.fault_iff fault]
    exact reserve_eq_error_iff nofun nofun
  · rw [← ending.overflow_iff]
    exact reserve_eq_error_iff nofun nofun

/-- The last size of which the slack of larger pages is too much, and the first that is no sum. -/
theorem overflows_told_apart_of_last_pages :
    (Reservation.reserve (Word.limit - 2 * Word.osPage) (2 * Word.osPage) .willing).result =
        .error (.error (.addressSpace (.overflow (Word.limit - 2 * Word.osPage)))) ∧
    ∀ memoryKind pinned, (reserve (Word.limit - Word.osPage) 0 (2 * Word.osPage) memoryKind pinned
      .willing).result = .error (.fault .addOverflow) := by
  have hplace : 65536 < Word.addressLimit := by decide
  constructor
  · have htold := @overflows_told_apart .willing (Word.limit - 2 * Word.osPage) (2 * Word.osPage)
      fun _ => hplace
    exact htold.2.1.mpr ⟨⟨by decide, by decide, by decide⟩, by decide, by decide⟩
  · intro memoryKind pinned
    have htold := @overflows_told_apart .willing (Word.limit - Word.osPage) (2 * Word.osPage)
      fun _ => hplace
    exact ((htold.2.2 0 memoryKind pinned).1 _).mpr
      ⟨by decide, rfl, ⟨by decide, by decide, by decide⟩, by decide⟩

/-- The largest size is no error of its caller but a fault, on every machine, although its rounding
up is what is too much; a size just below the last page of the words gets the error. -/
theorem reserve_faults_of_largest_size :
    (∀ machine, (Reservation.reserve (Word.limit - 1) Word.osPage machine).result =
      .error (.fault .addOverflow)) ∧
    (∀ machine, (reserve (Word.limit - 1) 0 Word.osPage .heap false machine).result =
      .error (.fault .addOverflow)) ∧
    ∀ machine, (Reservation.reserve (Word.limit - 2 * Word.osPage) (2 * Word.osPage)
      machine).result = .error (.error (.addressSpace (.overflow (Word.limit - 2 * Word.osPage)))) :=
  ⟨fun _ => rfl, fun _ => rfl, fun _ => rfl⟩

end PageSpace

end RegionBacking
