import RegionBacking.Proofs.PageSpace.Meanwhile

/-!
# Page spaces that are alike

Two page spaces are alike if they have the same layout and the same books and every byte reads the
same in both. The machines behind them may differ in what they refuse and in how their memory came
to be as it is. Calls keep spaces alike, and a range of pages may as well be committed part by part:
nobody can tell from the space (`acquired_parts`, `released_parts`).
-/

namespace RegionBacking.PageSpace

variable {space other last : PageSpace} {start mid stop : Nat}

/-- Two spaces with the same layout, the same books and the same bytes. -/
structure Alike (space other : PageSpace) : Prop extends SameLayout space other where
  memoryKind_eq : other.memoryKind = space.memoryKind
  committed_eq : other.committed = space.committed
  dirty_eq : other.dirty = space.dirty
  committedBytes_eq : other.committedBytes = space.committedBytes
  read_eq : ∀ address, other.read address = space.read address

namespace Alike

theorem refl (space : PageSpace) : space.Alike space :=
  ⟨.refl space, rfl, rfl, rfl, rfl, fun _ => rfl⟩

theorem symm (alike : space.Alike other) : other.Alike space :=
  ⟨⟨alike.reservation_eq.symm, alike.usedSize_eq.symm, alike.pinned_eq.symm⟩,
    alike.memoryKind_eq.symm, alike.committed_eq.symm, alike.dirty_eq.symm,
    alike.committedBytes_eq.symm, fun address => (alike.read_eq address).symm⟩

theorem trans (first : space.Alike other) (second : other.Alike last) : space.Alike last :=
  ⟨first.toSameLayout.trans second.toSameLayout, second.memoryKind_eq.trans first.memoryKind_eq,
    second.committed_eq.trans first.committed_eq, second.dirty_eq.trans first.dirty_eq,
    second.committedBytes_eq.trans first.committedBytes_eq,
    fun address => (second.read_eq address).trans (first.read_eq address)⟩

/-- The same pages fit. -/
theorem fits (alike : space.Alike other) (fits : space.Fits stop) : other.Fits stop := by
  constructor
  · rw [committablePages, alike.usedSize_eq, alike.pageSize_eq]
    exact fits.le_committable
  · rw [alike.firstAddress_eq]
    exact fits.lt_limit

/-! ## Calls of spaces that are alike -/

theorem acquired (alike : space.Alike other) (start stop : Nat) :
    (space.acquired start stop).Alike (other.acquired start stop) where
  toSameLayout := ⟨alike.reservation_eq, alike.usedSize_eq, alike.pinned_eq⟩
  memoryKind_eq := alike.memoryKind_eq
  committed_eq := congrArg (·.fill start stop) alike.committed_eq
  dirty_eq := by
    show (if other.pinned then other.dirty.wipe start stop else other.dirty) =
      if space.pinned then space.dirty.wipe start stop else space.dirty
    rw [alike.pinned_eq, alike.dirty_eq]
  committedBytes_eq := by
    show other.committedBytes + other.usedSpan start stop =
      space.committedBytes + space.usedSpan start stop
    rw [alike.committedBytes_eq, alike.usedSpan_eq]
  read_eq address := by
    rw [read_acquired_eq, read_acquired_eq, alike.pinned_eq, alike.firstAddress_eq,
      alike.usedSpan_eq, alike.read_eq]

theorem released (alike : space.Alike other) (start stop : Nat) :
    (space.released start stop).Alike (other.released start stop) where
  toSameLayout := ⟨alike.reservation_eq, alike.usedSize_eq, alike.pinned_eq⟩
  memoryKind_eq := alike.memoryKind_eq
  committed_eq := congrArg (·.wipe start stop) alike.committed_eq
  dirty_eq := by
    show (if other.pinned then other.dirty.fill start stop else other.dirty) =
      if space.pinned then space.dirty.fill start stop else space.dirty
    rw [alike.pinned_eq, alike.dirty_eq]
  committedBytes_eq := by
    show other.committedBytes - other.usedSpan start stop =
      space.committedBytes - space.usedSpan start stop
    rw [alike.committedBytes_eq, alike.usedSpan_eq]
  read_eq address := by
    rw [read_released_eq, read_released_eq, alike.pinned_eq, alike.firstAddress_eq,
      alike.usedSpan_eq, alike.read_eq]

/-- Spaces stay alike on machines on which all bytes read the same. -/
theorem of_machines (alike : space.Alike other) {machine machine' : Machine}
    (hread : ∀ address, machine'.memory.read address = machine.memory.read address) :
    ({ space with machine } : PageSpace).Alike { other with machine := machine' } :=
  ⟨⟨alike.reservation_eq, alike.usedSize_eq, alike.pinned_eq⟩, alike.memoryKind_eq,
    alike.committed_eq, alike.dirty_eq, alike.committedBytes_eq, hread⟩

/-- Whether a pass comes to its end and what it reports is told from the layout and the committed
pages. -/
theorem pretouch_result_eq (alike : space.Alike other) (start count : Nat)
    (pretoucher : Pretoucher) :
    (pretouch start count pretoucher other).result =
      (pretouch start count pretoucher space).result := by
  have htouch : other.touchFault? = space.touchFault? := by
    funext page
    rw [touchFault?, touchFault?, pageStart, pageStart, alike.pageSize_eq, alike.base_eq]
  unfold pretouch
  rw [Op.get_bind, Op.get_bind, alike.committed_eq, htouch, alike.pageSize_eq]
  cases Word.add start count with
  | error fault => rfl
  | ok stop =>
    simp only [Op.checked_ok, pure_bind]
    cases space.committed.isRangeSet start stop with
    | error fault => rfl
    | ok set =>
      cases set with
      | false => rfl
      | true =>
        obtain ⟨trace, -, hrun⟩ := pretoucher.run_eq Refusal start count space.pageSize
          space.touchFault? touch space
        obtain ⟨trace', -, hrun'⟩ := pretoucher.run_eq Refusal start count space.pageSize
          space.touchFault? touch other
        simp only [Op.checked_ok, pure_bind, Op.require_true, hrun, hrun']

/-- A pass over pages keeps spaces alike. -/
theorem pretouch_run (alike : space.Alike other) (start count : Nat) (pretoucher : Pretoucher) :
    ∃ result after after' trace trace',
      pretouch start count pretoucher space = ⟨result, after, trace⟩ ∧
      pretouch start count pretoucher other = ⟨result, after', trace'⟩ ∧
      after.Alike after' ∧ Quiet trace ∧ Quiet trace' := by
  obtain ⟨result, machine, trace, hrun, hquiet, -, hread⟩ :=
    pretouch_cases space start count pretoucher
  obtain ⟨result', machine', trace', hrun', hquiet', -, hread'⟩ :=
    pretouch_cases other start count pretoucher
  have hresult := alike.pretouch_result_eq start count pretoucher
  rw [hrun, hrun'] at hresult
  cases hresult
  refine ⟨_, _, _, trace, trace', hrun, hrun', alike.of_machines ?_, hquiet, hquiet'⟩
  intro address
  rw [hread', hread, alike.read_eq]

/-- A byte that is written, where it is accessible, keeps spaces alike. -/
theorem write (alike : space.Alike other) (address : Nat) (value : UInt8) :
    ((space.write? address value).getD space).Alike ((other.write? address value).getD other) := by
  have hread : other.machine.memory.read address = space.machine.memory.read address :=
    alike.read_eq address
  unfold write? Memory.write?
  rw [hread]
  by_cases haccessible : (space.machine.memory.read address).isSome = true
  · rw [if_pos haccessible, if_pos haccessible]
    apply alike.of_machines
    intro byte
    rw [Memory.read_fill, Memory.read_fill]
    exact if_congr Iff.rfl rfl (alike.read_eq byte)
  · rw [if_neg haccessible, if_neg haccessible]
    exact alike

end Alike

/-! ## Ranges of pages, part by part -/

/-- Nothing is asked for by an empty range. -/
theorem usedSpan_self (space : PageSpace) (start : Nat) : space.usedSpan start start = 0 := by
  unfold usedSpan
  omega

/-- A call for no pages works on no byte. -/
theorem not_mem_span_self (space : PageSpace) (start address : Nat) :
    ¬ (space.firstAddress start ≤ address ∧ address <
      space.firstAddress start + Machine.wholePages (space.usedSpan start start)) := by
  rw [usedSpan_self]
  simp only [Machine.wholePages, Word.divCeil, Word.osPage]
  omega

/-- A part of a range that does not reach its end is not cut off by the end of the used part. -/
theorem usedSpan_part (sound : space.Sound) (hmid : mid < stop)
    (hstop : stop ≤ space.committablePages) (start : Nat) :
    space.usedSpan start mid = space.firstAddress mid - space.firstAddress start := by
  have hused := (lt_committablePages_iff sound.pageSize_pos mid).mp (by omega)
  unfold usedSpan usedLimit firstAddress
  omega

/-- The used bytes of a range are those of its two parts. -/
theorem usedSpan_parts (sound : space.Sound) (h : start ≤ mid) (hmid : mid < stop)
    (hstop : stop ≤ space.committablePages) :
    space.usedSpan start mid + space.usedSpan mid stop = space.usedSpan start stop := by
  have hused := (lt_committablePages_iff sound.pageSize_pos mid).mp (by omega)
  have hstart := space.firstAddress_mono h
  have hlater := space.firstAddress_mono (Nat.le_of_lt hmid)
  rw [usedSpan_part sound hmid hstop]
  unfold usedSpan usedLimit firstAddress at *
  omega

/-- What a call for a range works on is what two calls for its parts work on. -/
theorem mem_span_parts (sound : space.Sound) (h : start ≤ mid) (hmid : mid < stop)
    (hstop : stop ≤ space.committablePages) (address : Nat) :
    (space.firstAddress start ≤ address ∧ address <
        space.firstAddress start + Machine.wholePages (space.usedSpan start stop)) ↔
      (space.firstAddress start ≤ address ∧ address <
        space.firstAddress start + Machine.wholePages (space.usedSpan start mid)) ∨
      (space.firstAddress mid ≤ address ∧ address <
        space.firstAddress mid + Machine.wholePages (space.usedSpan mid stop)) := by
  have hstart := space.firstAddress_mono h
  have hparts := usedSpan_parts sound h hmid hstop
  have hwhole : Word.osPage ∣ space.firstAddress mid - space.firstAddress start :=
    Nat.dvd_sub (osPage_dvd_firstAddress sound mid) (osPage_dvd_firstAddress sound start)
  rw [← hparts, usedSpan_part sound hmid hstop]
  simp only [Machine.wholePages, Word.divCeil, Word.osPage] at hwhole ⊢
  omega

/-- A byte gets the same content by two calls for the parts of a range as by one for the range. -/
theorem read_parts (sound : space.Sound) (h : start ≤ mid) (hmid : mid < stop)
    (hstop : stop ≤ space.committablePages) (address : Nat) (content old : Option UInt8) :
    (if space.pinned = false ∧ space.firstAddress mid ≤ address ∧ address <
        space.firstAddress mid + Machine.wholePages (space.usedSpan mid stop) then content
      else if space.pinned = false ∧ space.firstAddress start ≤ address ∧ address <
        space.firstAddress start + Machine.wholePages (space.usedSpan start mid) then content
      else old) =
    if space.pinned = false ∧ space.firstAddress start ≤ address ∧ address <
      space.firstAddress start + Machine.wholePages (space.usedSpan start stop) then content
    else old := by
  have hspan := mem_span_parts sound h hmid hstop address
  by_cases hlater : space.pinned = false ∧ space.firstAddress mid ≤ address ∧ address <
      space.firstAddress mid + Machine.wholePages (space.usedSpan mid stop)
  · rw [if_pos hlater, if_pos ⟨hlater.1, hspan.mpr (.inr hlater.2)⟩]
  · rw [if_neg hlater]
    refine if_congr ⟨fun hin => ⟨hin.1, hspan.mpr (.inl hin.2)⟩, fun hin => ?_⟩ rfl rfl
    exact ⟨hin.1, (hspan.mp hin.2).resolve_right fun hin' => hlater ⟨hin.1, hin'⟩⟩

theorem acquired_self (space : PageSpace) (start : Nat) :
    space.Alike (space.acquired start start) where
  toSameLayout := ⟨rfl, rfl, rfl⟩
  memoryKind_eq := rfl
  committed_eq := Bitmap.bring_of_le _ (Nat.le_refl start) true
  dirty_eq := by
    show (if space.pinned then space.dirty.wipe start start else space.dirty) = space.dirty
    rw [Bitmap.wipe, Bitmap.bring_of_le _ (Nat.le_refl start), ite_self]
  committedBytes_eq := by
    show space.committedBytes + space.usedSpan start start = space.committedBytes
    rw [usedSpan_self, Nat.add_zero]
  read_eq address := by
    rw [read_acquired_eq, if_neg fun h => not_mem_span_self space start address h.2]

theorem released_self (space : PageSpace) (start : Nat) :
    space.Alike (space.released start start) where
  toSameLayout := ⟨rfl, rfl, rfl⟩
  memoryKind_eq := rfl
  committed_eq := Bitmap.bring_of_le _ (Nat.le_refl start) false
  dirty_eq := by
    show (if space.pinned then space.dirty.fill start start else space.dirty) = space.dirty
    rw [Bitmap.fill, Bitmap.bring_of_le _ (Nat.le_refl start), ite_self]
  committedBytes_eq := by
    show space.committedBytes - space.usedSpan start start = space.committedBytes
    rw [usedSpan_self, Nat.sub_zero]
  read_eq address := by
    rw [read_released_eq, if_neg fun h => not_mem_span_self space start address h.2]

/-- A range of pages that is committed in two parts is committed. -/
theorem acquired_parts (sound : space.Sound) (h : start ≤ mid) (hmid : mid < stop)
    (hstop : stop ≤ space.committablePages) :
    (space.acquired start stop).Alike ((space.acquired start mid).acquired mid stop) where
  toSameLayout := ⟨rfl, rfl, rfl⟩
  memoryKind_eq := rfl
  committed_eq := Bitmap.bring_bring h (Nat.le_of_lt hmid)
    (Nat.le_trans hstop sound.committablePages_le) true
  dirty_eq := by
    show (if space.pinned then (space.acquired start mid).dirty.wipe mid stop
        else (space.acquired start mid).dirty) =
      if space.pinned then space.dirty.wipe start stop else space.dirty
    unfold acquired
    split
    · exact Bitmap.bring_bring h (Nat.le_of_lt hmid)
        (Nat.le_trans hstop sound.committablePages_le_dirty) false
    · rfl
  committedBytes_eq := by
    show space.committedBytes + space.usedSpan start mid + space.usedSpan mid stop =
      space.committedBytes + space.usedSpan start stop
    rw [Nat.add_assoc, usedSpan_parts sound h hmid hstop]
  read_eq address := by
    rw [read_acquired_eq, read_acquired_eq space start mid, read_acquired_eq space start stop]
    exact read_parts sound h hmid hstop address (some 0) (space.read address)

/-- A range of pages that is given up in two parts is given up. -/
theorem released_parts (sound : space.Sound) (h : start ≤ mid) (hmid : mid < stop)
    (hstop : stop ≤ space.committablePages) :
    (space.released start stop).Alike ((space.released start mid).released mid stop) where
  toSameLayout := ⟨rfl, rfl, rfl⟩
  memoryKind_eq := rfl
  committed_eq := Bitmap.bring_bring h (Nat.le_of_lt hmid)
    (Nat.le_trans hstop sound.committablePages_le) false
  dirty_eq := by
    show (if space.pinned then (space.released start mid).dirty.fill mid stop
        else (space.released start mid).dirty) =
      if space.pinned then space.dirty.fill start stop else space.dirty
    unfold released
    split
    · exact Bitmap.bring_bring h (Nat.le_of_lt hmid)
        (Nat.le_trans hstop sound.committablePages_le_dirty) true
    · rfl
  committedBytes_eq := by
    show space.committedBytes - space.usedSpan start mid - space.usedSpan mid stop =
      space.committedBytes - space.usedSpan start stop
    rw [Nat.sub_sub, usedSpan_parts sound h hmid hstop]
  read_eq address := by
    rw [read_released_eq, read_released_eq space start mid, read_released_eq space start stop]
    exact read_parts sound h hmid hstop address none (space.read address)

end RegionBacking.PageSpace
