import RegionBacking.Proofs.PageSpace.Usage

/-!
# Which bytes of a page space are accessible

The operating system grants access by its own pages, the books of a page space speak of the pages of
the space. `Guarded` says that the two agree on all bytes of the reservation: what is accessible is
what lies in the used part, rounded up to a page of the operating system, and in a page that is
committed, or anywhere in a pinned space. So the bytes of a committed page can be handed out, and
pretouching meets accessible bytes only.
-/

namespace RegionBacking

/-- Whole pages from a page on, as far as a range of bytes or the used part goes. -/
theorem Machine.add_wholePages {first last used : Nat} (hfirst : Word.osPage ∣ first)
    (hlast : Word.osPage ∣ last) (h : first < min last used) :
    first + Machine.wholePages (min last used - first) = min last (Machine.wholePages used) := by
  simp only [Machine.wholePages, Word.divCeil, Word.osPage] at *
  omega

namespace PageSpace

variable {first space after : PageSpace} {start stop page : Nat}

/-- The byte at an address is accessible. -/
def Accessible (space : PageSpace) (address : Nat) : Prop := (space.read address).isSome = true

/-! ## Access and books -/

/-- The bytes of the reservation are accessible just if the books say so. -/
def Guarded (space : PageSpace) : Prop :=
  ∀ offset, offset < Machine.wholePages space.reservation.size →
    (space.Accessible (space.base + offset) ↔ offset < Machine.wholePages space.usedSize ∧
      (space.pinned = true ∨ space.committed.bit (offset / space.pageSize) = true))

/-- The bytes that a call for the pages `[start, stop)` works on. -/
theorem mem_span_iff (sound : space.Sound) (h : start < stop)
    (hstop : stop ≤ space.committablePages) (offset : Nat) :
    (space.firstAddress start ≤ space.base + offset ∧ space.base + offset <
        space.firstAddress start + Machine.wholePages (space.usedSpan start stop)) ↔
      (start ≤ offset / space.pageSize ∧ offset / space.pageSize < stop) ∧
        offset < Machine.wholePages space.usedSize := by
  have hbegins := (lt_committablePages_iff sound.pageSize_pos start).mp (by omega)
  have hmul := Nat.mul_lt_mul_of_pos_right h sound.pageSize_pos
  -- Measured from the base, the span ends with the pages or with the used part.
  have hspan : space.usedSpan start stop =
      min (stop * space.pageSize) space.usedSize - start * space.pageSize := by
    unfold usedSpan firstAddress usedLimit
    omega
  have hend := Machine.add_wholePages (Dvd.dvd.mul_left sound.pageSize_aligned start)
    (Dvd.dvd.mul_left sound.pageSize_aligned stop)
    (show start * space.pageSize < min (stop * space.pageSize) space.usedSize by omega)
  rw [Nat.le_div_iff_mul_le sound.pageSize_pos, Nat.div_lt_iff_lt_mul sound.pageSize_pos, hspan]
  unfold firstAddress
  omega

/-- A call that gives a status to its pages, and to what it works on a content of that status,
leaves access and books in agreement. -/
theorem Guarded.brought (guarded : space.Guarded) (sound : space.Sound) (h : start < stop)
    (hstop : stop ≤ space.committablePages) (same : SameLayout space after) {content : Option UInt8}
    (hcommitted : after.committed = space.committed.bring content.isSome start stop)
    (hread : ∀ address, after.read address =
      if space.pinned = false ∧ space.firstAddress start ≤ address ∧ address <
        space.firstAddress start + Machine.wholePages (space.usedSpan start stop) then content
      else space.read address) :
    after.Guarded := by
  intro offset hoffset
  rw [same.reservation_eq] at hoffset
  have hbefore := guarded offset hoffset
  rw [Accessible, same.base_eq, same.pageSize_eq, same.usedSize_eq, same.pinned_eq, hcommitted,
    hread, Bitmap.bit_bring (Nat.le_trans hstop sound.committablePages_le)]
  simp only [mem_span_iff sound h hstop offset]
  by_cases hpages : start ≤ offset / space.pageSize ∧ offset / space.pageSize < stop
  case neg =>
    -- A byte outside of the pages is left alone.
    rw [if_neg fun hin => hpages hin.2.1, if_neg hpages]
    exact hbefore
  rw [if_pos hpages]
  by_cases hworked : space.pinned = false ∧ offset < Machine.wholePages space.usedSize
  · rw [if_pos ⟨hworked.1, hpages, hworked.2⟩, hworked.1]
    simp [hworked.2]
  · -- What is pinned stays accessible, and what is not used stays out of reach.
    rw [if_neg fun hin => hworked ⟨hin.1, hin.2.2⟩]
    refine hbefore.trans (and_congr_right fun hused => ?_)
    have hpinned : space.pinned = true := by
      rw [← Bool.not_eq_false]
      exact fun hpinned => hworked ⟨hpinned, hused⟩
    simp [hpinned]

theorem Guarded.of_machine (guarded : space.Guarded) {machine : Machine}
    (h : ∀ address, (machine.memory.read address).isSome = (space.read address).isSome) :
    ({ space with machine } : PageSpace).Guarded := by
  intro offset hoffset
  have hbefore := guarded offset hoffset
  unfold Accessible at hbefore
  rw [← h] at hbefore
  exact hbefore

theorem Moves.guarded (moves : space.Moves after) (sound : space.Sound)
    (guarded : space.Guarded) : after.Guarded := by
  cases moves with
  | stay => exact guarded
  | acquire h legal =>
    exact guarded.brought sound h legal.le_committable ⟨rfl, rfl, rfl⟩ rfl
      (read_acquired_eq space _ _)
  | release h legal =>
    exact guarded.brought sound h legal.le_committable ⟨rfl, rfl, rfl⟩ rfl
      (read_released_eq space _ _)
  | touch machine _ hread => exact guarded.of_machine fun address => by rw [hread]

theorem Meanwhile.guarded (meanwhile : space.Meanwhile after) (guarded : space.Guarded) :
    after.Guarded := by
  cases meanwhile with
  | refusing refuses => exact guarded.of_machine fun _ => rfl
  | write page address value after _ _ _ written =>
    have haccessible := isSome_of_write written
    obtain ⟨machine, rfl, hread⟩ := of_write written
    apply guarded.of_machine
    intro other
    show (({ space with machine } : PageSpace).read other).isSome = _
    rw [hread]
    split
    -- The byte that is written was accessible before.
    · next hsame => rw [hsame, haccessible, Option.isSome_some]
    · rfl

/-- Of a new space nothing is accessible but the used part of a pinned one. -/
theorem guarded_of_reserve {reservedSize usedSize pageSize : Nat} {memoryKind : MemoryKind}
    {pinned : Bool} {machine : Machine}
    (h : (reserve reservedSize usedSize pageSize memoryKind pinned machine).result = .ok space) :
    space.Guarded := by
  obtain ⟨-, reservation, mid, trace, machine', hreserve, rfl, hread⟩ := of_reserve_ok h
  have hobtained := Reservation.of_reserve_ok hreserve
  intro offset hoffset
  have hclosed : mid.memory.read (reservation.base + offset) = none := by
    have hlimit := hobtained.limit_le
    have hraw := hobtained.raw_le
    have hsize : offset < Machine.wholePages reservedSize := hobtained.size_eq ▸ hoffset
    exact hobtained.closed _ (by omega) (by omega)
  have hbit := (not_bit_blank machine' reservation usedSize memoryKind pinned
    (offset / reservation.pageSize)).1
  show (machine'.memory.read (reservation.base + offset)).isSome = true ↔
    offset < Machine.wholePages usedSize ∧ (pinned = true ∨ _)
  rw [hread, hclosed]
  simp only [Nat.le_add_right, Nat.add_lt_add_iff_left, true_and]
  split
  · next hin => simp [hin.1, hin.2]
  · next hout =>
    simp only [Option.isSome_none, Bool.false_eq_true, false_iff, not_and, not_or]
    intro hused
    exact ⟨fun hpinned => hout ⟨hpinned, hused⟩, hbit⟩

theorem Reachable.guarded (h : first.Reachable space) (sound : first.Sound)
    (guarded : first.Guarded) : space.Guarded :=
  h.invariant sound guarded (fun _ _ sound moves guarded => moves.guarded sound guarded)
    fun _ _ _ meanwhile guarded => meanwhile.guarded guarded

/-! ## The bytes of a page -/

/-- A page that begins in the used part is used as a whole, or it is the last one and cut off. -/
theorem usedBytes_of_lt (hpos : 0 < space.pageSize) (h : page < space.committablePages) :
    space.usedBytes page = space.pageSize ∨
      page + 1 = space.committablePages ∧ space.usedBytes page = space.tailSize ∧
        0 < space.tailSize := by
  have hbegins := (lt_committablePages_iff hpos page).mp h
  have hsucc : (page + 1) * space.pageSize = page * space.pageSize + space.pageSize :=
    Nat.succ_mul _ _
  rw [usedBytes_eq]
  by_cases hwhole : (page + 1) * space.pageSize ≤ space.usedSize
  · left
    omega
  · right
    have hlast : ¬ page + 1 < space.committablePages := by
      rw [lt_committablePages_iff hpos]
      omega
    -- What is left of the used part behind the earlier pages is less than a page.
    have htail : space.tailSize = space.usedSize - page * space.pageSize := by
      have hsum : space.usedSize - page * space.pageSize + page * space.pageSize =
        space.usedSize := Nat.sub_add_cancel (Nat.le_of_lt hbegins)
      rw [tailSize, ← hsum, Nat.add_mul_mod_self_right, hsum, Nat.mod_eq_of_lt (by omega)]
    omega

/-- The bytes of a committed page. -/
theorem pageBytes_of_committed (sound : space.Sound) (h : space.isCommitted page = true) :
    space.pageBytes? page =
      .ok (some (space.firstAddress page, space.firstAddress page + space.usedBytes page)) := by
  have hbit : space.committed.bit page = true := by rwa [← sound.isCommitted_eq]
  have hbegins :=
    (lt_committablePages_iff sound.pageSize_pos page).mp (sound.lt_committable page hbit)
  have hlast : min (space.firstAddress (page + 1)) space.usedLimit =
      space.firstAddress page + space.usedBytes page := by
    rw [usedBytes_eq]
    unfold firstAddress usedLimit
    have hsucc : (page + 1) * space.pageSize = page * space.pageSize + space.pageSize :=
      Nat.succ_mul _ _
    omega
  rw [pageBytes?, if_pos h, pageBounds_eq_ok (Nat.le_succ page) (sound.address_lt page hbit), hlast]
  rfl

theorem usedByte_of_lt (sound : space.Sound) (hpage : page < space.committablePages)
    {address : Nat} (hfirst : space.firstAddress page ≤ address)
    (hlast : address < space.firstAddress page + space.usedBytes page) :
    space.UsedByte page address := by
  have hbegins := (lt_committablePages_iff sound.pageSize_pos page).mp hpage
  have hsucc : (page + 1) * space.pageSize = page * space.pageSize + space.pageSize :=
    Nat.succ_mul _ _
  rw [usedBytes_eq] at hlast
  unfold firstAddress at hlast
  refine ⟨hfirst, ?_, ?_⟩
  · unfold firstAddress
    omega
  · unfold usedLimit
    omega

/-- The used bytes of a committed page are accessible. -/
theorem accessible_of_committed (sound : space.Sound) (legible : space.Legible)
    (h : space.committed.bit page = true) {address : Nat}
    (hfirst : space.firstAddress page ≤ address)
    (hlast : address < space.firstAddress page + space.usedBytes page) :
    space.Accessible address := by
  have used := usedByte_of_lt sound (sound.lt_committable page h) hfirst hlast
  obtain ⟨byte, hbyte⟩ := legible.accessible page address used (.inr h)
  rw [Accessible, hbyte, Option.isSome_some]

/-! ## Pretouching -/

/-- A pretouch touches the first bytes of committed pages of its range, however it ends. -/
theorem pretouch_touches (sound : space.Sound) (legible : space.Legible) (start count : Nat)
    (pretoucher : Pretoucher) :
    ∃ ranges : List PageRange,
      (pretouch start count pretoucher space).state = ranges.foldl touch space ∧
      ∀ range ∈ ranges, ∀ page, range.start ≤ page → page < range.stop →
        (start ≤ page ∧ page < start + count) ∧ space.isCommitted page = true ∧
          space.Accessible (space.firstAddress page) := by
  rcases pretouch_checked space start count pretoucher with ⟨fault, -, hrun⟩ | ⟨hset, hrun⟩
  · exact ⟨[], by rw [hrun]; rfl, fun _ h => absurd h List.not_mem_nil⟩
  · obtain ⟨trace, -, hpass⟩ :=
      pretoucher.run_eq Refusal start count space.pageSize space.touchFault? touch space
    refine ⟨_, by rw [hrun, hpass], ?_⟩
    intro range hrange page hfirst hlast
    have hwithin := Pretoucher.pass_touched _ _ _ _ _ range hrange
    have hbit := hset page (by omega) (by omega)
    have hpos := usedBytes_pos sound.pageSize_pos (sound.lt_committable page hbit)
    refine ⟨by omega, by rw [sound.isCommitted_eq, hbit], ?_⟩
    exact accessible_of_committed sound legible hbit (Nat.le_refl _) (by omega)

/-! ## At all times -/

/-- What is accessible in a page space matches its books. -/
structure Matched (space : PageSpace) : Prop where
  /-- The bytes of the reservation are accessible just if they lie in the used part, rounded up to
  a page of the operating system, and in a committed page; in a pinned space, in any page. -/
  accessible_iff : ∀ offset, offset < Machine.wholePages space.reservation.size →
    (space.Accessible (space.base + offset) ↔ offset < Machine.wholePages space.usedSize ∧
      (space.pinned = true ∨ space.isCommitted (offset / space.pageSize) = true))
  /-- The bytes of a committed page are there: all of them, or those of the used part. -/
  pageBytes_of_committed : ∀ page, space.isCommitted page = true →
    space.pageBytes? page =
      .ok (some (space.firstAddress page, space.firstAddress page + space.usedBytes page)) ∧
    (space.usedBytes page = space.pageSize ∨ page + 1 = space.committablePages ∧
      space.usedBytes page = space.tailSize ∧ 0 < space.tailSize) ∧
    ∀ address, space.firstAddress page ≤ address →
      address < space.firstAddress page + space.usedBytes page → space.Accessible address
  pageBytes_of_clear : ∀ page, space.isCommitted page = false → space.pageBytes? page = .ok none
  /-- A pretouch touches the first bytes of committed pages of its range, which changes no byte. -/
  pretouch_touches : ∀ start count pretoucher,
    (∃ ranges : List PageRange,
      (pretouch start count pretoucher space).state = ranges.foldl touch space ∧
      ∀ range ∈ ranges, ∀ page, range.start ≤ page → page < range.stop →
        (start ≤ page ∧ page < start + count) ∧ space.isCommitted page = true ∧
          space.Accessible (space.firstAddress page)) ∧
    ∀ address, (pretouch start count pretoucher space).state.read address = space.read address

/-- What is accessible in a page space matches its books at all times. -/
theorem access_matched_throughout {reservedSize usedSize pageSize : Nat} {memoryKind : MemoryKind}
    {pinned : Bool} {machine : Machine}
    (hfirst : (reserve reservedSize usedSize pageSize memoryKind pinned machine).result = .ok first)
    (h : first.Reachable space) : space.Matched := by
  have fresh := fresh hfirst
  have sound := h.sound fresh.sound
  have legible := h.legible fresh.sound fresh.legible
  have guarded := h.guarded fresh.sound (guarded_of_reserve hfirst)
  constructor
  case accessible_iff =>
    intro offset hoffset
    rw [guarded offset hoffset, sound.isCommitted_eq]
  case pageBytes_of_committed =>
    intro page hpage
    have hbit : space.committed.bit page = true := by rwa [← sound.isCommitted_eq]
    exact ⟨pageBytes_of_committed sound hpage,
      usedBytes_of_lt sound.pageSize_pos (sound.lt_committable page hbit),
      fun _ => accessible_of_committed sound legible hbit⟩
  case pageBytes_of_clear =>
    intro page hpage
    rw [pageBytes?, hpage]
    rfl
  case pretouch_touches =>
    intro start count pretoucher
    exact ⟨PageSpace.pretouch_touches sound legible start count pretoucher,
      (pretouch_keeps space start count pretoucher).2⟩

/-- Of two pages the second one is cut off and committed alone: it is accessible up to the end of
the page of the operating system in which the used part ends, and the first one is not. -/
theorem access_matched_of_two_pages :
    ∃ first, (reserve 16384 10000 8192 .heap false .willing).result = .ok first ∧
      ((Call.commit 1 1).run first).state.read (first.base + 8191) = none ∧
      ((Call.commit 1 1).run first).state.read (first.base + 12287) = some 0 ∧
      ((Call.commit 1 1).run first).state.read (first.base + 12288) = none ∧
      ((Call.commit 1 1).run first).state.pageBytes? 1 = .ok (some (73728, 75536)) ∧
      ((Call.commit 1 1).run first).state.Matched := by
  refine ⟨_, rfl, by decide +kernel, by decide +kernel, by decide +kernel, by decide +kernel, ?_⟩
  exact @access_matched_throughout _ _ 16384 10000 8192 .heap false .willing rfl
    (.single (.call (.commit 1 1)))

end PageSpace

end RegionBacking
