import RegionBacking.Proofs.PageSpace.Calls
import RegionBacking.Proofs.Stores.Space

/-!
# What is in the pages of a page space

A call changes the bytes of its own pages only: it works on whole pages of the operating system, but
a page of the space is made of such pages, so no byte of another page is among them. Pretouching
adds zero to bytes, which changes none. `Legible` is what holds of the bytes in between: those of
committed pages are accessible, and in a pinned space those of pages that are neither committed nor
dirty are zero.
-/

namespace RegionBacking

/-! ## Lengths in whole pages -/

theorem Machine.le_wholePages (length : Nat) : length ≤ Machine.wholePages length := by
  simp only [Machine.wholePages, Word.divCeil, Word.osPage]
  omega

/-- Rounding up does not go beyond a multiple of the page. -/
theorem Machine.wholePages_le {length bound : Nat} (h : length ≤ bound)
    (haligned : Word.osPage ∣ bound) : Machine.wholePages length ≤ bound := by
  simp only [Machine.wholePages, Word.divCeil, Word.osPage] at *
  omega

namespace PageSpace

variable {space : PageSpace} {start stop page address : Nat}

/-! ## The bytes of a page -/

/-- An address is that of a used byte of a page. -/
structure UsedByte (space : PageSpace) (page address : Nat) : Prop where
  firstAddress_le : space.firstAddress page ≤ address
  lt_firstAddress : address < space.firstAddress (page + 1)
  lt_usedLimit : address < space.usedLimit

/-- The addresses that a call for the pages `[start, stop)` works on. -/
theorem span_le (sound : space.Sound) (h : start ≤ stop) :
    space.firstAddress start + Machine.wholePages (space.usedSpan start stop) ≤
      space.firstAddress stop := by
  have hmono := space.firstAddress_mono h
  have haligned : Word.osPage ∣ space.firstAddress stop - space.firstAddress start :=
    Nat.dvd_sub (osPage_dvd_firstAddress sound stop) (osPage_dvd_firstAddress sound start)
  -- The used bytes end within the range, and the range is a whole number of pages long.
  have hspan : space.usedSpan start stop ≤ space.firstAddress stop - space.firstAddress start := by
    unfold usedSpan
    omega
  have hwhole := Machine.wholePages_le hspan haligned
  omega

/-- A used byte lies in the addresses of a call just if its page is one of the call. -/
theorem UsedByte.mem_span_iff (used : space.UsedByte page address) (sound : space.Sound)
    (h : start ≤ stop) :
    (space.firstAddress start ≤ address ∧ address <
        space.firstAddress start + Machine.wholePages (space.usedSpan start stop)) ↔
      start ≤ page ∧ page < stop := by
  have hspan := span_le sound h
  have hlow := used.firstAddress_le
  have hhigh := used.lt_firstAddress
  have hused := used.lt_usedLimit
  constructor
  · intro hspanned
    obtain ⟨hfirst, hlast⟩ := hspanned
    constructor
    -- A byte of an earlier page lies before the range, one of a later page behind it.
    · by_contra hbefore
      have := space.firstAddress_mono (show page + 1 ≤ start by omega)
      omega
    · by_contra hbehind
      have := space.firstAddress_mono (show stop ≤ page by omega)
      omega
  · intro hrange
    obtain ⟨hfirst, hlast⟩ := hrange
    have hstart := space.firstAddress_mono hfirst
    have hstop := space.firstAddress_mono (show page + 1 ≤ stop by omega)
    have hwhole := Machine.le_wholePages (space.usedSpan start stop)
    unfold usedSpan at hwhole ⊢
    omega

/-! ## Reading after a call -/

/-- Any byte after pages were committed. -/
theorem read_acquired_eq (space : PageSpace) (start stop address : Nat) :
    (space.acquired start stop).read address =
      if space.pinned = false ∧ space.firstAddress start ≤ address ∧ address <
        space.firstAddress start + Machine.wholePages (space.usedSpan start stop) then some 0
      else space.read address := by
  unfold read acquired
  cases hpinned : space.pinned with
  | true => simp
  | false => simp only [Bool.false_eq_true, if_false, true_and, zeroedMemory, Memory.read_map]

/-- Any byte after pages were uncommitted. -/
theorem read_released_eq (space : PageSpace) (start stop address : Nat) :
    (space.released start stop).read address =
      if space.pinned = false ∧ space.firstAddress start ≤ address ∧ address <
        space.firstAddress start + Machine.wholePages (space.usedSpan start stop) then none
      else space.read address := by
  unfold read released
  cases hpinned : space.pinned with
  | true => simp
  | false => simp only [Bool.false_eq_true, if_false, true_and, closedMemory, Memory.read_unmap]

/-- A used byte after its page was committed, or another one. -/
theorem read_acquired (sound : space.Sound) (h : start ≤ stop)
    (used : space.UsedByte page address) :
    (space.acquired start stop).read address =
      if space.pinned = false ∧ start ≤ page ∧ page < stop then some 0
      else space.read address := by
  rw [read_acquired_eq]
  simp only [used.mem_span_iff sound h]

/-- A used byte after its page was uncommitted, or another one. -/
theorem read_released (sound : space.Sound) (h : start ≤ stop)
    (used : space.UsedByte page address) :
    (space.released start stop).read address =
      if space.pinned = false ∧ start ≤ page ∧ page < stop then none
      else space.read address := by
  rw [read_released_eq]
  simp only [used.mem_span_iff sound h]

/-! ## Legible spaces -/

/-- What holds of the used bytes of a space. -/
structure Legible (space : PageSpace) : Prop where
  accessible : ∀ page address, space.UsedByte page address →
    space.pinned = true ∨ space.committed.bit page = true → ∃ byte, space.read address = some byte
  clean : space.pinned = true → ∀ page address, space.UsedByte page address →
    space.committed.bit page = false → space.dirty.bit page = false →
    space.read address = some 0

theorem Legible.acquired (legible : space.Legible) (sound : space.Sound) (h : start ≤ stop)
    (hstop : stop ≤ space.committablePages) : (space.acquired start stop).Legible where
  accessible page address used hcommitted := by
    -- The geometry of the space did not change, so the byte is one of the space before.
    have used' : space.UsedByte page address := ⟨used.1, used.2, used.3⟩
    rw [read_acquired sound h used']
    split
    · exact ⟨0, rfl⟩
    · next hout =>
      refine legible.accessible page address used' ?_
      rw [bit_committed_acquired sound hstop, Bool.or_eq_true, decide_eq_true_eq] at hcommitted
      rcases hcommitted with hpinned | hbit | hrange
      · exact Or.inl hpinned
      · exact Or.inr hbit
      -- A page of the range that is not pinned was mapped by the call and is zero.
      · cases hpinned : space.pinned with
        | true => exact Or.inl rfl
        | false => exact absurd ⟨hpinned, hrange⟩ hout
  clean hpinned page address used hclear hclean := by
    have used' : space.UsedByte page address := ⟨used.1, used.2, used.3⟩
    have hpinned : space.pinned = true := hpinned
    rw [bit_committed_acquired sound hstop, Bool.or_eq_false_iff, decide_eq_false_iff_not] at hclear
    rw [bit_dirty_acquired sound hstop, decide_eq_false hclear.2, Bool.and_false, Bool.not_false,
      Bool.and_true] at hclean
    -- A pinned space changes no memory.
    rw [read_acquired sound h used', if_neg (by simp [hpinned])]
    exact legible.clean hpinned page address used' hclear.1 hclean

theorem Legible.released (legible : space.Legible) (sound : space.Sound) (h : start ≤ stop)
    (hstop : stop ≤ space.committablePages) : (space.released start stop).Legible where
  accessible page address used hcommitted := by
    have used' : space.UsedByte page address := ⟨used.1, used.2, used.3⟩
    rw [bit_committed_released sound hstop, Bool.and_eq_true, Bool.not_eq_true',
      decide_eq_false_iff_not] at hcommitted
    rw [read_released sound h used', if_neg]
    · exact legible.accessible page address used' (hcommitted.imp id And.left)
    · intro hclosed
      obtain ⟨hpinned, hrange⟩ := hclosed
      -- Only a space that is not pinned closes memory, and only that of pages that are given up.
      rcases hcommitted with hpinned' | hbit
      · rw [show space.pinned = true from hpinned'] at hpinned
        cases hpinned
      · exact hbit.2 hrange
  clean hpinned page address used hclear hclean := by
    have used' : space.UsedByte page address := ⟨used.1, used.2, used.3⟩
    have hpinned : space.pinned = true := hpinned
    rw [bit_dirty_released sound hstop, hpinned, Bool.true_and, Bool.or_eq_false_iff,
      decide_eq_false_iff_not] at hclean
    rw [bit_committed_released sound hstop, decide_eq_false hclean.2, Bool.not_false,
      Bool.and_true] at hclear
    rw [read_released sound h used', if_neg (by simp [hpinned])]
    exact legible.clean hpinned page address used' hclear hclean.1

/-- What is legible stays so on a machine on which all bytes read the same. -/
theorem Legible.of_machine (legible : space.Legible) {machine : Machine}
    (hread : ∀ address, machine.memory.read address = space.read address) :
    ({ space with machine } : PageSpace).Legible where
  accessible page address used hcommitted := by
    obtain ⟨byte, hbyte⟩ := legible.accessible page address ⟨used.1, used.2, used.3⟩ hcommitted
    exact ⟨byte, (hread address).trans hbyte⟩
  clean hpinned page address used hclear hclean :=
    (hread address).trans
      (legible.clean hpinned page address ⟨used.1, used.2, used.3⟩ hclear hclean)

/-! ## Along a run of calls -/

/-- Two states of a space have the same reservation and the same used part. -/
structure SameLayout (space after : PageSpace) : Prop where
  reservation_eq : after.reservation = space.reservation
  usedSize_eq : after.usedSize = space.usedSize
  pinned_eq : after.pinned = space.pinned

namespace SameLayout

variable {after last : PageSpace}

theorem refl (space : PageSpace) : SameLayout space space := ⟨rfl, rfl, rfl⟩

theorem trans (first : SameLayout space after) (second : SameLayout after last) :
    SameLayout space last :=
  ⟨second.reservation_eq.trans first.reservation_eq, second.usedSize_eq.trans first.usedSize_eq,
    second.pinned_eq.trans first.pinned_eq⟩

theorem base_eq (same : SameLayout space after) : after.base = space.base :=
  congrArg Reservation.base same.reservation_eq

theorem pageSize_eq (same : SameLayout space after) : after.pageSize = space.pageSize :=
  congrArg Reservation.pageSize same.reservation_eq

theorem firstAddress_eq (same : SameLayout space after) (page : Nat) :
    after.firstAddress page = space.firstAddress page := by
  rw [firstAddress, firstAddress, same.base_eq, same.pageSize_eq]

theorem usedLimit_eq (same : SameLayout space after) : after.usedLimit = space.usedLimit := by
  rw [usedLimit, usedLimit, same.base_eq, same.usedSize_eq]

theorem usedSpan_eq (same : SameLayout space after) (start stop : Nat) :
    after.usedSpan start stop = space.usedSpan start stop := by
  rw [usedSpan, usedSpan, same.firstAddress_eq, same.firstAddress_eq, same.usedLimit_eq]

theorem usedByte_iff (same : SameLayout space after) (page address : Nat) :
    after.UsedByte page address ↔ space.UsedByte page address := by
  have hfirst := same.firstAddress_eq
  have hlimit := same.usedLimit_eq
  constructor
  · intro used
    obtain ⟨hlow, hhigh, hused⟩ := used
    exact ⟨hfirst page ▸ hlow, hfirst (page + 1) ▸ hhigh, hlimit ▸ hused⟩
  · intro used
    obtain ⟨hlow, hhigh, hused⟩ := used
    exact ⟨(hfirst page).symm ▸ hlow, (hfirst (page + 1)).symm ▸ hhigh, hlimit.symm ▸ hused⟩

/-- The committed pages decide how many bytes are committed. -/
theorem committedBytes_eq (same : SameLayout space after) (sound : space.Sound)
    (sound' : after.Sound) (hcommitted : space.committed = after.committed) :
    space.committedBytes = after.committedBytes := by
  have hset : space.committedSet = after.committedSet := by
    ext page
    rw [sound.mem_committedSet, sound'.mem_committedSet, hcommitted]
  have hbytes : ∀ page, space.usedBytes page = after.usedBytes page := fun page => by
    simp only [usedBytes_eq, same.pageSize_eq, same.usedSize_eq]
  rw [sound.committedBytes_eq, sound'.committedBytes_eq, hset]
  exact Finset.sum_congr rfl fun page _ => hbytes page

/-- What keeps the bytes of a page twice keeps them. -/
theorem read_trans (same : SameLayout space after)
    (first : ∀ address, space.UsedByte page address → after.read address = space.read address)
    (second : ∀ address, after.UsedByte page address → last.read address = after.read address) :
    ∀ address, space.UsedByte page address → last.read address = space.read address := by
  intro address used
  rw [second address ((same.usedByte_iff page address).mpr used)]
  exact first address used

end SameLayout

/-- One call of a run: the space stays as it was, it acquires or releases pages, or its memory is
touched. -/
inductive Moves (space : PageSpace) : PageSpace → Prop where
  | stay : Moves space space
  | acquire {start stop : Nat} (h : start < stop) (legal : space.Legal false start stop) :
    Moves space (space.acquired start stop)
  | release {start stop : Nat} (h : start < stop) (legal : space.Legal true start stop) :
    Moves space (space.released start stop)
  | touch (machine : Machine) (hrefuses : machine.refuses = space.machine.refuses)
    (hread : ∀ address, machine.memory.read address = space.read address) :
    Moves space { space with machine }

namespace Moves

variable {after : PageSpace}

theorem of_commit (sound : space.Sound) (start count : Nat) :
    space.Moves (commit start count space).state := by
  rcases commit_cases sound start count with
    ⟨result, trace, hrun, -⟩ | ⟨hpos, legal, zeroFilled, trace, hrun, -, -⟩
  · rw [hrun]
    exact .stay
  · rw [hrun]
    exact .acquire (Nat.lt_add_of_pos_right hpos) legal

theorem of_uncommit (sound : space.Sound) (start count : Nat) :
    space.Moves (uncommit start count space).state := by
  rcases uncommit_cases sound start count with
    ⟨result, trace, hrun, -⟩ | ⟨hpos, legal, trace, hrun, -⟩
  · rw [hrun]
    exact .stay
  · rw [hrun]
    exact .release (Nat.lt_add_of_pos_right hpos) legal

theorem of_pretouch (space : PageSpace) (start count : Nat) (pretoucher : Pretoucher) :
    space.Moves (pretouch start count pretoucher space).state := by
  obtain ⟨result, machine, trace, hrun, -, hrefuses, hread⟩ :=
    pretouch_cases space start count pretoucher
  rw [hrun]
  exact .touch machine hrefuses hread

theorem sound (moves : space.Moves after) (sound : space.Sound) : after.Sound := by
  cases moves with
  | stay => exact sound
  | acquire h legal => exact sound.acquired h legal.le_committable legal.lt_limit legal.bit_eq
  | release h legal => exact sound.released h legal.le_committable legal.bit_eq
  | touch machine => exact sound.of_machine machine

theorem legible (moves : space.Moves after) (sound : space.Sound) (legible : space.Legible) :
    after.Legible := by
  cases moves with
  | stay => exact legible
  | acquire h legal => exact legible.acquired sound (Nat.le_of_lt h) legal.le_committable
  | release h legal => exact legible.released sound (Nat.le_of_lt h) legal.le_committable
  | touch machine hrefuses hread => exact legible.of_machine hread

theorem sameLayout (moves : space.Moves after) : SameLayout space after := by
  cases moves <;> exact ⟨rfl, rfl, rfl⟩

/-- What a machine refuses does not change with its memory. -/
theorem refuses_eq (moves : space.Moves after) :
    after.machine.refuses = space.machine.refuses := by
  cases moves with
  | stay => rfl
  | acquire => unfold acquired; split <;> rfl
  | release => unfold released; split <;> rfl
  | touch machine hrefuses => exact hrefuses

end Moves

/-! ## The bytes of one page -/

/-- A commit keeps the bytes of the pages that are committed. -/
theorem commit_keeps (sound : space.Sound) (start count : Nat)
    (hpage : space.committed.bit page = true) :
    (commit start count space).state.committed.bit page = true ∧
      ∀ address, space.UsedByte page address →
        (commit start count space).state.read address = space.read address := by
  rcases commit_cases sound start count with
    ⟨result, trace, hrun, -⟩ | ⟨hpos, legal, zeroFilled, trace, hrun, -, -⟩
  · rw [hrun]
    exact ⟨hpage, fun _ _ => rfl⟩
  -- A legal commit has no committed page in its range.
  · have hout : ¬ (start ≤ page ∧ page < start + count) := by
      intro hin
      obtain ⟨hfirst, hlast⟩ := hin
      rw [legal.bit_eq page hfirst hlast] at hpage
      cases hpage
    rw [hrun]
    constructor
    · rw [bit_committed_acquired sound legal.le_committable, hpage, Bool.true_or]
    · intro address used
      rw [read_acquired sound (Nat.le_add_right start count) used, if_neg fun h => hout h.2]

/-- An uncommit keeps the bytes of the pages that stay committed. -/
theorem uncommit_keeps (sound : space.Sound) (start count : Nat)
    (hpage : (uncommit start count space).state.committed.bit page = true) :
    space.committed.bit page = true ∧
      ∀ address, space.UsedByte page address →
        (uncommit start count space).state.read address = space.read address := by
  rcases uncommit_cases sound start count with
    ⟨result, trace, hrun, -⟩ | ⟨hpos, legal, trace, hrun, -⟩
  · rw [hrun] at hpage ⊢
    exact ⟨hpage, fun _ _ => rfl⟩
  · rw [hrun, bit_committed_released sound legal.le_committable, Bool.and_eq_true,
      Bool.not_eq_true', decide_eq_false_iff_not] at hpage
    refine ⟨hpage.1, ?_⟩
    intro address used
    rw [hrun, read_released sound (Nat.le_add_right start count) used,
      if_neg fun h => hpage.2 h.2]

/-- Pretouching changes neither the bits nor any byte. -/
theorem pretouch_keeps (space : PageSpace) (start count : Nat) (pretoucher : Pretoucher) :
    (pretouch start count pretoucher space).state.committed = space.committed ∧
      ∀ address, (pretouch start count pretoucher space).state.read address =
        space.read address := by
  obtain ⟨result, machine, trace, hrun, -, -, hread⟩ :=
    pretouch_cases space start count pretoucher
  rw [hrun]
  exact ⟨rfl, hread⟩

/-- The pages of a commit that assures it read as zero. -/
theorem commit_zeroes (sound : space.Sound) (legible : space.Legible) {start count : Nat}
    (hresult : (commit start count space).result = .ok true) (hfirst : start ≤ page)
    (hlast : page < start + count) :
    (commit start count space).state.committed.bit page = true ∧
      ∀ address, space.UsedByte page address →
        (commit start count space).state.read address = some 0 := by
  rcases commit_cases sound start count with
    ⟨result, trace, hrun, -, hempty, -⟩ | ⟨hpos, legal, zeroFilled, trace, hrun, -, hclean⟩
  · rw [hrun] at hresult
    -- Only an empty range is answered without a change, and no page lies in it.
    have := hempty true hresult
    omega
  · rw [hrun] at hresult ⊢
    cases hresult
    constructor
    · rw [bit_committed_acquired sound legal.le_committable, decide_eq_true ⟨hfirst, hlast⟩,
        Bool.or_true]
    · intro address used
      rw [read_acquired sound (Nat.le_add_right start count) used]
      split
      · rfl
      · next hpinned =>
        -- The space is pinned: the page was neither committed nor dirty, so it is zero still.
        have hpinned : space.pinned = true := by
          rw [← Bool.not_eq_false]
          exact fun h => hpinned ⟨h, hfirst, hlast⟩
        exact legible.clean hpinned page address used (legal.bit_eq page hfirst hlast)
          (hclean rfl page hfirst hlast)

end PageSpace

namespace StoreRun

open PageSpace

variable {space after : PageSpace} {answers : List Answer} {page : Nat}

/-- The books stay in order and the bytes legible along a run, and the layout stays the same. -/
theorem legible (run : StoreRun space answers after) (sound : space.Sound)
    (legible : space.Legible) : after.Legible ∧ SameLayout space after := by
  induction run with
  | done space => exact ⟨legible, .refl space⟩
  | commit start count _ _ ih =>
    have moves := Moves.of_commit sound start count
    obtain ⟨hlegible, hsame⟩ := ih (moves.sound sound) (moves.legible sound legible)
    exact ⟨hlegible, moves.sameLayout.trans hsame⟩
  | uncommit start count _ _ ih =>
    have moves := Moves.of_uncommit sound start count
    obtain ⟨hlegible, hsame⟩ := ih (moves.sound sound) (moves.legible sound legible)
    exact ⟨hlegible, moves.sameLayout.trans hsame⟩
  | @pretouch space _ _ start count pretoucher _ ih =>
    have moves := Moves.of_pretouch space start count pretoucher
    obtain ⟨hlegible, hsame⟩ := ih (moves.sound sound) (moves.legible sound legible)
    exact ⟨hlegible, moves.sameLayout.trans hsame⟩

/-- Nor does it change along a run, which asks for the same requests as well. -/
theorem refuses_sameLayout (run : StoreRun space answers after) (sound : space.Sound) :
    after.machine.refuses = space.machine.refuses ∧ SameLayout space after := by
  induction run with
  | done space => exact ⟨rfl, .refl space⟩
  | commit start count _ _ ih =>
    have moves := Moves.of_commit sound start count
    obtain ⟨hrefuses, hsame⟩ := ih (moves.sound sound)
    exact ⟨hrefuses.trans moves.refuses_eq, moves.sameLayout.trans hsame⟩
  | uncommit start count _ _ ih =>
    have moves := Moves.of_uncommit sound start count
    obtain ⟨hrefuses, hsame⟩ := ih (moves.sound sound)
    exact ⟨hrefuses.trans moves.refuses_eq, moves.sameLayout.trans hsame⟩
  | @pretouch space _ _ start count pretoucher _ ih =>
    have moves := Moves.of_pretouch space start count pretoucher
    obtain ⟨hrefuses, hsame⟩ := ih (moves.sound sound)
    exact ⟨hrefuses.trans moves.refuses_eq, moves.sameLayout.trans hsame⟩

/-- A space that nothing is refused is refused nothing later on. -/
theorem willing (run : StoreRun space answers after) (sound : space.Sound)
    (willing : space.Willing) : after.Willing := by
  obtain ⟨hrefuses, hsame⟩ := run.refuses_sameLayout sound
  intro hpinned request
  rw [hrefuses]
  exact willing (hsame.pinned_eq ▸ hpinned) request

/-- Where nothing is uncommitted, committed pages stay committed and keep their bytes. -/
theorem keeps_committed (run : StoreRun space answers after) (sound : space.Sound)
    (without : Without .uncommit answers) (hpage : space.committed.bit page = true) :
    after.committed.bit page = true ∧
      ∀ address, space.UsedByte page address → after.read address = space.read address := by
  induction run with
  | done => exact ⟨hpage, fun _ _ => rfl⟩
  | commit start count _ _ ih =>
    have moves := Moves.of_commit sound start count
    obtain ⟨hcommitted, hread⟩ := commit_keeps sound start count hpage
    obtain ⟨hafter, hlater⟩ := ih (moves.sound sound)
      (fun answer h => without answer (List.mem_cons_of_mem _ h)) hcommitted
    exact ⟨hafter, moves.sameLayout.read_trans hread hlater⟩
  | uncommit => exact absurd rfl (without _ List.mem_cons_self)
  | @pretouch space _ _ start count pretoucher _ ih =>
    have moves := Moves.of_pretouch space start count pretoucher
    obtain ⟨hbits, hread⟩ := pretouch_keeps space start count pretoucher
    obtain ⟨hafter, hlater⟩ := ih (moves.sound sound)
      (fun answer h => without answer (List.mem_cons_of_mem _ h)) (hbits ▸ hpage)
    exact ⟨hafter, moves.sameLayout.read_trans (fun address _ => hread address) hlater⟩

/-- Where nothing is committed, the pages that stay committed keep their bytes. -/
theorem keeps_remaining (run : StoreRun space answers after) (sound : space.Sound)
    (without : Without .commit answers) (hpage : after.committed.bit page = true) :
    space.committed.bit page = true ∧
      ∀ address, space.UsedByte page address → after.read address = space.read address := by
  induction run with
  | done => exact ⟨hpage, fun _ _ => rfl⟩
  | commit => exact absurd rfl (without _ List.mem_cons_self)
  | uncommit start count _ _ ih =>
    have moves := Moves.of_uncommit sound start count
    obtain ⟨hcommitted, hlater⟩ := ih (moves.sound sound)
      (fun answer h => without answer (List.mem_cons_of_mem _ h)) hpage
    obtain ⟨hbefore, hread⟩ := uncommit_keeps sound start count hcommitted
    exact ⟨hbefore, moves.sameLayout.read_trans hread hlater⟩
  | @pretouch space _ _ start count pretoucher _ ih =>
    have moves := Moves.of_pretouch space start count pretoucher
    obtain ⟨hbits, hread⟩ := pretouch_keeps space start count pretoucher
    obtain ⟨hcommitted, hlater⟩ := ih (moves.sound sound)
      (fun answer h => without answer (List.mem_cons_of_mem _ h)) hpage
    exact ⟨hbits ▸ hcommitted,
      moves.sameLayout.read_trans (fun address _ => hread address) hlater⟩

/-- A page that an answer assures to read as zero does so at the end of the run, if nothing is
uncommitted on the way. -/
theorem zeroes (run : StoreRun space answers after) (sound : space.Sound)
    (legible : space.Legible) (without : Without .uncommit answers)
    (hzeroes : ∃ answer ∈ answers, answer.Zeroes page) :
    ∀ address, space.UsedByte page address → after.read address = some 0 := by
  obtain ⟨answer, hanswer, hzeroes⟩ := hzeroes
  induction run with
  | done => exact absurd hanswer List.not_mem_nil
  | commit start count _ rest ih =>
    have moves := Moves.of_commit sound start count
    have hwithout := fun answer h => without answer (List.mem_cons_of_mem _ h)
    intro address used
    have used' := (moves.sameLayout.usedByte_iff page address).mpr used
    -- The page was zero when its commit was answered, and what came later kept the bytes of
    -- committed pages.
    rcases List.mem_cons.mp hanswer with rfl | hlater
    · obtain ⟨hresult, hfirst, hlast⟩ := hzeroes.of_commit
      obtain ⟨hcommitted, hzero⟩ := commit_zeroes sound legible hresult hfirst hlast
      have hkept := (rest.keeps_committed (moves.sound sound) hwithout hcommitted).2 address used'
      rw [hkept]
      exact hzero address used
    · exact ih (moves.sound sound) (moves.legible sound legible) hwithout hlater address used'
  | uncommit => exact absurd rfl (without _ List.mem_cons_self)
  | @pretouch space _ _ start count pretoucher _ ih =>
    have moves := Moves.of_pretouch space start count pretoucher
    have hwithout := fun answer h => without answer (List.mem_cons_of_mem _ h)
    intro address used
    have used' := (moves.sameLayout.usedByte_iff page address).mpr used
    rcases List.mem_cons.mp hanswer with rfl | hlater
    · cases hzeroes.1
    · exact ih (moves.sound sound) (moves.legible sound legible) hwithout hlater address used'

end StoreRun

end RegionBacking
