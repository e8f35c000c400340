import RegionBacking.Proofs.PageSpace.Contents

/-!
# Page spaces that were just set up

A page space that was set up has its books in order, no page is committed, and its bytes are as they
have to be: the used part of a pinned space reads as zero.
-/

namespace RegionBacking

/-! ## Rounding -/

theorem Word.alignUp_eq_ok {value alignment rounded : Nat}
    (h : Word.alignUp value alignment = .ok rounded) :
    value + alignment < Word.limit ∧ 0 < alignment ∧ alignment ∣ rounded ∧ value ≤ rounded ∧
      rounded < value + alignment := by
  unfold Word.alignUp at h
  split at h
  · next hpower =>
    obtain ⟨k, rfl⟩ := Word.isPowerOfTwo_iff.mp hpower
    have hpos : 0 < 2 ^ k := Nat.two_pow_pos k
    by_cases hlimit : value + 2 ^ k < Word.limit
    · rw [Word.add, if_pos hlimit] at h
      have hrounded : (value + 2 ^ k - 1) / 2 ^ k * 2 ^ k = rounded := Except.ok.inj h
      have hdiv := Nat.div_add_mod (value + 2 ^ k - 1) (2 ^ k)
      have hmod := Nat.mod_lt (value + 2 ^ k - 1) hpos
      rw [Nat.mul_comm, hrounded] at hdiv
      exact ⟨hlimit, hpos, ⟨_, by rw [← hrounded, Nat.mul_comm]⟩, by omega, by omega⟩
    · rw [Word.add, if_neg hlimit] at h
      cases h
  · cases h

/-- A page is made of whole pages of the operating system. -/
theorem Word.osPage_dvd {pageSize : Nat} (hpower : Word.isPowerOfTwo pageSize = true)
    (h : Word.osPage ≤ pageSize) : Word.osPage ∣ pageSize := by
  obtain ⟨k, rfl⟩ := Word.isPowerOfTwo_iff.mp hpower
  have hos : Word.osPage = 2 ^ 12 := rfl
  rw [hos] at h ⊢
  exact Nat.pow_dvd_pow 2 ((Nat.pow_le_pow_iff_right (by omega)).mp h)

/-- A multiple of the page that is less than a page away is what a length is rounded up to. -/
theorem Machine.eq_wholePages {length rounded : Nat} (h : Word.osPage ∣ rounded)
    (hge : length ≤ rounded) (hlt : rounded < length + Word.osPage) :
    rounded = Machine.wholePages length := by
  simp only [Machine.wholePages, Word.divCeil, Word.osPage] at *
  omega

/-! ## Address space -/

/-- A request that is granted is for a range of pages, and it changes the memory as it is to. -/
theorem Machine.of_perform_ok {request : Request} {change : Memory → Memory}
    {machine after : Machine} {trace : List Effect}
    (h : Machine.perform request change machine = ⟨.ok (), after, trace⟩) :
    request.length ≠ 0 ∧ Word.osPage ∣ request.address ∧
      after = { machine with memory := change machine.memory } ∧ trace = [.request request] := by
  unfold Machine.perform at h
  rw [Op.emit_bind, Op.get_bind] at h
  split at h
  · cases h
  · split at h
    · cases h
    · next hvalid =>
      rw [not_or, Classical.not_not] at hvalid
      cases h
      exact ⟨hvalid.1, Nat.dvd_of_mod_eq_zero hvalid.2, rfl, rfl⟩

/-- Address space is handed out at the place of the machine, and it is not larger than all there
is. -/
theorem Machine.of_reserve_ok {total address : Nat} {machine after : Machine}
    {trace : List Effect} (h : Machine.reserve total machine = ⟨.ok address, after, trace⟩) :
    address = machine.place total ∧ total < Word.addressLimit ∧
      trace = [.request ⟨.reserve, 0, total⟩] := by
  unfold Machine.reserve at h
  split at h
  · cases h
  · rw [Op.emit_bind, Op.get_bind] at h
    split at h
    · cases h
    · next hgranted =>
      rw [Bool.or_eq_true, decide_eq_true_eq, not_or] at hgranted
      cases h
      exact ⟨rfl, by omega, rfl⟩

/-- The bytes of a range that was committed are zero, and all others are as they were. -/
theorem Machine.read_of_commit_ok {start length : Nat} {machine after : Machine}
    {trace : List Effect} (h : Machine.commit start length machine = ⟨.ok (), after, trace⟩)
    (address : Nat) : after.memory.read address =
      if start ≤ address ∧ address < start + wholePages length then some 0
      else machine.memory.read address := by
  obtain ⟨-, -, rfl, -⟩ := Machine.of_perform_ok h
  exact Memory.read_map _ _ _ _

namespace Reservation

/-- The range that is obtained starts at a page and is inaccessible. -/
theorem of_obtain_ok {total raw : Nat} {machine after : Machine} {trace : List Effect}
    (h : obtain total machine = ⟨.ok raw, after, trace⟩) :
    raw = machine.place total ∧ total < Word.addressLimit ∧ Word.osPage ∣ raw ∧
      (∀ address, raw ≤ address → address < raw + total → after.memory.read address = none) ∧
      trace = [.request ⟨.reserve, 0, total⟩, .request ⟨.uncommit, raw, total⟩] := by
  unfold obtain at h
  obtain ⟨address, mid, _, _, hreserve, hrest, rfl⟩ := Op.of_bind_run_ok h
  obtain ⟨_, last, _, _, huncommit, hraw, rfl⟩ := Op.of_bind_run_ok hrest
  cases hraw
  obtain ⟨hplace, htotal, rfl⟩ :=
    Machine.of_reserve_ok (Op.of_recover_ok hreserve fun _ _ => nofun)
  obtain ⟨-, haligned, rfl, rfl⟩ :=
    Machine.of_perform_ok (Op.of_recover_ok huncommit fun _ _ => nofun)
  refine ⟨hplace, htotal, haligned, ?_, rfl⟩
  intro byte hfirst hlast
  have hwhole := Machine.le_wholePages total
  exact (Memory.read_unmap _ _ _ _).trans (if_pos ⟨hfirst, by omega⟩)

/-- What is sure of a reservation of `size` bytes that a machine handed out. -/
structure HandedOut (reservation : Reservation) (size pageSize : Nat) (machine : Machine) :
    Prop where
  size_eq : reservation.size = size
  pageSize_eq : reservation.pageSize = pageSize
  size_lt : size + Word.osPage < Word.limit
  pageSize_aligned : Word.osPage ∣ pageSize
  pageSize_pos : 0 < pageSize
  base_aligned : pageSize ∣ reservation.base
  /-- The base lies less than a page behind the place that the machine handed out. -/
  base_lt : ∃ total, size ≤ total ∧ pageSize ≤ max total Word.osPage ∧
    total < Word.addressLimit ∧ reservation.base < machine.place total + pageSize

/-- The bytes that are obtained for a reservation: whole pages, and the slack. -/
def obtained (size pageSize : Nat) : Nat := Machine.wholePages size + slack pageSize

/-- An aligned base less than a page behind what was obtained leaves room for the size. -/
theorem limit_le_of_base_lt (size : Nat) {pageSize raw base : Nat}
    (hpage : Word.osPage ≤ pageSize) (hraw : Word.osPage ∣ raw) (hbase : Word.osPage ∣ base)
    (hle : raw ≤ base) (hlt : base < raw + pageSize) :
    base + Machine.wholePages size ≤ raw + obtained size pageSize := by
  unfold obtained slack
  split
  · omega
  -- The page is one of the operating system, so the base is where the range starts.
  · simp only [Word.osPage] at *
    omega

/-- How a reservation lies in the range that was obtained for it, at `raw`. -/
structure Obtained (reservation : Reservation) (size pageSize raw : Nat)
    (machine after : Machine) (trace : List Effect) : Prop
    extends HandedOut reservation size pageSize machine where
  raw_eq : raw = machine.place (obtained size pageSize)
  raw_aligned : Word.osPage ∣ raw
  raw_le : raw ≤ reservation.base
  limit_le : reservation.base + Machine.wholePages size ≤ raw + obtained size pageSize
  obtained_lt : obtained size pageSize < Word.addressLimit
  /-- Nothing of it is accessible. -/
  closed : ∀ address, raw ≤ address → address < raw + obtained size pageSize →
    after.memory.read address = none
  requests_eq : Effect.requests trace =
    [⟨.reserve, 0, obtained size pageSize⟩, ⟨.uncommit, raw, obtained size pageSize⟩]

theorem of_reserve_ok {size pageSize : Nat} {machine after : Machine} {reservation : Reservation}
    {trace : List Effect} (h : reserve size pageSize machine = ⟨.ok reservation, after, trace⟩) :
    reservation.Obtained size pageSize (machine.place (obtained size pageSize)) machine after
      trace := by
  unfold reserve at h
  split at h
  · cases h
  · next hsize =>
    rw [not_or, Bool.not_eq_false] at hsize
    split at h
    · cases h
    · next hpage =>
      -- The size is rounded up to pages of the operating system, slack is added so that the
      -- base can be aligned, and the base is rounded up within what was handed out.
      obtain ⟨rounded, _, _, _, hchecked, hrest, rfl⟩ := Op.of_bind_run_ok h
      obtain ⟨hrounded, rfl, rfl⟩ := Op.of_checked_ok hchecked
      obtain ⟨hsum, -, hmultiple, hge, hlt⟩ := Word.alignUp_eq_ok hrounded
      obtain rfl : rounded = Machine.wholePages size := Machine.eq_wholePages hmultiple hge hlt
      simp only [] at hrest
      split at hrest
      · cases hrest
      · obtain ⟨raw, _, _, _, hobtain, hfound, rfl⟩ := Op.of_bind_run_ok hrest
        obtain ⟨base, _, _, _, hchecked, hlast, rfl⟩ := Op.of_bind_run_ok hfound
        obtain ⟨hbase, rfl, rfl⟩ := Op.of_checked_ok hchecked
        cases hlast
        obtain ⟨hraw, htotal, hrawAligned, hclosed, rfl⟩ := of_obtain_ok hobtain
        obtain ⟨-, hpos, hbaseAligned, hle, hlt⟩ := Word.alignUp_eq_ok hbase
        have hpageAligned := Word.osPage_dvd hsize.2 (by omega)
        have hpageLe : pageSize ≤ max (obtained size pageSize) Word.osPage := by
          unfold obtained slack
          split <;> omega
        have hlimit := limit_le_of_base_lt size (by omega) hrawAligned
          (Nat.dvd_trans hpageAligned hbaseAligned) hle hlt
        have hsizeLe := Machine.le_wholePages size
        subst hraw
        exact ⟨⟨rfl, rfl, hsum, hpageAligned, hpos, hbaseAligned, obtained size pageSize,
          Nat.le_trans hsizeLe (Nat.le_add_right _ _), hpageLe, htotal, hlt⟩, rfl, hrawAligned, hle,
          hlimit, htotal, hclosed, rfl⟩

theorem handedOut {size pageSize : Nat} {machine after : Machine} {reservation : Reservation}
    {trace : List Effect} (h : reserve size pageSize machine = ⟨.ok reservation, after, trace⟩) :
    reservation.HandedOut size pageSize machine := (of_reserve_ok h).toHandedOut

theorem commit_of_commitRange_ok {start length : Nat} {reservation : Reservation}
    {machine after : Machine} {trace : List Effect}
    (h : reservation.commitRange start length machine = ⟨.ok (), after, trace⟩) :
    Machine.commit start length machine = ⟨.ok (), after, trace⟩ := by
  unfold commitRange checkRange at h
  simp only [] at h
  cases hinside : (decide (reservation.base ≤ start) &&
    decide (Word.saturatingAdd start length ≤ reservation.limit)) with
  | false =>
    rw [hinside, Op.require_false, Op.fail_bind] at h
    cases h
  | true => rwa [hinside, Op.require_true, pure_bind] at h

end Reservation

namespace PageSpace

/-- A page space that was just set up. -/
structure Fresh (space : PageSpace) (reservedSize usedSize pageSize : Nat) (pinned : Bool)
    (machine : Machine) : Prop where
  handedOut : space.reservation.HandedOut reservedSize pageSize machine
  usedSize_eq : space.usedSize = usedSize
  pinned_eq : space.pinned = pinned
  sound : space.Sound
  legible : space.Legible
  clear : ∀ page, space.committed.bit page = false

/-- A page space no page of which is committed. -/
def blank (machine : Machine) (reservation : Reservation) (usedSize : Nat) (memoryKind : MemoryKind)
    (pinned : Bool) : PageSpace :=
  ⟨machine, reservation, usedSize, .empty (Word.divCeil reservation.size reservation.pageSize),
    .empty (Word.divCeil reservation.size reservation.pageSize), pinned, memoryKind, 0⟩

theorem not_bit_blank (machine : Machine) (reservation : Reservation) (usedSize : Nat)
    (memoryKind : MemoryKind) (pinned : Bool) (page : Nat) :
    ¬ (blank machine reservation usedSize memoryKind pinned).committed.bit page = true ∧
      ¬ (blank machine reservation usedSize memoryKind pinned).dirty.bit page = true := by
  simp [blank]

/-- Nothing is committed in a blank space, so only what is zero in a pinned one is to be shown. -/
theorem fresh_blank {size usedSize pageSize : Nat} {memoryKind : MemoryKind} {pinned : Bool}
    {machine before : Machine} {reservation : Reservation}
    (handedOut : reservation.HandedOut size pageSize before) (hused : usedSize ≤ size)
    (hzero : pinned = true → ∀ address, reservation.base ≤ address →
      address < reservation.base + usedSize → machine.memory.read address = some 0) :
    (blank machine reservation usedSize memoryKind pinned).Fresh size usedSize pageSize pinned
      before where
  handedOut := handedOut
  usedSize_eq := rfl
  pinned_eq := rfl
  clear := Bitmap.bit_empty _
  sound :=
    { pageSize_pos := Nat.lt_of_lt_of_eq handedOut.pageSize_pos handedOut.pageSize_eq.symm
      pageSize_aligned := Nat.dvd_trans handedOut.pageSize_aligned handedOut.pageSize_eq.symm.dvd
      base_aligned := Nat.dvd_trans handedOut.pageSize_aligned handedOut.base_aligned
      usedSize_le := handedOut.size_eq ▸ hused
      size_committed := rfl
      size_dirty := rfl
      lt_committable := fun page hbit => absurd hbit (not_bit_blank _ _ _ _ _ page).1
      address_lt := fun page hbit => absurd hbit (not_bit_blank _ _ _ _ _ page).1
      dirty_pinned := fun page hbit => absurd hbit (not_bit_blank _ _ _ _ _ page).2
      committedBytes_eq := by simp [blank, committedSet] }
  legible :=
    { accessible := fun page address used hcommitted => by
        rcases hcommitted with hpinned | hbit
        · exact ⟨0, hzero hpinned address (Nat.le_trans (Nat.le_add_right _ _)
            used.firstAddress_le) used.lt_usedLimit⟩
        · exact absurd hbit (not_bit_blank _ _ _ _ _ page).1
      clean := fun hpinned page address used _ _ => hzero hpinned address
        (Nat.le_trans (Nat.le_add_right _ _) used.firstAddress_le) used.lt_usedLimit }

/-- What it takes to set up a space: a reservation, of which a pinned space commits the used part at
once. -/
theorem of_reserve_ok {reservedSize usedSize pageSize : Nat} {memoryKind : MemoryKind}
    {pinned : Bool} {machine : Machine} {space : PageSpace}
    (h : (reserve reservedSize usedSize pageSize memoryKind pinned machine).result = .ok space) :
    usedSize ≤ reservedSize ∧ ∃ reservation mid trace after,
      Reservation.reserve reservedSize pageSize machine = ⟨.ok reservation, mid, trace⟩ ∧
      space = blank after reservation usedSize memoryKind pinned ∧
      ∀ address, after.memory.read address =
        if pinned = true ∧ reservation.base ≤ address ∧
          address < reservation.base + Machine.wholePages usedSize then some 0
        else mid.memory.read address := by
  unfold reserve at h
  split at h
  · cases h
  · next hused =>
    obtain ⟨reservation, mid, trace, hreserve, hrest⟩ := Op.of_bind_ok h
    have hout := Reservation.handedOut hreserve
    have hpages : Word.divCeil reservedSize pageSize =
        Word.divCeil reservation.size reservation.pageSize := by
      rw [hout.size_eq, hout.pageSize_eq]
    simp only [hpages] at hrest
    refine ⟨by omega, reservation, mid, trace, ?_⟩
    split at hrest
    · next hpinned =>
      obtain ⟨_, mid', _, hcommit, hrest⟩ := Op.of_bind_ok hrest
      have hcommit := Op.of_recover_ok hcommit fun _ _ => nofun
      rw [Bool.and_eq_true] at hpinned
      cases hrest
      refine ⟨mid', hreserve, rfl, ?_⟩
      intro address
      rw [Machine.read_of_commit_ok (Reservation.commit_of_commitRange_ok hcommit)]
      simp only [hpinned.1, true_and]
    · next hpinned =>
      cases hrest
      refine ⟨mid, hreserve, rfl, ?_⟩
      intro address
      rw [if_neg]
      -- A pinned space without used bytes has no byte to commit.
      intro hcommitted
      obtain ⟨hpinned', hfirst, hlast⟩ := hcommitted
      rw [hpinned', Bool.true_and, bne_iff_ne, not_not] at hpinned
      rw [hpinned] at hlast
      exact absurd hlast (Nat.not_lt.mpr hfirst)

theorem fresh {reservedSize usedSize pageSize : Nat} {memoryKind : MemoryKind} {pinned : Bool}
    {machine : Machine} {space : PageSpace}
    (h : (reserve reservedSize usedSize pageSize memoryKind pinned machine).result = .ok space) :
    space.Fresh reservedSize usedSize pageSize pinned machine := by
  obtain ⟨hused, reservation, mid, trace, after, hreserve, rfl, hread⟩ := of_reserve_ok h
  refine fresh_blank (Reservation.handedOut hreserve) hused fun hpinned address hfirst hlast => ?_
  have hwhole := Machine.le_wholePages usedSize
  rw [hread, if_pos ⟨hpinned, hfirst, by omega⟩]

end PageSpace

/-! ## A small machine -/

/-- A machine that refuses nothing and hands out all address space at one place. -/
def Machine.willing : Machine := ⟨.empty, fun _ => 65536, fun _ => false⟩

end RegionBacking
