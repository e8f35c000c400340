import RegionBacking.Proofs.PageSpace.Access
import RegionBacking.Proofs.PageSpace.Alike

/-!
# Runs that go one way

A run of calls that uncommits no pages goes one way, and so does one that commits none: pages come
to one status and do not go back. What such a run leaves of a space is told from the pages that are
committed in front of it and behind it (`StoreRun.oneWay`). A byte changes just if its page does, and
then it is zero, or out of reach; in a pinned space no byte changes, but a page that does is clean
then, or dirty. So runs that go the same way from one space, and end with the same pages, leave
spaces that are alike (`OneWay.alike`).
-/

namespace RegionBacking

namespace PageSpace

variable {space after last other : PageSpace} {status : Bool} {start stop : Nat}

/-- What is read in memory that a space which is not pinned has just got, or has given up. -/
def content (status : Bool) : Option UInt8 := if status then some 0 else none

/-- The page of a byte of the used part is committed in one of two states and not in the other. -/
def Turned (space after : PageSpace) (address : Nat) : Prop :=
  space.base ≤ address ∧ address - space.base < Machine.wholePages space.usedSize ∧
    after.committed.bit ((address - space.base) / space.pageSize) ≠
      space.committed.bit ((address - space.base) / space.pageSize)

instance (space after : PageSpace) (address : Nat) : Decidable (space.Turned after address) :=
  inferInstanceAs (Decidable (_ ∧ _ ∧ _))

/-- From one state of a space to another one pages only came to a status. Their bytes are what they
are then, unless the space is pinned, and all other bytes are what they were. In a pinned space those
of these pages that were uncommitted are dirty, and those that were committed are not. -/
structure OneWay (status : Bool) (space after : PageSpace) : Prop
    extends SameLayout space after where
  memoryKind_eq : after.memoryKind = space.memoryKind
  bit_eq : ∀ page, space.committed.bit page = status → after.committed.bit page = status
  read_eq : ∀ address, after.read address =
    if space.pinned = false ∧ space.Turned after address then content status
    else space.read address
  dirty_bit_eq : ∀ page, after.dirty.bit page =
    if after.committed.bit page = space.committed.bit page then space.dirty.bit page
    else space.pinned && !status

namespace OneWay

/-- A machine on which all bytes read the same makes no difference. -/
theorem of_machine (status : Bool) (space : PageSpace) {machine : Machine}
    (hread : ∀ address, machine.memory.read address = space.read address) :
    OneWay status space { space with machine } where
  toSameLayout := ⟨rfl, rfl, rfl⟩
  memoryKind_eq := rfl
  bit_eq _ h := h
  read_eq address := by
    rw [if_neg fun turned => turned.2.2.2 rfl]
    exact hread address
  dirty_bit_eq _ := (if_pos rfl).symm

theorem refl (status : Bool) (space : PageSpace) : OneWay status space space :=
  of_machine status space fun _ => rfl

/-- A page turns once at most. -/
theorem turned_iff (first : OneWay status space after) (second : OneWay status after last)
    (address : Nat) :
    space.Turned last address ↔ space.Turned after address ∨ after.Turned last address := by
  have hbits : ∀ status a b c : Bool, (a = status → b = status) → (b = status → c = status) →
      (c ≠ a ↔ b ≠ a ∨ c ≠ b) := by decide
  unfold Turned
  rw [first.base_eq, first.pageSize_eq, first.usedSize_eq, ← and_or_left, ← and_or_left]
  refine and_congr_right fun _ => and_congr_right fun _ => ?_
  exact hbits status _ _ _ (first.bit_eq _) (second.bit_eq _)

theorem trans (first : OneWay status space after) (second : OneWay status after last) :
    OneWay status space last where
  toSameLayout := first.toSameLayout.trans second.toSameLayout
  memoryKind_eq := second.memoryKind_eq.trans first.memoryKind_eq
  bit_eq page h := second.bit_eq page (first.bit_eq page h)
  read_eq address := by
    have hturned := first.turned_iff second address
    rw [second.read_eq, first.read_eq, first.pinned_eq]
    by_cases hlater : space.pinned = false ∧ after.Turned last address
    · rw [if_pos hlater, if_pos ⟨hlater.1, hturned.mpr (.inr hlater.2)⟩]
    · rw [if_neg hlater]
      refine if_congr (and_congr_right fun hpinned => ?_) rfl rfl
      rw [hturned, or_iff_left fun hin => hlater ⟨hpinned, hin⟩]
  dirty_bit_eq page := by
    have hbits : ∀ (status a b c : Bool) {α : Type} (old new : α), (a = status → b = status) →
        (b = status → c = status) →
        (if c = b then if b = a then old else new else new) = if c = a then old else new := by
      intro status a b c α old new
      cases status <;> cases a <;> cases b <;> cases c <;> simp
    rw [second.dirty_bit_eq, first.dirty_bit_eq, first.pinned_eq]
    exact hbits status _ _ _ _ _ (first.bit_eq page) (second.bit_eq page)

/-! ## Calls -/

/-- A call that brings its pages to a status, none of which had it. -/
theorem of_bring (sound : space.Sound) (h : start < stop)
    (hstop : stop ≤ space.committablePages) (same : SameLayout space after)
    (hkind : after.memoryKind = space.memoryKind)
    (hbefore : ∀ page, start ≤ page → page < stop → space.committed.bit page = !status)
    (hcommitted : after.committed = space.committed.bring status start stop)
    (hread : ∀ address, after.read address =
      if space.pinned = false ∧ space.firstAddress start ≤ address ∧ address <
        space.firstAddress start + Machine.wholePages (space.usedSpan start stop) then
        content status
      else space.read address)
    (hdirty : ∀ page, after.dirty.bit page =
      if start ≤ page ∧ page < stop then space.pinned && !status else space.dirty.bit page) :
    OneWay status space after := by
  have hbit : ∀ page, after.committed.bit page =
      if start ≤ page ∧ page < stop then status else space.committed.bit page := fun page => by
    rw [hcommitted, Bitmap.bit_bring (Nat.le_trans hstop sound.committablePages_le)]
  have hturns : ∀ page, after.committed.bit page ≠ space.committed.bit page ↔
      start ≤ page ∧ page < stop := by
    intro page
    rw [hbit]
    split
    · next hin => simp [hbefore page hin.1 hin.2, hin]
    · next hout => simp [hout]
  refine ⟨same, hkind, fun page hpage => ?_, fun address => ?_, fun page => ?_⟩
  · rw [hbit, hpage, ite_self]
  · rw [hread]
    refine if_congr (and_congr_right fun _ => ?_) rfl rfl
    rw [Turned, hturns]
    by_cases hbase : space.base ≤ address
    · obtain ⟨offset, rfl⟩ := Nat.exists_eq_add_of_le hbase
      rw [mem_span_iff sound h hstop, Nat.add_sub_cancel_left]
      exact ⟨fun hin => ⟨hbase, hin.2, hin.1⟩, fun hin => ⟨hin.2.2, hin.2.1⟩⟩
    · -- The pages lie behind the base.
      have hfirst : space.base ≤ space.firstAddress start := Nat.le_add_right _ _
      exact ⟨fun hin => absurd (Nat.le_trans hfirst hin.1) hbase, fun hin => absurd hin.1 hbase⟩
  · rw [hdirty, if_congr (hturns page).symm rfl rfl, ite_not]

theorem of_commit (sound : space.Sound) (start count : Nat) :
    OneWay true space (commit start count space).state := by
  rcases commit_cases sound start count with
    ⟨result, trace, hrun, -⟩ | ⟨hpos, legal, zeroFilled, trace, hrun, -⟩
  · rw [hrun]
    exact .refl true space
  · rw [hrun]
    refine of_bring sound (Nat.lt_add_of_pos_right hpos) legal.le_committable ⟨rfl, rfl, rfl⟩
      rfl legal.bit_eq rfl (read_acquired_eq space _ _) fun page => ?_
    rw [bit_dirty_acquired sound legal.le_committable]
    by_cases hin : start ≤ page ∧ page < start + count
    · cases hpinned : space.pinned with
      | false => simp [hin, sound.not_dirty hpinned]
      | true => simp [hin]
    · simp [hin]

theorem of_uncommit (sound : space.Sound) (start count : Nat) :
    OneWay false space (uncommit start count space).state := by
  rcases uncommit_cases sound start count with
    ⟨result, trace, hrun, -⟩ | ⟨hpos, legal, trace, hrun, -⟩
  · rw [hrun]
    exact .refl false space
  · rw [hrun]
    refine of_bring sound (Nat.lt_add_of_pos_right hpos) legal.le_committable ⟨rfl, rfl, rfl⟩
      rfl legal.bit_eq rfl (read_released_eq space _ _) fun page => ?_
    rw [bit_dirty_released sound legal.le_committable]
    by_cases hin : start ≤ page ∧ page < start + count
    · cases hpinned : space.pinned with
      | false => simp [hin, sound.not_dirty hpinned]
      | true => simp [hin]
    · simp [hin]

theorem of_pretouch (status : Bool) (space : PageSpace) (start count : Nat)
    (pretoucher : Pretoucher) :
    OneWay status space (pretouch start count pretoucher space).state := by
  obtain ⟨result, machine, trace, hrun, -, -, hread⟩ :=
    pretouch_cases space start count pretoucher
  rw [hrun]
  exact .of_machine status space hread

/-! ## The same way -/

/-- Who goes the same way to the same pages comes to the same bytes. -/
theorem alike (way : OneWay status space after) (way' : OneWay status space other)
    (sound : after.Sound) (sound' : other.Sound) (hcommitted : other.committed = after.committed) :
    after.Alike other where
  reservation_eq := way'.reservation_eq.trans way.reservation_eq.symm
  usedSize_eq := way'.usedSize_eq.trans way.usedSize_eq.symm
  pinned_eq := way'.pinned_eq.trans way.pinned_eq.symm
  memoryKind_eq := way'.memoryKind_eq.trans way.memoryKind_eq.symm
  committed_eq := hcommitted
  dirty_eq := by
    apply Bitmap.ext_bit
    · rw [sound.size_dirty, sound'.size_dirty, way.reservation_eq, way'.reservation_eq,
        way.pageSize_eq, way'.pageSize_eq]
    · intro page
      rw [way.dirty_bit_eq, way'.dirty_bit_eq, hcommitted]
  committedBytes_eq := by
    have same : SameLayout other after := ⟨way.reservation_eq.trans way'.reservation_eq.symm,
      way.usedSize_eq.trans way'.usedSize_eq.symm, way.pinned_eq.trans way'.pinned_eq.symm⟩
    exact same.committedBytes_eq sound' sound hcommitted
  read_eq address := by
    have hturned : space.Turned other address ↔ space.Turned after address := by
      rw [Turned, hcommitted, Turned]
    rw [way.read_eq, way'.read_eq, if_congr (and_congr_right fun _ => hturned) rfl rfl]

end OneWay

end PageSpace

open PageSpace (OneWay Moves)

/-- A run of calls leads to what can become of a space. -/
theorem StoreRun.reachable {space after : PageSpace} {answers : List Answer}
    (run : StoreRun space answers after) : space.Reachable after := by
  induction run with
  | done => exact .refl
  | commit start count _ _ ih => exact ih.head (.call (.commit start count))
  | uncommit start count _ _ ih => exact ih.head (.call (.uncommit start count))
  | pretouch start count pretoucher _ ih =>
    exact ih.head (.call (.pretouch start count pretoucher))

/-- A run of calls goes one way where none of them goes the other way. -/
theorem StoreRun.oneWay {space after : PageSpace} {answers : List Answer} {status : Bool}
    (run : StoreRun space answers after) (sound : space.Sound)
    (without : Without (if status then .uncommit else .commit) answers) :
    OneWay status space after := by
  induction run with
  | done space => exact .refl status space
  | commit start count _ _ ih =>
    have moves := Moves.of_commit sound start count
    cases status with
    | false => exact absurd rfl (without _ List.mem_cons_self)
    | true =>
      exact (OneWay.of_commit sound start count).trans (ih (moves.sound sound)
        fun answer h => without answer (List.mem_cons_of_mem _ h))
  | uncommit start count _ _ ih =>
    have moves := Moves.of_uncommit sound start count
    cases status with
    | true => exact absurd rfl (without _ List.mem_cons_self)
    | false =>
      exact (OneWay.of_uncommit sound start count).trans (ih (moves.sound sound)
        fun answer h => without answer (List.mem_cons_of_mem _ h))
  | @pretouch space _ _ start count pretoucher _ ih =>
    have moves := Moves.of_pretouch space start count pretoucher
    exact (OneWay.of_pretouch status space start count pretoucher).trans (ih (moves.sound sound)
      fun answer h => without answer (List.mem_cons_of_mem _ h))

end RegionBacking
