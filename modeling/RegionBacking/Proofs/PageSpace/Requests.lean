import RegionBacking.Proofs.PageSpace.Usage

/-!
# The requests of a page space

A request that makes a range accessible or inaccessible replaces whatever is mapped there, so it
must not leave the range of addresses that was obtained for the reservation. The operating system
rounds its length up to a page, and neither the size of the reservation nor the used part needs to
be a multiple of one. `Reservation.Inside` says that all that passes the check of a reservation lies
in the range; `Reservation.Admits` is what the requests of a page space are: each passes the check,
is not empty and starts at a page of the operating system. `Apart` says that a request for some
pages of a space leaves the others alone.
-/

namespace RegionBacking

/-! ## Ranges that pass the check -/

namespace Reservation

/-- A range passes the check of a reservation. -/
def Passes (reservation : Reservation) (address length : Nat) : Prop :=
  ∀ machine, (reservation.checkRange address length : Op OsError Machine Unit) machine =
    ⟨.ok (), machine, []⟩

theorem passes_iff (reservation : Reservation) (address length : Nat) :
    reservation.Passes address length ↔
      reservation.base ≤ address ∧ Word.saturatingAdd address length ≤ reservation.limit := by
  unfold Passes checkRange
  constructor
  · intro h
    by_contra hout
    rw [← decide_eq_true_iff (p := _ ≤ address), ← decide_eq_true_iff (p := _ ≤ reservation.limit),
      ← Bool.and_eq_true, Bool.not_eq_true] at hout
    have hrun := h .willing
    rw [hout, Op.require_false, Op.fail_run] at hrun
    cases hrun
  · intro h machine
    rw [decide_eq_true h.1, decide_eq_true h.2]
    rfl

/-- A request for a range of the reservation. -/
structure Admits (reservation : Reservation) (request : Request) : Prop where
  passes : reservation.Passes request.address request.length
  length_pos : 0 < request.length
  aligned : Word.osPage ∣ request.address

/-- A reservation of `size` bytes lies in the `total` bytes from `raw`, and so does all that passes
its check. -/
structure Inside (reservation : Reservation) (size pageSize raw total : Nat) : Prop where
  size_eq : reservation.size = size
  pageSize_eq : reservation.pageSize = pageSize
  base_aligned : pageSize ∣ reservation.base
  raw_le : raw ≤ reservation.base
  limit_le : reservation.base + size ≤ raw + total
  /-- Also where its length is rounded up to pages of the operating system. -/
  whole_inside : ∀ address length, Word.osPage ∣ address → reservation.Passes address length →
    raw ≤ address ∧ address + Machine.wholePages length ≤ raw + total

/-- What was obtained for a reservation holds all that passes its check, if its end is a word. -/
theorem Obtained.inside {reservation : Reservation} {size pageSize raw : Nat}
    {machine after : Machine} {trace : List Effect}
    (obtained : reservation.Obtained size pageSize raw machine after trace)
    (hlimit : raw + Reservation.obtained size pageSize < Word.limit) :
    reservation.Inside size pageSize raw (Reservation.obtained size pageSize) := by
  have hwhole := obtained.limit_le
  have hsize := Machine.le_wholePages size
  have hbase := Nat.dvd_trans obtained.pageSize_aligned obtained.base_aligned
  refine ⟨obtained.size_eq, obtained.pageSize_eq, obtained.base_aligned, obtained.raw_le, by omega,
    ?_⟩
  intro address length haligned hpasses
  rw [passes_iff, limit, obtained.size_eq] at hpasses
  have hraw := obtained.raw_le
  -- The reservation ends a page before the last word, so its check never saturates.
  have hend : address + length ≤ reservation.base + size := by
    have hlast : Word.limit = 18446744073709551616 := rfl
    have hpasses := hpasses.2
    unfold Word.saturatingAdd at hpasses
    simp only [Machine.wholePages, Word.divCeil, Word.osPage] at *
    omega
  have hrounded :
      address + Machine.wholePages length ≤ reservation.base + Machine.wholePages size := by
    simp only [Machine.wholePages, Word.divCeil, Word.osPage] at *
    omega
  exact ⟨by omega, by omega⟩

end Reservation

/-! ## Setting up -/

/-- An effect that does not ask for memory to be committed. -/
def Effect.Uncommitted (effect : Effect) : Prop :=
  ∀ request, effect = .request request → request.kind ≠ .commit

/-- A fault that does not say that a range leaves its reservation. -/
def Fault.IsInside (fault : Fault) : Prop :=
  ∀ start stop base limit, fault ≠ .outsideReservation start stop base limit

theorem Machine.perform_shows {effects : Effect → Prop} {faults : Fault → Prop} {request : Request}
    (h : effects (.request request)) (change : Memory → Memory) (machine : Machine) :
    (perform request change machine).Shows effects faults := by
  apply Op.bind_shows (Op.emit_shows h machine)
  intro _ after _ _
  rw [Op.get_bind]
  split
  · exact Op.refuse_shows _ _
  · split
    · exact Op.refuse_shows _ _
    · exact Op.modify_shows _ _

/-- To obtain a range commits nothing. -/
theorem Machine.reserve_shows (total : Nat) (machine : Machine) :
    (reserve total machine).Shows Effect.Uncommitted Fault.IsInside := by
  unfold reserve
  split
  · exact Op.refuse_shows _ _
  · apply Op.bind_shows (Op.emit_shows _ machine)
    · intro _ after _ _
      rw [Op.get_bind]
      split
      · exact Op.refuse_shows _ _
      · exact Op.bind_shows (Op.modify_shows _ _) fun _ _ _ _ => Op.pure_shows _ _
    · intro request hrequest
      cases hrequest
      nofun

theorem Word.isInside_of_alignUp {value alignment : Nat} {fault : Fault}
    (h : alignUp value alignment = .error fault) : fault.IsInside := by
  unfold alignUp add at h
  split at h
  · split at h
    · cases h
    · cases h
      exact fun _ _ _ _ => nofun
  · cases h
    exact fun _ _ _ _ => nofun

/-- A reservation commits nothing, and it meets no fault but that of its arithmetic. -/
theorem Reservation.reserve_shows (size pageSize : Nat) (machine : Machine) :
    (reserve size pageSize machine).Shows Effect.Uncommitted Fault.IsInside := by
  unfold reserve
  split
  · exact Op.refuse_shows _ _
  split
  · exact Op.refuse_shows _ _
  apply Op.bind_shows (Op.checked_shows (fun _ => Word.isInside_of_alignUp) machine)
  intro rounded after _ hafter
  obtain ⟨-, rfl, -⟩ := Op.of_checked_ok hafter
  split
  · exact Op.refuse_shows _ _
  apply Op.bind_shows
  · apply Op.bind_shows
      (Op.recover_shows (Machine.reserve_shows _ _) fun _ _ => Op.refuse_shows _ _)
    intro raw after _ _
    refine Op.bind_shows (Op.recover_shows (Machine.perform_shows ?_ _ after) ?_)
      fun _ _ _ _ => Op.pure_shows _ _
    · intro request hrequest
      cases hrequest
      nofun
    · intro error last
      exact Op.bind_shows (Op.modify_shows _ last) fun _ _ _ _ => Op.refuse_shows _ _
  · intro raw after _ _
    apply Op.bind_shows (Op.checked_shows (fun _ => Word.isInside_of_alignUp) after)
    intro base last _ _
    exact Op.bind_shows (Op.emit_shows (fun _ => nofun) last) fun _ _ _ _ => Op.pure_shows _ _

namespace PageSpace

/-- An effect that asks for memory to be committed only in the reservation that is obtained. -/
def CommitsInside (reservedSize pageSize : Nat) (machine : Machine) (effect : Effect) : Prop :=
  ∀ request, effect = .request request → request.kind = .commit →
    ∃ reservation, (Reservation.reserve reservedSize pageSize machine).result = .ok reservation ∧
      reservation.Admits request

/-- However setting up ends, a pinned space asks for a range of its reservation to be committed, and
nothing leaves the reservation. -/
theorem reserve_shows (reservedSize usedSize pageSize : Nat) (memoryKind : MemoryKind)
    (pinned : Bool) (machine : Machine) :
    (reserve reservedSize usedSize pageSize memoryKind pinned machine).Shows
      (CommitsInside reservedSize pageSize machine) Fault.IsInside := by
  have hrecord : ∀ record : Record, CommitsInside reservedSize pageSize machine (.record record) :=
    fun _ _ => nofun
  unfold reserve
  split
  · exact Op.refuse_shows _ _
  · next hused =>
    apply Op.bind_shows
    · refine (Reservation.reserve_shows reservedSize pageSize machine).mono ?_ fun _ h => h
      intro effect heffect request hrequest hcommit
      exact absurd hcommit (heffect request hrequest)
    · intro reservation mid trace hreserve
      have hobtained := Reservation.of_reserve_ok hreserve
      have hsize := hobtained.size_eq
      have hpasses : reservation.Passes reservation.base usedSize := by
        rw [Reservation.passes_iff]
        unfold Word.saturatingAdd Reservation.limit
        omega
      split
      · next hcommits =>
        rw [Bool.and_eq_true, bne_iff_ne] at hcommits
        have hadmits : reservation.Admits ⟨.commit, reservation.base, usedSize⟩ :=
          ⟨hpasses, Nat.pos_of_ne_zero hcommits.2,
            Nat.dvd_trans hobtained.pageSize_aligned hobtained.base_aligned⟩
        have hrun : reservation.commitRange reservation.base usedSize mid =
            Machine.commit reservation.base usedSize mid := Op.bind_eq_after (hpasses mid)
        apply Op.bind_shows
        · apply Op.recover_shows
          · rw [hrun]
            apply Machine.perform_shows
            intro request hrequest _
            cases hrequest
            exact ⟨reservation, congrArg Run.result hreserve, hadmits⟩
          · intro cause after
            exact Op.bind_shows (Op.emit_shows (hrecord _) after) fun _ _ _ _ =>
              Op.refuse_shows _ _
        · intro _ after _ _
          exact Op.bind_shows (Op.emit_shows (hrecord _) after) fun _ _ _ _ => Op.pure_shows _ _
      · exact Op.bind_shows (Op.emit_shows (hrecord _) mid) fun _ _ _ _ => Op.pure_shows _ _

/-! ## Calls -/

variable {first space : PageSpace} {start stop count : Nat} {request : Request}

/-- A request for the pages `[start, stop)` of a space is one for a range of its reservation, and it
leaves the bytes of all other pages alone. -/
structure Apart (space : PageSpace) (request : Request) (start stop : Nat) : Prop where
  admits : space.reservation.Admits request
  not_covers : ∀ page address, ¬ (start ≤ page ∧ page < stop) →
    space.firstAddress page ≤ address → address < space.firstAddress (page + 1) →
    ¬ (request.address ≤ address ∧ address < request.address + Machine.wholePages request.length)

theorem apart_of_eq (sound : space.Sound) (h : start < stop) (hstop : stop ≤ space.committablePages)
    (haddress : request.address = space.firstAddress start)
    (hlength : request.length = space.usedSpan start stop) : space.Apart request start stop := by
  constructor
  · constructor
    · intro machine
      rw [haddress, hlength, checkRange_eq sound h hstop]
      rfl
    · rw [hlength]
      exact usedSpan_pos sound h hstop
    · rw [haddress]
      exact osPage_dvd_firstAddress sound start
  · intro page address hout hfirst hlast
    rw [haddress, hlength]
    -- The request ends with its last page, so a page outside is before it or behind it.
    have hspan := span_le sound (Nat.le_of_lt h)
    rcases Nat.lt_or_ge page start with hbefore | hafter
    · have := space.firstAddress_mono (show page + 1 ≤ start by omega)
      omega
    · have := space.firstAddress_mono (show stop ≤ page by omega)
      omega

theorem apart_of_commit (sound : space.Sound)
    (h : request ∈ Effect.requests (commit start count space).trace) :
    space.Apart request start (start + count) := by
  rcases Nat.eq_zero_or_pos count with rfl | hpos
  · cases h
  by_cases legal : space.Legal false start (start + count)
  · obtain rfl : request = space.commitRequest start (start + count) := by
      rcases legal.commit_run sound hpos with
        ⟨zeroFilled, trace, hrun, asks, -⟩ | ⟨refusal, trace, hrun, asks, -⟩
      all_goals
        rw [hrun] at h
        exact asks.eq_of_mem h
    exact apart_of_eq sound (Nat.lt_add_of_pos_right hpos) legal.le_committable rfl rfl
  · obtain ⟨fault, -, hrun⟩ := commit_eq_fault sound hpos legal
    rw [hrun] at h
    cases h

theorem apart_of_uncommit (sound : space.Sound)
    (h : request ∈ Effect.requests (uncommit start count space).trace) :
    space.Apart request start (start + count) := by
  rcases Nat.eq_zero_or_pos count with rfl | hpos
  · cases h
  by_cases legal : space.Legal true start (start + count)
  · obtain rfl : request = space.uncommitRequest start (start + count) := by
      rcases legal.uncommit_run sound hpos with
        ⟨trace, hrun, asks⟩ | ⟨refusal, trace, hrun, asks, -⟩
      all_goals
        rw [hrun] at h
        exact asks.eq_of_mem h
    exact apart_of_eq sound (Nat.lt_add_of_pos_right hpos) legal.le_committable rfl rfl
  · obtain ⟨fault, -, hrun⟩ := uncommit_eq_fault sound hpos legal
    rw [hrun] at h
    cases h

/-- Pretouching asks the operating system for nothing. -/
theorem requests_pretouch (space : PageSpace) (start count : Nat) (pretoucher : Pretoucher) :
    Effect.requests (pretouch start count pretoucher space).trace = [] := by
  rcases pretouch_checked space start count pretoucher with ⟨fault, -, hrun⟩ | ⟨-, hrun⟩
  · rw [hrun]
    rfl
  · obtain ⟨trace, hrecords, hpass⟩ :=
      pretoucher.run_eq Refusal start count space.pageSize space.touchFault? touch space
    rw [hrun, hpass]
    apply List.filterMap_eq_nil_iff.mpr
    intro effect heffect
    obtain ⟨record, rfl⟩ := hrecords effect heffect
    rfl

/-- Every request of a call is one for pages of the call. -/
theorem Call.apart (call : Call) (sound : space.Sound)
    (h : request ∈ Effect.requests (call.run space).trace) :
    space.Apart request call.pages.start call.pages.stop := by
  cases call with
  | commit start count => exact apart_of_commit sound h
  | uncommit start count => exact apart_of_uncommit sound h
  | pretouch start count pretoucher =>
    have hnone := requests_pretouch space start count pretoucher
    rw [show Effect.requests ((Call.pretouch start count pretoucher).run space).trace = [] from
      hnone] at h
    cases h

/-! ## At all times -/

/-- A page space over the reservation that was obtained for it asks for ranges of it only. -/
structure AsksInside (space : PageSpace) (reservedSize pageSize : Nat) (machine : Machine) :
    Prop where
  reservation_of : (Reservation.reserve reservedSize pageSize machine).result =
    .ok space.reservation
  /-- Every request is for pages of its call, and it leaves all other pages alone. -/
  apart : ∀ (call : Call), ∀ request ∈ Effect.requests (call.run space).trace,
    space.Apart request call.pages.start call.pages.stop
  /-- No range that a call needs leaves the reservation. -/
  isInside_of_fault : ∀ (call : Call) (fault : Fault),
    (call.run space).result = .error (.fault fault) → fault.IsInside

/-- What passes the check of a reservation lies in the range that was obtained for it, if the range
ends with a word. What a page space asks for, when it is set up and at all times after, passes the
check, is not empty and starts at a page of the operating system. -/
theorem requests_inside_throughout {machine : Machine}
    (hplace : ∀ total, total < Word.addressLimit → machine.place total + total < Word.limit) :
    (∀ size pageSize reservation after trace,
      Reservation.reserve size pageSize machine = ⟨.ok reservation, after, trace⟩ →
      ∃ raw total, raw = machine.place total ∧ reservation.Inside size pageSize raw total ∧
        Effect.requests trace = [⟨.reserve, 0, total⟩, ⟨.uncommit, raw, total⟩]) ∧
    ∀ reservedSize usedSize pageSize memoryKind pinned,
      (reserve reservedSize usedSize pageSize memoryKind pinned machine).Shows
        (CommitsInside reservedSize pageSize machine) Fault.IsInside ∧
      ∀ first space : PageSpace,
        (reserve reservedSize usedSize pageSize memoryKind pinned machine).result = .ok first →
        first.Reachable space → space.AsksInside reservedSize pageSize machine := by
  constructor
  · intro size pageSize reservation after trace h
    have hobtained := Reservation.of_reserve_ok h
    exact ⟨_, _, rfl, hobtained.inside (hplace _ hobtained.obtained_lt), hobtained.requests_eq⟩
  · intro reservedSize usedSize pageSize memoryKind pinned
    refine ⟨reserve_shows reservedSize usedSize pageSize memoryKind pinned machine, ?_⟩
    intro first space hfirst h
    have fresh := fresh hfirst
    have sound := h.sound fresh.sound
    refine ⟨?_, fun call _ => call.apart sound, ?_⟩
    · obtain ⟨-, reservation, _, _, _, hreserve, rfl, -⟩ := of_reserve_ok hfirst
      rw [(h.sameLayout fresh.sound).reservation_eq, hreserve]
      rfl
    · intro call fault hfault start stop base limit hsame
      have hkind := call.isOfSpace_of_fault sound hfault
      rw [hsame] at hkind
      cases hkind

/-- Two pages of 8192 bytes at the start of the five pages of 4096 bytes that are obtained: the
request for the second one, of which 808 bytes are used, is rounded up and ends before them. -/
theorem requests_inside_of_two_pages :
    ∃ reservation after trace first,
      Reservation.reserve 10000 8192 .willing = ⟨.ok reservation, after, trace⟩ ∧
      reservation.Inside 10000 8192 65536 20480 ∧
      (reserve 10000 9000 8192 .heap false .willing).result = .ok first ∧
      Effect.requests ((Call.commit 1 1).run first).trace = [⟨.commit, 73728, 808⟩] ∧
      first.Apart ⟨.commit, 73728, 808⟩ 1 2 := by
  have hinside := @requests_inside_throughout .willing fun total htotal => by
    have haddress : Word.addressLimit = 140737488355328 := rfl
    have hlimit : Word.limit = 18446744073709551616 := rfl
    show 65536 + total < Word.limit
    omega
  refine ⟨_, _, _, _, rfl, ?_, rfl, by decide +kernel, ?_⟩
  · obtain ⟨raw, total, -, hreservation, hrequests⟩ := hinside.1 10000 8192 _ _ _ rfl
    cases hrequests
    exact hreservation
  · exact ((hinside.2 10000 9000 8192 .heap false).2 _ _ rfl .refl).apart (.commit 1 1) _
      (by decide +kernel)

end PageSpace

end RegionBacking
