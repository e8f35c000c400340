import RegionBacking.Proofs.PageSpace.Calls

/-!
# Page spaces are lawful

The laws of page stores for page spaces: what `RegionBacking.Proofs.PageSpace.Calls` shows of the
calls, seen through the pages that are committed.
-/

namespace RegionBacking.PageSpace

variable {space : PageSpace} {start count : Nat}

instance : StoreView PageSpace where
  backed := isCommitted
  Sound := Sound
  Fits := Fits
  Willing := Willing

theorem isCommitted_acquired (sound : space.Sound) (hpos : 0 < count)
    (legal : space.Legal false start (start + count)) (page : Nat) :
    (space.acquired start (start + count)).isCommitted page =
      (space.isCommitted page || decide (start ≤ page ∧ page < start + count)) := by
  have hsound := sound.acquired (Nat.lt_add_of_pos_right hpos) legal.le_committable legal.lt_limit
    legal.bit_eq
  rw [hsound.isCommitted_eq, sound.isCommitted_eq,
    bit_committed_acquired sound legal.le_committable]

theorem isCommitted_released (sound : space.Sound) (hpos : 0 < count)
    (legal : space.Legal true start (start + count)) (page : Nat) :
    (space.released start (start + count)).isCommitted page =
      (space.isCommitted page && !decide (start ≤ page ∧ page < start + count)) := by
  have hsound := sound.released (Nat.lt_add_of_pos_right hpos) legal.le_committable legal.bit_eq
  rw [hsound.isCommitted_eq, sound.isCommitted_eq,
    bit_committed_released sound legal.le_committable]

/-- A space on another machine backs the same pages. -/
theorem sameBacking_of_machine (sound : space.Sound) (machine : Machine) :
    SameBacking space { space with machine } where
  sound := sound.of_machine machine
  geometry := ⟨rfl, rfl, rfl⟩
  fits_iff _ := ⟨fun fits => ⟨fits.1, fits.2⟩, fun fits => ⟨fits.1, fits.2⟩⟩
  backed_eq _ := rfl

theorem acquired_acquired (sound : space.Sound) (hpos : 0 < count)
    (legal : space.Legal false start (start + count)) :
    Acquired space (space.acquired start (start + count)) start (start + count) where
  sound := sound.acquired (Nat.lt_add_of_pos_right hpos) legal.le_committable legal.lt_limit
    legal.bit_eq
  geometry := ⟨rfl, rfl, rfl⟩
  fits_iff _ := ⟨fun fits => ⟨fits.1, fits.2⟩, fun fits => ⟨fits.1, fits.2⟩⟩
  backed_eq := isCommitted_acquired sound hpos legal
  addressed _ _ := by
    have hlimit := legal.lt_limit
    have hstop : (start + count) * space.pageSize ≤ space.firstAddress (start + count) :=
      Nat.le_add_left _ _
    refine ⟨Nat.lt_of_le_of_lt hstop hlimit, ?_⟩
    intro page _ hlast
    have hpage := space.firstAddress_mono (Nat.le_of_lt hlast)
    exact ⟨_, pageStart_eq_ok (Nat.lt_of_le_of_lt hpage hlimit)⟩

theorem released_released (sound : space.Sound) (hpos : 0 < count)
    (legal : space.Legal true start (start + count)) :
    Released space (space.released start (start + count)) start (start + count) where
  sound := sound.released (Nat.lt_add_of_pos_right hpos) legal.le_committable legal.bit_eq
  geometry := ⟨rfl, rfl, rfl⟩
  fits_iff _ := ⟨fun fits => ⟨fits.1, fits.2⟩, fun fits => ⟨fits.1, fits.2⟩⟩
  backed_eq := isCommitted_released sound hpos legal

/-- The bits of pages that all are backed, or none of which is. -/
theorem bit_of_allBacked {status : Bool} {stop : Nat} (sound : space.Sound)
    (h : AllBacked space status start stop) :
    ∀ page, start ≤ page → page < stop → space.committed.bit page = status := by
  intro page hfirst hlast
  rw [← sound.isCommitted_eq]
  exact h page hfirst hlast

instance : LawfulStore PageSpace where
  fits_of_backed space page sound backed := by
    have hbit : space.committed.bit page = true := by
      rw [← sound.isCommitted_eq]
      exact backed
    exact ⟨sound.lt_committable page hbit, sound.address_lt page hbit⟩
  commit_spec space start count sound unbacked := by
    have hbits := bit_of_allBacked sound unbacked
    rcases commit_cases sound start count with
      ⟨result, trace, hrun, hquiet, hempty, hstopped⟩ |
      ⟨hpos, legal, zeroFilled, trace, hrun, hquiet, -⟩
    · refine ⟨result, space, trace, hrun, hquiet, ?_⟩
      cases result with
      | ok zeroFilled =>
        obtain rfl := hempty zeroFilled rfl
        exact .empty sound (Nat.le_refl start)
      | error stop =>
        exact ⟨rfl, hstopped stop rfl hbits⟩
    · exact ⟨_, _, _, hrun, hquiet, acquired_acquired sound hpos legal⟩
  uncommit_spec space start count sound backed := by
    have hbits := bit_of_allBacked sound backed
    rcases uncommit_cases sound start count with
      ⟨result, trace, hrun, hquiet, hempty, hstopped⟩ | ⟨hpos, legal, trace, hrun, hquiet⟩
    · refine ⟨result, space, trace, hrun, hquiet, ?_⟩
      cases result with
      | ok =>
        obtain rfl := hempty rfl
        exact .empty sound (Nat.le_refl start)
      | error stop =>
        obtain ⟨hpos, hrejects⟩ := hstopped stop rfl
        exact ⟨rfl, hpos, hrejects hbits⟩
    · exact ⟨_, _, _, hrun, hquiet, released_released sound hpos legal⟩
  pretouch_spec space start count pretoucher sound := by
    obtain ⟨result, machine, trace, hrun, hquiet, -, -⟩ :=
      pretouch_cases space start count pretoucher
    exact ⟨result, _, trace, hrun, hquiet, sameBacking_of_machine sound machine⟩
  pretouch_ok space start count pretoucher sound hpos hlimit backed :=
    pretouch_ok sound hpos hlimit (bit_of_allBacked sound backed)

end RegionBacking.PageSpace
