import RegionBacking.Proofs.PageSpace.OneWay

/-!
# Requests that are granted

A call of a page space that comes to its end was granted the request for its pages, and one that is
refused was not. A pinned space makes no request. Some machines grant each part of what they grant:
where such a machine grants the request for a range of pages, it grants that for a part of them.
-/

namespace RegionBacking

/-! ## Parts of requests -/

/-- A request asks for a part of the range of another one, and for the same. -/
structure Request.IsPartOf (part whole : Request) : Prop where
  kind_eq : part.kind = whole.kind
  address_le : whole.address ≤ part.address
  stop_le : part.address + part.length ≤ whole.address + whole.length

/-- A machine that grants each part of what it grants. -/
def Machine.GrantsParts (machine : Machine) : Prop :=
  ∀ whole part : Request, part.IsPartOf whole →
    machine.refuses whole = false → machine.refuses part = false

namespace PageSpace

variable {space after : PageSpace} {start stop first last count : Nat} {request : Request}

/-! ## Grants -/

/-- A request is granted if it is made: a pinned space makes none. -/
def Allows (space : PageSpace) (request : Request) : Prop :=
  space.pinned = false → space.machine.refuses request = false

theorem allows_of_commit_ok (sound : space.Sound) (hpos : 0 < count) {zeroFilled : Bool}
    (h : (commit start count space).result = .ok zeroFilled) :
    space.Allows (space.commitRequest start (start + count)) := by
  rcases space.granted_or_refused (space.commitRequest start (start + count)) with
    hgranted | ⟨hpinned, hrefuses, -⟩
  · exact hgranted
  · rw [commit_eq_refused sound hpos (legal_of_commit_ok sound hpos h) hpinned hrefuses] at h
    cases h

theorem allows_of_uncommit_ok (sound : space.Sound) (hpos : 0 < count)
    (h : (uncommit start count space).result = .ok ()) :
    space.Allows (space.uncommitRequest start (start + count)) := by
  rcases space.granted_or_refused (space.uncommitRequest start (start + count)) with
    hgranted | ⟨hpinned, hrefuses, -⟩
  · exact hgranted
  · rw [uncommit_eq_refused sound hpos (legal_of_uncommit_ok sound hpos h) hpinned hrefuses] at h
    cases h

/-- Spaces with the same layout make the same requests. -/
theorem SameLayout.requests_eq (same : SameLayout space after) :
    after.commitRequest = space.commitRequest ∧ after.uncommitRequest = space.uncommitRequest := by
  constructor
  all_goals
    funext start stop
    simp only [commitRequest, uncommitRequest, same.firstAddress_eq, same.usedSpan_eq]

/-- What is asked for a part of a range of pages is a part of what is asked for the range. -/
theorem isPartOf_of_pages (sound : space.Sound) (kind : RequestKind) (hfirst : start ≤ first)
    (hlast : last ≤ stop) (h : first < last) (hstop : stop ≤ space.committablePages) :
    Request.IsPartOf ⟨kind, space.firstAddress first, space.usedSpan first last⟩
      ⟨kind, space.firstAddress start, space.usedSpan start stop⟩ := by
  have hstart := space.firstAddress_mono hfirst
  have hend := space.firstAddress_mono hlast
  have hmid := space.firstAddress_mono (Nat.le_of_lt h)
  -- The part begins in front of the end of the used part.
  have hused : space.firstAddress first ≤ space.usedLimit :=
    Nat.add_le_add_left (Nat.le_of_lt
      ((lt_committablePages_iff sound.pageSize_pos first).mp (by omega))) space.base
  refine ⟨rfl, hstart, ?_⟩
  simp only [usedSpan]
  omega

/-- A machine that grants the request for a range of pages grants that for a part of them. -/
theorem Allows.part {kind : RequestKind}
    (allows : space.Allows ⟨kind, space.firstAddress start, space.usedSpan start stop⟩)
    (grantsParts : space.machine.GrantsParts) (sound : space.Sound) (hfirst : start ≤ first)
    (hlast : last ≤ stop) (h : first < last) (hstop : stop ≤ space.committablePages) :
    space.Allows ⟨kind, space.firstAddress first, space.usedSpan first last⟩ := fun hpinned =>
  grantsParts _ _ (isPartOf_of_pages sound kind hfirst hlast h hstop) (allows hpinned)

end PageSpace

end RegionBacking
