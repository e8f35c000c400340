import RegionBacking.Proofs.Bitmap.Enumeration
import Mathlib.Order.Interval.Finset.Nat

/-!
# Set bits in windows of equal length

The bits are cut into windows of `share` bits each. Where a bit stands for a region that is
committed and `share` regions share a page, the number of set bits in a window is the number of
references of the page, and the occupied windows are the pages that are needed.
-/

namespace RegionBacking.Bitmap

open Finset

/-- The number of set bits in a window. -/
def residents (bitmap : Bitmap) (share window : Nat) : Nat :=
  #{index ∈ range bitmap.size | index / share = window ∧ bitmap.bit index = true}

variable {bitmap : Bitmap} {share window index : Nat}

@[simp] theorem residents_empty (size share window : Nat) :
    (empty size).residents share window = 0 := by
  simp [residents]

/-- A window has no more set bits than bits. -/
theorem residents_le (bitmap : Bitmap) (hpos : 0 < share) (window : Nat) :
    bitmap.residents share window ≤ share := by
  have hsubset : {index ∈ range bitmap.size | index / share = window ∧ bitmap.bit index = true} ⊆
      Ico (window * share) (window * share + share) := by
    intro index hindex
    rw [mem_filter] at hindex
    rw [mem_Ico, ← Nat.succ_mul]
    exact ⟨(Nat.le_div_iff_mul_le hpos).mp (Nat.le_of_eq hindex.2.1.symm),
      (Nat.div_lt_iff_lt_mul hpos).mp (Nat.lt_succ_of_le (Nat.le_of_eq hindex.2.1))⟩
  have hcard := card_le_card hsubset
  rw [Nat.card_Ico, Nat.add_sub_cancel_left] at hcard
  exact hcard

theorem residents_pos_iff (tidy : bitmap.Tidy) :
    0 < bitmap.residents share window ↔
      ∃ index, bitmap.bit index = true ∧ index / share = window := by
  rw [residents, card_pos]
  constructor
  · intro hmem
    obtain ⟨index, hindex⟩ := hmem
    rw [mem_filter] at hindex
    exact ⟨index, hindex.2.2, hindex.2.1⟩
  · intro hset
    obtain ⟨index, hbit, hwindow⟩ := hset
    exact ⟨index, mem_filter.mpr ⟨mem_range.mpr (tidy index hbit), hwindow, hbit⟩⟩

/-! ## Bits that join -/

/-- The number of indices of a range in a window. -/
def newcomers (share window start stop : Nat) : Nat :=
  #{index ∈ Ico start stop | index / share = window}

/-- A range that goes on behind an index has one index more in the window of that. -/
theorem newcomers_lt {start stop : Nat} (hfirst : start ≤ index) (hlast : index < stop)
    (share : Nat) :
    newcomers share (index / share) start index < newcomers share (index / share) start stop := by
  apply card_lt_card
  rw [ssubset_iff_of_subset]
  · refine ⟨index, mem_filter.mpr ⟨mem_Ico.mpr ⟨hfirst, hlast⟩, rfl⟩, ?_⟩
    intro hmem
    exact Nat.lt_irrefl index (mem_Ico.mp (mem_filter.mp hmem).1).2
  · exact filter_subset_filter _ (Ico_subset_Ico_right (Nat.le_of_lt hlast))

/-- All indices of a window are newcomers to it. -/
theorem newcomers_window (share window : Nat) :
    newcomers share window (window * share) ((window + 1) * share) = share := by
  have hall : ∀ index ∈ Ico (window * share) ((window + 1) * share), index / share = window := by
    intro index hindex
    obtain ⟨hfirst, hlast⟩ := mem_Ico.mp hindex
    exact Nat.div_eq_of_lt_le hfirst hlast
  rw [newcomers, filter_true_of_mem hall, Nat.card_Ico, Nat.succ_mul, Nat.add_sub_cancel_left]

theorem newcomers_one (share window index : Nat) :
    newcomers share window index (index + 1) = if window = index / share then 1 else 0 := by
  rw [newcomers, Nat.Ico_succ_singleton, filter_singleton, apply_ite card, card_singleton,
    card_empty]
  exact if_congr eq_comm rfl rfl

/-- Bits of a range, none of which was set, join the set bits of their windows. -/
theorem residents_of_joined {joined : Bitmap} {start stop : Nat}
    (hsize : joined.size = bitmap.size) (hstop : stop ≤ bitmap.size)
    (hclear : ∀ index, start ≤ index → index < stop → bitmap.bit index = false)
    (hbit : ∀ index, joined.bit index =
      if start ≤ index ∧ index < stop then true else bitmap.bit index) (share window : Nat) :
    joined.residents share window =
      bitmap.residents share window + newcomers share window start stop := by
  have hdisjoint : Disjoint
      {index ∈ range bitmap.size | index / share = window ∧ bitmap.bit index = true}
      {index ∈ Ico start stop | index / share = window} := by
    rw [disjoint_left]
    intro index hold hnew
    obtain ⟨hfirst, hlast⟩ := mem_Ico.mp (mem_filter.mp hnew).1
    have hset := (mem_filter.mp hold).2.2
    rw [hclear index hfirst hlast] at hset
    cases hset
  unfold residents newcomers
  rw [← card_union_of_disjoint hdisjoint, hsize]
  refine congrArg card (Finset.ext ?_)
  intro index
  rw [mem_union, mem_filter, mem_filter, mem_filter, mem_range, mem_Ico, hbit]
  by_cases hrange : start ≤ index ∧ index < stop
  · rw [if_pos hrange]
    have hindex : index < bitmap.size := Nat.lt_of_lt_of_le hrange.2 hstop
    exact ⟨fun h => Or.inr ⟨hrange, h.2.1⟩,
      fun h => ⟨hindex, h.elim (fun old => old.2.1) (fun new => new.2), rfl⟩⟩
  · rw [if_neg hrange]
    exact ⟨Or.inl, fun h => h.resolve_right fun new => hrange new.1⟩

/-- One more set bit adds one to its window. -/
theorem residents_fill (hindex : index < bitmap.size) (hclear : bitmap.bit index = false)
    (share window : Nat) :
    (bitmap.fill index (index + 1)).residents share window =
      bitmap.residents share window + if window = index / share then 1 else 0 := by
  rw [← newcomers_one]
  refine residents_of_joined (size_fill _ _ _) hindex ?_ (bit_bring hindex true) share window
  intro other hfirst hlast
  obtain rfl : other = index := by omega
  exact hclear

/-- A set bit less takes one from its window. -/
theorem residents_wipe (hindex : index < bitmap.size) (hset : bitmap.bit index = true)
    (share window : Nat) :
    bitmap.residents share window =
      (bitmap.wipe index (index + 1)).residents share window +
        if window = index / share then 1 else 0 := by
  have hwipe : ∀ other, (bitmap.wipe index (index + 1)).bit other =
      if index ≤ other ∧ other < index + 1 then false else bitmap.bit other :=
    bit_bring hindex false
  rw [← newcomers_one]
  -- Setting the bit again gives the old bits back.
  refine residents_of_joined (size_wipe _ _ _).symm (by rwa [size_wipe]) ?_ ?_ share window
  · intro other hfirst hlast
    rw [hwipe, if_pos ⟨hfirst, hlast⟩]
  · intro other
    rw [hwipe]
    split
    · obtain rfl : other = index := by omega
      exact hset
    · rfl

/-! ## Windows with set bits -/

/-- The windows in which a bit is set. -/
def occupied (bitmap : Bitmap) (share : Nat) : Finset Nat :=
  {index ∈ range bitmap.size | bitmap.bit index = true}.image (· / share)

theorem mem_occupied : window ∈ bitmap.occupied share ↔ 0 < bitmap.residents share window := by
  rw [occupied, mem_image, residents, card_pos]
  constructor
  · intro hmem
    obtain ⟨index, hindex, hwindow⟩ := hmem
    obtain ⟨hrange, hbit⟩ := mem_filter.mp hindex
    exact ⟨index, mem_filter.mpr ⟨hrange, hwindow, hbit⟩⟩
  · intro hmem
    obtain ⟨index, hindex⟩ := hmem
    obtain ⟨hrange, hwindow, hbit⟩ := mem_filter.mp hindex
    exact ⟨index, mem_filter.mpr ⟨hrange, hbit⟩, hwindow⟩

@[simp] theorem occupied_empty (size share : Nat) : (empty size).occupied share = ∅ := by
  simp [occupied]

/-- The window of an index, as long as no bit is set there. -/
def vacant (bitmap : Bitmap) (share index : Nat) : List Nat :=
  if bitmap.residents share (index / share) = 0 then [index / share] else []

theorem mem_vacant : window ∈ bitmap.vacant share index ↔
    window = index / share ∧ window ∉ bitmap.occupied share := by
  unfold vacant
  rw [mem_occupied]
  split
  · next hnone =>
    rw [List.mem_singleton]
    exact ⟨fun h => ⟨h, by rw [h, hnone]; exact Nat.lt_irrefl 0⟩, fun h => h.1⟩
  · next hsome =>
    refine ⟨fun h => absurd h List.not_mem_nil, ?_⟩
    rintro ⟨rfl, hempty⟩
    exact absurd (Nat.pos_of_ne_zero hsome) hempty

/-- One more set bit adds its window. -/
theorem occupied_fill (hindex : index < bitmap.size) (hclear : bitmap.bit index = false)
    (share : Nat) : (bitmap.fill index (index + 1)).occupied share =
      insert (index / share) (bitmap.occupied share) := by
  ext window
  rw [mem_insert, mem_occupied, mem_occupied, residents_fill hindex hclear]
  split <;> omega

/-- A set bit less takes its window away, if it was the only one there. -/
theorem card_occupied_wipe (hindex : index < bitmap.size) (hset : bitmap.bit index = true)
    (share : Nat) :
    #(bitmap.occupied share) = #((bitmap.wipe index (index + 1)).occupied share) +
      if bitmap.residents share (index / share) = 1 then 1 else 0 := by
  have hwipe := residents_wipe hindex hset share
  have hself := hwipe (index / share)
  rw [if_pos rfl] at hself
  by_cases hlast : bitmap.residents share (index / share) = 1
  · have hinsert : bitmap.occupied share =
        insert (index / share) ((bitmap.wipe index (index + 1)).occupied share) := by
      ext window
      rw [mem_insert, mem_occupied, mem_occupied, hwipe window]
      split <;> omega
    rw [if_pos hlast, hinsert, card_insert_of_notMem]
    rw [mem_occupied]
    omega
  · rw [if_neg hlast, Nat.add_zero]
    refine congrArg card (Finset.ext fun window => ?_)
    have hother := hwipe window
    rw [mem_occupied, mem_occupied, hother]
    split
    · next hsame =>
      rw [if_pos hsame] at hother
      rw [hsame] at hother ⊢
      omega
    · rfl

/-! ## Counting bits -/

/-- As many bits are counted as there are indices in a set that has just those of the set bits. -/
theorem count_eq_card (tidy : bitmap.Tidy) {set : Finset Nat}
    (h : ∀ i, i ∈ set ↔ bitmap.bit i = true) : bitmap.count = set.card := by
  have hset : bitmap.ones.toFinset = set := by
    ext i
    rw [List.mem_toFinset, mem_ones_iff tidy, h]
  rw [count_eq_length_ones, ← hset,
    List.toFinset_card_of_nodup ((ones_pairwise_lt tidy).imp Nat.ne_of_lt)]

/-- Bits of a range, none of which was set, are counted one by one. -/
theorem count_of_joined {joined : Bitmap} {start stop : Nat} (tidy : bitmap.Tidy)
    (tidy' : joined.Tidy)
    (hclear : ∀ index, start ≤ index → index < stop → bitmap.bit index = false)
    (hbit : ∀ index, joined.bit index =
      if start ≤ index ∧ index < stop then true else bitmap.bit index) :
    joined.count = bitmap.count + (stop - start) := by
  have hmem : ∀ index, index ∈ bitmap.ones.toFinset ↔ bitmap.bit index = true := by
    intro index
    rw [List.mem_toFinset, mem_ones_iff tidy]
  have hdisjoint : Disjoint bitmap.ones.toFinset (Ico start stop) := by
    rw [disjoint_left]
    intro index hold hnew
    obtain ⟨hfirst, hlast⟩ := mem_Ico.mp hnew
    rw [hmem, hclear index hfirst hlast] at hold
    cases hold
  rw [count_eq_card tidy hmem, ← Nat.card_Ico, ← card_union_of_disjoint hdisjoint]
  apply count_eq_card tidy'
  intro index
  rw [mem_union, hmem, mem_Ico, hbit]
  by_cases hrange : start ≤ index ∧ index < stop <;> simp [hrange]

end RegionBacking.Bitmap
