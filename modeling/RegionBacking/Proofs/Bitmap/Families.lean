import RegionBacking.Bitmap.Family
import RegionBacking.Proofs.Bitmap.Edits
import RegionBacking.Proofs.Bitmap.Iteration
import RegionBacking.Proofs.Bitmap.Residents

/-!
# Bitmaps as a whole

What is asked of a bitmap as a whole is answered from its words, without a look at its size. So it is
right only as long as no bit is set behind the last one of the bitmap (`Tidy`), which every edit and
every clone keeps (`Use.keeps`). Then the count, the list of set bits and the bits one by one tell
the same, and the list is enough to get an equal bitmap from a new one (`told_as_a_whole`).
-/

namespace RegionBacking.Bitmap

open Finset (range)

variable {bitmap : Bitmap} {size : Nat}

/-! ## Bitmaps of one family -/

@[simp] theorem clone_eq (bitmap : Bitmap) : bitmap.clone = bitmap := by
  simp [clone]

/-- A bitmap of one size with no bit behind the last one. -/
structure Fit (size : Nat) (bitmap : Bitmap) : Prop where
  size_eq : bitmap.size = size
  tidy : bitmap.Tidy

/-- An edit keeps the size and sets no bit behind the last one, also where it is a fault. -/
theorem Edit.make_fit (edit : Edit) (fit : bitmap.Fit size) : (edit.make bitmap).state.Fit size := by
  refine ⟨by rw [size_make, fit.size_eq], ?_⟩
  rw [make_state]
  split
  · next hfits => exact fit.tidy.bring hfits.2 edit.target
  · exact fit.tidy

/-- One step of a family: an edit or a clone. -/
theorem Use.keeps (use : Use) {family : List Bitmap} (fits : ∀ bitmap ∈ family, bitmap.Fit size) :
    ∀ bitmap ∈ (use.make family).state, bitmap.Fit size := by
  cases use with
  | edit place change =>
    rw [make, Op.get_bind]
    cases hplace : family[place]? with
    | none => exact fits
    | some bitmap =>
      intro other hother
      have hother : other ∈ family.set place (change.make bitmap).state := hother
      rcases List.mem_or_eq_of_mem_set hother with hold | rfl
      · exact fits other hold
      · exact change.make_fit (fits bitmap (List.mem_of_getElem? hplace))
  | clone place =>
    intro other hother
    have hother : other ∈ family ++ (family[place]?.map Bitmap.clone).toList := hother
    rcases List.mem_append.mp hother with hold | hnew
    · exact fits other hold
    · obtain ⟨bitmap, hplace, rfl⟩ := Option.map_eq_some_iff.mp (Option.mem_toList.mp hnew)
      rw [clone_eq]
      exact fits bitmap (List.mem_of_getElem? hplace)

/-- All bitmaps of a family have the size of the first one, and no bit behind the last. -/
theorem fit_of_mem_family {uses : List Use} (h : bitmap ∈ family size uses) : bitmap.Fit size := by
  have hall : ∀ (uses : List Use) (start : List Bitmap), (∀ bitmap ∈ start, bitmap.Fit size) →
      ∀ bitmap ∈ uses.foldl (fun family use => (use.make family).state) start,
        bitmap.Fit size := by
    intro uses
    induction uses with
    | nil => exact fun start hstart => hstart
    | cons use later ih => exact fun start hstart => ih _ (use.keeps hstart)
  refine hall uses [empty size] (fun first hfirst => ?_) bitmap h
  obtain rfl := List.mem_singleton.mp hfirst
  exact ⟨rfl, tidy_empty size⟩

/-! ## Bits that are set one by one -/

/-- Bits that are set one after the other are set then, besides those that were. -/
theorem forEach_setBit_run (indices : List Nat) (h : ∀ i ∈ indices, i < bitmap.size) :
    ∃ after, Op.forEach indices (fun index => (Edit.bit true index).make) bitmap =
        ⟨.ok (), after, []⟩ ∧ after.size = bitmap.size ∧
      ∀ i, after.bit i = (decide (i ∈ indices) || bitmap.bit i) := by
  induction indices generalizing bitmap with
  | nil => exact ⟨bitmap, rfl, rfl, by simp⟩
  | cons index later ih =>
    have hindex := h index List.mem_cons_self
    have hfirst : (Edit.bit true index).make bitmap =
        ⟨.ok (), bitmap.bring true index (index + 1), []⟩ := by
      rw [Edit.make_eq, Edit.edited_bit hindex]
    obtain ⟨after, hrun, hsize, hbit⟩ := @ih (bitmap.bring true index (index + 1))
      fun i hi => by rw [size_bring]; exact h i (List.mem_cons_of_mem _ hi)
    refine ⟨after, ?_, by rw [hsize, size_bring], fun i => ?_⟩
    · rw [Op.forEach_cons, Op.bind_eq_after hfirst, hrun]
      rfl
    · rw [hbit, bit_bring hindex]
      by_cases hi : i = index
      · subst hi
        simp
      · have hout : ¬ (index ≤ i ∧ i < index + 1) := by omega
        simp only [if_neg hout, List.mem_cons, hi, false_or]

/-- The set bits of a bitmap make it out of a new one. -/
theorem Tidy.rebuilt (tidy : bitmap.Tidy) :
    Op.forEach bitmap.ones (fun index => (Edit.bit true index).make) (empty bitmap.size) =
      ⟨.ok (), bitmap, []⟩ := by
  obtain ⟨after, hrun, hsize, hbit⟩ := @forEach_setBit_run (empty bitmap.size) bitmap.ones
    fun i hi => tidy i ((mem_ones_iff tidy i).mp hi)
  have hafter : after = bitmap := by
    refine ext_bit (a := after) (b := bitmap) hsize fun i => ?_
    rw [hbit, bit_empty, Bool.or_false, Bool.eq_iff_iff, decide_eq_true_eq, mem_ones_iff tidy]
  rw [hrun, hafter]

/-! ## Counting and listing -/

/-- What is told of a bitmap as a whole is what its bits tell one by one. -/
structure Told (bitmap : Bitmap) : Prop where
  /-- No word has a bit set behind the last one of the bitmap. -/
  spare_clear : ∀ index offset, offset < wordBits → bitmap.size ≤ index * wordBits + offset →
    (bitmap.word index).getLsbD offset = false
  count_eq : bitmap.count = ((range bitmap.size).filter fun i => bitmap.test i = .ok true).card
  mem_ones : ∀ i, i ∈ bitmap.ones ↔ bitmap.test i = .ok true
  ascending : bitmap.ones.Pairwise (· < ·)
  length_ones : bitmap.ones.length = bitmap.count
  /-- The list is that of an iteration which takes the bits off each word, the lowest first. -/
  ones_eq : bitmap.ones = (List.range (wordCount bitmap.size)).flatMap fun index =>
    (drain (bitmap.word index)).map (index * wordBits + ·)
  /-- The bits of the list make the bitmap out of a new one. -/
  rebuilt : Op.forEach bitmap.ones (fun index => (Edit.bit true index).make)
    (empty bitmap.size) = ⟨.ok (), bitmap, []⟩

theorem Tidy.told (tidy : bitmap.Tidy) : bitmap.Told := by
  have htest : ∀ i, bitmap.test i = .ok true ↔ bitmap.bit i = true := fun i =>
    test_eq_ok_iff.trans ⟨fun h => h.2, fun h => ⟨tidy i h, h⟩⟩
  refine ⟨fun index offset hoffset hspare => ?_, ?_, fun i => ?_, ones_pairwise_lt tidy,
    (count_eq_length_ones bitmap).symm, ones_eq_flatMap_drain bitmap, tidy.rebuilt⟩
  · -- The bit of the word is one of the bitmap that lies behind its last.
    have hdiv : (index * wordBits + offset) / wordBits = index := by
      simp only [wordBits] at hoffset ⊢
      omega
    have hmod : (index * wordBits + offset) % wordBits = offset := by
      simp only [wordBits] at hoffset ⊢
      omega
    have hbit : bitmap.bit (index * wordBits + offset) = false := by
      rw [← Bool.not_eq_true]
      exact fun hset => Nat.not_lt.mpr hspare (tidy _ hset)
    rwa [bit, hdiv, hmod] at hbit
  · refine count_eq_card tidy fun i => ?_
    rw [Finset.mem_filter, Finset.mem_range, htest]
    exact ⟨fun h => h.2, fun h => ⟨tidy i h, h⟩⟩
  · rw [mem_ones_iff tidy, htest]

/-- Whatever is edited and cloned in a family, with edits that are faults among the rest, its bitmaps
keep the size of the first one, none has a bit behind its last, and so their counts and lists are
those of their bits. -/
theorem told_as_a_whole (size : Nat) (uses : List Use) :
    ∀ bitmap ∈ family size uses, bitmap.size = size ∧ bitmap.Told := fun _ h =>
  ⟨(fit_of_mem_family h).size_eq, (fit_of_mem_family h).tidy.told⟩

/-- A clone goes its own way: of three bits only the second is set in it, by an edit after the clone,
and an edit of a fourth bit is a fault. -/
theorem told_as_a_whole_of_clone :
    ∃ bitmap ∈ family 3 [.edit 0 (.bit true 2), .clone 0, .edit 1 (.bit false 2),
        .edit 1 (.bit true 1), .edit 1 (.bit true 3)],
      bitmap.ones = [1] ∧ bitmap.size = 3 ∧ bitmap.Told := by
  obtain ⟨bitmap, hplace, hones⟩ : ∃ bitmap, (family 3 [.edit 0 (.bit true 2), .clone 0,
      .edit 1 (.bit false 2), .edit 1 (.bit true 1), .edit 1 (.bit true 3)])[1]? = some bitmap ∧
    bitmap.ones = [1] := ⟨_, rfl, by decide +kernel⟩
  have hmem := List.mem_of_getElem? hplace
  exact ⟨bitmap, hmem, hones, told_as_a_whole 3 _ bitmap hmem⟩

end RegionBacking.Bitmap
