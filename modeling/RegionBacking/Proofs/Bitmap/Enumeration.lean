import RegionBacking.Proofs.Bitmap.Ranges
import Mathlib.Data.List.Sort

/-!
# Counting and listing the set bits

A tidy bitmap lists the indices of its set bits in ascending order (`ones_eq_filter`), and counts
as many bits as it lists (`count_eq_length_ones`).
-/

namespace RegionBacking.Bitmap

private theorem range_add_eq_append (m n : Nat) :
    List.range (m + n) = List.range m ++ List.range' m n := by
  rw [List.range_eq_range', List.range_eq_range', ← List.range'_append_1, Nat.zero_add]

/-- The set bits of one word, as bits of the bitmap. -/
theorem map_wordOnes (bitmap : Bitmap) (index : Nat) :
    (wordOnes (bitmap.word index)).map (index * wordBits + ·) =
      (List.range' (index * wordBits) wordBits).filter bitmap.bit := by
  rw [List.range'_eq_map_range, List.filter_map, wordOnes]
  refine congrArg _ (List.filter_congr ?_)
  intro j hj
  have hlt : j < wordBits := List.mem_range.mp hj
  have hpos : 0 < wordBits := by decide
  rw [Function.comp_apply, bit, Nat.mul_comm, Nat.mul_add_div hpos, Nat.mul_add_mod,
    Nat.div_eq_of_lt hlt, Nat.mod_eq_of_lt hlt, Nat.add_zero]

/-- The set bits of the first words are those among the bits of these words. -/
theorem flatMap_wordOnes (bitmap : Bitmap) (count : Nat) :
    ((List.range count).flatMap fun index =>
        (wordOnes (bitmap.word index)).map (index * wordBits + ·)) =
      (List.range (count * wordBits)).filter bitmap.bit := by
  induction count with
  | zero => simp
  | succ count ih =>
    rw [List.range_succ, List.flatMap_append, ih, Nat.succ_mul, range_add_eq_append,
      List.filter_append]
    simp [map_wordOnes]

/-- The listed indices are those of the set bits, from the first to the last. -/
theorem ones_eq_filter {bitmap : Bitmap} (tidy : bitmap.Tidy) :
    bitmap.ones = (List.range bitmap.size).filter bitmap.bit := by
  have hroom : bitmap.size ≤ wordCount bitmap.size * wordBits := by
    simp only [wordCount, wordBits]
    omega
  obtain ⟨spare, hspare⟩ := Nat.exists_eq_add_of_le hroom
  -- The last word may reach beyond the bitmap, but no bit is set there.
  have hnone : (List.range' bitmap.size spare).filter bitmap.bit = [] := by
    apply List.filter_eq_nil_iff.mpr
    intro i hi hbit
    have := tidy i hbit
    have := (List.mem_range'_1.mp hi).1
    omega
  rw [ones, onesBelow_eq, flatMap_wordOnes, List.append_nil, hspare, range_add_eq_append,
    List.filter_append, hnone, List.append_nil]

theorem mem_ones_iff {bitmap : Bitmap} (tidy : bitmap.Tidy) (i : Nat) :
    i ∈ bitmap.ones ↔ bitmap.bit i = true := by
  rw [ones_eq_filter tidy, List.mem_filter, List.mem_range]
  exact ⟨fun h => h.2, fun h => ⟨tidy i h, h⟩⟩

/-- The indices are listed in strictly ascending order. -/
theorem ones_pairwise_lt {bitmap : Bitmap} (tidy : bitmap.Tidy) :
    bitmap.ones.Pairwise (· < ·) := by
  rw [ones_eq_filter tidy]
  exact List.pairwise_lt_range.filter _

/-- As many bits are counted as are listed. -/
theorem count_eq_length_ones (bitmap : Bitmap) : bitmap.count = bitmap.ones.length := by
  have hwords : bitmap.words.toList = (List.range (wordCount bitmap.size)).map bitmap.word := by
    refine List.ext_getElem (by simp [bitmap.size_words]) fun i hi _ => ?_
    have hi' : i < bitmap.words.size := by simpa using hi
    simp [word, hi']
  -- Word by word, the counts add up as the lists are joined.
  have hsum : ∀ (list : List Nat) (total : Nat),
      (list.map bitmap.word).foldl (fun total word => total + onesCount word) total =
        total + (list.flatMap fun index =>
          (wordOnes (bitmap.word index)).map (index * wordBits + ·)).length := by
    intro list
    induction list with
    | nil => simp
    | cons index rest ih =>
      intro total
      rw [List.map_cons, List.foldl_cons, ih, onesCount_eq, List.flatMap_cons, List.length_append,
        List.length_map, Nat.add_assoc]
  rw [count, ← Array.foldl_toList, hwords, hsum, ones, onesBelow_eq, List.append_nil, Nat.zero_add]

end RegionBacking.Bitmap
