import Mathlib.Algebra.Ring.Nat
import RegionBacking.Proofs.Bitmap.Enumeration

/-!
# Taking the set bits off a word

The set bits of a word can be listed by arithmetic on the word alone. The number of zeroes under the
lowest one is its index, and `word &&& (word - 1)` is the word without it; so the bits are taken off
one by one until the word is zero (`drain`). That lists the same indices as a test of all of them
(`drain_eq_wordOnes`), and word by word those of a bitmap (`ones_eq_flatMap_drain`).
-/

namespace RegionBacking.Bitmap

/-! ## The lowest set bit -/

section lowest

variable {width : Nat} {word : BitVec width}

/-- Seen from its lowest set bit, a word is that power of two and a multiple of the next one. -/
theorem toNat_eq_of_ctz (h : word ≠ 0) :
    word.toNat = 2 ^ (word.ctz.toNat + 1) * (word.toNat / 2 ^ (word.ctz.toNat + 1)) +
      2 ^ word.ctz.toNat := by
  have hmod : word.toNat % 2 ^ (word.ctz.toNat + 1) = 2 ^ word.ctz.toNat := by
    apply Nat.eq_of_testBit_eq
    intro i
    rw [Nat.testBit_mod_two_pow, Nat.testBit_two_pow, BitVec.testBit_toNat]
    rcases Nat.lt_trichotomy i word.ctz.toNat with hlt | rfl | hgt
    · simp [BitVec.getLsbD_false_of_lt_ctz hlt, Nat.ne_of_gt hlt]
    · simp [BitVec.getLsbD_true_ctz_of_ne_zero h]
    · simp [Nat.not_lt.mpr hgt, Nat.ne_of_lt hgt]
  conv_lhs => rw [← Nat.div_add_mod word.toNat (2 ^ (word.ctz.toNat + 1)), hmod]

/-- One less than a word is what stands above the lowest set bit, and ones under it. -/
theorem toNat_sub_one (h : word ≠ 0) :
    (word - 1).toNat = 2 ^ (word.ctz.toNat + 1) * (word.toNat / 2 ^ (word.ctz.toNat + 1)) +
      (2 ^ word.ctz.toNat - 1) := by
  have hpos : 0 < word.toNat := Nat.pos_of_ne_zero fun hzero => h (BitVec.eq_of_toNat_eq hzero)
  have hone : (1 : BitVec width).toNat = 1 := by
    have hwidth : 1 < 2 ^ width := Nat.lt_of_le_of_lt hpos word.isLt
    show (BitVec.ofNat width 1).toNat = 1
    rw [BitVec.toNat_ofNat, Nat.mod_eq_of_lt hwidth]
  have hsub : (word - 1).toNat = word.toNat - 1 := by
    rw [BitVec.toNat_sub_of_le (BitVec.le_def.mpr (by omega)), hone]
  have hlow := toNat_eq_of_ctz h
  have hpow : 0 < 2 ^ word.ctz.toNat := Nat.two_pow_pos _
  omega

/-- A word and one less than it have all set bits in common but the lowest. -/
theorem getLsbD_and_sub_one (h : word ≠ 0) (i : Nat) :
    (word &&& (word - 1)).getLsbD i = (word.getLsbD i && decide (i ≠ word.ctz.toNat)) := by
  have hlow : 2 ^ word.ctz.toNat < 2 ^ (word.ctz.toNat + 1) :=
    Nat.pow_lt_pow_right (by decide) (Nat.lt_succ_self _)
  rw [BitVec.getLsbD_and, ← BitVec.testBit_toNat (word - 1), toNat_sub_one h,
    Nat.testBit_two_pow_mul_add _ (by omega)]
  rcases Nat.lt_trichotomy i word.ctz.toNat with hlt | rfl | hgt
  · simp [BitVec.getLsbD_false_of_lt_ctz hlt]
  · simp
  -- Above the lowest set bit the two words are the same.
  · have hword : word.getLsbD i =
        (word.toNat / 2 ^ (word.ctz.toNat + 1)).testBit (i - (word.ctz.toNat + 1)) := by
      rw [← BitVec.testBit_toNat]
      conv_lhs => rw [toNat_eq_of_ctz h, Nat.testBit_two_pow_mul_add _ hlow]
      rw [if_neg (by omega)]
    rw [if_neg (by omega), ← hword, Bool.and_self, decide_eq_true (Nat.ne_of_gt hgt), Bool.and_true]

/-- The word without its lowest set bit is a smaller one. -/
theorem toNat_and_sub_one_lt (h : word ≠ 0) : (word &&& (word - 1)).toNat < word.toNat := by
  have hle : (word &&& (word - 1)).toNat ≤ (word - 1).toNat := by
    rw [BitVec.toNat_and]
    exact Nat.and_le_right
  have hlow := toNat_eq_of_ctz h
  have hsub := toNat_sub_one h
  have hpow : 0 < 2 ^ word.ctz.toNat := Nat.two_pow_pos _
  omega

end lowest

/-! ## One word -/

/-- The indices of the set bits of a word, taken off one by one, the lowest first. -/
def drain (word : BitVec wordBits) : List Nat :=
  if h : word = 0 then [] else word.ctz.toNat :: drain (word &&& (word - 1))
termination_by word.toNat
decreasing_by exact toNat_and_sub_one_lt h

theorem mem_drain (word : BitVec wordBits) (i : Nat) :
    i ∈ drain word ↔ word.getLsbD i = true := by
  induction word using drain.induct with
  | case1 => simp [drain]
  | case2 word h ih =>
    rw [drain, dif_neg h, List.mem_cons, ih, getLsbD_and_sub_one h, Bool.and_eq_true,
      decide_eq_true_eq]
    constructor
    · rintro (rfl | hrest)
      · exact BitVec.getLsbD_true_ctz_of_ne_zero h
      · exact hrest.1
    · intro hbit
      by_cases hlowest : i = word.ctz.toNat
      · exact .inl hlowest
      · exact .inr ⟨hbit, hlowest⟩

theorem drain_pairwise_lt (word : BitVec wordBits) : (drain word).Pairwise (· < ·) := by
  induction word using drain.induct with
  | case1 => simp [drain]
  | case2 word h ih =>
    rw [drain, dif_neg h, List.pairwise_cons]
    refine ⟨fun i hi => ?_, ih⟩
    -- What is left are set bits of the word other than the lowest one.
    rw [mem_drain, getLsbD_and_sub_one h, Bool.and_eq_true, decide_eq_true_eq] at hi
    by_contra hle
    have hclear := BitVec.getLsbD_false_of_lt_ctz (x := word) (i := i) (by omega)
    rw [hi.1] at hclear
    cases hclear

/-- The bits that are taken off are those that a test of all indices finds. -/
theorem drain_eq_wordOnes (word : BitVec wordBits) : drain word = wordOnes word := by
  refine (drain_pairwise_lt word).eq_of_mem_iff (List.pairwise_lt_range.filter _) fun i => ?_
  rw [mem_drain, wordOnes, List.mem_filter, List.mem_range]
  exact ⟨fun hbit => ⟨BitVec.lt_of_getLsbD hbit, hbit⟩, fun h => h.2⟩

/-! ## All words -/

/-- The indices of the set bits of a bitmap, word by word. -/
theorem ones_eq_flatMap_drain (bitmap : Bitmap) :
    bitmap.ones = (List.range (wordCount bitmap.size)).flatMap fun index =>
      (drain (bitmap.word index)).map (index * wordBits + ·) := by
  simp only [ones, onesBelow_eq, List.append_nil, drain_eq_wordOnes]

end RegionBacking.Bitmap
