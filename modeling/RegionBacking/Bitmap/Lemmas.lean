import RegionBacking.Bitmap

/-!
# What steps do to bits

The view of a bitmap is `Bitmap.bit`. A mask covers a span of bits of a word, and a step changes the
bits under its mask and no other: `bit_apply_set` and `bit_apply_clear`.
-/

namespace RegionBacking.Bitmap

/-- A mask covers the bits of its span. -/
theorem getLsbD_mask {bit span : Nat} (h : bit + span ≤ wordBits) (i : Nat) :
    (mask bit span).getLsbD i = decide (bit ≤ i ∧ i < bit + span) := by
  rw [Bool.eq_iff_iff]
  simp only [mask, BitVec.getLsbD_shiftLeft, BitVec.getLsbD_ushiftRight, BitVec.getLsbD_allOnes,
    Bool.and_eq_true, Bool.not_eq_true', decide_eq_true_eq, decide_eq_false_iff_not]
  omega

/-- The number of set bits of a word is the number of their indices. -/
theorem onesCount_eq (word : BitVec wordBits) : onesCount word = (wordOnes word).length := by
  unfold onesCount wordOnes
  split
  · next h => subst h; decide
  · split
    · next h => subst h; decide
    · rfl

/-- A word without set bits adds no index, so it makes no difference that it is left out. -/
theorem onesBelow_eq (bitmap : Bitmap) (count : Nat) (later : List Nat) :
    bitmap.onesBelow count later =
      ((List.range count).flatMap fun index =>
        (wordOnes (bitmap.word index)).map (index * wordBits + ·)) ++ later := by
  have zero : wordOnes (BitVec.ofNat wordBits 0) = [] := by decide
  induction count generalizing later with
  | zero => rfl
  | succ index ih =>
    rw [onesBelow, List.range_succ, List.flatMap_append]
    split
    · next h => simp [ih, h, zero]
    · simp [ih]

theorem firstWhere?_eq (test : Nat → Bool) (index count : Nat) :
    firstWhere? test index count = (List.range' index count).find? test := by
  induction count generalizing index with
  | zero => rfl
  | succ count ih =>
    rw [firstWhere?, List.range'_succ, List.find?_cons, ih]
    cases test index <;> rfl

@[simp] theorem bit_empty (size index : Nat) : (empty size).bit index = false := by
  simp only [bit, word, empty, Array.getElem?_replicate]
  split <;> simp

@[simp] theorem size_apply (bitmap : Bitmap) (step : WordStep) :
    (bitmap.apply step).size = bitmap.size := by
  cases step <;> rfl

theorem word_setWord (bitmap : Bitmap) (index : Nat) (value : BitVec wordBits) (other : Nat) :
    (bitmap.setWord index value).word other =
      if index = other ∧ index < wordCount bitmap.size then value else bitmap.word other := by
  simp only [word, setWord, Array.getElem?_setIfInBounds, bitmap.size_words]
  by_cases same : index = other
  · subst same
    by_cases inside : index < wordCount bitmap.size
    · simp [inside]
    · have outside : bitmap.words[index]? = none :=
        Array.getElem?_eq_none (bitmap.size_words ▸ Nat.le_of_not_lt inside)
      simp [inside, outside]
  · simp [same]

/-- A step that sets changes the bits under its mask. -/
theorem bit_apply_set (bitmap : Bitmap) (index : Nat) (mask : BitVec wordBits) (i : Nat) :
    (bitmap.apply (.set index mask)).bit i =
      (bitmap.bit i || decide (index = i / wordBits ∧ index < wordCount bitmap.size) &&
        mask.getLsbD (i % wordBits)) := by
  simp only [bit, apply, word_setWord]
  split
  · next h =>
    obtain ⟨rfl, inside⟩ := h
    simp [inside]
  · next h => simp [h]

/-- A step that clears changes the bits under its mask. -/
theorem bit_apply_clear (bitmap : Bitmap) (index : Nat) (mask : BitVec wordBits) (i : Nat) :
    (bitmap.apply (.clear index mask)).bit i =
      (bitmap.bit i && !(decide (index = i / wordBits ∧ index < wordCount bitmap.size) &&
        mask.getLsbD (i % wordBits))) := by
  simp only [bit, apply, word_setWord]
  split
  · next h =>
    obtain ⟨rfl, inside⟩ := h
    have small : i % wordBits < wordBits := Nat.mod_lt _ (by decide)
    simp [inside, small]
  · next h => simp [h]

end RegionBacking.Bitmap
