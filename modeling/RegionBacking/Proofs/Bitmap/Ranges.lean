import RegionBacking.Bitmap.Lemmas

/-!
# Ranges of bits

An operation on a range goes through the words that the range meets. Seen through `Bitmap.bit` that
makes no difference: `bit_fill` and `bit_wipe` say that just the bits of the range change, and
`isRangeSet_eq` and `isRangeClear_eq` that just the bits of the range are looked at. A single bit is
a range of one.
-/

namespace RegionBacking.Bitmap

/-! ## The pieces of a range -/

/-- A range that is not empty begins with the piece that lies in its first word. -/
theorem parts_of_lt {start stop : Nat} (h : start < stop) :
    parts start stop =
      (start / wordBits, mask (start % wordBits)
          (min (wordBits - start % wordBits) (stop - start))) ::
        parts (start + min (wordBits - start % wordBits) (stop - start)) stop := by
  rw [parts, if_pos h]

theorem parts_of_le {start stop : Nat} (h : stop ≤ start) : parts start stop = [] := by
  rw [parts, if_neg (by omega)]

/-- A single bit is one piece. -/
theorem parts_succ (index : Nat) :
    parts index (index + 1) = [(index / wordBits, mask (index % wordBits) 1)] := by
  -- The piece ends behind the bit, and nothing is left of the range.
  have hmod : index % wordBits < wordBits := Nat.mod_lt _ (by decide)
  have hspan : min (wordBits - index % wordBits) (index + 1 - index) = 1 := by omega
  rw [parts_of_lt (Nat.lt_succ_self index), hspan, parts_of_le (Nat.le_refl _)]

/-- Induction along the pieces of a range. -/
theorem parts_induction (stop : Nat) (P : Nat → Prop) (done : ∀ start, stop ≤ start → P start)
    (piece : ∀ start, start < stop →
      P (start + min (wordBits - start % wordBits) (stop - start)) → P start) (start : Nat) :
    P start := by
  by_cases h : start < stop
  · have hmod : start % wordBits < wordBits := Nat.mod_lt _ (by decide)
    exact piece start h (parts_induction stop P done piece _)
  · exact done start (by omega)
termination_by stop - start
decreasing_by omega

/-- The first piece of a range ends with its word, or before. -/
theorem first_span_le (start stop : Nat) :
    start % wordBits + min (wordBits - start % wordBits) (stop - start) ≤ wordBits := by
  have hmod : start % wordBits < wordBits := Nat.mod_lt start (by decide)
  omega

/-- The first piece of a range holds the bits up to the end of its word. -/
theorem mem_first_part {start stop i : Nat} (h : start < stop) :
    (start / wordBits = i / wordBits ∧
        start % wordBits ≤ i % wordBits ∧
        i % wordBits < start % wordBits + min (wordBits - start % wordBits) (stop - start)) ↔
      start ≤ i ∧ i < start + min (wordBits - start % wordBits) (stop - start) := by
  simp only [wordBits]
  omega

/-- A bit of a range lies in a word that the bitmap has. -/
theorem div_lt_wordCount {size i : Nat} (h : i < size) : i / wordBits < wordCount size := by
  simp only [wordBits, wordCount]
  omega

/-! ## Changing a range -/

/-- The step that brings the bits under a mask to a status. -/
def paint (status : Bool) (index : Nat) (mask : BitVec wordBits) : WordStep :=
  match status with
  | true => .set index mask
  | false => .clear index mask

/-- The bitmap with the bits of `[start, stop)` brought to a status. -/
def bring (bitmap : Bitmap) (status : Bool) (start stop : Nat) : Bitmap :=
  bitmap.applyAll ((parts start stop).map fun (index, mask) => paint status index mask)

/-- The bitmap with the bits of `[start, stop)` set. -/
def fill (bitmap : Bitmap) (start stop : Nat) : Bitmap := bitmap.bring true start stop

/-- The bitmap with the bits of `[start, stop)` clear. -/
def wipe (bitmap : Bitmap) (start stop : Nat) : Bitmap := bitmap.bring false start stop

@[simp] theorem size_applyAll (bitmap : Bitmap) (steps : List WordStep) :
    (bitmap.applyAll steps).size = bitmap.size := by
  unfold applyAll
  induction steps generalizing bitmap with
  | nil => rfl
  | cons step steps ih => rw [List.foldl_cons, ih, size_apply]

@[simp] theorem size_bring (bitmap : Bitmap) (status : Bool) (start stop : Nat) :
    (bitmap.bring status start stop).size = bitmap.size := size_applyAll _ _

@[simp] theorem size_fill (bitmap : Bitmap) (start stop : Nat) :
    (bitmap.fill start stop).size = bitmap.size := size_applyAll _ _

@[simp] theorem size_wipe (bitmap : Bitmap) (start stop : Nat) :
    (bitmap.wipe start stop).size = bitmap.size := size_applyAll _ _

theorem bit_apply_paint (bitmap : Bitmap) (status : Bool) (index : Nat) (mask : BitVec wordBits)
    (i : Nat) : (bitmap.apply (paint status index mask)).bit i =
      if (index = i / wordBits ∧ index < wordCount bitmap.size) ∧ mask.getLsbD (i % wordBits) = true
      then status else bitmap.bit i := by
  by_cases hunder : (index = i / wordBits ∧ index < wordCount bitmap.size) ∧
      mask.getLsbD (i % wordBits) = true
  · rw [if_pos hunder]
    cases status
    · show (bitmap.apply (.clear index mask)).bit i = false
      rw [bit_apply_clear, decide_eq_true hunder.1, hunder.2, Bool.and_self, Bool.not_true,
        Bool.and_false]
    · show (bitmap.apply (.set index mask)).bit i = true
      rw [bit_apply_set, decide_eq_true hunder.1, hunder.2, Bool.and_self, Bool.or_true]
  · have hnone : (decide (index = i / wordBits ∧ index < wordCount bitmap.size) &&
        mask.getLsbD (i % wordBits)) = false := by
      rw [← Bool.not_eq_true, Bool.and_eq_true, decide_eq_true_eq]
      exact hunder
    rw [if_neg hunder]
    cases status
    · show (bitmap.apply (.clear index mask)).bit i = bitmap.bit i
      rw [bit_apply_clear, hnone, Bool.not_false, Bool.and_true]
    · show (bitmap.apply (.set index mask)).bit i = bitmap.bit i
      rw [bit_apply_set, hnone, Bool.or_false]

/-- The bits of the range are brought to the status and all others are kept. -/
theorem bit_bring {bitmap : Bitmap} {start stop : Nat} (h : stop ≤ bitmap.size) (status : Bool)
    (i : Nat) : (bitmap.bring status start stop).bit i =
      if start ≤ i ∧ i < stop then status else bitmap.bit i := by
  unfold bring
  induction start using parts_induction stop generalizing bitmap with
  | done start hle =>
    have hout : ¬ (start ≤ i ∧ i < stop) := by omega
    rw [parts_of_le hle, if_neg hout]
    rfl
  | piece start hlt ih =>
    have hword := div_lt_wordCount (show start < bitmap.size by omega)
    have hfirst := mem_first_part (i := i) hlt
    rw [parts_of_lt hlt, List.map_cons, applyAll, List.foldl_cons, ← applyAll,
      ih (by rwa [size_apply]), bit_apply_paint, getLsbD_mask (first_span_le start stop)]
    -- The bit lies in a later piece, in the first one, or outside of the range.
    by_cases hlater : start + min (wordBits - start % wordBits) (stop - start) ≤ i ∧ i < stop
    · have hin : start ≤ i ∧ i < stop := by omega
      rw [if_pos hlater, if_pos hin]
    · have hhere : (start ≤ i ∧ i < start + min (wordBits - start % wordBits) (stop - start)) ↔
          start ≤ i ∧ i < stop := by omega
      rw [if_neg hlater]
      simp only [and_iff_left hword, decide_eq_true_eq, hfirst, hhere]

theorem bit_fill {bitmap : Bitmap} {start stop : Nat} (h : stop ≤ bitmap.size) (i : Nat) :
    (bitmap.fill start stop).bit i = (bitmap.bit i || decide (start ≤ i ∧ i < stop)) := by
  rw [fill, bit_bring h]
  split
  · next hin => rw [decide_eq_true hin, Bool.or_true]
  · next hout => rw [decide_eq_false hout, Bool.or_false]

theorem bit_wipe {bitmap : Bitmap} {start stop : Nat} (h : stop ≤ bitmap.size) (i : Nat) :
    (bitmap.wipe start stop).bit i = (bitmap.bit i && !decide (start ≤ i ∧ i < stop)) := by
  rw [wipe, bit_bring h]
  split
  · next hin => rw [decide_eq_true hin, Bool.not_true, Bool.and_false]
  · next hout => rw [decide_eq_false hout, Bool.not_false, Bool.and_true]

theorem partsOf_eq_ok {bitmap : Bitmap} {start stop : Nat} (h : start ≤ stop)
    (hs : stop ≤ bitmap.size) : bitmap.partsOf start stop = .ok (parts start stop) :=
  if_pos ⟨h, hs⟩

theorem setRangeSteps_eq_ok {bitmap : Bitmap} {start stop : Nat} (h : start ≤ stop)
    (hs : stop ≤ bitmap.size) :
    bitmap.setRangeSteps start stop =
      .ok ((parts start stop).map fun (word, mask) => .set word mask) := by
  rw [setRangeSteps, partsOf_eq_ok h hs]
  rfl

theorem clearRangeSteps_eq_ok {bitmap : Bitmap} {start stop : Nat} (h : start ≤ stop)
    (hs : stop ≤ bitmap.size) :
    bitmap.clearRangeSteps start stop =
      .ok ((parts start stop).map fun (word, mask) => .clear word mask) := by
  rw [clearRangeSteps, partsOf_eq_ok h hs]
  rfl

theorem setBitSteps_eq_ok {bitmap : Bitmap} {index : Nat} (h : index < bitmap.size) :
    bitmap.setBitSteps index =
      .ok ((parts index (index + 1)).map fun (word, mask) => .set word mask) := by
  rw [setBitSteps, if_pos h, parts_succ]
  rfl

theorem clearBitSteps_eq_ok {bitmap : Bitmap} {index : Nat} (h : index < bitmap.size) :
    bitmap.clearBitSteps index =
      .ok ((parts index (index + 1)).map fun (word, mask) => .clear word mask) := by
  rw [clearBitSteps, if_pos h, parts_succ]
  rfl

theorem setRange_eq_ok {bitmap : Bitmap} {start stop : Nat} (h : start ≤ stop)
    (hs : stop ≤ bitmap.size) : bitmap.setRange start stop = .ok (bitmap.fill start stop) := by
  rw [setRange, setRangeSteps_eq_ok h hs]
  rfl

theorem clearRange_eq_ok {bitmap : Bitmap} {start stop : Nat} (h : start ≤ stop)
    (hs : stop ≤ bitmap.size) : bitmap.clearRange start stop = .ok (bitmap.wipe start stop) := by
  rw [clearRange, clearRangeSteps_eq_ok h hs]
  rfl

/-! ## Looking at a range -/

/-- A word has all bits of a mask. -/
theorem and_mask_eq_mask_iff (word mask : BitVec wordBits) :
    word &&& mask = mask ↔ ∀ j, mask.getLsbD j = true → word.getLsbD j = true := by
  constructor
  · intro h j hj
    rw [← h, BitVec.getLsbD_and, Bool.and_eq_true] at hj
    exact hj.1
  · intro h
    ext j hj
    have := h j
    rw [BitVec.getElem_and, ← BitVec.getLsbD_eq_getElem, ← BitVec.getLsbD_eq_getElem]
    cases hm : mask.getLsbD j <;> simp_all

/-- A word has no bit of a mask. -/
theorem and_mask_eq_zero_iff (word mask : BitVec wordBits) :
    word &&& mask = 0 ↔ ∀ j, mask.getLsbD j = true → word.getLsbD j = false := by
  constructor
  · intro h j hj
    have hbit : (word &&& mask).getLsbD j = false := by rw [h]; simp
    rw [BitVec.getLsbD_and, hj, Bool.and_true] at hbit
    exact hbit
  · intro h
    ext j hj
    have := h j
    rw [BitVec.getElem_and, ← BitVec.getLsbD_eq_getElem, ← BitVec.getLsbD_eq_getElem]
    cases hm : mask.getLsbD j <;> simp_all

/-- The masks of the pieces of a range cover just its bits. -/
theorem exists_mem_parts_iff {start stop i : Nat} :
    (∃ part ∈ parts start stop,
        part.1 = i / wordBits ∧ part.2.getLsbD (i % wordBits) = true) ↔
      start ≤ i ∧ i < stop := by
  induction start using parts_induction stop with
  | done start hle =>
    have hout : ¬ (start ≤ i ∧ i < stop) := by omega
    simp [parts_of_le hle, hout]
  | piece start hlt ih =>
    simp only [parts_of_lt hlt, List.mem_cons, or_and_right, exists_or, exists_eq_left, ih]
    simp only [getLsbD_mask (first_span_le start stop), decide_eq_true_eq, mem_first_part hlt]
    omega

/-- The words of a range say under the masks of its pieces what the bits of the range say. -/
theorem forall_parts_iff (P : Bool → Prop) (bitmap : Bitmap) (start stop : Nat) :
    (∀ part ∈ parts start stop, ∀ j, part.2.getLsbD j = true →
        P ((bitmap.word part.1).getLsbD j)) ↔
      ∀ i, start ≤ i → i < stop → P (bitmap.bit i) := by
  constructor
  · intro hparts i hi hi'
    obtain ⟨part, hpart, hdiv, hmask⟩ := exists_mem_parts_iff.mpr ⟨hi, hi'⟩
    rw [bit, ← hdiv]
    exact hparts part hpart _ hmask
  · intro h part hpart j hj
    -- bit `j` of the word is bit `i` of the bitmap
    have hlt : j < wordBits := BitVec.lt_of_getLsbD hj
    have hdiv : (part.1 * wordBits + j) / wordBits = part.1 := by
      simp only [wordBits] at hlt ⊢
      omega
    have hmod : (part.1 * wordBits + j) % wordBits = j := by
      simp only [wordBits] at hlt ⊢
      omega
    obtain ⟨hi, hi'⟩ := exists_mem_parts_iff.mp ⟨part, hpart, hdiv.symm, by rwa [hmod]⟩
    have hbit := h _ hi hi'
    rwa [bit, hdiv, hmod] at hbit

theorem isRangeSet_eq {bitmap : Bitmap} {start stop : Nat} (h : start ≤ stop)
    (hs : stop ≤ bitmap.size) :
    ∃ set, bitmap.isRangeSet start stop = .ok set ∧
      (set = true ↔ ∀ i, start ≤ i → i < stop → bitmap.bit i = true) := by
  refine ⟨_, by rw [isRangeSet, partsOf_eq_ok h hs]; rfl, ?_⟩
  rw [← forall_parts_iff (fun bit => bit = true), List.all_eq_true]
  simp only [beq_iff_eq, and_mask_eq_mask_iff]

theorem isRangeSet_eq_error {bitmap : Bitmap} {start stop : Nat}
    (h : ¬ (start ≤ stop ∧ stop ≤ bitmap.size)) :
    bitmap.isRangeSet start stop = .error (.bitRangeOutOfBounds start stop bitmap.size) := by
  rw [isRangeSet, partsOf, if_neg h]
  rfl

theorem isRangeClear_eq {bitmap : Bitmap} {start stop : Nat} (h : start ≤ stop)
    (hs : stop ≤ bitmap.size) :
    ∃ clear, bitmap.isRangeClear start stop = .ok clear ∧
      (clear = true ↔ ∀ i, start ≤ i → i < stop → bitmap.bit i = false) := by
  refine ⟨_, by rw [isRangeClear, partsOf_eq_ok h hs]; rfl, ?_⟩
  rw [← forall_parts_iff (fun bit => bit = false), List.all_eq_true]
  simp only [beq_iff_eq, and_mask_eq_zero_iff]

/-! ## Bitmaps that have the same bits -/

/-- The words of a bitmap are told from its bits. -/
theorem ext_bit {a b : Bitmap} (hsize : a.size = b.size) (h : ∀ i, a.bit i = b.bit i) : a = b := by
  -- Bit `j` of the word at `index` is the bit of the bitmap with this number.
  have hword : ∀ index, a.word index = b.word index := by
    intro index
    ext j hj
    have hdiv : (index * wordBits + j) / wordBits = index := by
      simp only [wordBits] at hj ⊢
      omega
    have hmod : (index * wordBits + j) % wordBits = j := by
      simp only [wordBits] at hj ⊢
      omega
    have hbit := h (index * wordBits + j)
    rw [bit, bit, hdiv, hmod] at hbit
    rwa [← BitVec.getLsbD_eq_getElem, ← BitVec.getLsbD_eq_getElem]
  have hwords : a.words = b.words := by
    have hcount : a.words.size = b.words.size := by rw [a.size_words, b.size_words, hsize]
    refine Array.ext hcount ?_
    intro index ha hb
    have hindex := hword index
    simp only [word, Array.getElem?_eq_getElem ha, Array.getElem?_eq_getElem hb] at hindex
    exact hindex
  cases a
  cases b
  cases hsize
  cases hwords
  rfl

/-- Two adjacent ranges that are brought to a status one after the other are one range. -/
theorem bring_bring {bitmap : Bitmap} {start mid stop : Nat} (h : start ≤ mid) (hmid : mid ≤ stop)
    (hstop : stop ≤ bitmap.size) (status : Bool) :
    (bitmap.bring status start mid).bring status mid stop = bitmap.bring status start stop := by
  refine ext_bit (by simp only [size_bring]) ?_
  intro i
  rw [bit_bring (by rwa [size_bring]), bit_bring (by omega), bit_bring hstop]
  by_cases hlater : mid ≤ i ∧ i < stop
  · have hin : start ≤ i ∧ i < stop := by omega
    rw [if_pos hlater, if_pos hin]
  · have hfirst : (start ≤ i ∧ i < mid) ↔ (start ≤ i ∧ i < stop) := by omega
    simp only [if_neg hlater, hfirst]

/-- A range without indices leaves the bitmap as it is. -/
theorem bring_of_le (bitmap : Bitmap) {start stop : Nat} (h : stop ≤ start) (status : Bool) :
    bitmap.bring status start stop = bitmap := by
  rw [bring, parts_of_le h]
  rfl

/-! ## No bits behind the last one -/

/-- No bit is set outside of the bitmap. -/
def Tidy (bitmap : Bitmap) : Prop := ∀ i, bitmap.bit i = true → i < bitmap.size

theorem tidy_empty (size : Nat) : (empty size).Tidy := by
  intro i hi
  simp at hi

theorem Tidy.bring {bitmap : Bitmap} (tidy : bitmap.Tidy) {start stop : Nat}
    (h : stop ≤ bitmap.size) (status : Bool) : (bitmap.bring status start stop).Tidy := by
  intro i hi
  rw [bit_bring h] at hi
  rw [size_bring]
  split at hi
  · omega
  · exact tidy i hi

end RegionBacking.Bitmap
