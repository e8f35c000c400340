import Mathlib.Order.Bounds.Basic
import Mathlib.Order.Interval.Finset.Nat
import RegionBacking.Bitmap.Edit
import RegionBacking.Proofs.Bitmap.Ranges
import RegionBacking.Proofs.Running

/-!
# Ranges bit by bit

An operation on a range goes word by word, but it does what the same operation does on each bit of
the range, one after the other (`bit_by_bit`). An edit that is a fault leaves the bitmap as it is,
since it is checked in front of its first step (`Edit.make_eq`).
-/

namespace RegionBacking.Bitmap

variable {bitmap : Bitmap} {status : Bool} {start stop index : Nat}

/-! ## Masks -/

/-- The mask of a part is all ones if the part is a whole word. Otherwise it is one less than a power
of two, moved to where the part begins; the power of two of a whole word would be no word. -/
theorem mask_eq {bit span : Nat} (h : bit + span ≤ wordBits) : mask bit span =
    if span = wordBits then .allOnes wordBits
    else ((BitVec.ofNat wordBits 1 <<< span) - BitVec.ofNat wordBits 1) <<< bit := by
  apply BitVec.eq_of_getLsbD_eq
  intro index hindex
  rw [getLsbD_mask h]
  split
  · next hwhole =>
    have hinside : bit ≤ index ∧ index < bit + span := by omega
    rw [decide_eq_true hinside, BitVec.getLsbD_allOnes, decide_eq_true hindex]
  · next hpart =>
    have hpower : 2 ^ span < 2 ^ wordBits := Nat.pow_lt_pow_right (by decide) (by omega)
    have hones : ((BitVec.ofNat wordBits 1 <<< span) - BitVec.ofNat wordBits 1).toNat =
        2 ^ span - 1 := by
      have hone : 1 ≤ 2 ^ span := Nat.one_le_two_pow
      have hshift : (BitVec.ofNat wordBits 1 <<< span).toNat = 2 ^ span := by
        rw [BitVec.toNat_shiftLeft, BitVec.toNat_ofNat, Nat.shiftLeft_eq,
          Nat.mod_eq_of_lt (show 1 < 2 ^ wordBits by decide), Nat.one_mul,
          Nat.mod_eq_of_lt hpower]
      rw [BitVec.toNat_sub_of_le (BitVec.le_def.mpr (by rw [hshift]; exact hone)), hshift]
      rfl
    rw [BitVec.getLsbD_shiftLeft, BitVec.getLsbD, hones, Nat.testBit_two_pow_sub_one,
      Bool.eq_iff_iff]
    simp only [decide_eq_true_eq, Bool.and_eq_true, Bool.not_eq_true', decide_eq_false_iff_not]
    omega

/-! ## How an edit goes -/

theorem forEach_apply_run (steps : List WordStep) (bitmap : Bitmap) :
    (Op.forEach steps fun step => Op.modify (·.apply step) : Op Empty Bitmap Unit) bitmap =
      ⟨.ok (), bitmap.applyAll steps, []⟩ := by
  induction steps generalizing bitmap with
  | nil => rfl
  | cons step steps ih =>
    rw [Op.forEach_cons, Op.modify_bind, ih]
    rfl

namespace Edit

/-- What an edit brings its bits to. -/
def target : Edit → Bool
  | bit status _ | range status _ _ => status

/-- The first of the bits of an edit. -/
def first : Edit → Nat
  | bit _ index => index
  | range _ start _ => start

/-- The end of the bits of an edit. -/
def last : Edit → Nat
  | bit _ index => index + 1
  | range _ _ stop => stop

/-- An edit of bits that a bitmap of this size has. -/
def Fits (size : Nat) (edit : Edit) : Prop := edit.first ≤ edit.last ∧ edit.last ≤ size

instance (size : Nat) (edit : Edit) : Decidable (edit.Fits size) :=
  inferInstanceAs (Decidable (_ ∧ _))

/-- The fault of an edit of other bits. -/
def fault (size : Nat) : Edit → Fault
  | bit _ index => .bitOutOfBounds index size
  | range _ start stop => .bitRangeOutOfBounds start stop size

/-- The bits of a bitmap of this size that an edit brings to its target. -/
def indices (size : Nat) (edit : Edit) : Finset Nat :=
  if edit.Fits size then Finset.Ico edit.first edit.last else ∅

theorem mem_indices_iff {size : Nat} {edit : Edit} : index ∈ edit.indices size ↔
    edit.Fits size ∧ edit.first ≤ index ∧ index < edit.last := by
  unfold indices
  split
  · next hfits => simp [hfits]
  · next hfits => simp [hfits]

/-- The steps of an edit of bits that the bitmap has. -/
def pieces (edit : Edit) : List WordStep :=
  (parts edit.first edit.last).map fun (word, mask) => paint edit.target word mask

theorem steps_eq (edit : Edit) (bitmap : Bitmap) : edit.steps bitmap =
    if edit.Fits bitmap.size then .ok edit.pieces else .error (edit.fault bitmap.size) := by
  cases edit with
  | bit status index =>
    have hfits : (bit status index).Fits bitmap.size ↔ index < bitmap.size :=
      and_iff_right (Nat.le_succ index)
    simp only [hfits]
    split
    · next hindex =>
      cases status with
      | true => exact setBitSteps_eq_ok hindex
      | false => exact clearBitSteps_eq_ok hindex
    · next hindex =>
      cases status with
      | true => exact if_neg hindex
      | false => exact if_neg hindex
  | range status start stop =>
    split
    · next hfits =>
      cases status with
      | true => exact setRangeSteps_eq_ok hfits.1 hfits.2
      | false => exact clearRangeSteps_eq_ok hfits.1 hfits.2
    · next hfits =>
      have hparts : bitmap.partsOf start stop =
          .error (.bitRangeOutOfBounds start stop bitmap.size) := if_neg hfits
      cases status with
      | true => rw [steps, setRangeSteps, hparts]; rfl
      | false => rw [steps, clearRangeSteps, hparts]; rfl

/-- The function of an edit makes all of its steps at once. -/
theorem edited_eq (edit : Edit) (bitmap : Bitmap) :
    edit.edited bitmap = (edit.steps bitmap).map bitmap.applyAll := by
  cases edit with
  | bit status index => cases status <;> rfl
  | range status start stop => cases status <;> rfl

/-- An edit comes to the bitmap of its function, or it is a fault and nothing has changed. -/
theorem make_eq (edit : Edit) (bitmap : Bitmap) : edit.make bitmap =
    match edit.edited bitmap with
    | .ok after => ⟨.ok (), after, []⟩
    | .error fault => ⟨.error (.fault fault), bitmap, []⟩ := by
  rw [edited_eq, make, Op.get_bind]
  cases edit.steps bitmap with
  | ok steps => rw [Op.checked_ok, pure_bind, forEach_apply_run]; rfl
  | error fault => rw [Op.checked_error, Op.fail_bind]; rfl

theorem edited_of_fits {edit : Edit} (h : edit.Fits bitmap.size) :
    edit.edited bitmap = .ok (bitmap.bring edit.target edit.first edit.last) := by
  rw [edited_eq, steps_eq, if_pos h]
  rfl

theorem edited_of_not_fits {edit : Edit} (h : ¬ edit.Fits bitmap.size) :
    edit.edited bitmap = .error (edit.fault bitmap.size) := by
  rw [edited_eq, steps_eq, if_neg h]
  rfl

theorem edited_range (hstart : start ≤ stop) (hstop : stop ≤ bitmap.size) (status : Bool) :
    (range status start stop).edited bitmap = .ok (bitmap.bring status start stop) :=
  edited_of_fits ⟨hstart, hstop⟩

/-- An edit of one bit is one of a range of one. -/
theorem edited_bit (hindex : index < bitmap.size) (status : Bool) :
    (bit status index).edited bitmap = .ok (bitmap.bring status index (index + 1)) :=
  edited_of_fits ⟨Nat.le_succ index, hindex⟩

theorem edited_range_eq_error (h : ¬ (start ≤ stop ∧ stop ≤ bitmap.size)) (status : Bool) :
    (range status start stop).edited bitmap =
      .error (.bitRangeOutOfBounds start stop bitmap.size) :=
  edited_of_not_fits h

theorem edited_bit_eq_error (h : bitmap.size ≤ index) (status : Bool) :
    (bit status index).edited bitmap = .error (.bitOutOfBounds index bitmap.size) :=
  edited_of_not_fits fun hfits => Nat.not_lt.mpr h hfits.2

/-- An edit brings its bits to its target, or it is a fault. -/
theorem make_state (edit : Edit) (bitmap : Bitmap) : (edit.make bitmap).state =
    if edit.Fits bitmap.size then bitmap.bring edit.target edit.first edit.last else bitmap := by
  rw [make_eq]
  by_cases hfits : edit.Fits bitmap.size
  · rw [edited_of_fits hfits, if_pos hfits]
  · rw [edited_of_not_fits hfits, if_neg hfits]

theorem size_make (edit : Edit) (bitmap : Bitmap) :
    (edit.make bitmap).state.size = bitmap.size := by
  rw [make_state]
  split
  · exact size_bring ..
  · rfl

theorem bit_make (edit : Edit) (bitmap : Bitmap) (i : Nat) : (edit.make bitmap).state.bit i =
    if i ∈ edit.indices bitmap.size then edit.target else bitmap.bit i := by
  rw [make_state]
  simp only [mem_indices_iff]
  split
  · next hfits => simp only [bit_bring hfits.2, hfits, true_and]
  · next hfits => simp only [hfits, false_and, if_false]

/-- The bits of a range that are edited one after the other come to where the range comes as a
whole. -/
theorem forEach_bit_run (hstart : start ≤ stop) (hstop : stop ≤ bitmap.size) (status : Bool) :
    Op.forEach (List.range' start (stop - start)) (fun index => (bit status index).make) bitmap =
      ⟨.ok (), bitmap.bring status start stop, []⟩ := by
  have hloop : ∃ after trace,
      Op.forEach (List.range' start (stop - start)) (fun index => (bit status index).make) bitmap =
        ⟨.ok (), after, trace⟩ ∧
      after = bitmap.bring status start (start + (stop - start)) ∧ trace = [] := by
    refine Op.forEach_range
      (fun index after trace => after = bitmap.bring status start index ∧ trace = [])
      ⟨(bitmap.bring_of_le (Nat.le_refl start) status).symm, rfl⟩ ?_
    rintro index _ _ hfirst hlast ⟨rfl, rfl⟩
    have hindex : index < bitmap.size := by omega
    refine ⟨_, [], ?_, bring_bring hfirst (Nat.le_succ index) hindex status, rfl⟩
    rw [make_eq, edited_bit (by rwa [size_bring])]
  obtain ⟨_, _, hrun, rfl, rfl⟩ := hloop
  rw [hrun, Nat.add_sub_cancel' hstart]

end Edit

/-! ## Looking at bits -/

theorem test_eq_ok_iff : bitmap.test index = .ok status ↔
    index < bitmap.size ∧ bitmap.bit index = status := by
  unfold test
  split
  · next hindex => simp [hindex]
  · next hindex => simp [hindex]

/-- The bit that is found is the least one that is set. -/
theorem findSet?_eq_some_iff : bitmap.findSet? start stop = some index ↔
    IsLeast {i | start ≤ i ∧ i < min stop bitmap.size ∧ bitmap.test i = .ok true} index := by
  rw [findSet?, firstWhere?_eq, List.find?_range'_eq_some, List.mem_range'_1]
  simp only [test_eq_ok_iff]
  constructor
  · rintro ⟨hset, hrange, hearlier⟩
    refine ⟨⟨hrange.1, by omega, by omega, hset⟩, ?_⟩
    rintro i ⟨hfirst, -, -, hbit⟩
    by_contra hlt
    have hclear := hearlier i hfirst (Nat.lt_of_not_le hlt)
    rw [hbit] at hclear
    cases hclear
  · rintro ⟨⟨hfirst, hlast, -, hset⟩, hleast⟩
    refine ⟨hset, ⟨hfirst, by omega⟩, fun i hi hlt => ?_⟩
    rw [Bool.not_eq_true', ← Bool.not_eq_true]
    intro hbit
    have hle : index ≤ i := hleast ⟨hi, Nat.lt_trans hlt hlast, by omega, hbit⟩
    omega

theorem findSet?_eq_none_iff : bitmap.findSet? start stop = none ↔
    ∀ i, start ≤ i → i < min stop bitmap.size → bitmap.test i = .ok false := by
  rw [findSet?, firstWhere?_eq, List.find?_range'_eq_none]
  simp only [test_eq_ok_iff, Bool.not_eq_true']
  constructor
  · intro hclear i hfirst hlast
    exact ⟨by omega, hclear i hfirst (by omega)⟩
  · intro hclear i hfirst hlast
    exact (hclear i hfirst (by omega)).2

/-! ## Bit by bit -/

/-- Operations on a range of a bitmap are operations on its bits. An edit brings each bit of the range
to its status, as the edits of these bits do one after the other, and keeps all other bits. A range
is told to be set, or clear, just if each of its bits is tested to be so. -/
structure Bitwise (bitmap : Bitmap) (start stop : Nat) : Prop where
  edits : ∀ status, ∃ after,
    (Edit.range status start stop).make bitmap = ⟨.ok (), after, []⟩ ∧
    after.size = bitmap.size ∧
    (∀ i, after.bit i = if start ≤ i ∧ i < stop then status else bitmap.bit i) ∧
    Op.forEach (List.range' start (stop - start)) (fun index => (Edit.bit status index).make)
      bitmap = ⟨.ok (), after, []⟩
  isRangeSet : ∃ set, bitmap.isRangeSet start stop = .ok set ∧
    (set = true ↔ ∀ i, start ≤ i → i < stop → bitmap.test i = .ok true)
  isRangeClear : ∃ clear, bitmap.isRangeClear start stop = .ok clear ∧
    (clear = true ↔ ∀ i, start ≤ i → i < stop → bitmap.test i = .ok false)

/-- Operations on a range that the bitmap does not have are faults, which change nothing. -/
structure Refuses (bitmap : Bitmap) (start stop : Nat) : Prop where
  edits : ∀ status, (Edit.range status start stop).make bitmap =
    ⟨.error (.fault (.bitRangeOutOfBounds start stop bitmap.size)), bitmap, []⟩
  isRangeSet : bitmap.isRangeSet start stop =
    .error (.bitRangeOutOfBounds start stop bitmap.size)
  isRangeClear : bitmap.isRangeClear start stop =
    .error (.bitRangeOutOfBounds start stop bitmap.size)

theorem bitwise (hstart : start ≤ stop) (hstop : stop ≤ bitmap.size) :
    bitmap.Bitwise start stop := by
  -- All bits of the range are bits of the bitmap, so each of them can be tested.
  have htest : ∀ status i, start ≤ i → i < stop →
      (bitmap.test i = .ok status ↔ bitmap.bit i = status) := fun status i _ hlast =>
    test_eq_ok_iff.trans (and_iff_right (Nat.lt_of_lt_of_le hlast hstop))
  refine ⟨fun status => ⟨bitmap.bring status start stop, ?_, size_bring .., bit_bring hstop status,
    Edit.forEach_bit_run hstart hstop status⟩, ?_, ?_⟩
  · rw [Edit.make_eq, Edit.edited_range hstart hstop]
  · obtain ⟨set, hset, hiff⟩ := isRangeSet_eq hstart hstop
    refine ⟨set, hset, hiff.trans (forall_congr' fun i => ?_)⟩
    exact forall₂_congr fun hfirst hlast => (htest true i hfirst hlast).symm
  · obtain ⟨clear, hclear, hiff⟩ := isRangeClear_eq hstart hstop
    refine ⟨clear, hclear, hiff.trans (forall_congr' fun i => ?_)⟩
    exact forall₂_congr fun hfirst hlast => (htest false i hfirst hlast).symm

theorem refuses (h : ¬ (start ≤ stop ∧ stop ≤ bitmap.size)) : bitmap.Refuses start stop := by
  refine ⟨fun status => ?_, ?_, ?_⟩
  · rw [Edit.make_eq, Edit.edited_range_eq_error h]
  · rw [isRangeSet, partsOf, if_neg h]
    rfl
  · rw [isRangeClear, partsOf, if_neg h]
    rfl

/-- In any state of a bitmap, an operation on a range of its bits does what the operations on these
bits do, and the set bit that is looked for in any range is the least one there. A bit or a range
that the bitmap does not have is a fault, and then nothing has changed. -/
theorem bit_by_bit (bitmap : Bitmap) :
    (∀ start stop, start ≤ stop → stop ≤ bitmap.size → bitmap.Bitwise start stop) ∧
    (∀ start stop, ¬ (start ≤ stop ∧ stop ≤ bitmap.size) → bitmap.Refuses start stop) ∧
    (∀ index < bitmap.size, bitmap.test index = .ok (bitmap.bit index) ∧
      ∀ status, ∃ after, (Edit.bit status index).make bitmap = ⟨.ok (), after, []⟩ ∧
        after.size = bitmap.size ∧
        ∀ i, after.bit i = if i = index then status else bitmap.bit i) ∧
    (∀ index, bitmap.size ≤ index →
      bitmap.test index = .error (.bitOutOfBounds index bitmap.size) ∧
      ∀ status, (Edit.bit status index).make bitmap =
        ⟨.error (.fault (.bitOutOfBounds index bitmap.size)), bitmap, []⟩) ∧
    (∀ start stop index, bitmap.findSet? start stop = some index ↔ IsLeast
      {i | start ≤ i ∧ i < min stop bitmap.size ∧ bitmap.test i = .ok true} index) ∧
    (∀ start stop, bitmap.findSet? start stop = none ↔
      ∀ i, start ≤ i → i < min stop bitmap.size → bitmap.test i = .ok false) := by
  refine ⟨fun _ _ => bitwise, fun _ _ => refuses, fun index hindex => ⟨?_, fun status => ?_⟩,
    fun index hindex => ⟨?_, fun status => ?_⟩, fun _ _ _ => findSet?_eq_some_iff,
    fun _ _ => findSet?_eq_none_iff⟩
  · exact test_eq_ok_iff.mpr ⟨hindex, rfl⟩
  · refine ⟨_, by rw [Edit.make_eq, Edit.edited_bit hindex], size_bring .., fun i => ?_⟩
    rw [bit_bring hindex]
    exact if_congr (by omega) rfl rfl
  · exact if_neg (Nat.not_lt.mpr hindex)
  · rw [Edit.make_eq, Edit.edited_bit_eq_error hindex]

/-- The range from 60 to 130 has the last bits of one word, all bits of a second and the first two of
a third. -/
theorem bit_by_bit_of_three_words :
    (60 ≤ 130 ∧ 130 ≤ (empty 200).size ∧ (empty 200).Bitwise 60 130) ∧
    (¬ (60 ≤ 201 ∧ 201 ≤ (empty 200).size) ∧ (empty 200).Refuses 60 201) := by
  obtain ⟨hbitwise, hrefuses, -⟩ := bit_by_bit (empty 200)
  have hout : ¬ (60 ≤ 201 ∧ 201 ≤ (empty 200).size) := by decide
  exact ⟨⟨by decide, by decide, hbitwise 60 130 (by decide) (by decide)⟩, hout,
    hrefuses 60 201 hout⟩

end RegionBacking.Bitmap
