import RegionBacking.Fault

/-!
# Machine words

Sizes, addresses and indices are natural numbers below `2 ^ 64`. A sum, difference or product that
leaves this range is a fault and never wraps; the few places that saturate instead say so. Three
things live here: the checked operations, rounding to a power of two, and the sizes of the machine.
-/

namespace RegionBacking

namespace Word

/-- One more than the largest word. -/
def limit : Nat := UInt64.size

/-! ## Checked and saturating arithmetic -/

/-- The sum, if it is a word. -/
def add (a b : Nat) : Except Fault Nat :=
  if a + b < limit then .ok (a + b) else .error .addOverflow

/-- The difference, if it is not negative. -/
def sub (a b : Nat) : Except Fault Nat :=
  if b ≤ a then .ok (a - b) else .error .subOverflow

/-- The product, if it is a word. -/
def mul (a b : Nat) : Except Fault Nat :=
  if a * b < limit then .ok (a * b) else .error .mulOverflow

/-- The sum, or the largest word if the sum is larger. -/
def saturatingAdd (a b : Nat) : Nat := min (a + b) (limit - 1)

/-- The product, or the largest word if the product is larger. -/
def saturatingMul (a b : Nat) : Nat := min (a * b) (limit - 1)

/-- The least number of parts of size `b` that cover `a`. -/
def divCeil (a b : Nat) : Nat := (a + b - 1) / b

/-! ## Rounding to a power of two -/

/-- Whether a number is a power of two; zero is none. -/
def isPowerOfTwo (n : Nat) : Bool := n == 1 <<< n.log2

/-- The least multiple of `alignment` that is at least `value`.

The sum `value + alignment` has to be a word, also where the rounded value would be one. -/
def alignUp (value alignment : Nat) : Except Fault Nat := do
  if isPowerOfTwo alignment then
    let sum ← add value alignment
    pure ((sum - 1) / alignment * alignment)
  else throw .alignmentNotPowerOfTwo

/-- The largest multiple of `alignment` that is at most `value`. -/
def alignDown (value alignment : Nat) : Except Fault Nat :=
  if isPowerOfTwo alignment then .ok (value / alignment * alignment)
  else .error .alignmentNotPowerOfTwo

/-! ## Sizes of the machine -/

/-- Bytes of a page of the operating system, the unit in which it changes access to memory. They are
what a library outside of the mapper reports of the system; here that report is fixed at 4096. -/
def osPage : Nat := 4096

/-- The largest number of bytes of one allocation. -/
def maxAllocation : Nat := limit / 2 - 1

/-- One more than the highest address that the operating system hands out. -/
def addressLimit : Nat := 1 <<< 47

/-! ## When the operations succeed -/

theorem add_eq_ok_iff {a b c : Nat} : add a b = .ok c ↔ a + b < limit ∧ c = a + b := by
  unfold add
  split <;> simp [eq_comm]
  all_goals omega

theorem sub_eq_ok_iff {a b c : Nat} : sub a b = .ok c ↔ b ≤ a ∧ c = a - b := by
  unfold sub
  split <;> simp [eq_comm]
  all_goals omega

theorem mul_eq_ok_iff {a b c : Nat} : mul a b = .ok c ↔ a * b < limit ∧ c = a * b := by
  unfold mul
  split <;> simp [eq_comm]
  all_goals omega

theorem mul_one_eq_ok {a : Nat} (h : a < limit) : mul a 1 = .ok a :=
  mul_eq_ok_iff.mpr ⟨by rwa [Nat.mul_one], (Nat.mul_one a).symm⟩

theorem isPowerOfTwo_iff {n : Nat} : isPowerOfTwo n = true ↔ n.isPowerOfTwo := by
  simp only [isPowerOfTwo, beq_iff_eq, Nat.one_shiftLeft]
  constructor
  · intro h
    exact ⟨n.log2, h⟩
  · rintro ⟨k, rfl⟩
    rw [Nat.log2_two_pow]

end Word

end RegionBacking
