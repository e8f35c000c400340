import RegionBacking.Fault

/-!
# Bitmaps

A fixed number of bits, packed into words of 64. Bit `i` is bit `i % 64` of word `i / 64`. A set bit
says that the region or the page of that index is backed.

An operation on a range works word by word: `Bitmap.parts` cuts the range into pieces that lie in
one word each, and a piece is one `WordStep`, the change of a word under a mask. A step touches no
bit outside its mask, so steps on different bits may be interleaved. An operation is therefore given
as its steps, and the new bitmap is the one after all of them.

An operation on a bit or a range outside of the bitmap is a fault: it has no steps.
-/

namespace RegionBacking

/-- Bits of a word. -/
def wordBits : Nat := 64

/-- The least number of words with room for `size` bits. -/
def wordCount (size : Nat) : Nat := (size + (wordBits - 1)) / wordBits

/-- A fixed number of bits. -/
structure Bitmap where
  /-- The number of bits. -/
  size : Nat
  /-- The words that hold the bits, the lowest index first. -/
  words : Array (BitVec wordBits)
  /-- There are as many words as the bits need. -/
  size_words : words.size = wordCount size

/-- One change of a word. -/
inductive WordStep where
  /-- Set the bits of a mask. -/
  | set (word : Nat) (mask : BitVec wordBits)
  /-- Clear the bits of a mask. -/
  | clear (word : Nat) (mask : BitVec wordBits)

namespace Bitmap

/-- A bitmap with all bits clear. -/
def empty (size : Nat) : Bitmap := ⟨size, Array.replicate (wordCount size) 0, Array.size_replicate⟩

/-! ## Reading -/

/-- The word at an index, zero behind the last one. -/
def word (bitmap : Bitmap) (index : Nat) : BitVec wordBits := bitmap.words[index]?.getD 0

/-- Whether a bit is set; a bit outside of the bitmap is not. -/
def bit (bitmap : Bitmap) (index : Nat) : Bool :=
  (bitmap.word (index / wordBits)).getLsbD (index % wordBits)

/-- Whether a bit of the bitmap is set. -/
def test (bitmap : Bitmap) (index : Nat) : Except Fault Bool :=
  if index < bitmap.size then .ok (bitmap.bit index)
  else .error (.bitOutOfBounds index bitmap.size)

/-- The indices of the set bits of a word. -/
def wordOnes (word : BitVec wordBits) : List Nat := (List.range wordBits).filter word.getLsbD

/-- The indices of the set bits of the first words, in ascending order, before `later`. -/
def onesBelow (bitmap : Bitmap) : Nat → List Nat → List Nat
  | 0, later => later
  | index + 1, later =>
    if bitmap.word index = 0 then bitmap.onesBelow index later
    else
      let ones := (wordOnes (bitmap.word index)).map (index * wordBits + ·)
      bitmap.onesBelow index (ones ++ later)

/-- The indices of the set bits, in ascending order. -/
def ones (bitmap : Bitmap) : List Nat := bitmap.onesBelow (wordCount bitmap.size) []

/-- The number of set bits of a word. -/
def onesCount (word : BitVec wordBits) : Nat :=
  if word = 0 then 0
  else if word = .allOnes wordBits then wordBits
  else (wordOnes word).length

/-- The number of set bits. -/
def count (bitmap : Bitmap) : Nat :=
  bitmap.words.foldl (fun total word => total + onesCount word) 0

/-- The first of the `count` indices from `index` on that passes a test. -/
def firstWhere? (test : Nat → Bool) (index : Nat) : Nat → Option Nat
  | 0 => none
  | count + 1 => if test index then some index else firstWhere? test (index + 1) count

/-- The first set bit at or after `start` and before `stop`. -/
def findSet? (bitmap : Bitmap) (start stop : Nat) : Option Nat :=
  firstWhere? bitmap.bit start (min stop bitmap.size - start)

/-- The first clear bit at or after `start` and before `stop`. -/
def findClear? (bitmap : Bitmap) (start stop : Nat) : Option Nat :=
  firstWhere? (fun index => !bitmap.bit index) start (stop - start)

/-- The size of the words in bytes. -/
def sizeBytes (bitmap : Bitmap) : Nat := wordCount bitmap.size * 8

/-! ## Steps on words -/

/-- The bits `[bit, bit + span)` of a word. -/
def mask (bit span : Nat) : BitVec wordBits :=
  (BitVec.allOnes wordBits >>> (wordBits - span)) <<< bit

/-- The pieces of the range `[start, stop)` that lie in one word each. -/
def parts (start stop : Nat) : List (Nat × BitVec wordBits) :=
  if start < stop then
    let bit := start % wordBits
    let span := min (wordBits - bit) (stop - start)
    (start / wordBits, mask bit span) :: parts (start + span) stop
  else []
termination_by stop - start
decreasing_by
  have := Nat.mod_lt start (show 0 < wordBits by decide)
  omega

/-- The bitmap with another word at an index, if there is a word at that index. -/
def setWord (bitmap : Bitmap) (index : Nat) (word : BitVec wordBits) : Bitmap where
  size := bitmap.size
  words := bitmap.words.setIfInBounds index word
  size_words := Array.size_setIfInBounds.trans bitmap.size_words

/-- The bitmap after a step. -/
def apply (bitmap : Bitmap) : WordStep → Bitmap
  | .set index mask => bitmap.setWord index (bitmap.word index ||| mask)
  | .clear index mask => bitmap.setWord index (bitmap.word index &&& ~~~mask)

/-- The bitmap after steps, one after the other. -/
def applyAll (bitmap : Bitmap) (steps : List WordStep) : Bitmap := steps.foldl apply bitmap

/-! ## Single bits -/

/-- The step that sets a bit, which has to be a bit of the bitmap. -/
def setBitSteps (bitmap : Bitmap) (index : Nat) : Except Fault (List WordStep) :=
  if index < bitmap.size then .ok [.set (index / wordBits) (mask (index % wordBits) 1)]
  else .error (.bitOutOfBounds index bitmap.size)

/-- The step that clears a bit, which has to be a bit of the bitmap. -/
def clearBitSteps (bitmap : Bitmap) (index : Nat) : Except Fault (List WordStep) :=
  if index < bitmap.size then .ok [.clear (index / wordBits) (mask (index % wordBits) 1)]
  else .error (.bitOutOfBounds index bitmap.size)

/-- The bitmap with one more bit set. -/
def setBit (bitmap : Bitmap) (index : Nat) : Except Fault Bitmap :=
  (bitmap.setBitSteps index).map bitmap.applyAll

/-- The bitmap with one bit less set. -/
def clearBit (bitmap : Bitmap) (index : Nat) : Except Fault Bitmap :=
  (bitmap.clearBitSteps index).map bitmap.applyAll

/-! ## Ranges -/

/-- The pieces of a range, which has to lie in the bitmap. -/
def partsOf (bitmap : Bitmap) (start stop : Nat) : Except Fault (List (Nat × BitVec wordBits)) :=
  if start ≤ stop ∧ stop ≤ bitmap.size then .ok (parts start stop)
  else .error (.bitRangeOutOfBounds start stop bitmap.size)

/-- The steps that set the range `[start, stop)`, which has to lie in the bitmap. -/
def setRangeSteps (bitmap : Bitmap) (start stop : Nat) : Except Fault (List WordStep) := do
  let pieces ← bitmap.partsOf start stop
  pure (pieces.map fun (word, mask) => .set word mask)

/-- The steps that clear the range `[start, stop)`, which has to lie in the bitmap. -/
def clearRangeSteps (bitmap : Bitmap) (start stop : Nat) : Except Fault (List WordStep) := do
  let pieces ← bitmap.partsOf start stop
  pure (pieces.map fun (word, mask) => .clear word mask)

/-- The bitmap with the range `[start, stop)` set. -/
def setRange (bitmap : Bitmap) (start stop : Nat) : Except Fault Bitmap :=
  (bitmap.setRangeSteps start stop).map bitmap.applyAll

/-- The bitmap with the range `[start, stop)` clear. -/
def clearRange (bitmap : Bitmap) (start stop : Nat) : Except Fault Bitmap :=
  (bitmap.clearRangeSteps start stop).map bitmap.applyAll

/-- Whether every bit of the range `[start, stop)` is set. -/
def isRangeSet (bitmap : Bitmap) (start stop : Nat) : Except Fault Bool := do
  let pieces ← bitmap.partsOf start stop
  pure (pieces.all fun (index, mask) => bitmap.word index &&& mask == mask)

/-- Whether every bit of the range `[start, stop)` is clear. -/
def isRangeClear (bitmap : Bitmap) (start stop : Nat) : Except Fault Bool := do
  let pieces ← bitmap.partsOf start stop
  pure (pieces.all fun (index, mask) => bitmap.word index &&& mask == 0)

/-! ## Text -/

/-- The text of a bitmap: its size and the number of set bits. -/
def text (bitmap : Bitmap) : String :=
  s!"CommitBitmap \x7b len: {bitmap.size}, set: {bitmap.count} \x7d"

end Bitmap

end RegionBacking
