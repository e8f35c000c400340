import RegionBacking.Bitmap
import RegionBacking.Op

/-!
# Edits of a bitmap

An edit brings one bit, or the bits of a range, to a status. It is checked as a whole in front of its
first step, and then makes its steps one after the other, each on one word.
-/

namespace RegionBacking.Bitmap

/-- A call that changes bits: it sets them or clears them. -/
inductive Edit where
  | bit (status : Bool) (index : Nat)
  | range (status : Bool) (start stop : Nat)
deriving DecidableEq, Repr

namespace Edit

/-- The steps of an edit of a bitmap. -/
def steps (bitmap : Bitmap) : Edit → Except Fault (List WordStep)
  | bit true index => bitmap.setBitSteps index
  | bit false index => bitmap.clearBitSteps index
  | range true start stop => bitmap.setRangeSteps start stop
  | range false start stop => bitmap.clearRangeSteps start stop

/-- The bitmap with an edit, if it is none of a bit that the bitmap does not have. -/
def edited (bitmap : Bitmap) : Edit → Except Fault Bitmap
  | bit true index => bitmap.setBit index
  | bit false index => bitmap.clearBit index
  | range true start stop => bitmap.setRange start stop
  | range false start stop => bitmap.clearRange start stop

/-- Makes an edit, step by step. -/
def make (edit : Edit) : Op Empty Bitmap Unit := do
  let bitmap ← Op.get
  let steps ← Op.checked (edit.steps bitmap)
  Op.forEach steps fun step => Op.modify (·.apply step)

end Edit

end RegionBacking.Bitmap
