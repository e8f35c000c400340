import RegionBacking.Decimal.Binary

/-!
# A fixed number of decimal places

A magnitude is rounded to the nearest multiple of the last place; a tie goes to the even one. The
rounding is of the exact value of the double.
-/

namespace RegionBacking.Places

/-- The quotient rounded to the nearest number, a tie to the even one. -/
def roundDiv (numerator denominator : Nat) : Nat :=
  let quotient := numerator / denominator
  let twice := 2 * (numerator % denominator)
  if twice < denominator then quotient
  else if denominator < twice then quotient + 1
  else if quotient % 2 = 0 then quotient else quotient + 1

/-- Digits with zeroes in front, at least `width` of them. -/
def padded (width n : Nat) : List Char :=
  let digits := Nat.toDigits 10 n
  List.replicate (width - digits.length) '0' ++ digits

/-- The text of a number with a fixed number of decimal places, at least one. -/
def text (places : Nat) (x : Float) : String :=
  let binary := Binary.ofFloat x
  let scale := Nat.pow 10 places
  let scaled := roundDiv (Binary.numerator binary.mantissa binary.exponent * scale)
    (Binary.denominator binary.exponent)
  let sign := if binary.negative then "-" else ""
  sign ++ toString (scaled / scale) ++ "." ++
    String.ofList (padded places (scaled % scale))

end RegionBacking.Places
