/-!
# Binary floating point numbers

A finite double is `mantissa * 2 ^ exponent` with a sign. This module reads the two numbers off the
bits and writes the magnitude as a fraction of natural numbers, on which all further work is exact.
-/

namespace RegionBacking

/-- The sign and the magnitude `mantissa * 2 ^ exponent` of a finite double. -/
structure Binary where
  negative : Bool
  mantissa : Nat
  exponent : Int
deriving DecidableEq, Repr

namespace Binary

/-- Bits of the fraction of a double. -/
def fractionBits : Nat := 52

/-- Bits of the exponent of a double. -/
def exponentBits : Nat := 11

/-- The exponent of the last place of the smallest doubles. -/
def minExponent : Int := -1074

/-- The number that 64 bits stand for, for bits of a finite double. -/
def ofBits (bits : Nat) : Binary :=
  let fraction := bits % 1 <<< fractionBits
  let biased := bits >>> fractionBits % 1 <<< exponentBits
  { negative := bits.testBit (fractionBits + exponentBits)
    mantissa := if biased = 0 then fraction else fraction + 1 <<< fractionBits
    exponent := minExponent + ((biased - 1 : Nat) : Int) }

/-- The number that a finite double stands for. -/
def ofFloat (x : Float) : Binary := ofBits x.toBits.toNat

/-- The numerator of `mantissa * 2 ^ exponent`. -/
def numerator (mantissa : Nat) (exponent : Int) : Nat := mantissa <<< exponent.toNat

/-- The denominator of `mantissa * 2 ^ exponent`. -/
def denominator (exponent : Int) : Nat := 1 <<< (-exponent).toNat

end Binary

end RegionBacking
