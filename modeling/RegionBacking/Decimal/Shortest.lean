import RegionBacking.Decimal.Binary

/-!
# Shortest decimal text

The text of a finite double has the fewest digits that read back as the same double, and of those
with so few digits the ones nearest to its exact value. For each number of digits, from one on, the
two neighbours of the value on the decimal grid of that many digits are tested; the first grid with
a neighbour that reads back wins.

A number reads back as the double `m * 2 ^ q` if it lies between the middles to the neighbouring
doubles. The middles themselves read back only where `m` is even.
-/

namespace RegionBacking.Shortest

/-- A positive decimal number `digits * 10 ^ exponent`. -/
structure Decimal where
  digits : Nat
  exponent : Int
deriving DecidableEq, Repr

/-- A positive fraction with the fractions that read back as the same double around it. All three
have the same denominator. -/
structure Interval where
  low : Nat
  value : Nat
  high : Nat
  denominator : Nat
  /-- Whether the two ends read back as well. -/
  closed : Bool

/-- The interval of a positive double. Below a power of two the doubles lie twice as close. -/
def Interval.ofBinary (mantissa : Nat) (exponent : Int) : Interval :=
  let scale := 1 <<< exponent.toNat
  let below :=
    if mantissa = 1 <<< Binary.fractionBits ∧ Binary.minExponent < exponent then 1 else 2
  { low := (4 * mantissa - below) * scale
    value := 4 * mantissa * scale
    high := (4 * mantissa + 2) * scale
    denominator := 4 * Binary.denominator exponent
    closed := mantissa % 2 = 0 }

/-- Compares the decimal number `digits * 10 ^ exponent` with a fraction. -/
def compareFraction (digits : Nat) (exponent : Int) (numerator denominator : Nat) : Ordering :=
  compare (digits * Nat.pow 10 exponent.toNat * denominator)
    (numerator * Nat.pow 10 (-exponent).toNat)

/-- Whether a decimal number reads back as the double of an interval. -/
def Interval.holds (interval : Interval) (digits : Nat) (exponent : Int) : Bool :=
  match compareFraction digits exponent interval.low interval.denominator,
    compareFraction digits exponent interval.high interval.denominator with
  | .gt, .lt => true
  | .eq, _ => interval.closed
  | _, .eq => interval.closed
  | _, _ => false

/-- The exponent `k` with `10 ^ (k - 1) ≤ value < 10 ^ k`. -/
def Interval.magnitude (interval : Interval) : Int :=
  if interval.denominator ≤ interval.value then
    ((Nat.toDigits 10 (interval.value / interval.denominator)).length : Int)
  else
    let reaches (places : Nat) : Bool :=
      decide (interval.denominator ≤ interval.value * Nat.pow 10 (places + 1))
    match (List.range 400).find? reaches with
    | some places => Int.neg places
    | none => -400

/-- The nearer of the value's two neighbours on the grid of the multiples of `10 ^ exponent`, among
those that read back. A tie goes to the even one. -/
def Interval.neighbour? (interval : Interval) (exponent : Int) : Option Nat :=
  let numerator := interval.value * Nat.pow 10 (-exponent).toNat
  let denominator := interval.denominator * Nat.pow 10 exponent.toNat
  let below := numerator / denominator
  let above := below + 1
  let distance := 2 * (numerator % denominator)
  match interval.holds below exponent, interval.holds above exponent with
  | true, true =>
    if distance < denominator then some below
    else if denominator < distance then some above
    else if below % 2 = 0 then some below else some above
  | true, false => some below
  | false, true => some above
  | false, false => none

/-- A decimal number without the zeroes at the end of its digits. -/
def strip (fuel digits : Nat) (exponent : Int) : Decimal :=
  match fuel with
  | 0 => ⟨digits, exponent⟩
  | fuel + 1 =>
    if digits % 10 = 0 then strip fuel (digits / 10) (exponent + 1) else ⟨digits, exponent⟩

/-- The shortest decimal number that reads back as a positive double. -/
def ofBinary (mantissa : Nat) (exponent : Int) : Decimal :=
  let interval := Interval.ofBinary mantissa exponent
  let magnitude := interval.magnitude
  let found := (List.range 17).findSome? fun n =>
    let place := magnitude - ((n + 1 : Nat) : Int)
    (interval.neighbour? place).map fun digits => strip 20 digits place
  found.getD ⟨mantissa, exponent⟩

/-! ## Text -/

/-- The leading exponents that are written without an exponent. -/
def positional (leading : Int) : Bool := decide (-5 ≤ leading ∧ leading ≤ 15)

/-- The text of a positive decimal number: at least one place behind the point without an exponent,
and as few as there are with one. -/
def decimalChars (decimal : Decimal) : List Char :=
  let digits := Nat.toDigits 10 decimal.digits
  let leading : Int := decimal.exponent + (digits.length : Int) - 1
  if positional leading then
    if 0 ≤ decimal.exponent then
      digits ++ List.replicate decimal.exponent.toNat '0' ++ ['.', '0']
    else if 0 ≤ leading then
      digits.take (leading.toNat + 1) ++ '.' :: digits.drop (leading.toNat + 1)
    else '0' :: '.' :: List.replicate ((-leading).toNat - 1) '0' ++ digits
  else
    let sign := if leading < 0 then '-' else '+'
    let mark := 'e' :: sign :: Nat.toDigits 10 leading.natAbs
    match digits with
    | [digit] => digit :: mark
    | digit :: rest => digit :: '.' :: rest ++ mark
    | [] => mark

/-- The characters of a finite double. -/
def chars (x : Float) : List Char :=
  let binary := Binary.ofFloat x
  let magnitude :=
    if binary.mantissa = 0 then ['0', '.', '0']
    else decimalChars (ofBinary binary.mantissa binary.exponent)
  if binary.negative then '-' :: magnitude else magnitude

/-- The text of a finite double. -/
def text (x : Float) : String := String.ofList (chars x)

end RegionBacking.Shortest
