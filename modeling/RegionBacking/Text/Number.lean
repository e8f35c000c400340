import RegionBacking.Text.Scan

/-!
# Numbers of JSON text

A number without places and exponent is exact as long as it fits: a natural number into a word, a
negative one into a signed word. Every other number is a double: the digits are collected into a
significand as long as that is a word, further digits only move the exponent or are dropped, and the
significand is then multiplied or divided once by a power of ten. So the double is not always the
nearest one. A number that is too large for a double is malformed.
-/

namespace RegionBacking

/-- A number as it was read. -/
inductive Number where
  /-- A natural number that is a word. -/
  | natural (value : Nat)
  /-- The negative of a positive number that fits into a signed word. -/
  | negative (magnitude : Nat)
  /-- A double. -/
  | real (value : Float)

namespace Number

/-- The value of a digit. -/
def digit (c : Char) : Nat := Numeral.digitValue c

/-! ## Doubles -/

/-- The largest exponent of a power of ten that is a double. -/
def maxPower : Nat := 308

/-- The double that is nearest to a power of ten. -/
def power (exponent : Nat) : Float := Float.ofScientific 1 false exponent

/-- A double times a power of ten, or nothing where it is too large. Division by the largest power
comes before the rest of a smaller exponent; after two of them every significand is zero. -/
def scale? : Nat → Float → Int → Option Float
  | 0, x, _ => some x
  | steps + 1, x, exponent =>
    if exponent.natAbs ≤ maxPower then
      if 0 ≤ exponent then
        let y := x * power exponent.natAbs
        if y.isInf then none else some y
      else some (x / power exponent.natAbs)
    else if x == 0.0 then some x
    else if 0 ≤ exponent then none
    else scale? steps (x / power maxPower) (exponent + maxPower)

/-- The double of a significand and an exponent. -/
def real? (negative : Bool) (significand : Nat) (exponent : Int) : Option Number :=
  (scale? 8 (UInt64.ofNat significand).toFloat exponent).map fun x =>
    .real (if negative then -x else x)

/-! ## Exponents -/

/-- The largest exponent that counts as a number. -/
def maxExponent : Nat := (1 <<< 31) - 1

/-- The number behind the first digit of its exponent. An exponent that is too large makes the
number malformed or, where it is negative or the significand is zero, zero. -/
def exponentDigits? (negative : Bool) (significand : Nat) (start : Int) (up : Bool)
    (exponent : Nat) : List Char → Option (Number × List Char)
  | c :: rest =>
    if Numeral.isDigit c then
      if maxExponent < exponent * 10 + digit c then
        if up && significand != 0 then none
        else some (.real (if negative then -0.0 else 0.0), Scan.skipDigits rest)
      else exponentDigits? negative significand start up (exponent * 10 + digit c) rest
    else
      (real? negative significand (if up then start + exponent else start - exponent)).map
        fun number => (number, c :: rest)
  | [] =>
    (real? negative significand (if up then start + exponent else start - exponent)).map
      fun number => (number, [])

/-- The number behind the sign of its exponent. -/
def exponentValue? (negative : Bool) (significand : Nat) (start : Int) (up : Bool) :
    List Char → Option (Number × List Char)
  | c :: rest =>
    if Numeral.isDigit c then exponentDigits? negative significand start up (digit c) rest
    else none
  | [] => none

/-- The number behind the mark of its exponent. -/
def exponent? (negative : Bool) (significand : Nat) (start : Int) :
    List Char → Option (Number × List Char)
  | '+' :: rest => exponentValue? negative significand start true rest
  | '-' :: rest => exponentValue? negative significand start false rest
  | rest => exponentValue? negative significand start true rest

/-- The number behind its last digit. -/
def finish? (negative : Bool) (significand : Nat) (exponent : Int) :
    List Char → Option (Number × List Char)
  | 'e' :: rest => exponent? negative significand exponent rest
  | 'E' :: rest => exponent? negative significand exponent rest
  | rest => (real? negative significand exponent).map fun number => (number, rest)

/-! ## Digits -/

/-- The number behind its point, after `places` digits. -/
def places? (negative : Bool) (significand before places : Nat) :
    List Char → Option (Number × List Char)
  | c :: rest =>
    if Numeral.isDigit c then
      if significand * 10 + digit c < Word.limit then
        places? negative (significand * 10 + digit c) before (places + 1) rest
      else finish? negative significand ((before : Int) - places) (Scan.skipDigits rest)
    else if places = 0 then none
    else finish? negative significand ((before : Int) - places) (c :: rest)
  | [] =>
    if places = 0 then none else finish? negative significand ((before : Int) - places) []

/-- The number behind digits that did not fit into its significand. -/
def longDigits? (negative : Bool) (significand before : Nat) :
    List Char → Option (Number × List Char)
  | '.' :: rest => places? negative significand before 0 rest
  | c :: rest =>
    if Numeral.isDigit c then longDigits? negative significand (before + 1) rest
    else finish? negative significand before (c :: rest)
  | [] => finish? negative significand before []

/-- The magnitude of the least signed word. -/
def maxMagnitude : Nat := 1 <<< 63

/-- The exact number of a significand. A negative zero and a negative number that is too small are
doubles. -/
def exact (negative : Bool) (significand : Nat) : Number :=
  if !negative then .natural significand
  else if significand = 0 ∨ maxMagnitude < significand then
    .real (-(UInt64.ofNat significand).toFloat)
  else .negative significand

/-- The number behind its integer digits. -/
def afterInteger? (negative : Bool) (significand : Nat) :
    List Char → Option (Number × List Char)
  | '.' :: rest => places? negative significand 0 0 rest
  | 'e' :: rest => exponent? negative significand 0 rest
  | 'E' :: rest => exponent? negative significand 0 rest
  | rest => some (exact negative significand, rest)

/-- The number behind its first digits. -/
def integerDigits? (negative : Bool) (significand : Nat) :
    List Char → Option (Number × List Char)
  | c :: rest =>
    if Numeral.isDigit c then
      if significand * 10 + digit c < Word.limit then
        integerDigits? negative (significand * 10 + digit c) rest
      else longDigits? negative significand 1 rest
    else afterInteger? negative significand (c :: rest)
  | [] => afterInteger? negative significand []

/-- The number that a text without sign starts with. A zero at the start stands alone. -/
def unsigned? (negative : Bool) : List Char → Option (Number × List Char)
  | '0' :: rest =>
    match rest with
    | c :: _ => if Numeral.isDigit c then none else afterInteger? negative 0 rest
    | [] => afterInteger? negative 0 []
  | c :: rest =>
    if Numeral.isDigit c then integerDigits? negative (digit c) rest else none
  | [] => none

/-- Whether a number may start with a character. -/
def startsWith (c : Char) : Bool := c == '-' || Numeral.isDigit c

/-- The number that a text starts with. -/
def read? : List Char → Option (Number × List Char)
  | '-' :: rest => unsigned? true rest
  | rest => unsigned? false rest

end Number

end RegionBacking
