import RegionBacking.Word

/-!
# Numerals

A numeral is an optional plus sign and at least one of the ten ASCII digits. It stands for a word;
a numeral whose value is no word stands for nothing.
-/

namespace RegionBacking.Numeral

/-- Whether a character is one of the ten digits. -/
def isDigit (c : Char) : Bool := decide ('0' ≤ c ∧ c ≤ '9')

/-- The value of a digit. -/
def digitValue (c : Char) : Nat := c.toNat - '0'.toNat

/-- The value of a row of digits behind digits of the value `start`. -/
def value (start : Nat) (digits : List Char) : Nat :=
  digits.foldl (fun n c => n * 10 + digitValue c) start

/-- The value of a row of digits behind digits of the value `start`, as long as it is a word. -/
def word? (start : Nat) : List Char → Option Nat
  | [] => some start
  | c :: rest =>
    if start * 10 + digitValue c < Word.limit then word? (start * 10 + digitValue c) rest else none

/-- The value of a row of digits that is not empty and whose value is a word. -/
def ofDigits? (digits : List Char) : Option Nat :=
  if digits.isEmpty || !digits.all isDigit then none else word? 0 digits

/-- The word that a text stands for. -/
def parse? : List Char → Option Nat
  | '+' :: digits => ofDigits? digits
  | digits => ofDigits? digits

/-! ## The value of a numeral -/

theorem le_value (start : Nat) (digits : List Char) : start ≤ value start digits := by
  induction digits generalizing start with
  | nil => exact Nat.le_refl start
  | cons c rest ih =>
    calc start ≤ start * 10 + digitValue c := by omega
      _ ≤ value (start * 10 + digitValue c) rest := ih _

/-- Digits have a value exactly where it is a word: a row of digits never becomes smaller by one
more digit. -/
theorem word?_eq (start : Nat) (digits : List Char) (h : start < Word.limit) :
    word? start digits =
      if value start digits < Word.limit then some (value start digits) else none := by
  induction digits generalizing start with
  | nil => simp [word?, value, h]
  | cons c rest ih =>
    have step : value start (c :: rest) = value (start * 10 + digitValue c) rest := rfl
    rw [word?, step]
    split
    · next inside => exact ih _ inside
    · next outside =>
      have := le_value (start * 10 + digitValue c) rest
      rw [if_neg (by omega)]

end RegionBacking.Numeral
