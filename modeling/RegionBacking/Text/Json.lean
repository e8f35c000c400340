import RegionBacking.Text.Quoted

/-!
# JSON values

The values that reports, events and settings are written as. The text is compact: no blanks, and
the fields of an object in the order in which they are given.
-/

namespace RegionBacking

/-- A JSON value. -/
inductive Json where
  | null
  | bool (value : Bool)
  /-- A number, by its text. -/
  | number (text : List Char)
  | string (text : List Char)
  | array (items : List Json)
  | object (fields : List (String × Json))

namespace Json

/-- A natural number. -/
def nat (n : Nat) : Json := number (Nat.toDigits 10 n)

/-- A text. -/
def text (s : String) : Json := string s.toList

mutual

/-- The characters of a value. -/
def chars : Json → List Char
  | null => ['n', 'u', 'l', 'l']
  | bool true => ['t', 'r', 'u', 'e']
  | bool false => ['f', 'a', 'l', 's', 'e']
  | number text => text
  | string text => Quoted.encode text
  | array items => '[' :: itemChars items ++ [']']
  | object fields => '\x7b' :: fieldChars fields ++ ['\x7d']

/-- The items of an array, with commas between them. -/
def itemChars : List Json → List Char
  | [] => []
  | [item] => item.chars
  | item :: rest => item.chars ++ ',' :: itemChars rest

/-- The fields of an object, with commas between them. -/
def fieldChars : List (String × Json) → List Char
  | [] => []
  | [(name, value)] => Quoted.encode name.toList ++ ':' :: value.chars
  | (name, value) :: rest =>
    Quoted.encode name.toList ++ ':' :: value.chars ++ ',' :: fieldChars rest

end

/-- The compact text of a value. -/
def compact (value : Json) : String := String.ofList value.chars

/-- An object with its fields sorted by name. -/
def sorted (fields : List (String × Json)) : Json :=
  object (fields.mergeSort fun a b => decide (a.1 ≤ b.1))

end Json

end RegionBacking
