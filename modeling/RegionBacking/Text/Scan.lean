import RegionBacking.Text.Numeral

/-!
# Scanning JSON text

The scanners of this module take the characters of a text and give what they found together with the
characters behind it, or nothing where the text is malformed. Some only skip: they test the grammar
and drop what they read, so they accept an escape of half a surrogate pair, which stands for no
character.
-/

namespace RegionBacking.Scan

/-! ## Blanks and words -/

/-- Whether a character may stand between the parts of a value. -/
def isSpace (c : Char) : Bool := c == ' ' || c == '\n' || c == '\t' || c == '\r'

/-- The text without the blanks at its start. -/
def skipSpaces (text : List Char) : List Char := text.dropWhile isSpace

/-- The text behind a word that it starts with. -/
def after? : List Char → List Char → Option (List Char)
  | [], text => some text
  | c :: word, d :: text => if c = d then after? word text else none
  | _ :: _, [] => none

/-! ## Strings -/

/-- The value of a hexadecimal digit. -/
def hexValue? (c : Char) : Option Nat :=
  if '0' ≤ c ∧ c ≤ '9' then some (c.toNat - '0'.toNat)
  else if 'a' ≤ c ∧ c ≤ 'f' then some (c.toNat - 'a'.toNat + 10)
  else if 'A' ≤ c ∧ c ≤ 'F' then some (c.toNat - 'A'.toNat + 10)
  else none

/-- The value of four hexadecimal digits. -/
def hexUnit? (a b c d : Char) : Option Nat := do
  let a ← hexValue? a
  let b ← hexValue? b
  let c ← hexValue? c
  let d ← hexValue? d
  pure (((a * 16 + b) * 16 + c) * 16 + d)

/-- What the letter behind a backslash stands for, the letter `u` apart. -/
def letterEscape? : Char → Option Char
  | '"' => some '"'
  | '\\' => some '\\'
  | '/' => some '/'
  | 'b' => some '\x08'
  | 'f' => some '\x0c'
  | 'n' => some '\n'
  | 'r' => some '\r'
  | 't' => some '\t'
  | _ => none

/-- Whether a unit is the first of a surrogate pair. -/
def isHighSurrogate (unit : Nat) : Bool := decide (0xd800 ≤ unit ∧ unit ≤ 0xdbff)

/-- Whether a unit is the second of a surrogate pair. -/
def isLowSurrogate (unit : Nat) : Bool := decide (0xdc00 ≤ unit ∧ unit ≤ 0xdfff)

/-- The character of a surrogate pair. -/
def ofSurrogates (high low : Nat) : Char :=
  Char.ofNat (0x10000 + (high - 0xd800) * 0x400 + (low - 0xdc00))

/-- The characters of a string up to its closing quote. A unit of a surrogate pair has to stand
beside the other one. -/
def string? : List Char → Option (List Char × List Char)
  | '"' :: rest => some ([], rest)
  | '\\' :: 'u' :: a :: b :: c :: d :: '\\' :: 'u' :: a' :: b' :: c' :: d' :: rest =>
    match hexUnit? a b c d with
    | none => none
    | some unit =>
      if isHighSurrogate unit then
        match hexUnit? a' b' c' d' with
        | none => none
        | some low =>
          if isLowSurrogate low then
            (string? rest).map fun (text, behind) => (ofSurrogates unit low :: text, behind)
          else none
      else if isLowSurrogate unit then none
      else
        (string? ('\\' :: 'u' :: a' :: b' :: c' :: d' :: rest)).map fun (text, behind) =>
          (Char.ofNat unit :: text, behind)
  | '\\' :: 'u' :: a :: b :: c :: d :: rest =>
    match hexUnit? a b c d with
    | none => none
    | some unit =>
      if isHighSurrogate unit || isLowSurrogate unit then none
      else (string? rest).map fun (text, behind) => (Char.ofNat unit :: text, behind)
  | '\\' :: c :: rest =>
    match letterEscape? c with
    | none => none
    | some d => (string? rest).map fun (text, behind) => (d :: text, behind)
  | c :: rest =>
    if c = '\\' ∨ c.toNat < 32 then none
    else (string? rest).map fun (text, behind) => (c :: text, behind)
  | [] => none

/-- The text behind the closing quote of a string. -/
def skipString? : List Char → Option (List Char)
  | '"' :: rest => some rest
  | '\\' :: 'u' :: a :: b :: c :: d :: rest =>
    if (hexUnit? a b c d).isSome then skipString? rest else none
  | '\\' :: c :: rest => if (letterEscape? c).isSome then skipString? rest else none
  | c :: rest => if c = '\\' ∨ c.toNat < 32 then none else skipString? rest
  | [] => none

/-! ## Numbers -/

/-- The text behind a row of digits. -/
def skipDigits (text : List Char) : List Char := text.dropWhile Numeral.isDigit

/-- The text behind a row of at least one digit. -/
def skipSomeDigits? : List Char → Option (List Char)
  | c :: rest => if Numeral.isDigit c then some (skipDigits rest) else none
  | [] => none

/-- The text behind the digits of an exponent and their sign. -/
def skipExponent? : List Char → Option (List Char)
  | '+' :: rest => skipSomeDigits? rest
  | '-' :: rest => skipSomeDigits? rest
  | rest => skipSomeDigits? rest

/-- The text behind the exponent of a number, if it has one. -/
def skipScale? : List Char → Option (List Char)
  | 'e' :: rest => skipExponent? rest
  | 'E' :: rest => skipExponent? rest
  | rest => some rest

/-- The text behind the places and the exponent of a number. -/
def skipFraction? : List Char → Option (List Char)
  | '.' :: rest => (skipSomeDigits? rest).bind skipScale?
  | rest => skipScale? rest

/-- The text behind a number without sign. A zero at the start stands alone. -/
def skipNumber? : List Char → Option (List Char)
  | '0' :: rest =>
    match rest with
    | c :: _ => if Numeral.isDigit c then none else skipFraction? rest
    | [] => some []
  | rest => (skipSomeDigits? rest).bind skipFraction?

/-! ## Values -/

mutual

/-- The text behind a value, whatever it is. The fuel bounds its depth and its length. -/
def skipValue? : Nat → List Char → Option (List Char)
  | 0, _ => none
  | fuel + 1, text =>
    match skipSpaces text with
    | '"' :: rest => skipString? rest
    | '[' :: rest =>
      match skipSpaces rest with
      | ']' :: rest => some rest
      | rest => skipItems? fuel rest
    | '\x7b' :: rest =>
      match skipSpaces rest with
      | '\x7d' :: rest => some rest
      | rest => skipFields? fuel rest
    | 'n' :: rest => after? ['u', 'l', 'l'] rest
    | 't' :: rest => after? ['r', 'u', 'e'] rest
    | 'f' :: rest => after? ['a', 'l', 's', 'e'] rest
    | '-' :: rest => skipNumber? rest
    | rest => skipNumber? rest

/-- The text behind the items of an array and its bracket. -/
def skipItems? : Nat → List Char → Option (List Char)
  | 0, _ => none
  | fuel + 1, text =>
    match skipValue? fuel text with
    | none => none
    | some rest =>
      match skipSpaces rest with
      | ',' :: rest => skipItems? fuel rest
      | ']' :: rest => some rest
      | _ => none

/-- The text behind the fields of an object and its brace. -/
def skipFields? : Nat → List Char → Option (List Char)
  | 0, _ => none
  | fuel + 1, text =>
    match skipSpaces text with
    | '"' :: rest =>
      match (skipString? rest).map skipSpaces with
      | some (':' :: rest) =>
        match skipValue? fuel rest with
        | none => none
        | some rest =>
          match skipSpaces rest with
          | ',' :: rest => skipFields? fuel rest
          | '\x7d' :: rest => some rest
          | _ => none
      | _ => none
    | _ => none

end

end RegionBacking.Scan
