/-!
# Quoted text

A text in double quotes, as JSON writes it. Quotes and backslashes are escaped by a backslash, the
five control characters that have a letter of their own by that letter, and all other characters
below the blank by `\u` and four hexadecimal digits. Every other character stands for itself.
-/

namespace RegionBacking.Quoted

/-- A hexadecimal digit in lower case. -/
def hexDigit (n : Nat) : Char :=
  if n < 10 then Char.ofNat ('0'.toNat + n) else Char.ofNat ('a'.toNat + (n - 10))

/-- What stands for a character between the quotes. -/
def escape (c : Char) : List Char :=
  if c = '"' then ['\\', '"']
  else if c = '\\' then ['\\', '\\']
  else if c = '\x08' then ['\\', 'b']
  else if c = '\x0c' then ['\\', 'f']
  else if c = '\n' then ['\\', 'n']
  else if c = '\r' then ['\\', 'r']
  else if c = '\t' then ['\\', 't']
  else if c.toNat < 32 then
    ['\\', 'u', '0', '0', hexDigit (c.toNat / 16), hexDigit (c.toNat % 16)]
  else [c]

/-- A text in its quotes. -/
def encode (text : List Char) : List Char := '"' :: text.flatMap escape ++ ['"']

end RegionBacking.Quoted
