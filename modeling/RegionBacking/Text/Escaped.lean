import RegionBacking.Text.Unprintable

/-!
# Escaped text

A text in double quotes as a message shows it. Quotes, backslashes, the zero character and three
control characters are escaped by a backslash and a letter, characters without a form of their own
by their hexadecimal number in braces, and all other characters stand for themselves.
-/

namespace RegionBacking.Escaped

/-- What stands for a character between the quotes. -/
def escape (c : Char) : List Char :=
  if c = '\x00' then ['\\', '0']
  else if c = '\t' then ['\\', 't']
  else if c = '\r' then ['\\', 'r']
  else if c = '\n' then ['\\', 'n']
  else if c = '"' then ['\\', '"']
  else if c = '\\' then ['\\', '\\']
  else if isUnprintable c then
    '\\' :: 'u' :: '\x7b' :: Nat.toDigits 16 c.toNat ++ ['\x7d']
  else [c]

/-- A text in its quotes. -/
def encode (text : List Char) : List Char := '"' :: text.flatMap escape ++ ['"']

end RegionBacking.Escaped
