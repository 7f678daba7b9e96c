import Famicom.Text.Printable

/-! # Quoted text

A message that names a piece of text quotes it, so that blanks and invisible characters can be
seen.  The quotes are single, or double where the text has single quotes and no double ones.  A
backslash and the quote in use are escaped by a backslash, and so are tab, line feed and carriage
return, by their letters; any other character that is not printable is written by its code point
in two, four or eight digits of base sixteen, the fewest that hold it. -/

namespace Famicom.Text

/-- The quote for a text. -/
def quoteFor (cs : List Char) : Char :=
  if cs.contains '\'' && !cs.contains '"' then '"' else '\''

/-- The `width` last digits of `n` in base sixteen, in lower case. -/
def lowerHex (width n : Nat) : List Char :=
  match width with
  | 0 => []
  | width + 1 => lowerHex width (n / 16) ++ [Nat.digitChar (n % 16)]

/-- A character as it stands between quotes of the given kind. -/
def escape (quote c : Char) : List Char :=
  if c = quote || c = '\\' then ['\\', c]
  else if c = '\t' then ['\\', 't']
  else if c = '\n' then ['\\', 'n']
  else if c = '\r' then ['\\', 'r']
  else if isPrintable c then [c]
  else if c.toNat < 0x100 then '\\' :: 'x' :: lowerHex 2 c.toNat
  else if c.toNat < 0x10000 then '\\' :: 'u' :: lowerHex 4 c.toNat
  else '\\' :: 'U' :: lowerHex 8 c.toNat

/-- The text between quotes. -/
def quoted (cs : List Char) : List Char :=
  let quote := quoteFor cs
  quote :: cs.flatMap (escape quote) ++ [quote]

end Famicom.Text
