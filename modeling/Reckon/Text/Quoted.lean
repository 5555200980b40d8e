import Reckon.Text.Printable

/-!
# Quoted texts

`quote` writes a text between quotes so that its end is seen and every character of it can be told:
the quote itself and the backslash are escaped, line ends and tabs have names, and what is not
printable is given by its code point.  The quotes are single, unless the text holds a single quote
and no double one.
-/

namespace Reckon.Text

/-- `n` in lower case hexadecimal, with leading zeros up to `width` digits. -/
def hex (width n : Nat) : List Char :=
  let ds := Nat.toDigits 16 n
  List.replicate (width - ds.length) '0' ++ ds

/-- The escape of a character by its code point, the shortest of three forms. -/
def codeEscape (c : Char) : List Char :=
  if c.toNat < 0x100 then '\\' :: 'x' :: hex 2 c.toNat
  else if c.toNat < 0x10000 then '\\' :: 'u' :: hex 4 c.toNat
  else '\\' :: 'U' :: hex 8 c.toNat

/-- How a character is written between two `mark`s. -/
def quoteChar (mark c : Char) : List Char :=
  if c == mark || c == '\\' then ['\\', c]
  else if c == '\n' then ['\\', 'n']
  else if c == '\r' then ['\\', 'r']
  else if c == '\t' then ['\\', 't']
  else if isPrintable c then [c]
  else codeEscape c

/-- The quote to put around a text. -/
def quoteMark (cs : List Char) : Char :=
  if cs.contains '\'' && !cs.contains '"' then '"' else '\''

/-- The text between quotes, escaped. -/
def quoteChars (cs : List Char) : List Char :=
  let mark := quoteMark cs
  mark :: (cs.flatMap (quoteChar mark) ++ [mark])

/-- The text between quotes, escaped. -/
def quote (s : String) : String :=
  String.ofList (quoteChars s.toList)

end Reckon.Text
