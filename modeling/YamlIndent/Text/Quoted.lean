import YamlIndent.Text.Printable

/-!
# Texts in quotes

A text is shown between single quotes, or between double quotes if it holds a single quote and no
double one. The quote in use and the backslash are escaped, and so is every character that is not
printable.

## Main definitions

* `hexText`: a number in hexadecimal with a least number of digits.
* `escapeChar`: a character as it is shown.
* `quoted`: a text as it is shown.
-/

namespace YamlIndent

/-- A number in hexadecimal, in lower case, with at least `width` digits. -/
def hexText (width n : Nat) : Text :=
  let digits := Nat.toDigits 16 n
  List.replicate (width - digits.length) '0' ++ digits

/-- A character as it is shown between some quotes. -/
def escapeChar (quote c : Char) : Text :=
  if c == quote || c == '\\' then ['\\', c]
  else if c == '\t' then ['\\', 't']
  else if c == '\n' then ['\\', 'n']
  else if c == '\r' then ['\\', 'r']
  else if isPrintable c then [c]
  else if c.toNat < 0x100 then '\\' :: 'x' :: hexText 2 c.toNat
  else if c.toNat < 0x10000 then '\\' :: 'u' :: hexText 4 c.toNat
  else '\\' :: 'U' :: hexText 8 c.toNat

/-- A text as it is shown. -/
def quoted (t : Text) : Text :=
  let quote := if t.contains '\'' && !t.contains '"' then '"' else '\''
  quote :: t.flatMap (escapeChar quote) ++ [quote]

end YamlIndent
