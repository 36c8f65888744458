import ComponentStream.Text.Printable

/-!
# Quoted text

A string inside a printed list or mapping stands in quotes.  Single quotes are used unless the string holds
one and holds no double quote; the quote in use and the backslash are escaped, the three common blanks have
their short escapes, and every other unprintable character is written by its code point in two, four or
eight lower-case hexadecimal digits.
-/

namespace ComponentStream.Text

/-- The hexadecimal digit of a number below sixteen, in lower case. -/
def hexDigit (n : Nat) : Char :=
  if n < 10 then Char.ofNat (48 + n) else Char.ofNat (87 + n)

/-- The last `width` hexadecimal digits of a number. -/
def hexDigits : Nat → Nat → List Char
  | 0, _ => []
  | width + 1, n => hexDigits width (n / 16) ++ [hexDigit (n % 16)]

namespace Quoted

/-- The quote that a string is written with. -/
def quoteOf (cs : List Char) : Char :=
  if cs.contains '\'' && !cs.contains '"' then '"' else '\''

/-- A character between two quotes `q`. -/
def escape (q c : Char) : List Char :=
  if c = q ∨ c = '\\' then ['\\', c]
  else if c = '\n' then ['\\', 'n']
  else if c = '\r' then ['\\', 'r']
  else if c = '\t' then ['\\', 't']
  else if isPrintable c then [c]
  else if c.toNat < 0x100 then '\\' :: 'x' :: hexDigits 2 c.toNat
  else if c.toNat < 0x10000 then '\\' :: 'u' :: hexDigits 4 c.toNat
  else '\\' :: 'U' :: hexDigits 8 c.toNat

def quote (cs : List Char) : List Char :=
  quoteOf cs :: (cs.flatMap (escape (quoteOf cs)) ++ [quoteOf cs])

end Quoted

end ComponentStream.Text
