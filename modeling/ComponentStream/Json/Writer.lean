import ComponentStream.Json.Value
import ComponentStream.Number.Format
import ComponentStream.Text.Quoted
import ComponentStream.Text.Utf8

/-!
# Writing JSON

The compact form of a value has no blanks, keeps the order of object members, leaves every character from
U+0020 on as it is (quote and backslash apart) and ends a double with a fraction or an exponent, so that it is
read back as a double.

There are two number formats.  A value all of whose whole numbers fit 64 bits is written with a plus sign on
positive exponents; one number outside that range, or more than 254 levels of nesting, anywhere in a value
drops the plus sign throughout.

* `Value.chars` — the text of a value in a given number format;
* `Value.compact`, `Value.encode`, `Value.size` — the chosen text, its bytes, and their number.
-/

namespace ComponentStream.Json

open Number (Format)

/-! ### Strings and numbers -/

/-- A character inside a string: seven short escapes, the other controls by code point, the rest as they
are. -/
def escape (c : Char) : List Char :=
  if c = '"' ∨ c = '\\' then ['\\', c]
  else if c = '\x08' then ['\\', 'b']
  else if c = '\x0c' then ['\\', 'f']
  else if c = '\n' then ['\\', 'n']
  else if c = '\r' then ['\\', 'r']
  else if c = '\t' then ['\\', 't']
  else if c.toNat < 0x20 then '\\' :: 'u' :: Text.hexDigits 4 c.toNat
  else [c]

def stringChars (s : String) : List Char := '"' :: (s.toList.flatMap escape ++ ['"'])

def intChars (n : Int) : List Char :=
  if n < 0 then '-' :: Nat.toDigits 10 n.natAbs else Nat.toDigits 10 n.natAbs

/-- Doubles with decimal exponents from -5 to 15 are written in fixed notation, the others with a bare
exponent and a plus sign. -/
def usualFormat : Format :=
  { fixedFrom := -5, fixedTo := 15, plus := true, exponentWidth := 1, infinity := "null", undefined := "null" }

/-- The same without the plus sign. -/
def wideFormat : Format := { usualFormat with plus := false }

/-! ### Values -/

mutual

def Value.chars (f : Format) : Value → List Char
  | .null => ['n', 'u', 'l', 'l']
  | .bool true => ['t', 'r', 'u', 'e']
  | .bool false => ['f', 'a', 'l', 's', 'e']
  | .int n => intChars n
  | .float x => f.write x
  | .str s => stringChars s
  | .arr [] => ['[', ']']
  | .arr (v :: vs) => '[' :: (v.chars f ++ tailChars f vs)
  | .obj [] => ['{', '}']
  | .obj ((k, v) :: fields) => '{' :: (stringChars k ++ ':' :: (v.chars f ++ fieldsTailChars f fields))

/-- The later elements of an array, each after a comma, and the closing bracket. -/
def Value.tailChars (f : Format) : List Value → List Char
  | [] => [']']
  | v :: vs => ',' :: (v.chars f ++ tailChars f vs)

/-- The later members of an object, each after a comma, and the closing brace. -/
def Value.fieldsTailChars (f : Format) : List (String × Value) → List Char
  | [] => ['}']
  | (k, v) :: fields => ',' :: (stringChars k ++ ':' :: (v.chars f ++ fieldsTailChars f fields))

end

mutual

/-- Whether every whole number in a value lies between -2⁶³ and 2⁶⁴ - 1. -/
def Value.fits64 : Value → Bool
  | .int n => decide (-Int.pow 2 63 ≤ n ∧ n < Int.pow 2 64)
  | .arr vs => allFit64 vs
  | .obj fields => fieldsFit64 fields
  | _ => true

def Value.allFit64 : List Value → Bool
  | [] => true
  | v :: vs => v.fits64 && allFit64 vs

def Value.fieldsFit64 : List (String × Value) → Bool
  | [] => true
  | (_, v) :: fields => v.fits64 && fieldsFit64 fields

end

mutual

/-- The number of arrays and objects around the innermost value. -/
def Value.nesting : Value → Nat
  | .arr vs => nestingAll vs + 1
  | .obj fields => nestingFields fields + 1
  | _ => 0

def Value.nestingAll : List Value → Nat
  | [] => 0
  | v :: vs => max v.nesting (nestingAll vs)

def Value.nestingFields : List (String × Value) → Nat
  | [] => 0
  | (_, v) :: fields => max v.nesting (nestingFields fields)

end

def Value.format (v : Value) : Format :=
  if v.fits64 && v.nesting ≤ 254 then usualFormat else wideFormat

def Value.compact (v : Value) : List Char := v.chars v.format

def Value.encode (v : Value) : List UInt8 := Text.Utf8.encode v.compact

def Value.size (v : Value) : Nat := v.encode.length

end ComponentStream.Json
