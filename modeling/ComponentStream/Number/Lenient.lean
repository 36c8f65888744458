import ComponentStream.Number.Literal
import ComponentStream.Text.Blank
import ComponentStream.Text.Case
import ComponentStream.Text.Digit

/-!
# Reading numbers from free text

People and environments write numbers more freely than JSON does: blanks around, a plus sign, leading zeros,
underscores that group digits, a point with digits on one side only, and the names of infinity.

* `double?` — the double that a text without blanks and underscores denotes; too great a value is an infinity;
* `float?` — a double with blanks around it, or with underscores inside but without blanks;
* `anyFloat?` — a double with blanks around it and underscores between digits, in digits of every script;
* `int?` — a whole number, which may have a fraction of zeros; `oversized` tells those that are too long to read.
-/

namespace ComponentStream.Number.Lenient

/-! ### Parts of a numeral -/

def sign : List Char → Bool × List Char
  | '-' :: cs => (true, cs)
  | '+' :: cs => (false, cs)
  | cs => (false, cs)

def digits (cs : List Char) : List Char × List Char := (cs.takeWhile Char.isDigit, cs.dropWhile Char.isDigit)

/-- The digits of a fraction, if a point comes first, and the rest. -/
def fraction : List Char → List Char × List Char
  | '.' :: cs => digits cs
  | cs => ([], cs)

/-- The value of an exponent that ends the text. -/
def exponent? : List Char → Option Int
  | [] => some 0
  | c :: cs =>
    if c = 'e' ∨ c = 'E' then
      let (negative, cs) := sign cs
      match digits cs with
      | ([], _) => none
      | (ds, []) => some (signed negative (natOfDigits ds))
      | _ => none
    else none

/-! ### Underscores -/

def doubled : List Char → Bool
  | '_' :: '_' :: _ => true
  | _ :: cs => doubled cs
  | [] => false

/-- A text without its underscores, each of which has to stand between two other characters. -/
def joined? (cs : List Char) : Option (List Char) :=
  if cs.head? = some '_' ∨ cs.getLast? = some '_' ∨ doubled cs then none
  else some (cs.filter (· ≠ '_'))

/-- Whether every underscore in a text that follows some character stands between two digits. -/
def groupsDigits (before : Char) : List Char → Bool
  | [] => before ≠ '_'
  | c :: cs =>
    (if c = '_' then before.isDigit else before ≠ '_' || c.isDigit) && groupsDigits c cs

/-- A text without its underscores, each of which has to stand between two digits. -/
def ungrouped? (cs : List Char) : Option (List Char) :=
  if groupsDigits ' ' cs then some (cs.filter (· ≠ '_')) else none

/-! ### Doubles -/

/-- The double that a text without a sign denotes. -/
def unsigned? (negative : Bool) (cs : List Char) : Option Float :=
  let lower := Text.lower (String.ofList cs)
  if lower = "inf" ∨ lower = "infinity" then some (infinity negative)
  else if lower = "nan" then some undefined
  else
    let (whole, cs) := digits cs
    let (part, cs) := fraction cs
    if whole = [] ∧ part = [] then none
    else
      match exponent? cs with
      | some e => some (ofDecimal negative (natOfDigits (whole ++ part)) (e - part.length))
      | none => none

/-- The double that a text denotes in which nothing stands but a numeral. -/
def double? (cs : List Char) : Option Float :=
  let (negative, cs) := sign cs
  unsigned? negative cs

/-- The double that a text denotes: a numeral with blanks around it, or one with underscores inside, around
which there are no blanks. -/
def float? (cs : List Char) : Option Float :=
  match double? (Text.trim cs) with
  | some x => some x
  | none => (joined? cs).bind double?

/-- A character as the number grammar knows it: digits of every script become ASCII digits, and every blank
becomes a space. -/
def plain (c : Char) : Char := if Text.isBlank c then ' ' else Text.toAsciiDigit c

/-- The double that a text in any script denotes: a numeral with blanks around it, in which underscores may
stand between digits. -/
def anyFloat? (cs : List Char) : Option Float :=
  (ungrouped? (cs.map plain)).bind fun cs => double? (Text.trim cs)

/-! ### Whole numbers -/

/-- The greatest number of characters that a whole number may have, its sign included. -/
def longest : Nat := 4300

def minus : List Char → Bool × List Char
  | '-' :: cs => (true, cs)
  | cs => (false, cs)

/-- The whole number that a text denotes in which nothing stands but a minus sign and digits, the first of which
is a zero only if it is the only one. -/
def whole? (cs : List Char) : Option Int :=
  let (negative, ds) := minus cs
  if ds ≠ [] ∧ ds.all Char.isDigit ∧ (ds.head? = some '0' → ds.length = 1) ∧ cs.length ≤ longest then
    some (signed negative (natOfDigits ds))
  else none

/-- A text without the plus sign at its front; a minus sign may not follow it. -/
def withoutPlus? : List Char → Option (List Char)
  | '+' :: '-' :: _ => none
  | '+' :: cs => some cs
  | cs => some cs

/-- What follows the zeros and underscores at the front of a text, the last of which is kept when a point or
nothing follows; `last` is the one before the text. -/
def afterZeros (last : Char) : List Char → List Char
  | [] => [last]
  | c :: cs =>
    if c = '0' ∨ c = '_' then afterZeros c cs
    else if c = '.' then last :: c :: cs
    else c :: cs

/-- A text without the zeros at its front, among which underscores may stand; a zero that is the whole part
is kept. -/
def withoutZeros : List Char → List Char
  | '0' :: cs => afterZeros '0' cs
  | cs => cs

/-- A text without its fraction, which goes only if it is made of zeros. -/
def withoutFraction (cs : List Char) : List Char :=
  match cs.dropWhile (· ≠ '.') with
  | _ :: zeros => if zeros ≠ [] ∧ zeros.all (· = '0') then cs.takeWhile (· ≠ '.') else cs
  | [] => cs

/-- The whole number that a text denotes. -/
def int? (cs : List Char) : Option Int := do
  let cs ← withoutPlus? (Text.trim cs)
  let cs ← joined? (withoutFraction (withoutZeros cs))
  whole? cs

/-- Whether a text begins with a whole number that is too long to read. -/
def oversized (cs : List Char) : Bool :=
  let (negative, rest) := minus cs
  let (ds, _) := digits rest
  ds.head? ≠ some '0' && decide (longest < ds.length + if negative then 1 else 0)

end ComponentStream.Number.Lenient
