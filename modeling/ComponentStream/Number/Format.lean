import ComponentStream.Number.Shortest

/-!
# Writing doubles

Every text of a double shows its shortest digits; the formats differ in where fixed notation ends and in how
an exponent looks.  A `Format` is a record of these decisions and `Format.write` the one printer; the module
that owns an output owns its format.
-/

namespace ComponentStream.Number

/-- How a format writes doubles. -/
structure Format where
  /-- The least decimal exponent written in fixed notation. -/
  fixedFrom : Int
  /-- The greatest decimal exponent written in fixed notation. -/
  fixedTo : Int
  /-- Whether a positive exponent has a plus sign. -/
  plus : Bool
  /-- The least number of digits of an exponent. -/
  exponentWidth : Nat
  /-- The text of positive infinity. -/
  infinity : String
  /-- The text of a value that is no number. -/
  undefined : String

/-- A digit string in fixed notation, with at least one digit on either side of the point. -/
def fixedText (d : Decimal) : List Char :=
  let size := d.digits.length
  if d.point ≤ 0 then '0' :: '.' :: (List.replicate (-d.point).toNat '0' ++ d.digits)
  else if (size : Int) ≤ d.point then d.digits ++ List.replicate (d.point.toNat - size) '0' ++ ['.', '0']
  else d.digits.take d.point.toNat ++ '.' :: d.digits.drop d.point.toNat

def padLeft (width : Nat) (ds : List Char) : List Char :=
  List.replicate (width - ds.length) '0' ++ ds

/-- A digit string with an exponent: one digit, a point only before further digits, `e`, and the exponent. -/
def Format.exponentText (f : Format) (d : Decimal) : List Char :=
  let exponent := d.point - 1
  let mantissa := match d.digits with
    | [] => []
    | [c] => [c]
    | c :: cs => c :: '.' :: cs
  let sign := if exponent < 0 then ['-'] else if f.plus then ['+'] else []
  mantissa ++ 'e' :: (sign ++ padLeft f.exponentWidth (Nat.toDigits 10 exponent.natAbs))

def Format.decimalText (f : Format) (d : Decimal) : List Char :=
  if f.fixedFrom ≤ d.point - 1 ∧ d.point - 1 ≤ f.fixedTo then fixedText d else f.exponentText d

def Format.write (f : Format) (x : Float) : List Char :=
  match view x with
  | .finite negative m e =>
    let text := f.decimalText (shortest m e)
    if negative then '-' :: text else text
  | .infinite negative => if negative then '-' :: f.infinity.toList else f.infinity.toList
  | .undefined => f.undefined.toList

end ComponentStream.Number
