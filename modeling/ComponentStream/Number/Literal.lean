import ComponentStream.Number.Binary

/-!
# Reading decimal numbers

A decimal literal is a digit string times a power of ten.  Its double is the one nearest to that exact value,
ties going to the even mantissa; a value beyond the greatest double gives an infinity, and one below half the
least double gives zero.
-/

namespace ComponentStream.Number

def digitValue (c : Char) : Nat := c.toNat - 48

def natOfDigits (ds : List Char) : Nat :=
  ds.foldl (fun n c => 10 * n + digitValue c) 0

def infinity (negative : Bool) : Float := if negative then -(1.0 / 0.0) else 1.0 / 0.0

def undefined : Float := 0.0 / 0.0

/-- The double nearest to `± m · 10 ^ e`. -/
def ofDecimal (negative : Bool) (m : Nat) (e : Int) : Float :=
  let x := if 0 ≤ e then Float.ofScientific m false e.toNat else Float.ofScientific m true (-e).toNat
  if negative then -x else x

end ComponentStream.Number
