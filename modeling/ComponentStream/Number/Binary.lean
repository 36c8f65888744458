/-!
# Doubles as exact numbers

A finite double is an integer times a power of two.  `view` takes a double apart into sign, mantissa and
exponent; everything that needs the exact value of a double — its decimal digits, truncation, rounding,
comparison with an integer — starts from this view and goes on in whole numbers.
-/

namespace ComponentStream.Number

/-- What a double denotes: `± mantissa · 2 ^ exponent`, an infinity, or no number. -/
inductive View where
  | finite (negative : Bool) (mantissa : Nat) (exponent : Int)
  | infinite (negative : Bool)
  | undefined
  deriving DecidableEq, Repr

/-- The sign bit, eleven bits of exponent and fifty-two bits of fraction; a fraction has a hidden leading bit
unless the exponent bits are all zero. -/
def view (x : Float) : View :=
  let bits := x.toBits.toNat
  let negative := decide (Nat.pow 2 63 ≤ bits)
  let exponent : Nat := bits / Nat.pow 2 52 % Nat.pow 2 11
  let fraction := bits % Nat.pow 2 52
  if exponent = 2047 then
    if fraction = 0 then .infinite negative else .undefined
  else if exponent = 0 then .finite negative fraction (-1074)
  else .finite negative (Nat.pow 2 52 + fraction) ((exponent : Int) - 1075)

def isFinite (x : Float) : Bool :=
  match view x with
  | .finite _ _ _ => true
  | _ => false

def signed (negative : Bool) (n : Nat) : Int := if negative then -n else n

/-- The integer part of a finite double, toward zero. -/
def truncate? (x : Float) : Option Int :=
  match view x with
  | .finite negative m e =>
    some (signed negative (if 0 ≤ e then m * Nat.pow 2 e.toNat else m / Nat.pow 2 (-e).toNat))
  | _ => none

/-- The quotient of two whole numbers rounded to the nearest one, a tie going to the even neighbour. -/
def roundDiv (n d : Nat) : Nat :=
  let q := n / d
  let r := n % d
  if 2 * r < d then q
  else if d < 2 * r then q + 1
  else if q % 2 = 0 then q else q + 1

/-- The integer nearest to a finite double, a tie going to the even neighbour. -/
def round? (x : Float) : Option Int :=
  match view x with
  | .finite negative m e =>
    some (signed negative (if 0 ≤ e then m * Nat.pow 2 e.toNat else roundDiv m (Nat.pow 2 (-e).toNat)))
  | _ => none

def integer? (x : Float) : Option Int :=
  match view x with
  | .finite negative m e =>
    if 0 ≤ e then some (signed negative (m * Nat.pow 2 e.toNat))
    else if m % Nat.pow 2 (-e).toNat = 0 then some (signed negative (m / Nat.pow 2 (-e).toNat))
    else none
  | _ => none

/-- The double nearest to an integer, if that is finite. -/
def ofInt? (n : Int) : Option Float :=
  let x := Float.ofInt n
  if isFinite x then some x else none

end ComponentStream.Number
