import ComponentStream.Number.Lenient
import ComponentStream.Shape.Check
import ComponentStream.Text.Case

/-!
# Lenient scalars

Component properties and settings come from hands that do not always get a type right, so close relatives are
converted: words and the numbers zero and one to booleans, numerals to numbers, integral doubles to whole
numbers.  A converted value is a fixed point: read again, it stays what it is.
-/

namespace ComponentStream.Shape.Lenient

open Json (Value)

def falseWords : List String := ["0", "off", "f", "false", "n", "no"]

def trueWords : List String := ["1", "on", "t", "true", "y", "yes"]

/-- A string is never converted. -/
def string : Value → Check String
  | .str s => .ok s
  | _ => .fail .notString

/-- Whether a whole number fits 64 bits with a sign. -/
def fits64 (n : Int) : Bool := decide (-Int.pow 2 63 ≤ n ∧ n < Int.pow 2 63)

/-- The whole number that an integral double stands for: it has to lie strictly between the ends of 64 bits. -/
def within64? (n : Int) : Option Int := if -Int.pow 2 63 < n ∧ n < Int.pow 2 63 then some n else none

/-- Zero and one as truth values. -/
def booleanOfInt (n : Int) : Check Bool :=
  if n = 0 then .ok false else if n = 1 then .ok true else .fail .unreadableBoolean

/-- A boolean, zero or one as a number of either kind, or a word in any ASCII case. -/
def boolean : Value → Check Bool
  | .bool b => .ok b
  | .int n => if fits64 n then booleanOfInt n else .fail .notBoolean
  | .float x =>
    match (Number.integer? x).bind within64? with
    | some n => booleanOfInt n
    | none => .fail .notBoolean
  | .str s =>
    let word := Text.lower s
    if word ∈ falseWords then .ok false
    else if word ∈ trueWords then .ok true
    else .fail .unreadableBoolean
  | _ => .fail .notBoolean

/-- A double, a whole number that one can hold, a boolean, or a numeral. -/
def number : Value → Check Float
  | .float x => .ok x
  | .int n =>
    match Number.ofInt? n with
    | some x => .ok x
    | none => .fail .notNumber
  | .bool b => .ok (if b then 1 else 0)
  | .str s =>
    match Number.Lenient.float? s.toList with
    | some x => .ok x
    | none => .fail .unreadableNumber
  | _ => .fail .notNumber

/-- A whole number, a boolean, an integral double within 64 bits, or a numeral. -/
def integer : Value → Check Int
  | .int n => .ok n
  | .bool b => .ok (if b then 1 else 0)
  | .float x =>
    match Number.integer? x with
    | none => .fail .fractional
    | some n =>
      match within64? n with
      | some n => .ok n
      | none => .fail .oversized
  | .str s =>
    if Number.Lenient.oversized s.toList then .fail .oversized
    else
      match Number.Lenient.int? s.toList with
      | some n => .ok n
      | none => .fail .unreadableInteger
  | _ => .fail .notInteger

/-- A whole number above zero. -/
def positiveInteger (v : Value) : Check Nat :=
  (integer v).andThen fun n => if 0 < n then .ok n.toNat else .fail .notPositive

/-- A double above zero. -/
def positiveNumber (v : Value) : Check Float :=
  (number v).andThen fun x => if 0 < x then .ok x else .fail .notPositive

/-- A list of strings; `m` is said of anything but a list. -/
def strings (m : Mismatch) : Value → Check (List String)
  | .arr vs => items string 0 vs
  | _ => .fail m

end ComponentStream.Shape.Lenient
