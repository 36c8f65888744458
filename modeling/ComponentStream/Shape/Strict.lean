import ComponentStream.Shape.Check

/-!
# Strict scalars

On the wire nothing is converted: a string is a string and a boolean a boolean.  The one exception is that a
double may be sent as a whole number, provided that it fits one.
-/

namespace ComponentStream.Shape.Strict

open Json (Value)

def string : Value → Check String
  | .str s => .ok s
  | _ => .fail .notString

def boolean : Value → Check Bool
  | .bool b => .ok b
  | _ => .fail .notBoolean

/-- A whole number of any size; a boolean is none. -/
def integer : Value → Check Int
  | .int n => .ok n
  | _ => .fail .notInteger

/-- A double, or a whole number that one can hold. -/
def number : Value → Check Float
  | .float x => .ok x
  | .int n =>
    match Number.ofInt? n with
    | some x => .ok x
    | none => .fail .notNumber
  | _ => .fail .notNumber

/-- An object with arbitrary members. -/
def dictionary : Value → Check (Assoc Value) := members .notDictionary

end ComponentStream.Shape.Strict
