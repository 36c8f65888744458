import ComponentStream.Assoc

/-!
# JSON values

Whole numbers and doubles are kept apart, as the text keeps them apart: `1` is a whole number of any size and
`1.0` a double.  Objects keep their members in the order in which their names first appeared.
-/

namespace ComponentStream.Json

/-- A decoded JSON value. -/
inductive Value where
  | null
  | bool (b : Bool)
  | int (n : Int)
  | float (x : Float)
  | str (s : String)
  | arr (items : List Value)
  | obj (fields : List (String × Value))
  deriving Inhabited

namespace Value

/-- The member of an object under a name. -/
def field? (name : String) : Value → Option Value
  | .obj fields => Assoc.get? name fields
  | _ => none

end Value

end ComponentStream.Json
