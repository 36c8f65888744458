import ComponentStream.Json.Value
import ComponentStream.Number.Binary

/-!
# Values compared by content

Two values are *alike* when they hold the same content, whatever kind its numbers were sent as: `true`, `1` and
`1.0` are alike, and objects are alike when they have the same members in any order.
-/

namespace ComponentStream.Json

/-- The whole number that a boolean, a whole number or an integral double stands for. -/
def Value.wholeNumber? : Value → Option Int
  | .bool b => some (if b then 1 else 0)
  | .int n => some n
  | .float x => Number.integer? x
  | _ => none

/-- Whether two values without parts hold the same content. -/
def Value.alikeScalar (a b : Value) : Bool :=
  match a.wholeNumber?, b.wholeNumber? with
  | some m, some n => m == n
  | some _, none => false
  | none, some _ => false
  | none, none =>
    match a, b with
    | .null, .null => true
    | .str s, .str t => s == t
    | .float x, .float y => x == y
    | _, _ => false

mutual

/-- Whether two values hold the same content. -/
def Value.alike : Value → Value → Bool
  | .arr vs, .arr ws => alikeAll vs ws
  | .obj fields, .obj others => fields.length == others.length && alikeFields fields others
  | a, b => a.alikeScalar b

/-- Whether two lists hold the same content, item by item. -/
def Value.alikeAll : List Value → List Value → Bool
  | [], [] => true
  | v :: vs, w :: ws => v.alike w && alikeAll vs ws
  | _, _ => false

/-- Whether every member of a list is found in an object with the same content. -/
def Value.alikeFields : List (String × Value) → List (String × Value) → Bool
  | [], _ => true
  | (k, v) :: fields, others =>
    (match Assoc.get? k others with
     | some w => v.alike w
     | none => false) && alikeFields fields others

end

end ComponentStream.Json
