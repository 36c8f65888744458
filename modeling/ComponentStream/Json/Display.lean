import ComponentStream.Json.Writer

/-!
# Showing values as text

Components and messages show values to people: a string shows as itself, and everything else as a literal —
`None`, `True`, numbers, `[…]` and `{…}` with strings in quotes inside.

* `Value.literal` — the literal of a value, strings quoted;
* `Value.display` — the same, except that a string at the top stands as it is;
* `Value.display?` — the same once more, for callers that have to know whether a value can be shown at all.
-/

namespace ComponentStream.Json

/-- Doubles with decimal exponents from -4 to 15 are shown in fixed notation, the others with a sign and at
least two digits in the exponent. -/
def displayFormat : Number.Format :=
  { fixedFrom := -4, fixedTo := 15, plus := true, exponentWidth := 2, infinity := "inf", undefined := "nan" }

/-- The text of a double in displayed values. -/
def displayFloat (x : Float) : String := String.ofList (displayFormat.write x)

def displayQuoted (s : String) : List Char := Text.Quoted.quote s.toList

mutual

def Value.literal : Value → List Char
  | .null => "None".toList
  | .bool true => "True".toList
  | .bool false => "False".toList
  | .int n => intChars n
  | .float x => displayFormat.write x
  | .str s => displayQuoted s
  | .arr [] => "[]".toList
  | .arr (v :: vs) => '[' :: (v.literal ++ literalTail vs)
  | .obj [] => ['\x7b', '\x7d']
  | .obj ((k, v) :: fields) => '\x7b' :: (displayQuoted k ++ ':' :: ' ' :: (v.literal ++ literalFieldsTail fields))

/-- The later elements of a list, each after a comma and a blank, and the closing bracket. -/
def Value.literalTail : List Value → List Char
  | [] => [']']
  | v :: vs => ',' :: ' ' :: (v.literal ++ literalTail vs)

/-- The later entries of a mapping, each after a comma and a blank, and the closing brace. -/
def Value.literalFieldsTail : List (String × Value) → List Char
  | [] => ['\x7d']
  | (k, v) :: fields =>
    ',' :: ' ' :: (displayQuoted k ++ ':' :: ' ' :: (v.literal ++ literalFieldsTail fields))

end

/-- The text that a value shows as. -/
def Value.display : Value → String
  | .str s => s
  | v => String.ofList v.literal

/-- The greatest number of digits that a whole number is shown with. -/
def mostDigits : Nat := 4300

mutual

/-- Whether a value can be shown: a whole number with more digits than that is refused, wherever it is. -/
def Value.isShowable : Value → Bool
  | .int n => decide ((Nat.toDigits 10 n.natAbs).length ≤ mostDigits)
  | .arr vs => allShowable vs
  | .obj fields => fieldsShowable fields
  | _ => true

def Value.allShowable : List Value → Bool
  | [] => true
  | v :: vs => v.isShowable && allShowable vs

def Value.fieldsShowable : List (String × Value) → Bool
  | [] => true
  | (_, v) :: fields => v.isShowable && fieldsShowable fields

end

/-- The text that a value shows as, if it can be shown. -/
def Value.display? (v : Value) : Option String := if v.isShowable then some v.display else none

def Value.kindName : Value → String
  | .null => "NoneType"
  | .bool _ => "bool"
  | .int _ => "int"
  | .float _ => "float"
  | .str _ => "str"
  | .arr _ => "list"
  | .obj _ => "dict"

/-- Whether a value counts as true: null, false, zero and everything empty do not. -/
def Value.truthy : Value → Bool
  | .null => false
  | .bool b => b
  | .int n => n != 0
  | .float x => !(x == 0)
  | .str s => s != ""
  | .arr vs => !vs.isEmpty
  | .obj fields => !fields.isEmpty

end ComponentStream.Json
