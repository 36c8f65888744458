import ComponentStream.Json.Display

/-!
# Checking the shape of values

A check of a JSON value against an expected shape yields a typed value or *every* fault in it.  A fault says
where it is and what is wrong; the faults of a record come in the order in which its fields are declared, and
those of a list in the order of its items.

* `Path` — the way from the checked value to a part of it;
* `Mismatch` — what can be wrong with a part, and `Mismatch.message`, its wording;
* `Check` — a typed value or a list of faults, with `Check.both` to collect the faults of two checks;
* `required`, `optional`, `items`, `list` — the fields of a record and the items of a list.
-/

namespace ComponentStream.Shape

open Json (Value)

/-! ### Where and what -/

/-- A step into a value: to a member of an object or to an item of an array. -/
inductive Segment where
  | key (name : String)
  | index (n : Nat)
  deriving DecidableEq, Repr

/-- The way from a value to a part of it. -/
abbrev Path := List Segment

def Segment.text : Segment → String
  | .key name => name
  | .index n => String.ofList (Nat.toDigits 10 n)

def Path.joined (p : Path) : String := ".".intercalate (p.map Segment.text)

/-- The text of a path: its steps joined by points, or the root where that leaves nothing to read. -/
def Path.text (p : Path) : String := if p.joined = "" then "root" else p.joined

/-- What is wrong with a value. -/
inductive Mismatch where
  /-- A field that has to be there is not. -/
  | missing
  /-- A field that no shape declares. -/
  | extra
  | notString | notInteger | notNumber | notBoolean | notList | notSet | notDictionary
  /-- Anything but an object in the place of a record. -/
  | notRecord (model : String)
  /-- Anything at all that stands deeper in records of one kind than these are followed. -/
  | tooNested
  /-- Anything but an object in the place of a tagged record. -/
  | notFields
  /-- None of the choices, each given as it is written. -/
  | notOneOf (choices : List String)
  /-- A string or number that stands for neither truth value. -/
  | unreadableBoolean
  /-- A string that denotes no number. -/
  | unreadableNumber
  /-- A string that denotes no whole number. -/
  | unreadableInteger
  /-- A number with a fraction in the place of a whole number. -/
  | fractional
  /-- A whole number beyond 64 bits where only those are read. -/
  | oversized
  | notPositive
  /-- A message without a tag. -/
  | untagged
  /-- A message with a tag that is not one of the expected ones. -/
  | unknownTag (shown : String) (expected : List String)
  deriving DecidableEq, Repr

/-- Choices in words: commas between all but the last two, which stand on either side of an `or`. -/
def choiceText : List String → String
  | [] => ""
  | [a] => a
  | [a, b] => a ++ " or " ++ b
  | a :: rest => a ++ ", " ++ choiceText rest

def singleQuoted (s : String) : String := "'" ++ s ++ "'"

def Mismatch.message : Mismatch → String
  | .missing => "Field required"
  | .extra => "Extra inputs are not permitted"
  | .notString => "Input should be a valid string"
  | .notInteger => "Input should be a valid integer"
  | .notNumber => "Input should be a valid number"
  | .notBoolean => "Input should be a valid boolean"
  | .notList => "Input should be a valid list"
  | .notSet => "Input should be a valid frozenset"
  | .notDictionary => "Input should be a valid dictionary"
  | .notRecord model => "Input should be a valid dictionary or instance of " ++ model
  | .tooNested => "Recursion error - cyclic reference detected"
  | .notFields => "Input should be a valid dictionary or object to extract fields from"
  | .notOneOf choices => "Input should be " ++ choiceText choices
  | .unreadableBoolean => "Input should be a valid boolean, unable to interpret input"
  | .unreadableNumber => "Input should be a valid number, unable to parse string as a number"
  | .unreadableInteger => "Input should be a valid integer, unable to parse string as an integer"
  | .fractional => "Input should be a valid integer, got a number with a fractional part"
  | .oversized => "Unable to parse input string as an integer, exceeded maximum size"
  | .notPositive => "Input should be greater than 0"
  | .untagged => "Unable to extract tag using discriminator 'type'"
  | .unknownTag shown expected =>
    "Input tag '" ++ shown ++ "' found using 'type' does not match any of the expected tags: "
      ++ ", ".intercalate (expected.map singleQuoted)

/-- A mismatch and where it is. -/
structure Fault where
  path : Path
  cause : Mismatch
  deriving DecidableEq, Repr

def Fault.text (f : Fault) : String := Path.text f.path ++ ": " ++ f.cause.message

/-- The same fault seen from one step further out. -/
def Fault.under (s : Segment) (f : Fault) : Fault := { f with path := s :: f.path }

/-! ### Checks -/

/-- A typed value, or every fault found instead. -/
abbrev Check (α : Type) := Except (List Fault) α

namespace Check

variable {α β γ : Type}

/-- A check that fails at the value itself. -/
def fail (m : Mismatch) : Check α := .error [⟨[], m⟩]

def faults : Check α → List Fault
  | .ok _ => []
  | .error fs => fs

/-- The same check seen from one step further out. -/
def under (s : Segment) : Check α → Check α
  | .ok a => .ok a
  | .error fs => .error (fs.map (Fault.under s))

/-- Both results, or the faults of both checks, those of the first one first. -/
def both : Check α → Check β → Check (α × β)
  | .ok a, .ok b => .ok (a, b)
  | .ok _, .error fs => .error fs
  | .error fs, .ok _ => .error fs
  | .error fs, .error gs => .error (fs ++ gs)

/-- A further check of a result. -/
def andThen (c : Check α) (f : α → Check β) : Check β :=
  match c with
  | .ok a => f a
  | .error fs => .error fs

def map (f : α → β) : Check α → Check β
  | .ok a => .ok (f a)
  | .error fs => .error fs

end Check

/-! ### Records and lists -/

variable {α : Type}

/-- A field that has to be there. -/
def required (fields : Assoc Value) (name : String) (read : Value → Check α) : Check α :=
  match Assoc.get? name fields with
  | some v => (read v).under (.key name)
  | none => .error [⟨[.key name], .missing⟩]

/-- Null, or a value of a shape. -/
def nullable (read : Value → Check α) : Value → Check (Option α)
  | .null => .ok none
  | v => (read v).map some

/-- A field that may be null or absent. -/
def optional (fields : Assoc Value) (name : String) (read : Value → Check α) : Check (Option α) :=
  match Assoc.get? name fields with
  | some v => (nullable read v).under (.key name)
  | none => .ok none

/-- The members of an object. -/
def members (m : Mismatch) : Value → Check (Assoc Value)
  | .obj fields => .ok fields
  | _ => .fail m

/-- Every item of a list, the first of which has the given index. -/
def items (read : Value → Check α) : Nat → List Value → Check (List α)
  | _, [] => .ok []
  | n, v :: vs => (((read v).under (.index n)).both (items read (n + 1) vs)).map fun p => p.1 :: p.2

/-- A list of values of a shape. -/
def list (read : Value → Check α) : Value → Check (List α)
  | .arr vs => items read 0 vs
  | _ => .fail .notList

/-- Every value of a mapping. -/
def entries (read : Value → Check α) : Assoc Value → Check (Assoc α)
  | [] => .ok []
  | (k, v) :: rest => (((read v).under (.key k)).both (entries read rest)).map fun p => (k, p.1) :: p.2

/-- One of a closed set of named choices. -/
def oneOf (choices : List α) (name : α → String) : Value → Check α
  | .str s =>
    match choices.find? (name · = s) with
    | some a => .ok a
    | none => .fail (.notOneOf (choices.map (singleQuoted ∘ name)))
  | _ => .fail (.notOneOf (choices.map (singleQuoted ∘ name)))

end ComponentStream.Shape
