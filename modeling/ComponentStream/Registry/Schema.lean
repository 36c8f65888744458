import ComponentStream.Shape.Lenient

/-!
# Schemas of component properties

A schema lists the properties that a component type knows, each with its kind.  Properties are checked
leniently: close relatives are converted, unknown properties are dropped, and an optional property may be null
or absent.  The result holds the properties that were sent and no others.

* `Kind` — the kinds of properties, records and lists of further kinds among them;
* `Kind.read` — a value of a kind, converted where needed;
* `Schema`, `Schema.check` — properties as they are kept, or the texts of everything that is wrong with them.
-/

namespace ComponentStream.Registry

open Json (Value)
open Shape (Check)

/-- A kind of property. -/
inductive Kind where
  | string
  | boolean
  | number
  /-- A whole number from one to six. -/
  | level
  /-- One of some strings. -/
  | choice (names : List String)
  /-- An object with arbitrary members. -/
  | dictionary
  /-- An object of strings and numbers. -/
  | cells
  | list (item : Kind)
  /-- An object with declared members; each has a name, whether it is required, and a kind. -/
  | record (model : String) (fields : List (String × Bool × Kind))

/-! ### Single values -/

def levelNames : List String := ["1", "2", "3", "4", "5", "6"]

def isLevel (n : Int) : Bool := decide (1 ≤ n ∧ n ≤ 6)

/-- A level: a whole number, an integral double or true. -/
def readLevel : Value → Check Value
  | .int n =>
    if isLevel n then .ok (.int n)
    else if Shape.Lenient.fits64 n then .fail (.notOneOf levelNames) else .fail .oversized
  | .bool true => .ok (.int 1)
  | .float x =>
    match Number.integer? x with
    | some n => if isLevel n then .ok (.int n) else .fail (.notOneOf levelNames)
    | none => .fail (.notOneOf levelNames)
  | _ => .fail (.notOneOf levelNames)

/-- A table cell: a string or a number as it is, a boolean as a number. -/
def readCell : Value → Check Value
  | .str s => .ok (.str s)
  | .int n => .ok (.int n)
  | .float x => .ok (.float x)
  | .bool b => .ok (.int (if b then 1 else 0))
  | _ => .error [⟨[.key "str"], .notString⟩, ⟨[.key "int"], .notInteger⟩, ⟨[.key "float"], .notNumber⟩]

/-! ### Kinds -/

mutual

def Kind.read : Kind → Value → Check Value
  | .string, v => (Shape.Lenient.string v).map .str
  | .boolean, v => (Shape.Lenient.boolean v).map .bool
  | .number, v => (Shape.Lenient.number v).map .float
  | .level, v => readLevel v
  | .choice names, v => (Shape.oneOf names id v).map .str
  | .dictionary, v => (Shape.members .notDictionary v).map .obj
  | .cells, v => ((Shape.members .notDictionary v).andThen (Shape.entries readCell)).map .obj
  | .list item, v =>
    match v with
    | .arr vs => (Shape.items item.read 0 vs).map .arr
    | _ => .fail .notList
  | .record model fields, v =>
    match v with
    | .obj given => (readFields fields given).map .obj
    | _ => .fail (.notRecord model)

/-- The declared members of an object that were sent, in the order in which they are declared. -/
def Kind.readFields : List (String × Bool × Kind) → Assoc Value → Check (Assoc Value)
  | [], _ => .ok []
  | (name, isRequired, kind) :: fields, given =>
    match Assoc.get? name given with
    | none =>
      if isRequired then
        ((Check.fail .missing : Check (Assoc Value)).under (.key name)).both (readFields fields given) |>.map
          Prod.snd
      else readFields fields given
    | some v =>
      ((readField isRequired v (kind.read v)).under (.key name)).both (readFields fields given) |>.map
        fun p => (name, p.1) :: p.2

/-- A member that was sent: an optional one may be null. -/
def Kind.readField (isRequired : Bool) (v : Value) (checked : Check Value) : Check Value :=
  match isRequired, v with
  | false, .null => .ok .null
  | _, _ => checked

end

/-! ### Schemas -/

/-- The properties of a component type. -/
structure Schema where
  model : String
  fields : List (String × Bool × Kind)

/-- The properties of a component as they are kept, or the texts of everything that is wrong with them. -/
def Schema.check (s : Schema) (props : Assoc Value) : Except (List String) (Assoc Value) :=
  match Kind.readFields s.fields props with
  | .ok kept => .ok kept
  | .error faults => .error (faults.map Shape.Fault.text)

end ComponentStream.Registry
