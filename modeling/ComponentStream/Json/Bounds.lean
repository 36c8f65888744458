import ComponentStream.Json.Display
import ComponentStream.Json.Reader

/-!
# Bounds on nesting

Readers and writers call themselves for what is inside an array or an object, and the process stops them when they do so
too often.  Neither treats this as a fault of what they read or write: it is raised past everyone who listens for such
faults.  How deep they get depends on the process, so the two bounds are given from outside.

The writer of the usual number format has a bound of its own, beyond which it hands the value to the writer of the wide
format.  This one stops at the bound of the process, and it does not write whole numbers with more digits than can be
shown either.

* `Bounds` — how deep reading and writing may go;
* `Value.isWritable`, `Value.encodeWithin` — the bytes of a value, if writing them is not given up;
* `Exhaustion` — what is raised when it is.
-/

namespace ComponentStream.Json

/-- How many arrays and objects may be opened, one inside the other. -/
structure Bounds where
  reading : Nat
  writing : Nat
  deriving DecidableEq, Repr

/-- Whether a value can be written when the writer of the wide format may open so many levels. -/
def Value.isWritable (levels : Nat) (v : Value) : Bool :=
  v.fits64 && v.nesting ≤ 254 || v.nesting ≤ levels && v.isShowable

def Value.encodeWithin (levels : Nat) (v : Value) : Option (List UInt8) :=
  if v.isWritable levels then some v.encode else none

/-- What is raised when there are too many levels. -/
inductive Exhaustion where
  | reading
  | writing
  deriving DecidableEq, Repr

def Exhaustion.message : Exhaustion → String
  | .reading => "maximum recursion depth exceeded while deserializing an object"
  | .writing => "maximum recursion depth exceeded while serializing an object"

end ComponentStream.Json
