/-!
# Insertion-ordered maps

A map from names to values is the list of its entries in the order in which their names first arrived.

* `Assoc.get?`, `Assoc.contains`, `Assoc.keys` — reading;
* `Assoc.insert` — a new name goes to the end, a known name keeps its position and takes the new value;
* `Assoc.erase` — the entry goes, the others keep their order;
* `Assoc.merge` — the entries of a second map inserted one after the other;
* `Assoc.ofList` — a map from entries whose names may repeat: the last value wins, at the first position.
-/

namespace ComponentStream

/-- Entries in order of first arrival. -/
abbrev Assoc (α : Type) := List (String × α)

namespace Assoc

variable {α β : Type}

/-- The value under a name. -/
def get? (k : String) : Assoc α → Option α
  | [] => none
  | (k', v) :: m => if k' = k then some v else get? k m

def contains (k : String) (m : Assoc α) : Bool := (get? k m).isSome

def keys (m : Assoc α) : List String := m.map Prod.fst

/-- Enters a value under a name, in place when the name is known and at the end otherwise. -/
def insert (k : String) (v : α) : Assoc α → Assoc α
  | [] => [(k, v)]
  | (k', v') :: m => if k' = k then (k', v) :: m else (k', v') :: insert k v m

/-- Drops the entry of a name. -/
def erase (k : String) : Assoc α → Assoc α
  | [] => []
  | (k', v) :: m => if k' = k then m else (k', v) :: erase k m

/-- Enters every entry of `patch`, in order, into `m`. -/
def merge (m patch : Assoc α) : Assoc α :=
  patch.foldl (fun m e => insert e.1 e.2 m) m

/-- The map of a list of entries in which a name may repeat. -/
def ofList (es : List (String × α)) : Assoc α := merge [] es

def mapValues (f : α → β) (m : Assoc α) : Assoc β := m.map fun e => (e.1, f e.2)

end Assoc

end ComponentStream
