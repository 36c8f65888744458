import ComponentStream.Protocol.Layout
import ComponentStream.Worklist

/-!
# Component nodes

A component has an identifier, a type, properties, and optional layout and style.  On the wire it may carry
further components as inline children, and so is the top of an ordered tree.

* `Component`, `Node` — a component without and with its children;
* `Node.checkWithin`, `Node.check` — the node that a JSON value describes, within a bound on its levels;
* `Node.preorder`, `Node.height` — the nodes of a tree and the number of its levels, by recursion;
* `Node.walk`, `Node.depth`, `rawDepth` — the same by work list, the last one on a JSON value that may not
  describe a node at all, so that too deep a value is turned away before it is taken apart.
-/

namespace ComponentStream.Protocol

open Json (Value)
open Shape (Check)

/-- A component by itself. -/
structure Component where
  id : String
  type : String
  props : Assoc Value
  layout : Option Layout
  style : Option (Assoc StyleValue)

/-- A component with its inline children, if it declares any list of them. -/
structure Node where
  component : Component
  children : Option (List Node)

instance : Inhabited Component := ⟨⟨"", "", [], none, none⟩⟩
instance : Inhabited Node := ⟨⟨default, none⟩⟩

def Node.id (n : Node) : String := n.component.id

/-- The children of a node, none when it declares no list. -/
def Node.childList (n : Node) : List Node := n.children.getD []

/-! ### Recursion -/

mutual

/-- A node and its descendants, every node before its children and these from left to right. -/
def Node.preorder : Node → List Node
  | ⟨c, none⟩ => [⟨c, none⟩]
  | ⟨c, some ns⟩ => ⟨c, some ns⟩ :: preorderAll ns

def Node.preorderAll : List Node → List Node
  | [] => []
  | n :: ns => n.preorder ++ preorderAll ns

end

mutual

/-- The number of levels of a tree; a leaf has one. -/
def Node.height : Node → Nat
  | ⟨_, none⟩ => 1
  | ⟨_, some ns⟩ => heightAll ns + 1

def Node.heightAll : List Node → Nat
  | [] => 0
  | n :: ns => max n.height (heightAll ns)

end

def Node.count (n : Node) : Nat := n.preorder.length

/-! ### Work lists -/

/-- A node and its descendants, by work list. -/
def Node.walk (n : Node) : List Node := visit Node.childList n.count [n]

/-- The children of a node at some level, each one level further down. -/
def Node.levelled (e : Node × Nat) : List (Node × Nat) :=
  e.1.childList.map fun child => (child, e.2 + 1)

def greatest (ns : List Nat) : Nat := ns.foldl max 0

/-- The number of levels of a tree, by work list. -/
def Node.depth (n : Node) : Nat :=
  greatest ((visit (fun e => (Node.levelled e).reverse) n.count [(n, 1)]).map Prod.snd)

mutual

/-- The number of objects in a value. -/
def objectCount : Value → Nat
  | .arr vs => objectCountAll vs
  | .obj fields => objectCountFields fields + 1
  | _ => 0

def objectCountAll : List Value → Nat
  | [] => 0
  | v :: vs => objectCount v + objectCountAll vs

def objectCountFields : List (String × Value) → Nat
  | [] => 0
  | (_, v) :: fields => objectCount v + objectCountFields fields

end

def isObject : Value → Bool
  | .obj _ => true
  | _ => false

/-- The objects among the items under `children`. -/
def rawChildren (v : Value) : List Value :=
  match v.field? "children" with
  | some (.arr vs) => vs.filter isObject
  | _ => []

/-- The raw children of a value at some level, each one level further down. -/
def rawLevelled (e : Value × Nat) : List (Value × Nat) :=
  (rawChildren e.1).map fun child => (child, e.2 + 1)

/-- The number of levels of a raw value, counting objects alone; anything but an object has none. -/
def rawDepth (v : Value) : Nat :=
  if isObject v then
    greatest ((visit (fun e => (rawLevelled e).reverse) (objectCount v) [(v, 1)]).map Prod.snd)
  else 0

/-! ### Checking -/

/-- The fields of a node but its children. -/
def Component.check (fields : Assoc Value) : Check Component :=
  ((Shape.required fields "id" Shape.Strict.string).both
    ((Shape.required fields "type" Shape.Strict.string).both
      ((Shape.required fields "props" Shape.Strict.dictionary).both
        ((Shape.optional fields "layout" Layout.check).both
          (Shape.optional fields "style" checkStyle))))).map
  fun (id, type, props, layout, style) => ⟨id, type, props, layout, style⟩

/-- The node that a value with at most the given number of levels describes; unknown members are ignored at every level.
Values that contain themselves are guarded against by counting: whatever stands one level further down is turned away as
such a value, before it is looked at. -/
def Node.checkWithin : Nat → Value → Check Node
  | 0, _ => .fail .tooNested
  | room + 1, .obj fields =>
    ((Component.check fields).both (Shape.optional fields "children" (Shape.list (Node.checkWithin room)))).map
      fun (component, children) => ⟨component, children⟩
  | _ + 1, _ => .fail (.notRecord "ComponentNode")

/-- The levels to which a value by itself is followed. -/
def Node.maxLevels : Nat := 255

/-- The node that a value by itself describes. -/
def Node.check (v : Value) : Check Node := Node.checkWithin Node.maxLevels v

end ComponentStream.Protocol
