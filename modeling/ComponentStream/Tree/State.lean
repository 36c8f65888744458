import ComponentStream.Protocol.Node

/-!
# The component tree

Components live in one flat index.  Who owns whom is kept beside it in two directions — the list of children of
each component and the parent of each child — and the components without a parent are listed as roots.  No
component is stored twice, so a change to one shows wherever the tree is read.

* `Tree` — the index, the links, a version that grows with every change, and a mark for the end of the tree;
* `Tree.ancestors`, `Tree.placementDepth` — the way up from a component, and how deep a node would sit;
* `Tree.materialize`, `Tree.roots` — components with their current children.

The links of a tree that was only ever changed by the operations of this library have no cycle.  The queries do
not rely on it: a cycle is reported as a `Tree.Error`.
-/

namespace ComponentStream

open Protocol (Component Node)

/-- A flat index of components with their links. -/
structure Tree where
  components : Assoc Component
  rootIds : List String
  version : Nat
  complete : Bool
  childIds : Assoc (List String)
  parentIds : Assoc String

namespace Tree

/-- No component, version zero. -/
def empty : Tree := ⟨[], [], 0, false, [], []⟩

instance : Inhabited Tree := ⟨empty⟩

/-- How the shape of a tree can be broken. -/
inductive Error where
  /-- The way up from a component comes back to this one. -/
  | ownershipCycle (id : String)
  /-- The way down from this component comes back to it. -/
  | ownAncestor (id : String)
  /-- The node with this identifier declares some identifier twice. -/
  | repeatedId (top : String)
  /-- Inserting the node `top` would put `id` below itself. -/
  | belowItself (id top : String)
  deriving DecidableEq, Repr

def Error.message : Error → String
  | .ownershipCycle id => "Ownership cycle through component '" ++ id ++ "'"
  | .ownAncestor id => "Component '" ++ id ++ "' is its own ancestor"
  | .repeatedId top => "Subtree of '" ++ top ++ "' declares an id more than once"
  | .belowItself id top =>
    "Component '" ++ id ++ "' would become a descendant of itself under '" ++ top ++ "'"

/-! ### Reading the links -/

def size (t : Tree) : Nat := t.components.length

def contains (t : Tree) (id : String) : Bool := Assoc.contains id t.components

/-- The children of a component, in order. -/
def children (t : Tree) (id : String) : List String := (Assoc.get? id t.childIds).getD []

def parent? (t : Tree) (id : String) : Option String := Assoc.get? id t.parentIds

/-- The number of nodes in a subtree whose identifiers are not stored. -/
def newIds (t : Tree) (n : Node) : Nat := (n.walk.filter fun each => !t.contains each.id).length

/-- The way up from `next`, the components in `seen` having been passed. -/
def ancestorsFrom (t : Tree) : Nat → List String → Option String → Except Error (List String)
  | _, _, none => .ok []
  | 0, _, some _ => .ok []
  | budget + 1, seen, some id =>
    if seen.contains id then .error (.ownershipCycle id)
    else
      match ancestorsFrom t budget (id :: seen) (t.parent? id) with
      | .ok ids => .ok (id :: ids)
      | .error e => .error e

/-- The ancestors of a component from its parent up to its root.  Every step but the last follows another
link, so there are fewer steps than links and one. -/
def ancestors (t : Tree) (id : String) : Except Error (List String) :=
  t.ancestorsFrom (t.parentIds.length + 1) [id] (t.parent? id)

/-- The depth of the deepest node of `n` once it is inserted: a node that has a parent keeps it. -/
def placementDepth (t : Tree) (n : Node) : Except Error Nat :=
  match t.ancestors n.id with
  | .ok ids => .ok (ids.length + n.depth)
  | .error e => .error e

/-! ### Materialization -/

/-- The number of links from parents to children. -/
def linkCount (t : Tree) : Nat := (t.childIds.flatMap Prod.snd).length

/-- What is still to be done when components are read back. -/
inductive Visit where
  /-- To go down from a component to its children. -/
  | enter (id : String)
  /-- To put a component together, once its children are. -/
  | leave (id : String)
  deriving DecidableEq, Repr

/-- Works visits off, the components in `path` being those that have been entered and not left.  A component that is
left goes into the table, with those of its children that are in it. -/
def assemble (t : Tree) : Nat → List Visit → List String → Assoc Node → Except Error (Assoc Node)
  | 0, _, _, built => .ok built
  | _ + 1, [], _, built => .ok built
  | budget + 1, .leave id :: pending, path, built =>
    let children := (t.children id).filterMap fun child => Assoc.get? child built
    t.assemble budget pending (path.erase id)
      (Assoc.insert id ⟨(Assoc.get? id t.components).getD default, some children⟩ built)
  | budget + 1, .enter id :: pending, path, built =>
    if path.contains id then .error (.ownAncestor id)
    else
      t.assemble budget (((t.children id).filter t.contains).map .enter ++ .leave id :: pending) (id :: path) built

/-- A bound on the visits that a component with so many levels takes: it is entered and left, and has no more children than
there are links. -/
def visitBound (t : Tree) (levels : Nat) : Nat := Nat.pow (t.linkCount + 2) levels

/-- A component with its current children, nothing if it is not stored.  No way down passes a component twice, so that
there are no more levels than components, whatever the links. -/
def materialize (t : Tree) (id : String) : Except Error (Option Node) :=
  if t.contains id then
    match t.assemble (t.visitBound (t.size + 1)) [.enter id] [] [] with
    | .ok built => .ok (Assoc.get? id built)
    | .error e => .error e
  else .ok none

/-- The roots with everything below them. -/
def roots (t : Tree) : Except Error (List Node) :=
  match t.rootIds.mapM t.materialize with
  | .ok nodes => .ok (nodes.filterMap id)
  | .error e => .error e

end Tree

end ComponentStream
