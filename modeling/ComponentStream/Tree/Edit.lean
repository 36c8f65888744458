import ComponentStream.Tree.State

/-!
# Changing the component tree

* `Tree.insert` — a node with its inline children comes in; a component that is stored already keeps its place,
  takes the new data and loses the children that the node no longer declares, a component that is declared
  elsewhere moves, and the rest is new;
* `Tree.mergeProps` — single properties of a component are overridden;
* `Tree.remove`, `Tree.remove?` — a component goes with all its descendants; the second one tells whether it was stored.

An insertion is refused, and nothing is changed, when the node declares an identifier twice or would come to
lie below itself.
-/

namespace ComponentStream.Tree

open Json (Value)
open Protocol (Component Node)

/-! ### Removing -/

/-- Drops all entries of one component. -/
def forget (t : Tree) (id : String) : Tree :=
  { t with
    components := Assoc.erase id t.components
    childIds := Assoc.erase id t.childIds
    parentIds := Assoc.erase id t.parentIds
    rootIds := t.rootIds.erase id }

/-- The children that have a component as their parent. -/
def owned (t : Tree) (id : String) : List String :=
  (t.children id).filter fun child => t.parent? child = some id

/-- Drops the components of a work list and everything they own. -/
def discardAll : Nat → Tree → List String → Tree
  | 0, t, _ => t
  | _ + 1, t, [] => t
  | budget + 1, t, id :: pending =>
    if t.contains id then discardAll budget (t.forget id) (t.owned id ++ pending)
    else discardAll budget t pending

/-- Drops a component and everything it owns.  Every link puts one component into the work list. -/
def discard (t : Tree) (id : String) : Tree := discardAll (t.linkCount + 1) t [id]

/-- Takes a component out of the list of children of `parent`. -/
def unlink (t : Tree) (parent id : String) : Tree :=
  match Assoc.get? parent t.childIds with
  | some siblings => { t with childIds := Assoc.insert parent (siblings.erase id) t.childIds }
  | none => t

/-- Removes a component and its descendants; nothing happens if it is not stored. -/
def remove (t : Tree) (id : String) : Tree :=
  if t.contains id then
    match t.parent? id with
    | some parent => (t.unlink parent id).discard id
    | none => t.discard id
  else t

/-- The tree without a component and its descendants, if the component is stored. -/
def remove? (t : Tree) (id : String) : Option Tree := if t.contains id then some (t.remove id) else none

/-! ### Inserting -/

/-- Drops the children of a component that `declared` leaves out. -/
def dropUndeclared (t : Tree) (id : String) (declared : List String) : Tree :=
  (t.children id).foldl (fun t child =>
    if !declared.contains child ∧ t.parent? child = some id then t.discard child else t) t

/-- Enters a component with the children it declares. -/
def store (t : Tree) (c : Component) (declared : List String) : Tree :=
  { t with
    components := Assoc.insert c.id c t.components
    childIds := Assoc.insert c.id declared t.childIds }

/-- Takes a component from its former parent, if that is another one. -/
def leaveParent (t : Tree) (id parent : String) : Tree :=
  match t.parent? id with
  | some former => if former = parent then t else t.unlink former id
  | none => t

/-- Puts a component under a parent, or among the roots if it has none and is new there. -/
def adopt (t : Tree) (id : String) : Option String → Tree
  | some parent =>
    let t := t.leaveParent id parent
    { t with parentIds := Assoc.insert id parent t.parentIds, rootIds := t.rootIds.erase id }
  | none =>
    if Assoc.contains id t.parentIds ∨ t.rootIds.contains id then t
    else { t with rootIds := t.rootIds ++ [id] }

/-- Enters one component: its undeclared children go, its data and declared children come in, and it takes
its place. -/
def place (t : Tree) (parent : Option String) (c : Component) (declared : List String) : Tree :=
  ((t.dropUndeclared c.id declared).store c declared).adopt c.id parent

mutual

/-- Enters a node and its inline children below a parent, every node before its children. -/
def attach (t : Tree) (parent : Option String) : Node → Tree
  | ⟨c, none⟩ => t.place parent c []
  | ⟨c, some ns⟩ => attachAll (t.place parent c (ns.map Node.id)) c.id ns

def attachAll (t : Tree) (parent : String) : List Node → Tree
  | [] => t
  | n :: ns => attachAll (attach t (some parent) n) parent ns

end

def hasRepeats : List String → Bool
  | [] => false
  | a :: rest => rest.contains a || hasRepeats rest

/-- Inserts or replaces a node with its inline children. -/
def insert (t : Tree) (n : Node) : Except Error Tree :=
  let ids := n.walk.map Node.id
  if hasRepeats ids then .error (.repeatedId n.id)
  else
    match t.ancestors n.id with
    | .error e => .error e
    | .ok above =>
      match ids.find? above.contains with
      | some id => .error (.belowItself id n.id)
      | none => .ok (t.attach none n)

/-! ### Updating -/

/-- Overrides single properties of a component; nothing if it is not stored. -/
def mergeProps (t : Tree) (id : String) (patch : Assoc Value) : Option Tree :=
  match Assoc.get? id t.components with
  | some c =>
    some { t with components := Assoc.insert id { c with props := Assoc.merge c.props patch } t.components }
  | none => none

end ComponentStream.Tree
