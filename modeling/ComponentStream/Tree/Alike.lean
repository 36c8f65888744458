import ComponentStream.Json.Alike
import ComponentStream.Tree.State

/-!
# Trees compared by content

Two trees are alike when they hold the same components with the same links, roots in the same order, and the
same version and mark.  The order in which components were indexed does not count, nor does the kind of a
number.
-/

namespace ComponentStream.Tree

open Json (Value)
open Protocol (Component Layout)

/-- Whether two maps have the same names with related values. -/
def alikeMaps {α : Type} (rel : α → α → Bool) (m m' : Assoc α) : Bool :=
  m.length == m'.length && m.all fun e =>
    match Assoc.get? e.1 m' with
    | some b => rel e.2 b
    | none => false

/-- Whether two optional doubles are equal numbers. -/
def alikeHints : Option Float → Option Float → Bool
  | some x, some y => x == y
  | none, none => true
  | _, _ => false

/-- Whether two layouts give the same hints. -/
def alikeLayouts : Option Layout → Option Layout → Bool
  | some a, some b =>
    alikeHints a.flex b.flex && a.align == b.align && a.justify == b.justify && alikeHints a.gap b.gap
      && a.direction == b.direction && a.wrap == b.wrap
  | none, none => true
  | _, _ => false

/-- Whether two components hold the same content. -/
def alikeComponents (a b : Component) : Bool :=
  a.id == b.id && a.type == b.type && (Value.obj a.props).alike (.obj b.props) && alikeLayouts a.layout b.layout
    && match a.style, b.style with
       | some s, some s' => alikeMaps (fun x y => x.toJson.alike y.toJson) s s'
       | none, none => true
       | _, _ => false

/-- Whether two trees hold the same content. -/
def alike (t t' : Tree) : Bool :=
  alikeMaps alikeComponents t.components t'.components && t.rootIds == t'.rootIds && t.version == t'.version
    && t.complete == t'.complete && alikeMaps (· == ·) t.childIds t'.childIds
    && alikeMaps (· == ·) t.parentIds t'.parentIds

end ComponentStream.Tree
