import ComponentStream.Protocol.Layout

/-!
# Layout hints as flexbox properties

A component is laid out in a flexible box.  Every hint that is given becomes one property; hints that are not
given are left out, so that the host falls back to its own flow.  Raw style entries come last and override.
-/

namespace ComponentStream.Render

open Json (Value)
open Protocol (Align Justify Direction Layout)

def alignItems : Align → String
  | .atStart => "flex-start"
  | .atCenter => "center"
  | .atEnd => "flex-end"
  | .stretch => "stretch"
  | .baseline => "baseline"

def justifyContent : Justify → String
  | .atStart => "flex-start"
  | .atCenter => "center"
  | .atEnd => "flex-end"
  | .between => "space-between"
  | .around => "space-around"
  | .evenly => "space-evenly"

/-- A property for a hint that is given. -/
def property {α : Type} (name : String) (hint : Option α) (value : α → Value) : Assoc Value :=
  match hint with
  | some a => [(name, value a)]
  | none => []

/-- The properties of the hints, direction apart. -/
def hintProperties (l : Layout) : Assoc Value :=
  property "flexGrow" l.flex .float
    ++ property "alignItems" l.align (.str ∘ alignItems)
    ++ property "justifyContent" l.justify (.str ∘ justifyContent)
    ++ property "gap" l.gap .float
    ++ if l.wrap = some true then [("flexWrap", .str "wrap")] else []

/-- The properties of a component with the given hints and style. -/
def flexStyle (layout : Option Layout) (style : Assoc Value) : Assoc Value :=
  let direction := ((layout.bind (·.direction)).getD .column).name
  let hints := match layout with
    | some l => hintProperties l
    | none => []
  Assoc.merge ([("display", .str "flex"), ("flexDirection", .str direction)] ++ hints) style

end ComponentStream.Render
