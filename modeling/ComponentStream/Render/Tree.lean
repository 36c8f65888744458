import ComponentStream.Metrics
import ComponentStream.Protocol.Node
import ComponentStream.Registry.Basic
import ComponentStream.Render.Style

/-!
# Rendering component trees

Every node is rendered by the renderer of its type, its children first.  An unknown type and a renderer that gives
up become visible placeholders around the outputs of the children, and properties that fail their schema are passed
on as they are.  Only a schema that itself fails ends the rendering of everything.

* `Rendered` — the result for a node, with the results for its children;
* `render`, `renderAll` — trees against a registry;
* `Rendered.counters` — what rendering adds to the metrics.
-/

namespace ComponentStream.Render

open Json (Value)
open Protocol (Component Node)
open Registry (Entry)

/-- How the rendering of a node ended. -/
inductive Ending where
  | shown
  | unknownType
  | failed (failure : Failure)
  deriving DecidableEq, Repr

/-- The result of rendering a node. -/
structure Rendered where
  id : String
  type : String
  props : Assoc Value
  layout : Assoc Value
  output : Output
  ending : Ending
  /-- What is wrong with the properties. -/
  faults : List String
  children : List Rendered

instance : Inhabited Rendered := ⟨⟨"", "", [], [], default, .shown, [], []⟩⟩

/-- Whether a placeholder stands in the place of a node. -/
def Rendered.isPlaceholder (r : Rendered) : Bool := r.ending != .shown

/-- Everything that went wrong with a node: the faults of its properties, then the failure of its renderer. -/
def Rendered.errors (r : Rendered) : List String :=
  r.faults ++ match r.ending with
    | .failed failure => [failure.message]
    | _ => []

/-- A note in the place of a component, with the outputs of its children. -/
def placeholder (message : String) (children : List Output) : Output :=
  box "div" [("role", .str "note"), ("placeholder", .bool true)]
    (.element "span" [("color", .str "red")] (.str message) [] [] :: children)

/-- A component of a registered type, with its properties as the renderer is given them, what is wrong with them, and
rendered children. -/
def renderEntry (entry : Entry) (c : Component) (props : Assoc Value) (faults : List String)
    (children : List Rendered) : Rendered :=
  let layout := flexStyle c.layout (Assoc.mapValues Protocol.StyleValue.toJson (c.style.getD []))
  let outputs := children.map (·.output)
  match entry.renderer props ⟨c.id, c.type, layout, outputs⟩ with
  | .ok output => ⟨c.id, c.type, props, layout, output, .shown, faults, children⟩
  | .error failure =>
    ⟨c.id, c.type, props, layout, placeholder ("Failed to render: " ++ c.type) outputs, .failed failure, faults,
      children⟩

/-- A component of a type that is not registered, with rendered children. -/
def renderUnknown (c : Component) (children : List Rendered) : Rendered :=
  ⟨c.id, c.type, c.props, flexStyle c.layout (Assoc.mapValues Protocol.StyleValue.toJson (c.style.getD [])),
    placeholder ("Unknown component: " ++ c.type) (children.map (·.output)), .unknownType, [], children⟩

/-- A component with rendered children.  What its renderer raises becomes a placeholder; what its checker raises is not
held back. -/
def renderComponent (registry : Registry) (c : Component) (children : List Rendered) : Except Failure Rendered :=
  match Registry.get? registry c.type with
  | none => .ok (renderUnknown c children)
  | some entry =>
    match entry.validate c.props with
    | .ok (props, faults) => .ok (renderEntry entry c props faults children)
    | .error failure => .error failure

mutual

/-- A node and everything below it, unless a checker fails. -/
def render (registry : Registry) : Node → Except Failure Rendered
  | ⟨c, none⟩ => renderComponent registry c []
  | ⟨c, some ns⟩ => do
    let children ← renderAll registry ns
    renderComponent registry c children

/-- Several nodes, the first of them first. -/
def renderAll (registry : Registry) : List Node → Except Failure (List Rendered)
  | [] => .ok []
  | n :: ns => do
    let r ← render registry n
    let rs ← renderAll registry ns
    return r :: rs

end

/-! ### Looking into results -/

mutual

/-- The result for the node with an identifier, a node coming before its children. -/
def Rendered.find? (id : String) : Rendered → Option Rendered
  | ⟨i, type, props, layout, output, ending, faults, children⟩ =>
    if i = id then some ⟨i, type, props, layout, output, ending, faults, children⟩ else findAll? id children

def Rendered.findAll? (id : String) : List Rendered → Option Rendered
  | [] => none
  | r :: rs =>
    match r.find? id with
    | some found => some found
    | none => findAll? id rs

end

/-- The counters of a single result. -/
def ownCounters (type : String) (ending : Ending) (faults : List String) : List Counter :=
  (if faults.isEmpty then [] else [⟨.propsFailures, [type]⟩])
    ++ match ending with
       | .shown => []
       | .unknownType => [⟨.placeholders, ["unknown_type"]⟩]
       | .failed _ => [⟨.placeholders, ["render_error"]⟩]

mutual

/-- What rendering a node and everything below it adds one to. -/
def Rendered.counters : Rendered → List Counter
  | ⟨_, type, _, _, _, ending, faults, children⟩ => countersAll children ++ ownCounters type ending faults

def Rendered.countersAll : List Rendered → List Counter
  | [] => []
  | r :: rs => r.counters ++ countersAll rs

end

end ComponentStream.Render
