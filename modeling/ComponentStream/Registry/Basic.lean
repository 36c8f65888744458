import ComponentStream.Render.Element
import ComponentStream.Text.Quoted

/-!
# The registry of component types

A host registers the component types it can render, each with a renderer, an optional checker of its properties,
a description and a category.  The registry keeps the order of first registration; registering a name again
replaces its entry in place.

* `Category`, `Checker`, `Entry` — what is registered;
* `Entry.validate` — the properties that a renderer is given, unless the checker fails;
* `Registry` — the entries by name, with `register`, `unregister` and queries;
* `Event` — what the registry reports to the log when it changes;
* `describe` — the vocabulary that is told to the message source.
-/

namespace ComponentStream

open Json (Value)
open Render (Failure)

namespace Registry

/-- Categories of components. -/
inductive Category where
  | generative | interactable
  deriving DecidableEq, Repr

def Category.all : List Category := [.generative, .interactable]

def Category.name : Category → String
  | .generative => "generative"
  | .interactable => "interactable"

def Category.ofName? (s : String) : Option Category := Category.all.find? (·.name = s)

def Category.unknownMessage (s : String) : String :=
  String.ofList (Text.Quoted.quote s.toList) ++ " is not a valid Category"

/-- What a checker comes to. -/
inductive Checked where
  /-- The properties are accepted, and are kept like this. -/
  | kept (props : Assoc Value)
  /-- Everything that is wrong with them. -/
  | refused (faults : List String)
  /-- The checker itself fails at them. -/
  | raised (failure : Failure)

/-- A checker keeps the properties it accepts, converted as it sees fit, or tells everything that is wrong with
them.  One that a host supplies may also fail at its work, as a renderer may. -/
abbrev Checker := Assoc Value → Checked

/-- A registered component type. -/
structure Entry where
  name : String
  renderer : Render.Renderer
  checker : Option Checker
  description : String
  category : Category

/-- The properties of a component of this type as they are kept, or as they were with everything that is wrong with
them; without a checker all properties are accepted as they are.  A failure of the checker is passed on. -/
def Entry.validate (e : Entry) (props : Assoc Value) : Except Failure (Assoc Value × List String) :=
  match e.checker with
  | some check =>
    match check props with
    | .kept kept => .ok (kept, [])
    | .refused faults => .ok (props, faults)
    | .raised failure => .error failure
  | none => .ok (props, [])

/-- An entry as it is told to the message source. -/
def Entry.describe (e : Entry) : Value :=
  .obj [("name", .str e.name), ("description", .str e.description), ("category", .str e.category.name)]

/-- What a change of the registry reports. -/
inductive Event where
  | overwritten | registered | unregistered
  deriving DecidableEq, Repr

/-- An event with its level, as the log names it. -/
def Event.text : Event → String
  | .overwritten => "warning:component_overwritten"
  | .registered => "debug:component_registered"
  | .unregistered => "debug:component_unregistered"

end Registry

open Registry

/-- Component types by name, in order of first registration. -/
abbrev Registry := Assoc Entry

namespace Registry

def register (r : Registry) (e : Entry) : Registry × List Event :=
  (Assoc.insert e.name e r, if Assoc.contains e.name r then [.overwritten, .registered] else [.registered])

def registerAll (r : Registry) : List Entry → Registry × List Event
  | [] => (r, [])
  | e :: es =>
    let (r, events) := register r e
    let (r, more) := registerAll r es
    (r, events ++ more)

/-- Removes a component type; nothing happens if it is not registered. -/
def unregister (r : Registry) (name : String) : Registry × List Event :=
  if Assoc.contains name r then (Assoc.erase name r, [.unregistered]) else (r, [])

def get? (r : Registry) (name : String) : Option Entry := Assoc.get? name r

def names (r : Registry) : List String := Assoc.keys r

def ofCategory (r : Registry) (c : Category) : List Entry := (r.map Prod.snd).filter (·.category = c)

/-- The vocabulary that is told to the message source. -/
def describe (r : Registry) : Value := .arr (r.map fun e => e.2.describe)

end Registry

end ComponentStream
