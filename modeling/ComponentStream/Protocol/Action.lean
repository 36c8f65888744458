import ComponentStream.Shape.Strict

/-!
# User actions

An action tells the message source what the user did: the kind of interaction, the component it happened to, an
optional payload and a timestamp in milliseconds.

* `Action.check` — the action that a JSON value describes; the component may be named under either of two
  keys, the first of which wins;
* `Action.toWire` — the object that is sent, without a null payload, nulls inside a payload kept.
-/

namespace ComponentStream.Protocol

open Json (Value)
open Shape (Check)

/-- Kinds of interaction. -/
inductive ActionType where
  | click | input | select | scroll | submit | custom
  deriving DecidableEq, Repr

def ActionType.all : List ActionType := [.click, .input, .select, .scroll, .submit, .custom]

def ActionType.name : ActionType → String
  | .click => "click"
  | .input => "input"
  | .select => "select"
  | .scroll => "scroll"
  | .submit => "submit"
  | .custom => "custom"

/-- A user interaction. -/
structure Action where
  type : ActionType
  componentId : String
  payload : Option (Assoc Value)
  timestamp : Int

instance : Inhabited Action := ⟨⟨.click, "", none, 0⟩⟩

/-- The field that names the component: `componentId` if it is there, else `component_id`. -/
def componentField (fields : Assoc Value) : String :=
  if Assoc.contains "componentId" fields then "componentId"
  else if Assoc.contains "component_id" fields then "component_id"
  else "componentId"

/-- The action that an object describes; unknown members are ignored. -/
def Action.check (v : Value) : Check Action :=
  (Shape.members (.notRecord "Action") v).andThen fun fields =>
    ((Shape.required fields "type" (Shape.oneOf ActionType.all ActionType.name)).both
      ((Shape.required fields (componentField fields) Shape.Strict.string).both
        ((Shape.optional fields "payload" Shape.Strict.dictionary).both
          (Shape.required fields "timestamp" Shape.Strict.integer)))).map
    fun (type, componentId, payload, timestamp) => ⟨type, componentId, payload, timestamp⟩

/-- The object that is sent for an action. -/
def Action.toWire (a : Action) : Value :=
  .obj ([("type", .str a.type.name), ("componentId", .str a.componentId)]
    ++ (match a.payload with
        | some payload => [("payload", .obj payload)]
        | none => [])
    ++ [("timestamp", .int a.timestamp)])

end ComponentStream.Protocol
