import ComponentStream.Protocol.Action

/-!
# Virtual elements

Renderers produce elements that a host can turn into widgets of its own: a tag, attributes, a text, children
and handlers of user events.  A renderer of the host may also produce plain text, or anything else.

* `Handler` — what an event does, as data: which emission it makes of its arguments;
* `Output` — an element, plain text, or something that only the host understands;
* `Output.find?` — the first element with a tag;
* `Context` — what a renderer is given besides properties.
-/

namespace ComponentStream.Render

open Json (Value)

/-! ### Handlers -/

/-- An action that a component asks to send, not checked yet. -/
structure Emission where
  componentId : String
  type : Value
  payload : Value

/-- The handler of an event. -/
inductive Handler where
  /-- Does nothing. -/
  | silent
  /-- Sends the same action every time. -/
  | fixed (componentId : String) (type payload : Value)
  /-- Sends its argument under a key of the payload. -/
  | keyed (componentId : String) (type key : String)
  /-- Sends whether its argument counts as true. -/
  | flagged (componentId : String) (type key : String)
  /-- Sends the type and the payload it is given; the payload may be left out. -/
  | free (componentId : String)

/-- What a handler sends for some arguments; nothing if their number is wrong. -/
def Handler.run : Handler → List Value → Option (Option Emission)
  | .silent, [] => some none
  | .fixed id type payload, [] => some (some ⟨id, type, payload⟩)
  | .keyed id type key, [v] => some (some ⟨id, .str type, .obj [(key, v)]⟩)
  | .flagged id type key, [v] => some (some ⟨id, .str type, .obj [(key, .bool v.truthy)]⟩)
  | .free id, [type] => some (some ⟨id, type, .null⟩)
  | .free id, [type, payload] => some (some ⟨id, type, payload⟩)
  | _, _ => none

/-! ### Elements -/

/-- What a renderer produces. -/
inductive Output where
  | plain (s : String)
  /-- A thing of the host's own, which is passed on without a look into it; things are told apart by a number. -/
  | native (handle : Nat)
  | element (tag : String) (attrs : Assoc Value) (text : Value) (children : List Output)
      (handlers : List (String × Handler))

instance : Inhabited Output := ⟨.plain ""⟩

/-- An element without text. -/
def box (tag : String) (attrs : Assoc Value) (children : List Output) : Output :=
  .element tag attrs .null children []

/-- An element that holds a text alone. -/
def label (tag : String) (text : Value) : Output := .element tag [] text [] []

mutual

/-- The first element with a tag, an element coming before its children. -/
def Output.find? (tag : String) : Output → Option Output
  | .plain _ => none
  | .native _ => none
  | .element t attrs text children handlers =>
    if t = tag then some (.element t attrs text children handlers) else findAll? tag children

/-- The first element with a tag among several outputs and below them. -/
def Output.findAll? (tag : String) : List Output → Option Output
  | [] => none
  | o :: os =>
    match o.find? tag with
    | some e => some e
    | none => findAll? tag os

end

/-- What a renderer is given besides properties. -/
structure Context where
  nodeId : String
  type : String
  layout : Assoc Value
  /-- The outputs of the children, in order. -/
  children : List Output

/-- Why a renderer gave up. -/
inductive Failure where
  /-- The properties were not of the kind that the renderer needs. -/
  | unusableProps
  /-- The renderer gave a reason. -/
  | raised (message : String)
  deriving DecidableEq, Repr

def Failure.message : Failure → String
  | .unusableProps => "<exception>"
  | .raised message => message

/-- A renderer makes an output of properties and context, or gives up. -/
abbrev Renderer := Assoc Value → Context → Except Failure Output

end ComponentStream.Render
