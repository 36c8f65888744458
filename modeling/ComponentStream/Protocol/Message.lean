import ComponentStream.Protocol.Action
import ComponentStream.Protocol.Node

/-!
# Stream messages

A record of the stream is one of five messages, told apart by the member `type`: insert a component, merge
properties, remove a component, forward an action, report an error.

* `Message` — the five messages;
* `Message.check` — the message that an object describes, every fault under the tag of its message.
-/

namespace ComponentStream.Protocol

open Json (Value)
open Shape (Check)

/-- A message of the stream. -/
inductive Message where
  /-- Insert or replace a component with its inline children; `complete` marks the end of the tree. -/
  | component (data : Node) (complete : Option Bool)
  /-- Merge properties into a stored component. -/
  | update (id : String) (props : Assoc Value)
  /-- Remove a component and its descendants. -/
  | remove (id : String)
  /-- A user action, forwarded and never stored. -/
  | action (data : Action)
  /-- A fault on the side of the message source. -/
  | error (message : String) (recoverable : Option Bool)

instance : Inhabited Message := ⟨.remove ""⟩

/-- The tag of a message. -/
inductive Tag where
  | component | update | remove | action | error
  deriving DecidableEq, Repr

def Tag.all : List Tag := [.component, .update, .remove, .action, .error]

def Tag.name : Tag → String
  | .component => "component"
  | .update => "update"
  | .remove => "remove"
  | .action => "action"
  | .error => "error"

def Message.tag : Message → Tag
  | .component _ _ => .component
  | .update _ _ => .update
  | .remove _ => .remove
  | .action _ => .action
  | .error _ _ => .error

/-- The levels to which the component of a message is followed.  It is one of the values that might contain themselves,
which it is not by itself, and so there is one level less. -/
def Message.maxLevels : Nat := 254

/-- The message with a given tag that the members of an object describe. -/
def Message.checkAs (fields : Assoc Value) : Tag → Check Message
  | .component =>
    ((Shape.required fields "data" (Node.checkWithin Message.maxLevels)).both
      (Shape.optional fields "complete" Shape.Strict.boolean)).map fun p => .component p.1 p.2
  | .update =>
    ((Shape.required fields "id" Shape.Strict.string).both
      (Shape.required fields "props" Shape.Strict.dictionary)).map fun p => .update p.1 p.2
  | .remove => (Shape.required fields "id" Shape.Strict.string).map .remove
  | .action => (Shape.required fields "data" Action.check).map .action
  | .error =>
    ((Shape.required fields "message" Shape.Strict.string).both
      (Shape.optional fields "recoverable" Shape.Strict.boolean)).map fun p => .error p.1 p.2

def Tag.ofValue? : Value → Option Tag
  | .str s => Tag.all.find? (·.name = s)
  | _ => none

/-- The message that an object describes. -/
def Message.check (fields : Assoc Value) : Check Message :=
  match Assoc.get? "type" fields with
  | none => .fail .untagged
  | some v =>
    match Tag.ofValue? v with
    | some tag => (Message.checkAs fields tag).under (.key tag.name)
    | none => .fail (.unknownTag v.display (Tag.all.map Tag.name))

def Message.ofValue : Value → Check Message
  | .obj fields => Message.check fields
  | _ => .fail .notFields

end ComponentStream.Protocol
