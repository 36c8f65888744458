import ComponentStream.Render.Tree

/-!
# User events

The host triggers the handlers of elements.  A handler asks for an emission, the emission becomes an action if
the wire accepts it, and the action goes to whoever listens.  Every emission takes the next timestamp, whether
it becomes an action or not, so timestamps increase strictly across all renderers that share a clock.

* `Clock` — the next timestamp;
* `emit` — an emission as an action;
* `locate` — the handler that a host means by a component, a path, a tag and an event;
* `trigger` — what comes of triggering it.
-/

namespace ComponentStream.Render

open Json (Value)
open Protocol (Action)

/-- A counter of timestamps in milliseconds: the next one. -/
structure Clock where
  next : Int
  deriving DecidableEq, Repr

/-- A clock that starts at a time in seconds, cut to whole milliseconds. -/
def Clock.ofSeconds (seconds : Float) : Clock := ⟨(Number.truncate? (seconds * 1000)).getD 0⟩

/-- The object that an emission amounts to at a time. -/
def Emission.toValue (e : Emission) (timestamp : Int) : Value :=
  .obj [("type", e.type), ("componentId", .str e.componentId), ("payload", e.payload), ("timestamp", .int timestamp)]

/-- An emission as an action, if the wire accepts its type and payload; the clock moves on in any case. -/
def emit (clock : Clock) (e : Emission) : Clock × Option Action :=
  (⟨clock.next + 1⟩,
    match Action.check (e.toValue clock.next) with
    | .ok action => some action
    | .error _ => none)

def invalidEmission : Counter := ⟨.actions, ["render", "invalid"]⟩

/-! ### Finding a handler -/

/-- Why there is no handler to run. -/
inductive Obstacle where
  /-- There is no such component or no element with the tag. -/
  | missing
  /-- The component is not an element. -/
  | notElement
  /-- The path leads past the children of an element. -/
  | offPath
  /-- The element does not handle the event. -/
  | unknownEvent
  /-- The handler takes another number of arguments. -/
  | wrongArguments
  deriving DecidableEq, Repr

/-- The output at the end of a path of child indexes. -/
def walkPath : Output → List Nat → Except Obstacle Output
  | o, [] => .ok o
  | .plain _, _ :: _ => .error .notElement
  | .native _, _ :: _ => .error .notElement
  | .element _ _ _ children _, n :: path =>
    match children[n]? with
    | some child => walkPath child path
    | none => .error .offPath

/-- The first element with a tag below an output, or the output itself if no tag is asked for. -/
def seek (tag : Option String) (o : Output) : Except Obstacle Output :=
  match tag, o with
  | none, o => .ok o
  | some _, .plain _ => .error .notElement
  | some _, .native _ => .error .notElement
  | some tag, o =>
    match o.find? tag with
    | some found => .ok found
    | none => .error .missing

/-- The handler of an event. -/
def handlerOf (event : String) : Output → Except Obstacle Handler
  | .plain _ => .error .notElement
  | .native _ => .error .notElement
  | .element _ _ _ _ handlers =>
    match Assoc.get? event handlers with
    | some handler => .ok handler
    | none => .error .unknownEvent

/-- An event on an element of a rendered component. -/
structure Target where
  id : String
  path : List Nat
  tag : Option String
  event : String

/-- The handler that a target means. -/
def locate (rendered : List Rendered) (t : Target) : Except Obstacle Handler :=
  match Rendered.findAll? t.id rendered with
  | none => .error .missing
  | some r => do
    let o ← walkPath r.output t.path
    let o ← seek t.tag o
    handlerOf t.event o

/-! ### Triggering -/

/-- What comes of an event. -/
inductive Outcome where
  /-- An action is sent. -/
  | sent (action : Action)
  /-- The wire does not accept the emission. -/
  | invalid
  /-- The handler emits nothing. -/
  | nothing
  | blocked (obstacle : Obstacle)

/-- Triggers an event with arguments. -/
def trigger (clock : Clock) (rendered : List Rendered) (t : Target) (args : List Value) : Clock × Outcome :=
  match locate rendered t with
  | .error obstacle => (clock, .blocked obstacle)
  | .ok handler =>
    match handler.run args with
    | none => (clock, .blocked .wrongArguments)
    | some none => (clock, .nothing)
    | some (some e) =>
      match emit clock e with
      | (clock, some action) => (clock, .sent action)
      | (clock, none) => (clock, .invalid)

def Outcome.counters : Outcome → List Counter
  | .invalid => [invalidEmission]
  | _ => []

end ComponentStream.Render
