import ComponentStream.Json.Display

/-!
# Logging

The engine writes a structured log: every line is an event with fields.  What is configured, which values fields
take and which fields a scope adds are decided here; the writing of lines is left to the host.

* `Level.number` — the numeric level that a name stands for;
* `Configuration` — the levels and formats that follow from a level name and a choice of format;
* `Field`, `shownField` — fields are written by value, members of a closed vocabulary by their name;
* `Scopes.seen` — the fields that are bound before, inside and after nested scopes.
-/

namespace ComponentStream.Log

open Json (Value)

/-! ### Levels -/

def levels : Assoc Nat :=
  [("NOTSET", 0), ("DEBUG", 10), ("INFO", 20), ("WARN", 30), ("WARNING", 30), ("ERROR", 40), ("FATAL", 50),
    ("CRITICAL", 50)]

/-- The level of ordinary events, which an unknown name stands for. -/
def info : Nat := 20

/-- The least level of the network libraries, which tell too much below it. -/
def quietest : Nat := 30

/-- A letter as a capital; the two letters outside ASCII with a capital in ASCII have it too. -/
def capital (c : Char) : Char :=
  if c = 'ı' then 'I' else if c = 'ſ' then 'S' else c.toUpper

/-- The number of the level with a name, written in any case. -/
def levelNumber (name : String) : Nat :=
  (Assoc.get? (String.ofList (name.toList.map capital)) levels).getD info

/-- What is written on each line. -/
inductive Format where
  | json | console
  deriving DecidableEq, Repr

def Format.renderer : Format → String
  | .json => "JSONRenderer"
  | .console => "ConsoleRenderer"

/-- How the log is set up. -/
structure Configuration where
  /-- The level of the engine. -/
  root : Nat
  /-- The level of the network libraries. -/
  network : Nat
  format : Format
  deriving DecidableEq, Repr

/-- The set-up for a level name and a choice of format. -/
def configure (level : String) (json : Bool) : Configuration :=
  ⟨levelNumber level, max (levelNumber level) quietest, if json then .json else .console⟩

/-! ### Fields -/

/-- A field of a log line. -/
inductive Field where
  /-- A member of a closed vocabulary, by name. -/
  | member (name : String)
  | value (v : Value)

def shownField : Field → Value
  | .member name => .str name
  | .value v => v

/-! ### Scopes -/

/-- The fields in force. -/
abbrev Fields := Assoc Value

def bind (scope bound : Fields) : Fields := Assoc.merge bound scope

/-- Leaves a scope: its fields go, the values that they hid do not come back. -/
def unbind (scope bound : Fields) : Fields := (Assoc.keys scope).foldl (fun m k => Assoc.erase k m) bound

/-- What is bound inside each of some nested scopes and after each of them, and what remains bound. -/
def nested : List Fields → Fields → List Fields × Fields
  | [], bound => ([], bound)
  | scope :: scopes, bound =>
    let inside := bind scope bound
    let (seen, bound) := nested scopes inside
    let outside := unbind scope bound
    (inside :: seen ++ [outside], outside)

/-- What is bound before some nested scopes, inside each of them and after each of them. -/
def seen (scopes : List Fields) : List Fields := [] :: (nested scopes []).1

end ComponentStream.Log
