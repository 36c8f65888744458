import ComponentStream.Json.Reader
import ComponentStream.Protocol.Limits

/-!
# Settings

The engine is configured by named settings.  A setting that is given explicitly wins over one from the
environment, and one from the environment wins over the default.  Environment variables bear a prefix, may be
written in any case, and hold text; the list of allowed components is written in them as JSON.  All settings
are read leniently, and nothing is said of names that the engine does not know.

* `Settings`, `Settings.standard` — the settings and their defaults;
* `Settings.check` — the settings that an object describes, or every fault in it;
* `Settings.load` — the settings from explicit values and an environment;
* `Settings.limits` — the resource limits among them.
-/

namespace ComponentStream

open Json (Value)
open Shape (Check)
open Protocol (Limits fieldOr distinct)

/-- The configuration of an engine. -/
structure Settings where
  endpoint : String
  /-- The time in seconds that a read may take. -/
  requestTimeout : Float
  /-- The time in seconds that connecting may take. -/
  connectTimeout : Float
  /-- The number of failures that open the circuit breaker. -/
  breakerFailMax : Nat
  /-- The time in seconds for which the circuit breaker stays open. -/
  breakerResetTimeout : Nat
  logLevel : String
  jsonLogs : Bool
  maxComponents : Nat
  maxDepth : Nat
  maxPropsSize : Nat
  allowedComponents : List String
  enableActionLogging : Bool
  /-- Whether actions expect a streamed reply by default. -/
  streamActions : Bool

namespace Settings

/-- The settings of an engine about which nothing is said. -/
def standard : Settings where
  endpoint := "http://localhost:8000/api/a2ui"
  requestTimeout := 30
  connectTimeout := 5
  breakerFailMax := 5
  breakerResetTimeout := 30
  logLevel := "INFO"
  jsonLogs := false
  maxComponents := Limits.standard.maxComponents
  maxDepth := Limits.standard.maxDepth
  maxPropsSize := Limits.standard.maxPropsSize
  allowedComponents := Limits.standard.allowedTypes
  enableActionLogging := true
  streamActions := true

def names : List String :=
  ["endpoint", "request_timeout", "connect_timeout", "breaker_fail_max", "breaker_reset_timeout", "log_level",
    "json_logs", "max_components", "max_depth", "max_props_size", "allowed_components", "enable_action_logging",
    "stream_actions"]

open Shape.Lenient in
/-- The settings among some fields; the others do not matter. -/
def check (fields : Assoc Value) : Check Settings :=
  ((fieldOr fields "endpoint" string standard.endpoint).both
    ((fieldOr fields "request_timeout" positiveNumber standard.requestTimeout).both
      ((fieldOr fields "connect_timeout" positiveNumber standard.connectTimeout).both
        ((fieldOr fields "breaker_fail_max" positiveInteger standard.breakerFailMax).both
          ((fieldOr fields "breaker_reset_timeout" positiveInteger standard.breakerResetTimeout).both
            ((fieldOr fields "log_level" string standard.logLevel).both
              ((fieldOr fields "json_logs" boolean standard.jsonLogs).both
                ((fieldOr fields "max_components" positiveInteger standard.maxComponents).both
                  ((fieldOr fields "max_depth" positiveInteger standard.maxDepth).both
                    ((fieldOr fields "max_props_size" positiveInteger standard.maxPropsSize).both
                      ((fieldOr fields "allowed_components" (strings .notList) standard.allowedComponents).both
                        ((fieldOr fields "enable_action_logging" boolean standard.enableActionLogging).both
                          (fieldOr fields "stream_actions" boolean standard.streamActions))))))))))))).map
    fun (endpoint, request, connect, failMax, reset, level, json, components, depth, size, types, logging, stream) =>
      ⟨endpoint, request, connect, failMax, reset, level, json, components, depth, size, types, logging, stream⟩

/-! ### The environment -/

/-- What stands before the name of a setting in the environment. -/
def envPrefix : String := "a2ui_"

/-- The setting that is written as JSON in the environment. -/
def structured : String := "allowed_components"

/-- The text of a setting in an environment; of names that differ in case alone the last one counts. -/
def envText? (env : Assoc String) (name : String) : Option String :=
  Assoc.get? (envPrefix ++ name) (Assoc.ofList (env.map fun e => (Text.lowerName e.1, e.2)))

/-- Why settings cannot be loaded. -/
inductive Fault where
  /-- A structured setting in the environment is not JSON. -/
  | unreadable (name : String)
  | invalid (faults : List Shape.Fault)

def unreadableMessage (name : String) : String :=
  "error parsing value for field \"" ++ name ++ "\" from source \"EnvSettingsSource\""

/-- A setting as the environment gives it; a structured one that is null is not given. -/
def envField (env : Assoc String) (name : String) : Except Fault (Assoc Value) :=
  match envText? env name with
  | none => .ok []
  | some text =>
    if name = structured then
      match Json.readIn .extended text.toList with
      | none => .error (.unreadable name)
      | some .null => .ok []
      | some v => .ok [(name, v)]
    else .ok [(name, .str text)]

/-- Several settings as the environment gives them. -/
def envFields (env : Assoc String) : List String → Except Fault (Assoc Value)
  | [] => .ok []
  | name :: rest => do
    let field ← envField env name
    let fields ← envFields env rest
    return field ++ fields

/-- The settings from an environment and explicit values. -/
def load (env : Assoc String) (explicit : Assoc Value) : Except Fault Settings := do
  let fields ← envFields env names
  match check (Assoc.merge fields explicit) with
  | .ok s => return s
  | .error faults => throw (.invalid faults)

/-! ### Limits -/

def limits (s : Settings) : Limits :=
  ⟨s.maxComponents, s.maxDepth, s.maxPropsSize, distinct s.allowedComponents⟩

end Settings

end ComponentStream
