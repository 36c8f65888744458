import ComponentStream.Number.Format

/-!
# Metrics

The engine counts what it does.  Every counter belongs to a family; a family with labels has one counter for
each combination of label values, in the order in which they were first used.  Session durations are kept as
they were observed, and the gauge says how many sessions are active.

* `Family` — the families of counters, with their names, labels and descriptions;
* `Metrics` — all counters, durations and the gauge;
* `Metrics.increases` — every counter that is not zero, by name and labels;
* `Metrics.exposition` — the lines of the text format in which metrics are published.
-/

namespace ComponentStream

/-- A family of counters. -/
inductive Family where
  | streamMessages | parserWarnings | streamBytes | sessions | actions | placeholders | propsFailures
  deriving DecidableEq, Repr

namespace Family

def name : Family → String
  | .streamMessages => "a2ui_stream_messages_total"
  | .parserWarnings => "a2ui_parser_warnings_total"
  | .streamBytes => "a2ui_stream_bytes_total"
  | .sessions => "a2ui_sessions_total"
  | .actions => "a2ui_actions_total"
  | .placeholders => "a2ui_render_placeholders_total"
  | .propsFailures => "a2ui_props_validation_failures_total"

def description : Family → String
  | .streamMessages => "Stream messages applied, by message type"
  | .parserWarnings => "Records dropped or ignored by the stream parser, by fault kind"
  | .streamBytes => "Response bytes received from the backend"
  | .sessions => "Streaming sessions, by outcome"
  | .actions => "User actions sent to the backend"
  | .placeholders => "Nodes rendered as placeholders, by reason"
  | .propsFailures => "Nodes rendered with unvalidated props"

def labels : Family → List String
  | .streamMessages => ["type"]
  | .parserWarnings => ["kind"]
  | .streamBytes => []
  | .sessions => ["outcome"]
  | .actions => ["mode", "status"]
  | .placeholders => ["reason"]
  | .propsFailures => ["type"]

end Family

/-- A counter: a family and the values of its labels. -/
structure Counter where
  family : Family
  values : List String
  deriving DecidableEq, Repr

/-- Everything that is counted. -/
structure Metrics where
  /-- The counters in use, in order of first use. -/
  counts : List (Counter × Nat)
  /-- The durations of finished sessions in seconds, the latest last. -/
  durations : List Float
  /-- The number of active sessions. -/
  active : Nat

namespace Metrics

def empty : Metrics := ⟨[], [], 0⟩

def addTo (c : Counter) (n : Nat) : List (Counter × Nat) → List (Counter × Nat)
  | [] => [(c, n)]
  | (c', m) :: rest => if c' = c then (c', m + n) :: rest else (c', m) :: addTo c n rest

def add (m : Metrics) (c : Counter) (n : Nat) : Metrics := { m with counts := addTo c n m.counts }

/-- What is said of an attempt to count downwards. -/
def decreaseMessage : String := "Counters can only be incremented by non-negative amounts."

def addAll (m : Metrics) (cs : List Counter) : Metrics := cs.foldl (fun m c => m.add c 1) m

def value (m : Metrics) (c : Counter) : Nat :=
  match m.counts.find? (·.1 = c) with
  | some (_, n) => n
  | none => 0

def finishSession (m : Metrics) (outcome : String) (seconds : Float) : Metrics :=
  { m.add ⟨.sessions, [outcome]⟩ 1 with durations := m.durations ++ [seconds] }

def enterSession (m : Metrics) : Metrics := { m with active := m.active + 1 }

def leaveSession (m : Metrics) : Metrics := { m with active := m.active - 1 }

/-! ### Increases -/

def label (c : Counter) : String :=
  c.family.name ++ "\x7b" ++ ",".intercalate ((c.family.labels.zip c.values).map fun e => e.1 ++ "=" ++ e.2) ++ "\x7d"

/-- Every counter that has counted something, and the gauge if a session is active. -/
def increases (m : Metrics) : List (String × Nat) :=
  ((m.counts.filter fun e => e.2 != 0).map fun e => (label e.1, e.2))
    ++ if m.active = 0 then [] else [("a2ui_active_sessions\x7b\x7d", m.active)]

/-! ### Publication -/

/-- Doubles are published in fixed notation from 10⁻⁴ up to 10⁶ and, with a sign and at least two digits in the
exponent, beyond. -/
def numberFormat : Number.Format :=
  { fixedFrom := -4, fixedTo := 5, plus := true, exponentWidth := 2, infinity := "+Inf", undefined := "NaN" }

/-- A double in published text; between 10⁶ and 10¹⁶ the exponent is written after a zero. -/
def numberText (x : Float) : String :=
  let text := numberFormat.write x
  if 1000000 ≤ x ∧ x < 1e16 then
    let (mantissa, exponent) := text.span (· != '+')
    String.ofList (mantissa ++ '+' :: '0' :: (exponent.drop 1).dropWhile (· == '0'))
  else if x ≤ -1000000 ∧ -1e16 < x then
    String.ofList ({ numberFormat with fixedTo := 15 }.write x)
  else String.ofList text

/-- A label value with backslashes, line ends and quotes escaped. -/
def escapeValue (s : String) : String :=
  String.ofList (s.toList.flatMap fun c =>
    if c = '\\' then ['\\', '\\'] else if c = '\n' then ['\\', 'n'] else if c = '"' then ['\\', '"'] else [c])

/-- Labels in braces, nothing if there are none. -/
def labelText (es : List (String × String)) : String :=
  if es.isEmpty then ""
  else "\x7b" ++ ",".intercalate (es.map fun e => e.1 ++ "=\"" ++ escapeValue e.2 ++ "\"") ++ "\x7d"

/-- The two lines that introduce a metric. -/
def heading (name description kind : String) : List String :=
  ["# HELP " ++ name ++ " " ++ description, "# TYPE " ++ name ++ " " ++ kind]

/-- The lines of a family; without labels there is always one counter. -/
def familyLines (m : Metrics) (f : Family) : List String :=
  heading f.name f.description "counter"
    ++ if f.labels.isEmpty then [f.name ++ " " ++ numberText (Float.ofNat (m.value ⟨f, []⟩))]
       else (m.counts.filter fun e => e.1.family = f).map fun e =>
         f.name ++ labelText (f.labels.zip e.1.values) ++ " " ++ numberText (Float.ofNat e.2)

def bounds : List Float := [0.1, 0.5, 1.0, 2.5, 5.0, 10.0, 30.0, 60.0]

/-- The lines of the session durations: the number of sessions up to each bound, all of them, and the sum. -/
def durationLines (m : Metrics) : List String :=
  let name := "a2ui_session_duration_seconds"
  let upTo := fun bound : Float => numberText (Float.ofNat (m.durations.filter (· ≤ bound)).length)
  let all := numberText (Float.ofNat m.durations.length)
  heading name "Streaming session duration in seconds" "histogram"
    ++ (bounds.map fun b => name ++ "_bucket" ++ labelText [("le", numberText b)] ++ " " ++ upTo b)
    ++ [name ++ "_bucket" ++ labelText [("le", "+Inf")] ++ " " ++ all, name ++ "_count " ++ all,
        name ++ "_sum " ++ numberText (m.durations.foldl (· + ·) 0)]

def activeLines (m : Metrics) : List String :=
  heading "a2ui_active_sessions" "Sessions currently streaming" "gauge"
    ++ ["a2ui_active_sessions " ++ numberText (Float.ofNat m.active)]

def exposition (m : Metrics) : List String :=
  m.familyLines .streamMessages ++ m.familyLines .parserWarnings ++ m.familyLines .streamBytes
    ++ m.familyLines .sessions ++ m.durationLines ++ m.activeLines ++ m.familyLines .actions
    ++ m.familyLines .placeholders ++ m.familyLines .propsFailures

end Metrics

end ComponentStream
