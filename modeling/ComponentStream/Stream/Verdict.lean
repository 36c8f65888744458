import ComponentStream.Metrics
import ComponentStream.Protocol.Issue
import ComponentStream.Tree.Edit

/-!
# What becomes of a record

Every record of the stream gets one verdict.  A blank record is passed over; a record that cannot be used is
*dropped* with a warning; a component that would break the tree is *refused*; anything else is *accepted* and
has been applied.  Reports to the host and counters follow from the verdict alone.

* `Warning` — why a record was dropped, with its kind, wording and details;
* `Verdict` — what became of a record;
* `Report`, `Verdict.report?` — the one report that a verdict causes, if any;
* `Verdict.counters` — what a verdict adds to the metrics.
-/

namespace ComponentStream.Stream

open Protocol (Issue LimitKind Message Node natText)

/-- Kinds of faults in a stream. -/
inductive FaultKind where
  | decode | schema | limit | missingTarget | backend | invariant
  deriving DecidableEq, Repr

def FaultKind.name : FaultKind → String
  | .decode => "decode"
  | .schema => "schema"
  | .limit => "limit"
  | .missingTarget => "missing_target"
  | .backend => "backend"
  | .invariant => "invariant"

/-! ### Warnings -/

/-- Why a record was dropped. -/
inductive Warning where
  /-- The record is not UTF-8 from a byte offset on; the text is what could be read of it. -/
  | badEncoding (offset : Nat) (line : String)
  /-- The record is not one JSON value. -/
  | badJson (line : String)
  /-- The record is no message, or one beyond the limits. -/
  | rejected (issues : List Issue) (line : String)
  /-- The tree is full. -/
  | treeFull (maximum : Nat)
  /-- A component would sit too deep. -/
  | tooDeep (id : String) (depth maximum : Nat)
  /-- An update for a component that is not stored. -/
  | unknownTarget (id : String)
  deriving DecidableEq

namespace Warning

/-- The first limit that some issue breaks. -/
def brokenLimit? (issues : List Issue) : Option LimitKind := issues.findSome? (·.problem.limit?)

def limit? : Warning → Option LimitKind
  | .rejected issues _ => brokenLimit? issues
  | .treeFull _ => some .maxComponents
  | .tooDeep _ _ _ => some .maxDepth
  | _ => none

/-- The kind of a warning: a broken limit outweighs faults of shape. -/
def kind : Warning → FaultKind
  | .badEncoding _ _ => .decode
  | .badJson _ => .decode
  | .rejected issues _ => if (brokenLimit? issues).isSome then .limit else .schema
  | .treeFull _ => .limit
  | .tooDeep _ _ _ => .limit
  | .unknownTarget _ => .missingTarget

/-- The issues of a rejected record, one line each. -/
def errors : Warning → List String
  | .rejected issues _ => issues.map Issue.text
  | _ => []

/-- The text of the record, where it is told. -/
def line? : Warning → Option String
  | .badEncoding _ line => some line
  | .badJson line => some line
  | .rejected _ line => some line
  | _ => none

def message : Warning → String
  | .badEncoding offset _ => "Invalid UTF-8 at byte " ++ natText offset
  | .badJson _ => "Parse error: Invalid JSON"
  | .rejected issues _ =>
    let reasons := ", ".intercalate (issues.map Issue.text)
    match brokenLimit? issues with
    | some limit => "Limit exceeded (" ++ limit.name ++ "): " ++ reasons
    | none => "Invalid message: " ++ reasons
  | .treeFull maximum => "Max components limit reached (" ++ natText maximum ++ ")"
  | .tooDeep id depth maximum =>
    "Component '" ++ id ++ "' would sit at depth " ++ natText depth ++ ", maximum is " ++ natText maximum
  | .unknownTarget id => "Update for unknown component '" ++ id ++ "'"

end Warning

/-! ### Verdicts -/

/-- What became of a record. -/
inductive Verdict where
  | blank
  | dropped (warning : Warning)
  | refused (error : Tree.Error) (node : Node)
  | accepted (message : Message)

/-- What the host is told. -/
inductive Report where
  | warning (warning : Warning)
  /-- The message source reports a fault of its own; one that is not recoverable ends the session. -/
  | backend (message : String) (recoverable : Bool)
  /-- A component was refused. -/
  | invariant (error : Tree.Error) (node : Node)

namespace Verdict

def report? : Verdict → Option Report
  | .blank => none
  | .dropped warning => some (.warning warning)
  | .refused error node => some (.invariant error node)
  | .accepted (.error message recoverable) => some (.backend message (recoverable = some true))
  | .accepted _ => none

def message? : Verdict → Option Message
  | .accepted message => some message
  | _ => none

def faultCounter (k : FaultKind) : Counter := ⟨.parserWarnings, [k.name]⟩

def messageCounter (m : Message) : Counter := ⟨.streamMessages, [m.tag.name]⟩

def faultCounters : Verdict → List Counter
  | .blank => []
  | .dropped warning => [faultCounter warning.kind]
  | .refused _ _ => [faultCounter .invariant]
  | .accepted (.error _ _) => [faultCounter .backend]
  | .accepted _ => []

def messageCounters : Verdict → List Counter
  | .accepted message => [messageCounter message]
  | _ => []

/-- All counters that a verdict adds one to, the fault before the message. -/
def counters (v : Verdict) : List Counter := v.faultCounters ++ v.messageCounters

end Verdict

end ComponentStream.Stream
