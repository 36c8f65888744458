import ComponentStream.Json.Bounds
import ComponentStream.Stream.Feed

/-!
# Records within bounds on nesting

What is raised when a record has too many levels is no fault of the kind that becomes a warning.  It ends the chunk: the
record has no verdict, the records behind it are lost, and what was done with those before it stays done.

* `described?`, `measured` — the message in a value, and the properties in it that are measured against the limits;
* `processRecordWithin`, `processAllWithin` — records, as far as nothing is raised;
* `Intake.feedWithin`, `Intake.flushWithin`, `Intake.feedAllWithin` — chunks and the ends of streams.
-/

namespace ComponentStream.Stream

open Json (Bounds Exhaustion Value)
open Protocol (Limits Message)

/-! ### Measured properties -/

/-- The message in a value, once its depth has been checked. -/
def described? (limits : Limits) : Value → Option Message
  | .obj fields =>
    if (Protocol.messageDepthIssues limits fields).isEmpty then (Message.check fields).toOption else none
  | _ => none

/-- The properties in a message whose size is compared with the limit. -/
def measured : Message → List (Assoc Value)
  | .component data _ => (Protocol.occurrences data []).map fun o => o.1.component.props
  | .update _ props => [props]
  | _ => []

/-- Whether everything can be measured that has to be. -/
def isMeasurable (levels : Nat) (limits : Limits) (raw : Value) : Bool :=
  match described? limits raw with
  | some m => (measured m).all fun props => (Value.obj props).isWritable levels
  | none => true

/-! ### Records -/

section Records

variable (b : Bounds) (limits : Limits)

def processLineWithin (t : Tree) (line : List Char) : Except Exhaustion (Tree × Verdict) :=
  match Json.readWithin b.reading line with
  | .error .tooDeep => .error .reading
  | .error .malformed => .ok (t, .dropped (.badJson (String.ofList line)))
  | .ok raw =>
    if isMeasurable b.writing limits raw then .ok (processValue limits t (String.ofList line) raw)
    else .error .writing

/-- Decodes and applies the bytes of a record, unless it has too many levels. -/
def processRecordWithin (t : Tree) (bytes : List UInt8) : Except Exhaustion (Tree × Verdict) :=
  let record := strip bytes
  if record.isEmpty then .ok (t, .blank)
  else
    match Text.Utf8.read record with
    | .error offset =>
      .ok (t, .dropped (.badEncoding offset (String.ofList (Text.Utf8.readLossy record))))
    | .ok line => processLineWithin b limits t line

/-- Records one after the other, up to the first that has too many levels. -/
def processAllWithin : Tree → List (List UInt8) → Tree × List Verdict × Option Exhaustion
  | t, [] => (t, [], none)
  | t, r :: records =>
    match processRecordWithin b limits t r with
    | .error e => (t, [], some e)
    | .ok (t, v) =>
      let (t, vs, raised) := processAllWithin t records
      (t, v :: vs, raised)

end Records

/-! ### Chunks -/

namespace Intake

variable (b : Bounds)

/-- Receives a chunk in a buffer.  What comes after the last newline is in the buffer before any record is applied, and
stays there if one raises something. -/
def feedWithin (i : Intake) (n : Nat) (chunk : List UInt8) : Intake × List Verdict × Option Exhaustion :=
  let (records, rest) := splitRecords (i.buffer n ++ chunk)
  let (tree, verdicts, raised) := processAllWithin b i.limits i.tree records
  ({ i with tree := tree, buffers := i.buffers.set n rest }, verdicts, raised)

/-- Applies the record that a stream left without a newline when it ended. -/
def flushWithin (i : Intake) (n : Nat) : Intake × List Verdict × Option Exhaustion :=
  let (tree, verdicts, raised) := processAllWithin b i.limits i.tree [i.buffer n]
  ({ i with tree := tree, buffers := i.buffers.set n [] }, verdicts, raised)

/-- Several chunks, up to the first that raises something. -/
def feedAllWithin (i : Intake) (n : Nat) : List (List UInt8) → Intake × List Verdict × Option Exhaustion
  | [] => (i, [], none)
  | chunk :: chunks =>
    match i.feedWithin b n chunk with
    | (i, vs, some e) => (i, vs, some e)
    | (i, vs, none) =>
      let (i, ws, raised) := feedAllWithin i n chunks
      (i, vs ++ ws, raised)

end Intake

end ComponentStream.Stream
