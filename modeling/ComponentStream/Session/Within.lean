import ComponentStream.Session.Intake
import ComponentStream.Stream.Within

/-!
# Records in a session, within bounds on nesting

A record with too many levels raises a fault like any that the host raises: the chunk ends there, its remaining records
are lost and nothing is published.

* `takeRecordWithin`, `takeRecordsWithin` — records;
* `feedWithin`, `finishWithin` — chunks and the end of a stream.
-/

namespace ComponentStream.Session

open ComponentStream.Stream (Verdict processRecordWithin splitRecords)

variable (b : Json.Bounds) (tell : Teller)

def takeRecordWithin (bytes : List UInt8) : Act Verdict := fun s =>
  match processRecordWithin b s.intake.limits s.intake.tree bytes with
  | .error e => (s, .error (.other e.message))
  | .ok _ => takeRecord tell bytes s

/-- Applies records, then publishes the tree if a message was accepted, now or before. -/
def takeRecordsWithin : Bool → List (List UInt8) → Act Unit
  | accepted, [] => if accepted then publish tell else pure ()
  | accepted, r :: records => do
    let verdict ← takeRecordWithin b tell r
    takeRecordsWithin (accepted || verdict.message?.isSome) records

/-- Takes a chunk in through a buffer. -/
def feedWithin (n : Nat) (chunk : Chunk) : Act Unit := fun s =>
  takeRecordsWithin b tell false (splitRecords (s.intake.buffer n ++ chunk.bytes)).1 (receive n chunk s)

/-- Takes in the record that a stream left unfinished in a buffer. -/
def finishWithin (n : Nat) : Act Unit := fun s =>
  takeRecordsWithin b tell false [s.intake.buffer n] (setBuffer n [] s)

end ComponentStream.Session
