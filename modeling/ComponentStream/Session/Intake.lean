import ComponentStream.Session.Control

/-!
# Records in a session

A chunk of a stream is cut into records, and the records are applied one after the other, each with its counters and
its call to the host.  The tree is published once for a chunk that brought an accepted message.  A fault that the
host raises ends the chunk: its remaining records are lost and nothing is published.

* `Chunk` — a piece of a stream, of which only bytes are counted;
* `deliver` — what the host hears about a record;
* `takeRecords`, `feed`, `finish` — records, chunks and the end of a stream.
-/

namespace ComponentStream.Session

open ComponentStream.Stream (Intake Report Verdict processRecord splitRecords)

/-- A piece of a stream. -/
structure Chunk where
  bytes : List UInt8
  /-- Whether it arrived as bytes, which are counted, and not as text. -/
  raw : Bool
  deriving DecidableEq, Repr

/-- Tells the host about a record; a fault that the message source cannot recover from is remembered. -/
def deliver (tell : Teller) : Option Report → Act Unit
  | none => pure ()
  | some (.warning w) => tell (.warning w)
  | some (.backend message recoverable) => do
    Act.change fun s => { s with terminal := s.terminal || !recoverable }
    report tell (.backend message recoverable)
  | some (.invariant e _) => report tell (.invariant e)

def takeRecord (tell : Teller) (bytes : List UInt8) : Act Verdict := fun s =>
  let (tree, verdict) := processRecord s.intake.limits s.intake.tree bytes
  let s := { s with
    intake := { s.intake with tree := tree }
    metrics := s.metrics.addAll verdict.faultCounters }
  match deliver tell verdict.report? s with
  | (s, .ok ()) => ({ s with metrics := s.metrics.addAll verdict.messageCounters }, .ok verdict)
  | (s, .error fault) => (s, .error fault)

/-- Applies records, then publishes the tree if a message was accepted, now or before. -/
def takeRecords (tell : Teller) : Bool → List (List UInt8) → Act Unit
  | accepted, [] => if accepted then publish tell else pure ()
  | accepted, r :: records => do
    let verdict ← takeRecord tell r
    takeRecords tell (accepted || verdict.message?.isSome) records

def setBuffer (n : Nat) (bytes : List UInt8) (s : Session) : Session :=
  { s with intake := { s.intake with buffers := s.intake.buffers.set n bytes } }

def byteCounter : Counter := ⟨.streamBytes, []⟩

/-- Counts a chunk and leaves its unfinished end in a buffer. -/
def receive (n : Nat) (chunk : Chunk) (s : Session) : Session :=
  setBuffer n (splitRecords (s.intake.buffer n ++ chunk.bytes)).2
    (if chunk.raw then s.count byteCounter chunk.bytes.length else s)

/-- Takes a chunk in through a buffer. -/
def feed (tell : Teller) (n : Nat) (chunk : Chunk) : Act Unit := fun s =>
  takeRecords tell false (splitRecords (s.intake.buffer n ++ chunk.bytes)).1 (receive n chunk s)

/-- Takes in the record that a stream left unfinished in a buffer. -/
def finish (tell : Teller) (n : Nat) : Act Unit := fun s =>
  takeRecords tell false [s.intake.buffer n] (setBuffer n [] s)

end ComponentStream.Session
