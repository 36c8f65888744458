import ComponentStream.Stream.Record

/-!
# Chunks to records

Bytes arrive in chunks that know nothing of records.  A record ends with the newline byte, which occurs inside
no multi-byte character; what follows the last newline waits in a buffer for the next chunk.

Several buffers may feed one tree, each a stream of its own: a reply to an action is read beside the main
stream and changes the same tree.

* `splitRecords` — the complete records of a byte string and the unfinished rest;
* `processAll` — records applied one after the other;
* `Intake` — a tree, its limits and the buffers that feed it, with `feed`, `flush`, `fork` and `reset`;
* `Intake.drain` — several chunks and the end of the stream;
* `documentTree`, `parseDocument`, `parseStream` — whole texts and whole lists of chunks.
-/

namespace ComponentStream.Stream

open Protocol (Limits Message)

/-! ### Records in bytes -/

def newline : UInt8 := 0x0A

/-- The records that end within a byte string, and the bytes after the last of them. -/
def splitRecords : List UInt8 → List (List UInt8) × List UInt8
  | [] => ([], [])
  | b :: bs =>
    let (records, rest) := splitRecords bs
    if b = newline then ([] :: records, rest)
    else
      match records with
      | [] => ([], b :: rest)
      | r :: records => ((b :: r) :: records, rest)

def processAll (limits : Limits) : Tree → List (List UInt8) → Tree × List Verdict
  | t, [] => (t, [])
  | t, r :: records =>
    let (t, v) := processRecord limits t r
    let (t, vs) := processAll limits t records
    (t, v :: vs)

def accepted (vs : List Verdict) : List Message := vs.filterMap Verdict.message?

/-! ### Buffers over one tree -/

/-- A tree with its limits and the buffers that feed it, the first of which is the main stream. -/
structure Intake where
  limits : Limits
  tree : Tree
  buffers : List (List UInt8)

namespace Intake

/-- A given tree with one empty buffer. -/
def ofTree (limits : Limits) (t : Tree) : Intake := ⟨limits, t, [[]]⟩

def start (limits : Limits) : Intake := ofTree limits .empty

def buffer (i : Intake) (n : Nat) : List UInt8 := i.buffers.getD n []

/-- The unfinished record in a buffer, as text. -/
def pending (i : Intake) (n : Nat) : String := String.ofList (Text.Utf8.readLossy (i.buffer n))

/-- Receives a chunk in a buffer and applies the records that it completes. -/
def feed (i : Intake) (n : Nat) (chunk : List UInt8) : Intake × List Verdict :=
  let (records, rest) := splitRecords (i.buffer n ++ chunk)
  let (tree, verdicts) := processAll i.limits i.tree records
  ({ i with tree := tree, buffers := i.buffers.set n rest }, verdicts)

/-- Applies the record that a stream left without a newline when it ended. -/
def flush (i : Intake) (n : Nat) : Intake × List Verdict :=
  let (tree, verdict) := processRecord i.limits i.tree (i.buffer n)
  ({ i with tree := tree, buffers := i.buffers.set n [] }, [verdict])

/-- Opens one more buffer over the same tree. -/
def fork (i : Intake) : Intake := { i with buffers := i.buffers ++ [[]] }

/-- Empties a buffer and the tree; the other buffers keep what they hold. -/
def reset (i : Intake) (n : Nat) : Intake := { i with tree := .empty, buffers := i.buffers.set n [] }

/-- Applies a message outside of any stream, without checking it against the limits on records. -/
def apply (i : Intake) (m : Message) : Intake × Verdict :=
  let (tree, verdict) := applyMessage i.limits i.tree m
  ({ i with tree := tree }, verdict)

def feedAll (i : Intake) (n : Nat) : List (List UInt8) → Intake × List Verdict
  | [] => (i, [])
  | chunk :: chunks =>
    let (i, vs) := i.feed n chunk
    let (i, ws) := feedAll i n chunks
    (i, vs ++ ws)

/-- Receives several chunks in a buffer and then the end of the stream. -/
def drain (i : Intake) (n : Nat) (chunks : List (List UInt8)) : Intake × List Verdict :=
  let (i, vs) := i.feedAll n chunks
  let (i, ws) := i.flush n
  (i, vs ++ ws)

end Intake

/-! ### Whole inputs -/

/-- What a complete document makes of a tree; the document is given by its code points, among which there may be
unpaired surrogates, and a newline is added to it. -/
def documentTree (limits : Limits) (t : Tree) (points : List Nat) : Tree :=
  ((Intake.ofTree limits t).feed 0 (Text.Utf8.encodePoints (points ++ [newline.toNat]))).1.tree

def parseDocument (limits : Limits) (text : String) : Tree :=
  documentTree limits .empty (text.toList.map Char.toNat)

/-- The verdicts on everything that a finished stream of chunks holds. -/
def parseStream (limits : Limits) (chunks : List (List UInt8)) : List Verdict :=
  ((Intake.start limits).drain 0 chunks).2

end ComponentStream.Stream
