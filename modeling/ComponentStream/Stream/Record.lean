import ComponentStream.Json.Reader
import ComponentStream.Stream.Verdict

/-!
# Applying records to a tree

A record goes through decoding, checking and application.  Each stage may end it; the tree changes only in the
last one, and only when the verdict is *accepted*.

* `applyMessage` — a message that has the right shape;
* `processLine` — the text of a record;
* `processRecord` — the bytes of a record, blanks at its ends removed.
-/

namespace ComponentStream.Stream

open Protocol (Issue Limits Message Node)

/-! ### Messages -/

/-- Inserts a component unless the tree is full or the component would sit too deep. -/
def applyComponent (limits : Limits) (t : Tree) (node : Node) (complete : Option Bool) : Tree × Verdict :=
  if limits.maxComponents ≤ t.size ∨ limits.maxComponents < t.size + t.newIds node then
    (t, .dropped (.treeFull limits.maxComponents))
  else
    match t.placementDepth node with
    | .error e => (t, .refused e node)
    | .ok depth =>
      if limits.maxDepth < depth then (t, .dropped (.tooDeep node.id depth limits.maxDepth))
      else
        match t.insert node with
        | .error e => (t, .refused e node)
        | .ok t =>
          ({ t with version := t.version + 1, complete := t.complete || complete = some true },
            .accepted (.component node complete))

def applyMessage (limits : Limits) (t : Tree) : Message → Tree × Verdict
  | .component node complete => applyComponent limits t node complete
  | .update id props =>
    match t.mergeProps id props with
    | some t => ({ t with version := t.version + 1 }, .accepted (.update id props))
    | none => (t, .dropped (.unknownTarget id))
  | .remove id =>
    match t.remove? id with
    | some t => ({ t with version := t.version + 1 }, .accepted (.remove id))
    | none => (t, .accepted (.remove id))
  | .action data => (t, .accepted (.action data))
  | .error message recoverable => (t, .accepted (.error message recoverable))

/-! ### Records -/

/-- Checks and applies a decoded record; `line` is its text. -/
def processValue (limits : Limits) (t : Tree) (line : String) (raw : Json.Value) : Tree × Verdict :=
  match Protocol.checkMessage limits raw with
  | .error issues => (t, .dropped (.rejected issues line))
  | .ok message => applyMessage limits t message

def processLine (limits : Limits) (t : Tree) (line : List Char) : Tree × Verdict :=
  match Json.read line with
  | none => (t, .dropped (.badJson (String.ofList line)))
  | some raw => processValue limits t (String.ofList line) raw

/-- The bytes that are removed from the ends of a record: the blank and the controls from tab to carriage
return. -/
def isBlankByte (b : UInt8) : Bool := b = 0x20 || (0x09 ≤ b && b ≤ 0x0D)

/-- A record without the blank bytes at its ends. -/
def strip (bytes : List UInt8) : List UInt8 :=
  ((bytes.dropWhile isBlankByte).reverse.dropWhile isBlankByte).reverse

/-- Decodes and applies the bytes of a record. -/
def processRecord (limits : Limits) (t : Tree) (bytes : List UInt8) : Tree × Verdict :=
  let record := strip bytes
  if record.isEmpty then (t, .blank)
  else
    match Text.Utf8.read record with
    | .error offset =>
      (t, .dropped (.badEncoding offset (String.ofList (Text.Utf8.readLossy record))))
    | .ok line => processLine limits t line

end ComponentStream.Stream
