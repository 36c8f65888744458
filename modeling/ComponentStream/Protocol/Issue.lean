import ComponentStream.Protocol.Limits
import ComponentStream.Protocol.Message

/-!
# Accepting messages within limits

A record is accepted when it describes a message and that message keeps the limits.  Depth is checked on the
raw value, before anything else of a node is looked at; the remaining limits are checked on a well-formed node,
on each of its nodes from the top down, siblings from the last to the first.

* `Problem`, `Issue` — why a record is turned away, and where;
* `nodeIssues` — the issues of a well-formed node;
* `checkNode`, `checkMessage` — a node or message, or its issues.
-/

namespace ComponentStream.Protocol

open Json (Value)
open Shape (Check Segment Path)

/-! ### Issues -/

/-- Why a record is turned away. -/
inductive Problem where
  | notAnObject (kind : String)
  | shape (cause : Shape.Mismatch)
  | duplicateId (id : String)
  | typeNotAllowed (type : String)
  | propsTooLarge (size maximum : Nat)
  | tooDeep (depth maximum : Nat)
  deriving DecidableEq, Repr

def natText (n : Nat) : String := String.ofList (Nat.toDigits 10 n)

def Problem.message : Problem → String
  | .notAnObject kind => "Expected a JSON object, got " ++ kind
  | .shape cause => cause.message
  | .duplicateId id => "Duplicate component id '" ++ id ++ "'"
  | .typeNotAllowed type => "Component type '" ++ type ++ "' is not allowed"
  | .propsTooLarge size maximum =>
    "Props size " ++ natText size ++ " bytes exceeds maximum " ++ natText maximum ++ " bytes"
  | .tooDeep depth maximum =>
    "Component nesting depth " ++ natText depth ++ " exceeds maximum " ++ natText maximum

def Problem.limit? : Problem → Option LimitKind
  | .typeNotAllowed _ => some .allowedTypes
  | .propsTooLarge _ _ => some .maxPropsSize
  | .tooDeep _ _ => some .maxDepth
  | _ => none

/-- A problem and where it is. -/
structure Issue where
  path : Path
  problem : Problem
  deriving DecidableEq, Repr

/-- The place of an issue.  A node may have been found under any name, and the limits that it breaks are told
under that name as it is; what has no shape is told at its root or below. -/
def Issue.place (i : Issue) : String :=
  match i.problem with
  | .notAnObject _ => i.path.text
  | .shape _ => i.path.text
  | _ => i.path.joined

def Issue.text (i : Issue) : String := i.place ++ ": " ++ i.problem.message

def Issue.ofFault (f : Shape.Fault) : Issue := ⟨f.path, .shape f.cause⟩

/-! ### Limits of nodes -/

/-- The occurrence of a node in a tree: the node and the way to it. -/
abbrev Occurrence := Node × Path

/-- The children of an occurrence, each with the way to it, the first of which has the given index. -/
def childOccurrences (path : Path) : Nat → List Node → List Occurrence
  | _, [] => []
  | n, child :: rest => (child, path ++ [.key "children", .index n]) :: childOccurrences path (n + 1) rest

/-- The occurrences in a tree, siblings from the last to the first. -/
def occurrences (node : Node) (path : Path) : List Occurrence :=
  visit (fun o => (childOccurrences o.2 0 o.1.childList).reverse) node.count [(node, path)]

/-- The issue of an identifier that was seen before. -/
def idIssues (seen : List String) (o : Occurrence) : List Issue :=
  if seen.contains o.1.id then [⟨o.2 ++ [.key "id"], .duplicateId o.1.id⟩] else []

def typeIssues (limits : Limits) (o : Occurrence) : List Issue :=
  if limits.allows o.1.component.type then []
  else [⟨o.2 ++ [.key "type"], .typeNotAllowed o.1.component.type⟩]

def sizeIssues (limits : Limits) (props : Assoc Value) (path : Path) : List Issue :=
  let size := (Value.obj props).size
  if limits.maxPropsSize < size then [⟨path ++ [.key "props"], .propsTooLarge size limits.maxPropsSize⟩]
  else []

/-- The issues of occurrences, some identifiers having been seen before. -/
def occurrenceIssues (limits : Limits) : List String → List Occurrence → List Issue
  | _, [] => []
  | seen, o :: rest =>
    idIssues seen o ++ typeIssues limits o ++ sizeIssues limits o.1.component.props o.2
      ++ occurrenceIssues limits (o.1.id :: seen) rest

def nodeIssues (limits : Limits) (node : Node) (path : Path) : List Issue :=
  occurrenceIssues limits [] (occurrences node path)

def depthIssues (limits : Limits) (raw : Value) (path : Path) : List Issue :=
  let depth := rawDepth raw
  if limits.maxDepth < depth then [⟨path, .tooDeep depth limits.maxDepth⟩] else []

/-! ### Checks -/

/-- A result if it has no issues. -/
def whenClear {α : Type} (issues : List Issue) (a : α) : Except (List Issue) α :=
  if issues.isEmpty then .ok a else .error issues

/-- The node that a value describes, if it keeps the limits; `path` is where the value was found. -/
def checkNode (limits : Limits) (path : Path) (raw : Value) : Except (List Issue) Node :=
  match depthIssues limits raw path with
  | [] =>
    match Node.check raw with
    | .error faults => .error (faults.map Issue.ofFault)
    | .ok node => whenClear (nodeIssues limits node path) node
  | issues => .error issues

def messageIssues (limits : Limits) : Message → List Issue
  | .component data _ => nodeIssues limits data [.key "data"]
  | .update _ props => sizeIssues limits props []
  | _ => []

/-- The depth issue of a raw message; only component messages have one. -/
def messageDepthIssues (limits : Limits) (fields : Assoc Value) : List Issue :=
  match Assoc.get? "type" fields with
  | some (.str "component") => depthIssues limits ((Assoc.get? "data" fields).getD .null) [.key "data"]
  | _ => []

/-- The message that a value describes, if it keeps the limits. -/
def checkMessage (limits : Limits) : Value → Except (List Issue) Message
  | .obj fields =>
    match messageDepthIssues limits fields with
    | [] =>
      match Message.check fields with
      | .error faults => .error (faults.map Issue.ofFault)
      | .ok message => whenClear (messageIssues limits message) message
    | issues => .error issues
  | raw => .error [⟨[], .notAnObject raw.kindName⟩]

end ComponentStream.Protocol
