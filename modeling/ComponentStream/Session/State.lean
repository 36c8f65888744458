import ComponentStream.Render.Trigger
import ComponentStream.Stream.Feed
import ComponentStream.Transport.Breaker

/-!
# The state of a session

A session drives one stream at a time into one tree and sends the actions of the user.  Each connect starts a new
*generation*; each disconnect ends an *epoch*, and a task is current as long as neither has moved on since it was
started.  The session is plain data: its tasks are listed with what they wait for, and everything that the host has
been told is kept in order.

* `Status`, `Fault` — the states of a session and what can go wrong;
* `Snapshot`, `Call` — what the host is told;
* `Work`, `Phase`, `Task` — what the session has under way;
* `Session` — all of it, with `Session.snapshot` and `Session.body`.
-/

namespace ComponentStream

open Json (Value)
open Protocol (Action Limits Node)
open ComponentStream.Stream (Intake)

namespace Session

/-- The states of a session. -/
inductive Status where
  | idle | connecting | streaming | connected | error
  deriving DecidableEq, Repr

def Status.name : Status → String
  | .idle => "idle"
  | .connecting => "connecting"
  | .streaming => "streaming"
  | .connected => "connected"
  | .error => "error"

/-- Whether a stream is on its way. -/
def Status.isStreaming (s : Status) : Bool := s = .connecting || s = .streaming

/-- Whether a stream has been accepted and has not failed. -/
def Status.isConnected (s : Status) : Bool := s = .streaming || s = .connected

/-- What can go wrong in a session. -/
inductive Fault where
  /-- The message source reports a fault of its own. -/
  | backend (message : String) (recoverable : Bool)
  /-- A component would break the tree. -/
  | invariant (error : Tree.Error)
  /-- A request failed. -/
  | connection (failure : Transport.Failure)
  /-- Anything else, the host's own failures among it. -/
  | other (message : String)
  deriving DecidableEq

def Fault.isConnection : Fault → Bool
  | .connection _ => true
  | _ => false

/-! ### What the host is told -/

/-- What a host needs to render and to watch a session. -/
structure Snapshot where
  status : Status
  generation : Nat
  version : Nat
  roots : List Node
  complete : Bool
  lastError : Option Fault

/-- The three kinds of call to the host. -/
inductive CallKind where
  | update | error | warning
  deriving DecidableEq, Repr

/-- A call to the host. -/
inductive Call where
  | update (snapshot : Snapshot)
  | error (fault : Fault)
  | warning (warning : Stream.Warning)

def Call.kind : Call → CallKind
  | .update _ => .update
  | .error _ => .error
  | .warning _ => .warning

/-! ### Tasks -/

/-- The moment at which a task was started: it is current while the session has not moved on. -/
structure Stint where
  generation : Nat
  epoch : Nat
  deriving DecidableEq, Repr

/-- What a task does. -/
inductive Work where
  /-- Reads the main stream. -/
  | main (stint : Stint)
  /-- Sends an action and reads the stream that answers it. -/
  | reply (stint : Stint)
  /-- Sends an action and waits for no answer. -/
  | post
  deriving DecidableEq, Repr

def Work.isAction : Work → Bool
  | .main _ => false
  | _ => true

/-- How a task ended. -/
inductive Ending where
  | done | cancelled
  | raised (fault : Fault)
  deriving DecidableEq

/-- How far a task has come. -/
inductive Phase where
  /-- Started, but it has not run yet. -/
  | fresh
  /-- It waits for the response; its records will go through the buffer with the given number. -/
  | opening (buffer : Nat)
  /-- It reads the body of the response. -/
  | reading (buffer : Nat)
  /-- It waits for a plain request to be answered. -/
  | posting
  | over (ending : Ending)
  deriving DecidableEq

/-- Something that the session has under way. -/
structure Task where
  work : Work
  body : Assoc Value
  phase : Phase
  /-- Whether the task is to be cancelled at the next opportunity. -/
  cancelRequested : Bool

def Task.isOver (t : Task) : Bool :=
  match t.phase with
  | .over _ => true
  | _ => false

/-- A task that has not run yet. -/
def Task.start (work : Work) (body : Assoc Value) : Task := ⟨work, body, .fresh, false⟩

/-! ### Outcomes -/

/-- How a main stream came to its end, for the metrics. -/
inductive Outcome where
  | completed | superseded | backendError | connectionFailed | cancelled | failed
  deriving DecidableEq, Repr

def Outcome.name : Outcome → String
  | .completed => "completed"
  | .superseded => "superseded"
  | .backendError => "backend_error"
  | .connectionFailed => "connection_failed"
  | .cancelled => "cancelled"
  | .failed => "failed"

/-- The choices of the host about actions. -/
structure Options where
  /-- Whether actions expect a streamed reply unless they say otherwise. -/
  streamActions : Bool
  /-- Whether actions go to the log. -/
  logActions : Bool
  deriving DecidableEq, Repr

/-- Streamed replies and logged actions. -/
def Options.standard : Options := ⟨true, true⟩

end Session

open Session

/-- A session with everything that belongs to it. -/
structure Session where
  registry : Registry
  options : Options
  status : Status
  generation : Nat
  epoch : Nat
  /-- The tree and the buffers over it, the first of which belongs to the main stream. -/
  intake : Intake
  /-- The roots of the tree as they were last published. -/
  roots : List Node
  /-- The version of the tree as it was last published. -/
  version : Nat
  lastError : Option Fault
  /-- Whether the message source has reported a fault that it cannot recover from. -/
  terminal : Bool
  /-- The task that reads the main stream. -/
  mainTask : Option Nat
  tasks : List Task
  /-- Everything that the host has been told. -/
  calls : List Call
  /-- The clock that all renderers of the session share. -/
  clock : Render.Clock
  metrics : Metrics

namespace Session

def start (registry : Registry) (limits : Limits) (options : Options) (clock : Render.Clock) : Session :=
  ⟨registry, options, .idle, 0, 0, .start limits, [], 0, none, false, none, [], [], clock, .empty⟩

/-- What the host may know at any time. -/
def snapshot (s : Session) : Snapshot :=
  ⟨s.status, s.generation, s.version, s.roots, s.intake.tree.complete, s.lastError⟩

def stint (s : Session) : Stint := ⟨s.generation, s.epoch⟩

/-- Whether a task that was started at some moment still counts. -/
def isCurrent (s : Session) (t : Stint) : Bool := t = s.stint

/-- Whether the epoch of a task has ended. -/
def isCancelled (s : Session) (t : Stint) : Bool := decide (t.epoch ≠ s.epoch)

/-- The body of a request: the fields of the host, a message or an action, and the vocabulary. -/
def body (s : Session) (message : Option String) (action : Option Action) (extra : Assoc Value)
    (vocabulary : Bool) : Assoc Value :=
  let fields := match message with
    | some text => Assoc.insert "message" (.str text) extra
    | none => extra
  let fields := match action with
    | some a => Assoc.insert "action" a.toWire fields
    | none => fields
  if vocabulary then Assoc.insert "components" (Registry.describe s.registry) fields else fields

def changeTask (s : Session) (id : Nat) (f : Task → Task) : Session := { s with tasks := s.tasks.modify id f }

def setPhase (s : Session) (id : Nat) (p : Phase) : Session := s.changeTask id fun t => { t with phase := p }

/-- Ends a task: one that returns although it was to be cancelled counts as cancelled. -/
def endTask (s : Session) (id : Nat) (fault : Option Fault) : Session :=
  s.changeTask id fun t =>
    { t with phase := .over (match fault with
        | some f => .raised f
        | none => if t.cancelRequested then .cancelled else .done) }

/-- Ends a task that let itself be cancelled. -/
def cancelTask (s : Session) (id : Nat) : Session := s.setPhase id (.over .cancelled)

/-- Takes back the wish to cancel a task, because it is being carried out. -/
def clearRequest (s : Session) (id : Nat) : Session := s.changeTask id fun t => { t with cancelRequested := false }

def count (s : Session) (c : Counter) (n : Nat) : Session := { s with metrics := s.metrics.add c n }

end Session

end ComponentStream
