import ComponentStream.Session.Host
import ComponentStream.Session.Step

/-!
# Sessions with a scripted backend

A loop runs the tasks of a session against a backend that follows a script: queued replies, and gates at which a
task waits until they are opened.  One task runs at a time, up to its next closed gate or its end, and tasks whose
turn it is wait in a queue, first come first served.

* `Cue`, `Reply` — what a task meets on its way, and the answer to a request;
* `Loop` — a session with its host, its backend and the queue;
* `Loop.play`, `Loop.wake` — a task from its turn to its next pause;
* `Loop.settle` — all turns, until every task has ended or waits;
* `Loop.control`, `Loop.openGate`, `Loop.close` — what can be done from outside.
-/

namespace ComponentStream.Session

open Json (Value)

/-! ### Scripts -/

/-- What a task meets next. -/
inductive Cue where
  /-- A gate; a stubborn task does not let itself be stopped while it waits. -/
  | wait (gate : String) (stubborn : Bool)
  /-- A chunk; unless it is insistent, the stream ends here when the epoch of its task has ended. -/
  | chunk (chunk : Chunk) (insistent : Bool)
  /-- Anything else that arrives. -/
  | arrive (a : Arrival)
  deriving DecidableEq

/-- The answer to a request that opens a stream. -/
structure Reply where
  /-- A gate before the answer, which is waited for in any case. -/
  gate : Option String
  cues : List Cue

/-- An accepted response with a body. -/
def Reply.response (gate : Option String) (records : Bool) (body : List Cue) : Reply :=
  ⟨gate, .arrive (.opened records) :: body ++ [.arrive .ended]⟩

/-- A request that comes to something else than a response. -/
def Reply.refusal (gate : Option String) (a : Arrival) : Reply := ⟨gate, [.arrive a]⟩

/-- The answer when nothing is scripted: a body without records. -/
def Reply.empty : Reply := .response none true []

/-- Everything that the task of a reply meets. -/
def Reply.script (r : Reply) : List Cue :=
  match r.gate with
  | some g => .wait g true :: r.cues
  | none => r.cues

/-! ### The loop -/

/-- A session, its host and its backend. -/
structure Loop where
  session : Session
  host : Host
  /-- The replies that wait for a request. -/
  replies : List Reply
  /-- How plain requests end. -/
  postOutcome : Arrival
  /-- The gates that are open. -/
  gates : List String
  /-- The bodies of the requests for a stream. -/
  requests : List (Assoc Value)
  /-- The bodies of the plain requests. -/
  posts : List (Assoc Value)
  /-- What the tasks that pause have before them. -/
  scripts : List (Nat × List Cue)
  /-- The tasks whose turn it is. -/
  ready : List Nat
  /-- The tasks that wait, each at its gate. -/
  waiting : List (Nat × String)
  /-- The number of tasks that have come to the queue. -/
  noticed : Nat
  /-- For each attempt to close the transport the tasks that it waits for. -/
  closers : List (List Nat)
  /-- Whether the transport is closed. -/
  closed : Bool

namespace Loop

/-- A session before anything has happened. -/
def start (session : Session) (host : Host) : Loop :=
  ⟨session, host, [], .posted, [], [], [], [], [], [], 0, [], false⟩

/-- Whether a task is to be stopped. -/
def isRequested (l : Loop) (id : Nat) : Bool :=
  match l.session.tasks[id]? with
  | some t => t.cancelRequested
  | none => false

def isOver (l : Loop) (id : Nat) : Bool :=
  match l.session.tasks[id]? with
  | some t => t.isOver
  | none => true

/-- Queues the tasks that have been asked to stop while they waited, and then the new ones. -/
def notice (l : Loop) : Loop :=
  let stopped := (l.waiting.filter fun w => l.isRequested w.1).map Prod.fst
  let fresh := (List.range l.session.tasks.length).drop l.noticed
  { l with
    ready := l.ready ++ stopped ++ fresh
    waiting := l.waiting.filter fun w => !l.isRequested w.1
    noticed := l.session.tasks.length }

def arrive (id : Nat) (a : Arrival) (l : Loop) : Loop :=
  notice { l with session := step l.host.tell id a l.session }

/-- Pauses a task at a closed gate; one that is to be stopped gets another turn at once. -/
def pause (id : Nat) (gate : String) (script : List Cue) (l : Loop) : Loop :=
  let l := { l with scripts := (id, script) :: l.scripts.filter (·.1 ≠ id) }
  if l.isRequested id then { l with ready := l.ready ++ [id] } else { l with waiting := l.waiting ++ [(id, gate)] }

def isCancelled (l : Loop) (id : Nat) : Bool :=
  match l.session.tasks[id]? with
  | some ⟨.main t, _, _, _⟩ => l.session.isCancelled t
  | some ⟨.reply t, _, _, _⟩ => l.session.isCancelled t
  | _ => false

/-- Runs a task through its script, to its end or to a closed gate. -/
def play (id : Nat) : List Cue → Loop → Loop
  | [], l => l
  | .wait gate stubborn :: cues, l =>
    if l.gates.contains gate then play id cues l else pause id gate (.wait gate stubborn :: cues) l
  | .chunk chunk insistent :: cues, l =>
    let l := arrive id (if l.isCancelled id && !insistent then .ended else .chunk chunk) l
    if l.isOver id then l else play id cues l
  | .arrive a :: cues, l =>
    let l := arrive id a l
    if l.isOver id then l else play id cues l

/-- The first turn of a task: it sends its request. -/
def launch (id : Nat) (t : Task) (l : Loop) : Loop :=
  let l := arrive id .start l
  match t.work with
  | .post => arrive id l.postOutcome { l with posts := l.posts ++ [t.body] }
  | _ =>
    let reply := l.replies.headD .empty
    play id reply.script { l with requests := l.requests ++ [t.body], replies := l.replies.drop 1 }

/-- The script that a pausing task has before it. -/
def scriptOf (l : Loop) (id : Nat) : List Cue :=
  match l.scripts.find? (·.1 = id) with
  | some (_, script) => script
  | none => []

/-- A later turn of a task: a stubborn one pays no heed to being asked to stop. -/
def resume (id : Nat) (t : Task) (l : Loop) : Loop :=
  match t.cancelRequested, l.scriptOf id with
  | true, .wait gate true :: cues =>
    play id (.wait gate true :: cues) { l with session := l.session.clearRequest id }
  | true, _ => arrive id .cancelled l
  | false, script => play id script l

/-- The turn of a task. -/
def wake (id : Nat) (l : Loop) : Loop :=
  match l.session.tasks[id]? with
  | none => l
  | some t =>
    match t.phase with
    | .over _ => l
    | .fresh => if t.cancelRequested then arrive id .cancelled l else launch id t l
    | _ => resume id t l

def run : Nat → Loop → Loop
  | 0, l => l
  | n + 1, l =>
    match l.ready with
    | [] => l
    | id :: rest => run n (wake id { l with ready := rest })

/-- Enough turns for every task to end or to wait: a task gets a turn for being in the queue, and one for every
reaction of the host that stops or starts tasks. -/
def turns (l : Loop) : Nat := (l.session.tasks.length + l.host.depth + 1) * (l.host.depth + 2)

/-- Closes the transport if all tasks that some attempt waits for have ended. -/
def checkClosed (l : Loop) : Loop :=
  { l with closed := l.closed || l.closers.any fun ids => ids.all l.isOver }

/-- Lets every task run until it has ended or waits. -/
def settle (l : Loop) : Loop := checkClosed (run l.turns l)

/-! ### From outside -/

/-- Controls the session; the fault that the host raised in it, if one was, is told. -/
def control (m : Teller → Act Unit) (l : Loop) : Loop × Option Fault :=
  let result := m l.host.tell l.session
  (notice { l with session := result.1 }, Act.fault? result)

def change (f : Session → Session) (l : Loop) : Loop := notice { l with session := f l.session }

/-- Opens a gate; those who wait there get their turns in the order in which they came. -/
def openGate (gate : String) (l : Loop) : Loop :=
  { l with
    gates := gate :: l.gates
    ready := l.ready ++ (l.waiting.filter (·.2 = gate)).map Prod.fst
    waiting := l.waiting.filter (·.2 ≠ gate) }

/-- The tasks that have not ended and that a disconnect would stop. -/
def pending (l : Loop) : List Nat :=
  (List.range l.session.tasks.length).filter fun id =>
    match l.session.tasks[id]? with
    | some t => (l.session.mainTask = some id || t.work.isAction) && !t.isOver
    | none => false

/-- Disconnects, and closes the transport once everything under way has ended. -/
def close (l : Loop) : Loop × Option Fault :=
  let ids := l.pending
  match l.control disconnect with
  | (l, none) => (checkClosed { l with closers := ids :: l.closers }, none)
  | (l, some fault) => (l, some fault)

end Loop

end ComponentStream.Session
