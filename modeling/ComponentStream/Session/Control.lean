import ComponentStream.Protocol.Action
import ComponentStream.Session.Act

/-!
# Controlling a session

What a host can do with a session at any time, even from within one of its own callbacks.  Every operation takes
the way in which the host is told (`tell`), since a call to the host may raise a fault or call back into the
session.

* `notify`, `setStatus`, `publish`, `report` — telling the host;
* `disconnect`, `reset`, `connect` — the life of the main stream;
* `sendAction` — a task that sends an action.
-/

namespace ComponentStream.Session

open Json (Value)
open Protocol (Action)

/-- The way in which the host is told something. -/
abbrev Teller := Call → Act Unit

/-! ### Telling the host -/

/-- Shows the host the present snapshot. -/
def notify (tell : Teller) : Act Unit := fun s => tell (.update s.snapshot) s

/-- Moves to a state; the host hears of it if the state is a new one. -/
def setStatus (tell : Teller) (status : Status) : Act Unit := fun s =>
  if s.status = status then (s, .ok ()) else notify tell { s with status := status }

/-- The roots of a tree as they are published. -/
def publishedRoots (t : Tree) : Except Fault (List Protocol.Node) :=
  match t.roots with
  | .ok roots => .ok roots
  | .error e => .error (.invariant e)

/-- Publishes the tree as it is. -/
def publish (tell : Teller) : Act Unit := fun s =>
  match publishedRoots s.intake.tree with
  | .ok roots => notify tell { s with roots := roots, version := s.intake.tree.version }
  | .error fault => (s, .error fault)

/-- Keeps a fault as the last one and tells the host. -/
def report (tell : Teller) (fault : Fault) : Act Unit := do
  Act.change fun s => { s with lastError := some fault }
  tell (.error fault)

/-! ### The main stream -/

/-- Asks tasks to stop: the main one and all that send actions, unless they have ended. -/
def requestCancel (main : Option Nat) : Nat → List Task → List Task
  | _, [] => []
  | id, t :: tasks =>
    (if (main = some id || t.work.isAction) && !t.isOver then { t with cancelRequested := true } else t)
      :: requestCancel main (id + 1) tasks

/-- Ends the epoch: nothing that was started before is current any more, and everything is asked to stop. -/
def endEpoch (s : Session) : Session :=
  { s with epoch := s.epoch + 1, mainTask := none, tasks := requestCancel s.mainTask 0 s.tasks }

/-- Abandons the main stream and all actions. -/
def disconnect (tell : Teller) : Act Unit := do
  Act.change endEpoch
  setStatus tell .idle

/-- Empties the tree and the buffer of the main stream; what is under way goes on. -/
def reset (tell : Teller) : Act Unit := do
  Act.change fun s => { s with intake := s.intake.reset 0 }
  publish tell

/-- Begins a generation: an empty tree without faults. -/
def beginGeneration (s : Session) : Session :=
  { s with intake := s.intake.reset 0, lastError := none, terminal := false, generation := s.generation + 1 }

def launch (t : Task) (s : Session) : Session := { s with tasks := s.tasks ++ [t] }

def launchMain (t : Task) (s : Session) : Session := { launch t s with mainTask := some s.tasks.length }

/-- Supersedes whatever is under way by a new main stream. -/
def connect (tell : Teller) (message : Option String) (extra : Assoc Value) : Act Unit := do
  disconnect tell
  Act.change beginGeneration
  let task ← Act.get fun s => Task.start (.main s.stint) (s.body message none extra true)
  publish tell
  setStatus tell .connecting
  Act.change (launchMain task)

/-! ### Actions -/

/-- The task that sends an action: a streamed reply needs the vocabulary, a plain request does not. -/
def actionTask (s : Session) (action : Action) (stream : Bool) (extra : Assoc Value) : Task :=
  if stream then Task.start (.reply s.stint) (s.body none (some action) extra true)
  else Task.start .post (s.body none (some action) extra false)

/-- Starts to send an action, as a stream unless the host wants it otherwise. -/
def sendAction (action : Action) (stream : Option Bool) (extra : Assoc Value) (s : Session) : Session :=
  launch (s.actionTask action (stream.getD s.options.streamActions) extra) s

end ComponentStream.Session
