import ComponentStream.Session.Intake

/-!
# The steps of tasks

A task moves when something arrives for it: its start, the response, a chunk, the end of the body, a fault of the
transport, or the order to stop.  Tasks of all kinds take their steps in any order, one at a time.  A step checks
whether its task is still current before it touches anything.

* `Arrival` — what arrives for a task;
* `readMain`, `rescueMain` — the main stream, and what it does about faults;
* `readReply`, `rescueReply` — the stream that answers an action;
* `step` — any task, in any phase.
-/

namespace ComponentStream.Session

/-- What arrives for a task. -/
inductive Arrival where
  /-- Its turn comes for the first time. -/
  | start
  /-- A response is accepted; `records` tells whether its body holds records. -/
  | opened (records : Bool)
  | chunk (chunk : Chunk)
  /-- The body ends. -/
  | ended
  /-- A plain request is answered. -/
  | posted
  /-- The transport gives up. -/
  | failed (fault : Fault)
  /-- The task is to stop. -/
  | cancelled
  deriving DecidableEq

/-! ### Counters -/

def outcomeCounter (o : Outcome) : Counter := ⟨.sessions, [o.name]⟩

def actionCounter (mode result : String) : Counter := ⟨.actions, [mode, result]⟩

def replyCounter (result : String) : Counter := actionCounter "stream" result

def postCounter (result : String) : Counter := actionCounter "fire_and_forget" result

def tally (c : Counter) : Act Unit := Act.change fun s => s.count c 1

/-! ### The main stream -/

/-- Comes to the end of the body: a terminal fault makes the session end in error, otherwise the unfinished record
is taken in and the session stays connected. -/
def concludeMain (tell : Teller) (t : Stint) (buffer : Nat) : Act Outcome :=
  Act.unlessStale t (pure .superseded) do
    if ← Act.get (·.terminal) then
      setStatus tell .error
      return .backendError
    finish tell buffer
    setStatus tell .connected
    return .completed

/-- What the main task does with an arrival; an outcome means that it is done. -/
def readMain (tell : Teller) (t : Stint) (buffer : Nat) : Arrival → Act (Option Outcome)
  | .opened _ =>
    Act.unlessStale t (pure (some .superseded)) do
      setStatus tell .streaming
      return none
  | .chunk chunk =>
    Act.unlessStale t (pure (some .superseded)) do
      feed tell buffer chunk
      if ← Act.get (·.terminal) then
        return some (← concludeMain tell t buffer)
      return none
  | .ended => do return some (← concludeMain tell t buffer)
  | .failed fault => Act.raise fault
  | _ => pure none

/-- The outcome of a main stream that a fault has ended. -/
def faultOutcome (s : Session) (t : Stint) (fault : Fault) : Outcome :=
  if s.isCurrent t then (if fault.isConnection then .connectionFailed else .failed) else .superseded

/-- What the main task does about a fault: a failed request is reported first, anything else after the state has
been set. -/
def rescueMain (tell : Teller) (t : Stint) (fault : Fault) : Act Unit :=
  Act.unlessStale t (pure ()) do
    if fault.isConnection then
      report tell fault
      setStatus tell .error
    else
      Act.change fun s => { s with lastError := some fault }
      setStatus tell .error
      report tell fault

/-- Takes down the outcome of a main stream. -/
def closeMain (o : Outcome) (s : Session) : Session :=
  { s with metrics := (s.metrics.add (outcomeCounter o) 1).leaveSession }

def stepMain (tell : Teller) (id : Nat) (t : Stint) (buffer : Nat) (a : Arrival) (s : Session) : Session :=
  match readMain tell t buffer a s with
  | (s, .ok none) => s.setPhase id (.reading buffer)
  | (s, .ok (some o)) => (closeMain o s).endTask id none
  | (s, .error fault) =>
    let result := rescueMain tell t fault s
    (closeMain (faultOutcome s t fault) result.1).endTask id (Act.fault? result)

/-- Stops the main task; only an order of the session itself counts as one. -/
def stopMain (id : Nat) (t : Stint) (s : Session) : Session :=
  if s.isCancelled t then (closeMain .cancelled s).endTask id none else (closeMain .completed s).cancelTask id

/-! ### Streamed replies -/

/-- Comes to the end of a reply. -/
def concludeReply (tell : Teller) (t : Stint) (buffer : Nat) : Act Unit :=
  Act.unlessStale t (pure ()) do
    finish tell buffer
    tally (replyCounter "applied")
    if ← Act.get (·.terminal) then setStatus tell .error

/-- What a task that reads a reply does with an arrival, and whether it is done. -/
def readReply (tell : Teller) (t : Stint) (buffer : Nat) : Arrival → Act Bool
  | .opened records =>
    if records then pure false
    else do
      tally (replyCounter "no_content")
      return true
  | .chunk chunk =>
    Act.unlessStale t (pure true) do
      feed tell buffer chunk
      return false
  | .ended => do
    concludeReply tell t buffer
    return true
  | .failed fault => Act.raise fault
  | _ => pure false

/-- What a task that reads a reply does about a fault. -/
def rescueReply (tell : Teller) (t : Stint) (fault : Fault) : Act Unit := do
  tally (replyCounter "failed")
  Act.unlessStale t (pure ()) do
    if fault.isConnection then report tell fault
    else
      Act.change fun s => { s with lastError := some fault }
      setStatus tell .error
      report tell fault

def stepReply (tell : Teller) (id : Nat) (t : Stint) (buffer : Nat) (a : Arrival) (s : Session) : Session :=
  match readReply tell t buffer a s with
  | (s, .ok false) => s.setPhase id (.reading buffer)
  | (s, .ok true) => s.endTask id none
  | (s, .error fault) =>
    let result := rescueReply tell t fault s
    result.1.endTask id (Act.fault? result)

def stopReply (id : Nat) (t : Stint) (s : Session) : Session :=
  if s.isCancelled t then s.endTask id none else s.cancelTask id

/-! ### Plain actions -/

/-- The fault that the host hears of when a plain action is not sent. -/
def notSent (f : Transport.Failure) : Fault := .connection { f with message := "Failed to send action: " ++ f.message }

def stepPost (tell : Teller) (id : Nat) (a : Arrival) (s : Session) : Session :=
  match a with
  | .posted => (s.count (postCounter "sent") 1).endTask id none
  | .failed (.connection f) =>
    let result := report tell (notSent f) (s.count (postCounter "failed") 1)
    result.1.endTask id (Act.fault? result)
  | .failed fault => s.endTask id (some fault)
  | .cancelled => s.cancelTask id
  | _ => s

/-! ### All tasks -/

def begin (id : Nat) (t : Task) (s : Session) : Session :=
  match t.work with
  | .main _ => { s with metrics := s.metrics.enterSession }.setPhase id (.opening 0)
  | .reply _ => { s with intake := s.intake.fork }.setPhase id (.opening s.intake.buffers.length)
  | .post => s.setPhase id .posting

/-- What arrives for a task before its response is accepted. -/
def Arrival.isEarly : Arrival → Bool
  | .opened _ => true
  | .failed _ => true
  | _ => false

/-- What arrives for a task after its response is accepted. -/
def Arrival.isLate : Arrival → Bool
  | .chunk _ => true
  | .ended => true
  | .failed _ => true
  | _ => false

/-- A step of a task that has a response or waits for it. -/
def stepStream (tell : Teller) (id : Nat) (work : Work) (buffer : Nat) (fits : Bool) (a : Arrival) (s : Session) :
    Session :=
  match work, a with
  | .main t, .cancelled => stopMain id t (s.clearRequest id)
  | .reply t, .cancelled => stopReply id t (s.clearRequest id)
  | .main t, a => if fits then stepMain tell id t buffer a s else s
  | .reply t, a => if fits then stepReply tell id t buffer a s else s
  | .post, _ => s

/-- A step of a task; what does not fit its phase changes nothing. -/
def step (tell : Teller) (id : Nat) (a : Arrival) (s : Session) : Session :=
  match s.tasks[id]? with
  | none => s
  | some t =>
    match t.phase, a with
    | .fresh, .start => begin id t s
    | .fresh, .cancelled => s.cancelTask id
    | .fresh, _ => s
    | .opening buffer, a => stepStream tell id t.work buffer a.isEarly a s
    | .reading buffer, a => stepStream tell id t.work buffer a.isLate a s
    | .posting, a => stepPost tell id a s
    | .over _, _ => s

end ComponentStream.Session
