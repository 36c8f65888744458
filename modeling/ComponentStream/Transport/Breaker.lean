/-!
# The circuit breaker

A circuit breaker counts failures in a row.  When they reach a maximum it opens, and while it is open and has not
cooled down no request is sent and no outcome counts.  After that the next outcome is a trial: an accepted
response closes the breaker, a failure opens it again.

* `Breaker` — the breaker, with `permits` to ask whether a request may be sent at a time;
* `Outcome`, `Outcome.failure?` — how a request ended, and why it counts as failed;
* `Raised` — what is raised on the way of a request, by whom;
* `Breaker.call` — what a call does to the breaker and what the breaker raises;
* `Breaker.judge` — an outcome passed through the breaker, and what its caller is told.
-/

namespace ComponentStream.Transport

/-! ### Failures -/

/-- Why a request failed, with the status of the response if there was one. -/
structure Failure where
  message : String
  status : Option Nat
  deriving DecidableEq, Repr

/-- The failure of a request that the breaker stops. -/
def Failure.breakerOpen : Failure := ⟨"Circuit breaker open - backend unavailable", none⟩

/-- The failure of a request that is answered with an error. -/
def Failure.ofStatus (status : Nat) : Failure := ⟨"HTTP " ++ String.ofList (Nat.toDigits 10 status), some status⟩

/-- How a request that was sent ended. -/
inductive Outcome where
  /-- A response with a status. -/
  | response (status : Nat)
  /-- The network gave up, before or after a response was accepted. -/
  | broken (reason : String)
  deriving DecidableEq, Repr

/-- Whether a response answers with an error, by its status: one of the client (4xx) or of the server (5xx).  This is
the only test that a response has to pass, so that a status below 400 or above 599 counts as an answer. -/
def isErrorStatus (status : Nat) : Bool := decide (400 ≤ status ∧ status ≤ 599)

/-- The failure that an outcome is, unless its response is accepted. -/
def Outcome.failure? : Outcome → Option Failure
  | .response status => if isErrorStatus status then some (.ofStatus status) else none
  | .broken reason => some ⟨"Connection failed: " ++ reason, none⟩

/-- What is raised on the way of a request. -/
inductive Raised where
  /-- By the network. -/
  | network (reason : String)
  /-- By the breaker, which stops a call or opens at it. -/
  | stopped
  /-- For the caller. -/
  | failed (f : Failure)
  deriving DecidableEq, Repr

def Raised.failure? : Raised → Option Failure
  | .failed f => some f
  | _ => none

/-- What an outcome raises when it is checked. -/
def Outcome.raised? (o : Outcome) : Option Raised := o.failure?.map .failed

/-! ### The breaker -/

/-- Whether requests may pass. -/
inductive Gate where
  | closed
  /-- Open since a time in seconds. -/
  | opened (since : Nat)
  deriving DecidableEq, Repr

def Gate.name : Gate → String
  | .closed => "closed"
  | .opened _ => "open"

/-- A circuit breaker. -/
structure Breaker where
  /-- The number of failures in a row that opens the breaker. -/
  failMax : Nat
  /-- The time in seconds for which the breaker stays open. -/
  resetTimeout : Nat
  /-- The failures counted so far. -/
  failures : Nat
  gate : Gate
  deriving DecidableEq, Repr

/-- What the transport reports to the log. -/
inductive Event where
  | networkError | gateMoved | rejected
  deriving DecidableEq, Repr

/-- An event with its level, as the log names it. -/
def Event.text : Event → String
  | .networkError => "warning:http_error"
  | .gateMoved => "warning:breaker_state_change"
  | .rejected => "error:request_rejected"

namespace Breaker

/-- A closed breaker without failures. -/
def fresh (failMax resetTimeout : Nat) : Breaker := ⟨failMax, resetTimeout, 0, .closed⟩

/-- Whether a request may be sent at a time: the breaker is closed or has cooled down. -/
def permits (b : Breaker) (now : Nat) : Bool :=
  match b.gate with
  | .closed => true
  | .opened since => decide (since + b.resetTimeout ≤ now)

/-- Counts a call that raised something while the breaker is closed. -/
def countFailure (b : Breaker) (now : Nat) (r : Raised) : Breaker × List Event × Option Raised :=
  if b.failMax ≤ b.failures + 1 then
    ({ b with failures := b.failures + 1, gate := .opened now }, [.gateMoved], some .stopped)
  else ({ b with failures := b.failures + 1 }, [], some r)

/-- Takes a call as the trial after cooling down: the gate moves half open and then to its new position. -/
def takeTrial (b : Breaker) (now : Nat) : Option Raised → Breaker × List Event × Option Raised
  | some _ => ({ b with failures := b.failures + 1, gate := .opened now }, [.gateMoved, .gateMoved], some .stopped)
  | none => ({ b with failures := 0, gate := .closed }, [.gateMoved, .gateMoved], none)

/-- The breaker after a call at a time that raises something or nothing, what goes to the log, and what is raised in the
end. -/
def call (b : Breaker) (now : Nat) (raised : Option Raised) : Breaker × List Event × Option Raised :=
  match b.gate with
  | .closed =>
    match raised with
    | none => ({ b with failures := 0 }, [], none)
    | some r => b.countFailure now r
  | .opened _ => if b.permits now then b.takeTrial now raised else (b, [], some .stopped)

/-- Passes an outcome through the breaker.  The caller is told of what the breaker raises as of a failure. -/
def judge (b : Breaker) (now : Nat) (o : Outcome) : Breaker × List Event × Option Raised :=
  match b.call now o.raised? with
  | (b, events, some .stopped) => (b, events ++ [.rejected], some (.failed .breakerOpen))
  | told => told

end Breaker

end ComponentStream.Transport
