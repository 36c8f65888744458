import ComponentStream.Transport.Http

/-!
# Requests side by side

One client serves many requests.  The breaker is asked when a request starts and when an outcome of it is there, and
in between anything may happen to the others.

* `Stage` — how far a request has come;
* `Traffic` — all requests over one client;
* `Traffic.Move`, `Traffic.run` — starts, outcomes and ends in any order, each at its time;
* `Inquiry`, `Client.inquire` — a request of either kind with the reply that it meets;
* `Inquiry.moves`, `Traffic.serveAll` — what requests do when they follow one another.
-/

namespace ComponentStream.Transport

open Json (Value)

/-- How far a request has come. -/
inductive Stage where
  /-- It is sent and not answered.  A streamed one goes on to read the body. -/
  | waiting (streamed : Bool)
  /-- Its response is accepted and the body is read. -/
  | reading
  /-- It is over, and this was raised for its caller. -/
  | ended (raised : Option Raised)
  deriving DecidableEq, Repr

namespace Stage

/-- Whether a request can still have an outcome: a body that is read can only break. -/
def awaits : Stage → Outcome → Bool
  | .waiting _, _ => true
  | .reading, .broken _ => true
  | .reading, .response _ => false
  | .ended _, _ => false

/-- The stage after an outcome, by what was raised for it. -/
def next : Stage → Option Raised → Stage
  | .waiting true, none => .reading
  | _, raised => .ended raised

/-- The stage of a request that its caller leaves, or whose body ends. -/
def left : Stage → Stage
  | .ended raised => .ended raised
  | _ => .ended none

end Stage

/-- The requests over one client, in the order of their starts. -/
structure Traffic where
  client : Client
  requests : List Stage
  /-- What the HTTP library was asked to send. -/
  sent : List Request
  /-- The outcomes of all requests, in the order in which they came. -/
  outcomes : List Outcome

namespace Traffic

/-- No request has started. -/
def idle (c : Client) : Traffic := ⟨c, [], [], []⟩

/-- What can happen to a request. -/
inductive Move where
  | start (streamed : Bool) (body : Assoc Value)
  | outcome (id : Nat) (o : Outcome)
  /-- The body ends, or the caller leaves. -/
  | leave (id : Nat)

def start (t : Traffic) (now : Nat) (streamed : Bool) (body : Assoc Value) : Traffic :=
  match t.client.send now body with
  | .ok sent => { t with requests := t.requests ++ [.waiting streamed], sent := t.sent ++ [sent] }
  | .error raised => { t with requests := t.requests ++ [.ended (some raised)] }

/-- Passes an outcome of a request at a stage through the breaker. -/
def judge (t : Traffic) (now : Nat) (id : Nat) (stage : Stage) (o : Outcome) : Traffic :=
  let (c, _, raised) := t.client.judge now o
  { t with client := c, requests := t.requests.set id (stage.next raised), outcomes := t.outcomes ++ [o] }

/-- An outcome of a request that can have it. -/
def outcome (t : Traffic) (now : Nat) (id : Nat) (o : Outcome) : Traffic :=
  match t.requests[id]? with
  | some stage => if stage.awaits o then t.judge now id stage o else t
  | none => t

def leave (t : Traffic) (id : Nat) : Traffic := { t with requests := t.requests.modify id Stage.left }

def move (t : Traffic) (now : Nat) : Move → Traffic
  | .start streamed body => t.start now streamed body
  | .outcome id o => t.outcome now id o
  | .leave id => t.leave id

/-- A series of moves, each at its time. -/
def run (t : Traffic) (moves : List (Nat × Move)) : Traffic := moves.foldl (fun t m => t.move m.1 m.2) t

end Traffic

/-! ### One request after the other -/

/-- A request with the reply that it meets. -/
structure Inquiry where
  streamed : Bool
  now : Nat
  body : Assoc Value
  reply : Reply
  /-- The number of chunks after which the reader of a streamed one cancels. -/
  cancelAfter : Option Nat

def Client.inquire (c : Client) (q : Inquiry) : Exchange :=
  if q.streamed then c.stream q.now q.body q.reply q.cancelAfter else c.post q.now q.body q.reply

namespace Inquiry

/-- The first outcome of the request.  A plain one has it when the body of its response is there. -/
def answer (q : Inquiry) : Outcome :=
  match q.streamed, q.reply with
  | true, .response status _ _ => .response status
  | true, .broken reason => .broken reason
  | false, reply => Client.plainOutcome reply

/-- The status that the request is answered with. -/
def status? (q : Inquiry) : Option Nat :=
  match q.answer with
  | .response status => some status
  | .broken _ => none

/-- Why the network gave up when the reader of a streamed request was reading the body, if it did. -/
def cut? (q : Inquiry) : Option String :=
  match q.streamed, q.reply with
  | true, .response status _ parts => (responseBody status q.cancelAfter parts).2
  | _, _ => none

/-- Whether an exchange is about an accepted response. -/
def accepted (q : Inquiry) (e : Exchange) : Bool := if q.streamed then e.accepted.isSome else e.raised.isNone

/-- What the request does as the request `id` when its first outcome is there. -/
def lastMove (q : Inquiry) (id : Nat) : Traffic.Move :=
  match q.cut? with
  | some reason => .outcome id (.broken reason)
  | none => .leave id

/-- All that the request does as the request `id`. -/
def moves (q : Inquiry) (id : Nat) : List (Nat × Traffic.Move) :=
  [(q.now, .start q.streamed q.body), (q.now, .outcome id q.answer), (q.now, q.lastMove id)]

end Inquiry

/-- Traffic after one more request while no other one is under way. -/
def Traffic.serve (t : Traffic) (q : Inquiry) : Traffic := t.run (q.moves t.requests.length)

/-- Traffic after a sequence of requests. -/
def Traffic.serveAll (t : Traffic) (qs : List Inquiry) : Traffic := qs.foldl serve t

end ComponentStream.Transport
