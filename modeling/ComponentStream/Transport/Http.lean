import ComponentStream.Json.Writer
import ComponentStream.Text.Case
import ComponentStream.Transport.Breaker

/-!
# The backend over HTTP

A request posts a JSON object to the endpoint of the backend.  A streamed request reads the body of an accepted
response chunk by chunk, a plain one ignores it.  Whatever goes wrong on the way is told to the caller as one
failure, after the circuit breaker has counted it.

* `Client` — the endpoint, the headers and the breaker;
* `Reply` — what the network answers;
* `readBody` — the chunks that reach the reader of a body;
* `Client.send`, `Client.judge` — the two points where the breaker is asked: before a request goes out, and when an
  outcome is there;
* `Client.stream`, `Client.post` — the two kinds of request, with everything that comes of them in an `Exchange`.
-/

namespace ComponentStream.Transport

open Json (Value)

/-! ### Requests -/

def jsonHeaders : Assoc String := [("Content-Type", "application/json"), ("Accept", "application/x-ndjson")]

/-- A client of the backend. -/
structure Client where
  endpoint : String
  headers : Assoc String
  breaker : Breaker

/-- A client with further headers; one with the name of a standard header replaces it, one that differs in case
is sent beside it. -/
def Client.new (endpoint : String) (headers : Assoc String) (failMax resetTimeout : Nat) : Client :=
  ⟨endpoint, Assoc.merge jsonHeaders headers, .fresh failMax resetTimeout⟩

/-- The values of a header in any case, joined by commas. -/
def headerText? (headers : Assoc String) (name : String) : Option String :=
  match headers.filter fun h => Text.lower h.1 = Text.lower name with
  | [] => none
  | found => some (", ".intercalate (found.map Prod.snd))

/-- A request as it is sent. -/
structure Request where
  url : String
  headers : Assoc String
  body : List Char

def Client.request (c : Client) (body : Assoc Value) : Request := ⟨c.endpoint, c.headers, (Value.obj body).compact⟩

/-! ### Replies -/

/-- A part of a body. -/
inductive Part where
  | bytes (bs : List UInt8)
  /-- The network gives up here. -/
  | broken (reason : String)
  deriving DecidableEq, Repr

/-- What the network answers to a request. -/
inductive Reply where
  | response (status : Nat) (contentType : Option String) (body : List Part)
  /-- There is no response. -/
  | broken (reason : String)
  deriving DecidableEq, Repr

/-- Whether a body holds records, by its content type. -/
def isRecords (contentType : Option String) : Bool :=
  contains "ndjson".toList (contentType.getD "").toList
where
  /-- Whether a text occurs in another. -/
  contains (wanted : List Char) : List Char → Bool
    | [] => wanted.isEmpty
    | c :: cs => wanted.isPrefixOf (c :: cs) || contains wanted cs

/-- The chunks that reach the reader of a body, and why the network gave up if it did.  Empty chunks are passed
over.  A reader that cancels after some number of chunks notices when the next one arrives. -/
def readBody : Option Nat → List Part → List (List UInt8) × Option String
  | _, [] => ([], none)
  | _, .broken reason :: _ => ([], some reason)
  | left, .bytes [] :: parts => readBody left parts
  | some 0, .bytes (_ :: _) :: _ => ([], none)
  | some (n + 1), .bytes (b :: bs) :: parts =>
    let (chunks, reason) := readBody (some n) parts
    ((b :: bs) :: chunks, reason)
  | none, .bytes (b :: bs) :: parts =>
    let (chunks, reason) := readBody none parts
    ((b :: bs) :: chunks, reason)

/-- The body of a response that says that it has none is not read. -/
def responseBody (status : Nat) (left : Option Nat) (parts : List Part) : List (List UInt8) × Option String :=
  if status = 204 then ([], none) else readBody left parts

/-! ### Exchanges -/

/-- What comes of a request. -/
structure Exchange where
  client : Client
  sent : Option Request
  events : List Event
  /-- The status of an accepted response and whether its body holds records. -/
  accepted : Option (Nat × Bool)
  chunks : List (List UInt8)
  raised : Option Raised

/-- The failure that the caller is told. -/
def Exchange.failure (e : Exchange) : Option Failure := e.raised.bind Raised.failure?

namespace Client

/-- The request that goes out at a time, unless the breaker is open and has not cooled down. -/
def send (c : Client) (now : Nat) (body : Assoc Value) : Except Raised Request :=
  if c.breaker.permits now then .ok (c.request body) else .error (.failed .breakerOpen)

/-- A request that does not go out. -/
def reject (c : Client) (r : Raised) : Exchange := ⟨c, none, [.rejected], none, [], some r⟩

/-- Passes an outcome through the breaker. -/
def judge (c : Client) (now : Nat) (o : Outcome) : Client × List Event × Option Raised :=
  let (breaker, events, raised) := c.breaker.judge now o
  ({ c with breaker := breaker }, events, raised)

/-- Takes the reply to a streamed request and reads the body if it is accepted. -/
def receive (c : Client) (now : Nat) (sent : Request) (reply : Reply) (left : Option Nat) : Exchange :=
  match reply with
  | .broken reason => ⟨c, some sent, [], none, [], some (.network reason)⟩
  | .response status contentType parts =>
    match c.judge now (.response status) with
    | (c, events, some raised) => ⟨c, some sent, events, none, [], some raised⟩
    | (c, events, none) =>
      let (chunks, reason) := responseBody status left parts
      ⟨c, some sent, events, some (status, isRecords contentType), chunks, reason.map .network⟩

end Client

/-- Catches what the network raised: it goes to the log and counts as an outcome. -/
def Exchange.rescue (e : Exchange) (now : Nat) : Exchange :=
  match e.raised with
  | some (.network reason) =>
    let (c, events, raised) := e.client.judge now (.broken reason)
    { e with client := c, events := e.events ++ .networkError :: events, raised := raised }
  | _ => e

namespace Client

/-- Sends a streamed request at a time and reads the body; `left` is the number of chunks after which the reader
cancels. -/
def stream (c : Client) (now : Nat) (body : Assoc Value) (reply : Reply) (left : Option Nat) : Exchange :=
  match c.send now body with
  | .error raised => c.reject raised
  | .ok sent => (c.receive now sent reply left).rescue now

/-- How a plain request ends: its body is read to the end and thrown away. -/
def plainOutcome : Reply → Outcome
  | .broken reason => .broken reason
  | .response status _ parts =>
    match readBody none parts with
    | (_, some reason) => .broken reason
    | (_, none) => .response status

/-- What goes to the log before an outcome counts. -/
def noted : Outcome → List Event
  | .broken _ => [.networkError]
  | .response _ => []

/-- Sends a plain request at a time. -/
def post (c : Client) (now : Nat) (body : Assoc Value) (reply : Reply) : Exchange :=
  match c.send now body with
  | .error raised => c.reject raised
  | .ok sent =>
    let o := plainOutcome reply
    let (c, events, raised) := c.judge now o
    ⟨c, some sent, noted o ++ events, none, [], raised⟩

end Client

end ComponentStream.Transport
