import ComponentStream.Session.Step
import ComponentStream.Transport.Http

/-!
# Sessions over HTTP

What comes of a request to the backend reaches the task that sent it as a series of arrivals: the response, its
chunks as bytes, and the end of the body or the failure.
-/

namespace ComponentStream.Session

open ComponentStream.Transport (Exchange)

/-- What a streamed request brings to its task. -/
def streamArrivals (e : Exchange) : List Arrival :=
  let last := match e.failure with
    | some f => Arrival.failed (.connection f)
    | none => .ended
  match e.accepted with
  | some (_, records) => .opened records :: e.chunks.map (fun bs => .chunk ⟨bs, true⟩) ++ [last]
  | none => [last]

/-- What a plain request brings to its task. -/
def postArrivals (e : Exchange) : List Arrival :=
  match e.failure with
  | some f => [.failed (.connection f)]
  | none => [.posted]

/-- Several arrivals for one task, one after the other. -/
def stepAll (tell : Teller) (id : Nat) (arrivals : List Arrival) (s : Session) : Session :=
  arrivals.foldl (fun s a => step tell id a s) s

end ComponentStream.Session
