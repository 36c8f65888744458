import ComponentStream.Session.State

/-!
# Acts on a session

What a session does may be cut short: the host is called in the middle of it and may raise a fault, and whatever
was done up to then stays done.  An *act* is a computation on sessions that keeps the session either way.

* `Act`, with `Act.get`, `Act.change`, `Act.raise` — the computations, sequenced as a monad;
* `Act.unlessStale` — the two ways to go on, for a task that is current and for one that is not.
-/

namespace ComponentStream.Session

/-- A computation on a session that yields a value or raises a fault; the session is kept in both cases. -/
def Act (α : Type) := Session → Session × Except Fault α

namespace Act

variable {α β : Type}

instance : Monad Act where
  pure a := fun s => (s, .ok a)
  bind m f := fun s =>
    match m s with
    | (s, .ok a) => f a s
    | (s, .error fault) => (s, .error fault)

def run (m : Act α) (s : Session) : Session × Except Fault α := m s

def get (f : Session → α) : Act α := fun s => (s, .ok (f s))

def change (f : Session → Session) : Act Unit := fun s => (f s, .ok ())

def raise (fault : Fault) : Act α := fun s => (s, .error fault)

/-- Goes on in one of two ways, by whether a task is stale. -/
def unlessStale (t : Stint) (stale current : Act α) : Act α :=
  fun s => if s.isCurrent t then current s else stale s

/-- The fault that an act ends with. -/
def fault? : Session × Except Fault α → Option Fault
  | (_, .ok _) => none
  | (_, .error fault) => some fault

end Act

end ComponentStream.Session
