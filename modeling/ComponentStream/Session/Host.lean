import ComponentStream.Session.Control

/-!
# Hosts

A host is told of updates, faults and warnings as far as it listens, and may react from within a call: it may
raise a fault of its own or control the session.  What it does depends on everything that it has been told.  Its
reactions may lead to further calls and these to further reactions, so a host comes with a bound on how deep they
nest.

* `Reaction`, `Host` — what a host does;
* `Host.tell` — the calls to a host, with its reactions;
* `Host.quiet` — a host that never reacts;
* `Hook`, `Host.ofHooks` — a host that reacts to the calls with certain numbers.
-/

namespace ComponentStream.Session

/-- What a host does from within a call. -/
inductive Reaction where
  | raise (message : String)
  | disconnect
  | reset
  | connect (message : Option String)
  deriving DecidableEq, Repr

/-- A host. -/
structure Host where
  /-- The kinds of call that it listens to. -/
  listens : CallKind → Bool
  /-- Its reactions to the last of the calls that it has received. -/
  reactions : List Call → List Reaction
  /-- How many of its reactions may nest. -/
  depth : Nat

def Reaction.run (tell : Teller) : Reaction → Act Unit
  | .raise message => Act.raise (.other message)
  | .disconnect => Session.disconnect tell
  | .reset => Session.reset tell
  | .connect message => Session.connect tell message []

def Reaction.runAll (tell : Teller) : List Reaction → Act Unit
  | [] => pure ()
  | r :: rest => do
    r.run tell
    runAll tell rest

def record (c : Call) (s : Session) : Session := { s with calls := s.calls ++ [c] }

namespace Host

/-- Calls a host whose reactions may nest to some depth. -/
def tellWithin (h : Host) : Nat → Teller
  | 0, c => if h.listens c.kind then Act.change (record c) else pure ()
  | n + 1, c =>
    if h.listens c.kind then do
      Act.change (record c)
      let reactions ← Act.get fun s => h.reactions s.calls
      Reaction.runAll (h.tellWithin n) reactions
    else pure ()

def tell (h : Host) : Teller := h.tellWithin h.depth

/-- A host that listens to everything and never reacts. -/
def quiet : Host := ⟨fun _ => true, fun _ => [], 0⟩

end Host

/-! ### Hooks -/

/-- A reaction to the call of a kind that has a certain number, counted from one. -/
structure Hook where
  on : CallKind
  number : Nat
  reaction : Reaction
  deriving DecidableEq, Repr

/-- The reactions of hooks to the last of some calls. -/
def Hook.reactions (hooks : List Hook) (calls : List Call) : List Reaction :=
  match calls.getLast? with
  | none => []
  | some c =>
    let number := calls.countP (·.kind = c.kind)
    (hooks.filter fun h => h.on = c.kind && h.number = number).map Hook.reaction

/-- A host with hooks; as every hook reacts to one call, no more of them than there are can nest. -/
def Host.ofHooks (hooks : List Hook) (listens : CallKind → Bool) : Host :=
  ⟨listens, Hook.reactions hooks, hooks.length⟩

end ComponentStream.Session
