import ComponentStream.Session.Control

/-!
# Rendering a session

A host renders the published roots of a session and triggers events on what it got.  An event that makes an action
sends it through the session; all renderers of a session share one clock.

* `render` — the published roots, rendered;
* `trigger` — an event on something rendered earlier.
-/

namespace ComponentStream.Session

open Json (Value)
open Render (Failure Rendered Target)

/-- Renders the published roots; whatever a checker raises goes to the host, and the session is as it was. -/
def render (s : Session) : Except Failure (List Rendered × Session) := do
  let rendered ← Render.renderAll s.registry s.roots
  return (rendered, { s with metrics := s.metrics.addAll (Rendered.countersAll rendered) })

/-- Triggers an event on something rendered and sends the action that it makes. -/
def trigger (rendered : List Rendered) (target : Target) (args : List Value) (s : Session) :
    Session × Render.Outcome :=
  let (clock, outcome) := Render.trigger s.clock rendered target args
  let s := { s with clock := clock, metrics := s.metrics.addAll outcome.counters }
  match outcome with
  | .sent action => (sendAction action none [] s, outcome)
  | _ => (s, outcome)

end ComponentStream.Session
