import ComponentStream.Registry.Rendering
import ComponentStream.Session.State
import ComponentStream.Settings
import ComponentStream.Transport.Http

/-!
# Engines

An engine is wired from settings: one registry with the standard vocabulary, one client of the backend, one set of
limits, and as many sessions over them as the host asks for.
-/

namespace ComponentStream

/-- The parts that the sessions of a host share. -/
structure Engine where
  settings : Settings
  registry : Registry
  limits : Protocol.Limits
  client : Transport.Client

namespace Engine

/-- The engine that some settings describe. -/
def ofSettings (s : Settings) : Engine where
  settings := s
  registry := (Registry.registerAll [] Registry.Standard.vocabulary).1
  limits := s.limits
  client := .new s.endpoint [] s.breakerFailMax s.breakerResetTimeout

/-- A new session of an engine. -/
def newSession (e : Engine) (clock : Render.Clock) : Session :=
  .start e.registry e.limits ⟨e.settings.streamActions, e.settings.enableActionLogging⟩ clock

end Engine

end ComponentStream
