import ComponentStream.Json.Reader
import ComponentStream.Json.Writer
import ComponentStream.Json.Display
import ComponentStream.Json.Bounds
import ComponentStream.Worklist
import ComponentStream.Shape.Check
import ComponentStream.Shape.Strict
import ComponentStream.Text.Blank
import ComponentStream.Text.Case
import ComponentStream.Number.Lenient
import ComponentStream.Shape.Lenient
import ComponentStream.Protocol.Layout
import ComponentStream.Protocol.Node
import ComponentStream.Protocol.Action
import ComponentStream.Protocol.Limits
import ComponentStream.Protocol.Message
import ComponentStream.Protocol.Issue
import ComponentStream.Json.Alike
import ComponentStream.Tree.State
import ComponentStream.Tree.Edit
import ComponentStream.Tree.Alike
import ComponentStream.Metrics
import ComponentStream.Stream.Verdict
import ComponentStream.Stream.Record
import ComponentStream.Stream.Feed
import ComponentStream.Stream.Within
import ComponentStream.Text.Digit
import ComponentStream.Render.Style
import ComponentStream.Render.Element
import ComponentStream.Registry.Schema
import ComponentStream.Registry.Basic
import ComponentStream.Registry.Vocabulary
import ComponentStream.Registry.Rendering
import ComponentStream.Render.Tree
import ComponentStream.Render.Trigger
import ComponentStream.Registry.Probe
import ComponentStream.Log
import ComponentStream.Settings
import ComponentStream.Transport.Breaker
import ComponentStream.Transport.Http
import ComponentStream.Session.State
import ComponentStream.Session.Act
import ComponentStream.Session.Control
import ComponentStream.Session.Host
import ComponentStream.Session.Intake
import ComponentStream.Session.Within
import ComponentStream.Session.Step
import ComponentStream.Session.Exchange
import ComponentStream.Session.View
import ComponentStream.Session.Loop
import ComponentStream.Engine
import ComponentStream.Proofs.Assoc
import ComponentStream.Proofs.Traversal
import ComponentStream.Proofs.Tree.Sound
import ComponentStream.Proofs.Tree.Discard
import ComponentStream.Proofs.Tree.Remove
import ComponentStream.Proofs.Tree.Adopt
import ComponentStream.Proofs.Tree.Placement
import ComponentStream.Proofs.Tree.Placing
import ComponentStream.Proofs.Tree.PlacingStep
import ComponentStream.Proofs.Tree.Ancestors
import ComponentStream.Proofs.Tree.Insert
import ComponentStream.Proofs.Tree.Forest
import ComponentStream.Proofs.Stream.Run
import ComponentStream.Proofs.Tree.Graft
import ComponentStream.Proofs.Stream.Chunks
import ComponentStream.Proofs.Session.Core
import ComponentStream.Proofs.Session.Gain
import ComponentStream.Proofs.Session.Standing
import ComponentStream.Proofs.Session.Step
import ComponentStream.Proofs.Session.Status
import ComponentStream.Proofs.Session.Stale
import ComponentStream.Proofs.Session.Ledger
import ComponentStream.Proofs.Session.Run
import ComponentStream.Proofs.Session.Lasting
import ComponentStream.Proofs.Session.Terminal
import ComponentStream.Proofs.Session.Frozen
import ComponentStream.Proofs.Session.Response
import ComponentStream.Proofs.Protocol.Levels
import ComponentStream.Proofs.Protocol.Limits
import ComponentStream.Proofs.Tree.Depth
import ComponentStream.Proofs.Stream.Bounded
import ComponentStream.Proofs.Json.Size
import ComponentStream.Proofs.Stream.Patched
import ComponentStream.Proofs.Stream.Trace
import ComponentStream.Proofs.Stream.Versions
import ComponentStream.Proofs.Metrics
import ComponentStream.Proofs.Stream.Account
import ComponentStream.Proofs.Session.Calm
import ComponentStream.Proofs.Session.Outcomes
import ComponentStream.Proofs.Stream.Serial
import ComponentStream.Proofs.Protocol.Grammar
import ComponentStream.Proofs.Json.Printed
import ComponentStream.Proofs.Json.Levels
import ComponentStream.Proofs.Json.RoundTrip
import ComponentStream.Proofs.Text.Utf8
import ComponentStream.Proofs.Protocol.Parts
import ComponentStream.Proofs.Stream.Within
import ComponentStream.Proofs.Stream.Framing
import ComponentStream.Proofs.Session.Within
import ComponentStream.Proofs.Session.Published
import ComponentStream.Proofs.Tree.Pruning
import ComponentStream.Proofs.Tree.Rebuild
import ComponentStream.Transport.Traffic
import ComponentStream.Proofs.Transport.Breaker
import ComponentStream.Proofs.Transport.Traffic
import ComponentStream.Proofs.Transport.Sequence
import ComponentStream.Proofs.Session.Refused
import ComponentStream.Proofs.Tree.Commute
import ComponentStream.Proofs.Stream.Updates
import ComponentStream.Proofs.Json.Codec
import ComponentStream.Proofs.Protocol.Positions
import ComponentStream.Proofs.Protocol.Diagnostics
import ComponentStream.Proofs.Protocol.Agreement
import ComponentStream.Proofs.Registry.Coercion
import ComponentStream.Proofs.Render.Mirror
import ComponentStream.Proofs.Number.Finite
import ComponentStream.Proofs.Registry.Rendering
import ComponentStream.Proofs.Tree.Landing
import ComponentStream.Proofs.Protocol.Walks
import ComponentStream.Proofs.Render.Handlers
import ComponentStream.Proofs.Registry.Wiring
import ComponentStream.Proofs.Render.Events
