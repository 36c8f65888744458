import ComponentStream.Registry.Rendering

/-!
# Host renderers for inspection

Three simple renderers that a host may register to look at what renderers are given and at how failures show:
one always gives up with a message, one produces plain text, and one shows its properties and context as
attributes and emits whatever it is asked to.
-/

namespace ComponentStream.Registry

open Render (Context Output Renderer)

/-- A simple host renderer. -/
inductive Probe where
  | raising (message : String)
  | plain (text : String)
  | inspecting
  deriving DecidableEq, Repr

def Probe.render : Probe → Renderer
  | .raising message, _, _ => .error (.raised message)
  | .plain text, _, _ => .ok (.plain text)
  | .inspecting, props, ctx =>
    .ok (.element "probe"
      [("props", .obj props), ("layout", .obj ctx.layout), ("node", .str ctx.nodeId), ("type", .str ctx.type)]
      .null ctx.children [("fire", .free ctx.nodeId)])

/-- A new entry under a name.  `like` lends the renderer and the schema of a standard type, `schema` lends the
schema alone. -/
def hostEntry (name description : String) (category : Category) (like schema : Option Standard) (probe : Probe) :
    Entry :=
  match like with
  | some s => ⟨name, s.render, some s.checker, description, category⟩
  | none => ⟨name, probe.render, schema.map Standard.checker, description, category⟩

end ComponentStream.Registry
