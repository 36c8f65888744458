import ComponentStream.Proofs.Render.Handlers
import ComponentStream.Registry.Rendering

/-!
# What standard components ask for

Five of the standard renderers put a handler on one of their elements, the others put none anywhere.  The handler asks for
what `Standard.asks` says, in the name of the component.  Apart from that, an output either does not depend on the outputs
of the children or holds them behind its own elements.

* `Supplied`, `Standard.asks` — what comes with an event, and what is asked for then;
* `Standard.Wired`, `Standard.wired_of_render` — handlers that do so, and that there are no others;
* `Standard.Fills`, `Standard.fills` — every standard renderer gives up or fills a template.
-/

namespace ComponentStream

open Json (Value)

namespace Registry

open Render (Template Context Failure Handler Output box label exists_of_bind_eq_ok)

/-! ### What elements of standard components ask for -/

/-- An event is supplied with what a user hands over: nothing with a click, one value with a change. -/
structure Supplied (event : String) (args : List Value) : Prop where
  click : event = "click" → args = []
  change : event = "change" → ∃ v, args = [v]

/-- What a component of a standard type asks to send on an event, as a type and a payload.  A disabled button asks for
nothing; there is no outer answer where an event is not handled or the arguments do not fit. -/
def Standard.asks (props : Assoc Value) : Standard → String → List Value → Option (Option (Value × Value))
  | .button, "click", [] =>
    some (if flag props "disabled" then none
      else some (propOr props "eventType" (.str "click"),
        propOr props "payload" (.obj [("label", prop props "label" (.str ""))])))
  | .textInput, "change", [v] => some (some (.str "input", .obj [("value", v)]))
  | .alert, "click", [] => some (some (.str "click", .obj [("action", .str "dismiss")]))
  | .checkbox, "change", [v] => some (some (.str "select", .obj [("checked", .bool v.truthy)]))
  | .select, "change", [v] => some (some (.str "select", .obj [("value", v)]))
  | _, _, _ => none

namespace Standard

theorem eq_none_of_disabled {props : Assoc Value} {event : String} {args : List Value} {asked : Option (Value × Value)}
    (hdisabled : flag props "disabled" = true) (h : button.asks props event args = some asked) : asked = none := by
  unfold asks at h
  split at h
  · rw [if_pos hdisabled] at h
    exact (Option.some.inj h).symm
  all_goals contradiction

/-- A handler does what a component of a standard type has to ask for, in its name. -/
def Wired (s : Standard) (id : String) (props : Assoc Value) (event : String) (handler : Handler) : Prop :=
  ∀ args, Supplied event args → ∃ asked, s.asks props event args = some asked ∧
    handler.run args = some (asked.map fun e => ⟨id, e.1, e.2⟩)

theorem wired_click {s : Standard} {id : String} {props : Assoc Value} {handler : Handler} {asked : Option (Value × Value)}
    (hasks : s.asks props "click" [] = some asked)
    (hrun : handler.run [] = some (asked.map fun e => ⟨id, e.1, e.2⟩)) : s.Wired id props "click" handler := by
  intro args hsupplied
  obtain rfl := hsupplied.click rfl
  exact ⟨asked, hasks, hrun⟩

theorem wired_change {s : Standard} {id : String} {props : Assoc Value} {handler : Handler}
    {asked : Value → Option (Value × Value)} (hasks : ∀ v, s.asks props "change" [v] = some (asked v))
    (hrun : ∀ v, handler.run [v] = some ((asked v).map fun e => ⟨id, e.1, e.2⟩)) : s.Wired id props "change" handler := by
  intro args hsupplied
  obtain ⟨v, rfl⟩ := hsupplied.change rfl
  exact ⟨asked v, hasks v, hrun v⟩

section Outputs

variable {props : Assoc Value} {o : Output}

theorem handlersAll_of_mapM {f : Value → Except Failure Output} (hf : ∀ v o, f v = .ok o → o.handlers = []) {vs : List Value}
    {os : List Output} (h : vs.mapM f = .ok os) : Output.handlersAll os = [] := by
  induction vs generalizing os with
  | nil =>
    cases h
    rfl
  | cons v vs ih =>
    rw [List.mapM_cons] at h
    obtain ⟨first, hfirst, h⟩ := exists_of_bind_eq_ok h
    obtain ⟨rest, hrest, h⟩ := exists_of_bind_eq_ok h
    cases h
    rw [Output.handlersAll, hf v first hfirst, ih hrest]
    rfl

theorem handlersAll_captioned (tag : String) (props : Assoc Value) (name : String) :
    Output.handlersAll (captioned tag props name) = [] := by
  rw [captioned]
  split <;> rfl

theorem handlers_renderHeading (h : renderHeading props = .ok o) : o.handlers = [] := by
  obtain ⟨level, _, h⟩ := exists_of_bind_eq_ok h
  obtain ⟨text, _, h⟩ := exists_of_bind_eq_ok h
  cases h
  rfl

theorem handlers_renderKeyValueList (h : renderKeyValueList props = .ok o) : o.handlers = [] := by
  obtain ⟨items, _, h⟩ := exists_of_bind_eq_ok h
  obtain ⟨rows, hrows, h⟩ := exists_of_bind_eq_ok h
  cases h
  refine handlersAll_of_mapM (fun item row hrow => ?_) hrows
  obtain ⟨key, _, hrow⟩ := exists_of_bind_eq_ok hrow
  obtain ⟨value, _, hrow⟩ := exists_of_bind_eq_ok hrow
  cases hrow
  rfl

theorem handlers_cell {row column : Value} (h : cell row column = .ok o) : o.handlers = [] := by
  cases row with
  | obj entries =>
    obtain ⟨key, _, h⟩ := exists_of_bind_eq_ok h
    cases key with
    | str key =>
      obtain ⟨text, _, h⟩ := exists_of_bind_eq_ok h
      cases h
      rfl
    | arr _ => cases h
    | obj _ => cases h
    | _ =>
      cases h
      rfl
  | _ => cases h

theorem handlers_renderRows {columns : List Value} {striped : Bool} {rows : List Value} {index : Nat} {os : List Output}
    (h : renderRows columns striped index rows = .ok os) : Output.handlersAll os = [] := by
  induction rows generalizing index os with
  | nil =>
    cases h
    rfl
  | cons row rows ih =>
    obtain ⟨first, hfirst, h⟩ := exists_of_bind_eq_ok h
    obtain ⟨rest, hrest, h⟩ := exists_of_bind_eq_ok h
    obtain ⟨cells, hcells, hfirst⟩ := exists_of_bind_eq_ok hfirst
    cases h
    cases hfirst
    have hrow : Output.handlersAll cells = [] := handlersAll_of_mapM (fun _ _ hcell => handlers_cell hcell) hcells
    rw [Output.handlersAll, ih hrest, List.append_nil]
    exact hrow

theorem handlers_renderTable (h : renderTable props = .ok o) : o.handlers = [] := by
  obtain ⟨columns, _, h⟩ := exists_of_bind_eq_ok h
  obtain ⟨heads, hheads, h⟩ := exists_of_bind_eq_ok h
  obtain ⟨rows, _, h⟩ := exists_of_bind_eq_ok h
  obtain ⟨body, hbody, h⟩ := exists_of_bind_eq_ok h
  cases h
  have hhead : Output.handlersAll heads = [] := by
    refine handlersAll_of_mapM (fun column o hhead => ?_) hheads
    obtain ⟨text, _, hhead⟩ := exists_of_bind_eq_ok hhead
    cases hhead
    rfl
  simp [box, Output.handlers, Output.handlersAll, hhead, handlers_renderRows hbody]

theorem handlers_renderProgress (h : renderProgress props = .ok o) : o.handlers = [] := by
  obtain ⟨value, _, h⟩ := exists_of_bind_eq_ok h
  obtain ⟨maximum, _, h⟩ := exists_of_bind_eq_ok h
  obtain ⟨share, _, h⟩ := exists_of_bind_eq_ok h
  obtain ⟨reading, hreading, h⟩ := exists_of_bind_eq_ok h
  cases h
  have hwords : Output.handlersAll reading = [] := by
    rw [renderReading] at hreading
    split at hreading
    · obtain ⟨n, _, hreading⟩ := exists_of_bind_eq_ok hreading
      cases hreading
      rfl
    · cases hreading
      rfl
  simp [box, Output.handlers, Output.handlersAll_append, Output.handlersAll, handlersAll_captioned, hwords]

theorem handlers_renderSelect {ctx : Context} (h : renderSelect props ctx = .ok o) :
    o.handlers = [("change", .keyed ctx.nodeId "select" "value")] := by
  obtain ⟨items, _, h⟩ := exists_of_bind_eq_ok h
  obtain ⟨options, hoptions, h⟩ := exists_of_bind_eq_ok h
  cases h
  have hitems : Output.handlersAll options = [] := by
    refine handlersAll_of_mapM (fun item o hoption => ?_) hoptions
    obtain ⟨value, _, hoption⟩ := exists_of_bind_eq_ok hoption
    obtain ⟨text, _, hoption⟩ := exists_of_bind_eq_ok hoption
    cases hoption
    rfl
  simp only [box, Output.handlers, Output.handlersAll_append, Output.handlersAll, handlersAll_captioned, hitems]
  split <;> rfl

theorem handlers_renderTextInput (props : Assoc Value) (ctx : Context) :
    (renderTextInput props ctx).handlers = [("change", .keyed ctx.nodeId "input" "value")] := by
  simp [renderTextInput, box, Output.handlers, Output.handlersAll_append, Output.handlersAll, handlersAll_captioned]

theorem handlers_renderAlert (props : Assoc Value) (ctx : Context) : (renderAlert props ctx).handlers ⊆
    [("click", .fixed ctx.nodeId (.str "click") (.obj [("action", .str "dismiss")]))] := by
  simp only [renderAlert, box, label, Output.handlers, Output.handlersAll, List.nil_append]
  split <;> simp [Output.handlers, Output.handlersAll]

end Outputs

/-- The elements that a standard renderer makes without children are wired as they have to be. -/
theorem wired_of_render (s : Standard) {props : Assoc Value} {ctx : Context} {o : Output} (hctx : ctx.children = [])
    (h : s.render props ctx = .ok o) {event : String} {handler : Handler} (hmem : (event, handler) ∈ o.handlers) :
    s.Wired ctx.nodeId props event handler := by
  cases s with
  | button =>
    cases h
    obtain ⟨rfl, rfl⟩ := Prod.mk.inj (List.mem_singleton.mp hmem)
    refine wired_click rfl ?_
    split <;> rfl
  | textInput =>
    cases h
    rw [handlers_renderTextInput] at hmem
    obtain ⟨rfl, rfl⟩ := Prod.mk.inj (List.mem_singleton.mp hmem)
    exact wired_change (fun _ => rfl) fun _ => rfl
  | alert =>
    cases h
    obtain ⟨rfl, rfl⟩ := Prod.mk.inj (List.mem_singleton.mp (handlers_renderAlert props ctx hmem))
    exact wired_click rfl rfl
  | checkbox =>
    cases h
    obtain ⟨rfl, rfl⟩ := Prod.mk.inj (List.mem_singleton.mp hmem)
    exact wired_change (fun _ => rfl) fun _ => rfl
  | select =>
    rw [handlers_renderSelect h] at hmem
    obtain ⟨rfl, rfl⟩ := Prod.mk.inj (List.mem_singleton.mp hmem)
    exact wired_change (fun _ => rfl) fun _ => rfl
  | text =>
    obtain ⟨text, _, h⟩ := exists_of_bind_eq_ok h
    cases h
    rw [Output.handlers, hctx] at hmem
    cases hmem
  | card =>
    cases h
    simp [renderCard, box, Output.handlers, Output.handlersAll_append, handlersAll_captioned, hctx] at hmem
  | heading =>
    rw [handlers_renderHeading h] at hmem
    cases hmem
  | keyValueList =>
    rw [handlers_renderKeyValueList h] at hmem
    cases hmem
  | table =>
    rw [handlers_renderTable h] at hmem
    cases hmem
  | progress =>
    rw [handlers_renderProgress h] at hmem
    cases hmem
  | image =>
    cases h
    cases hmem
  | badge =>
    cases h
    cases hmem

section Templates

variable (props : Assoc Value) (id type : String) (layout : Assoc Value)

/-- The renderer of a standard type gives up, or it fills a template in which everything is wired as it has to be. -/
def Fills (s : Standard) : Prop :=
  (∃ failure, ∀ outs, s.render props ⟨id, type, layout, outs⟩ = .error failure) ∨
    ∃ t : Template, (∀ outs, s.render props ⟨id, type, layout, outs⟩ = .ok (t.fill outs)) ∧
      ∀ event handler, (event, handler) ∈ t.handlers → s.Wired id props event handler

/-- Most standard renderers do not look at the children. -/
theorem fills_of_const {s : Standard}
    (h : ∀ outs, s.render props ⟨id, type, layout, outs⟩ = s.render props ⟨id, type, layout, []⟩) :
    s.Fills props id type layout := by
  cases hrender : s.render props ⟨id, type, layout, []⟩ with
  | error failure => exact .inl ⟨failure, fun outs => (h outs).trans hrender⟩
  | ok o => exact .inr ⟨.closed o, fun outs => (h outs).trans hrender, fun _ _ hmem => wired_of_render s rfl hrender hmem⟩

theorem fills (s : Standard) : s.Fills props id type layout := by
  cases s with
  | text =>
    cases hshown : shown (prop props "text" (.str "")) with
    | error failure => exact .inl ⟨failure, fun outs => by rw [render, renderText, hshown]; rfl⟩
    | ok text =>
      refine .inr ⟨.around "div" [] (.str text) [], fun outs => ?_, fun _ _ hmem => absurd hmem List.not_mem_nil⟩
      rw [render, renderText, hshown]
      rfl
  | card =>
    refine .inr ⟨.around "section" [("variant", propOr props "variant" (.str "outlined"))] .null
      (captioned "h3" props "title" ++ captioned "p" props "subtitle"), fun outs => rfl, fun _ _ hmem => ?_⟩
    rw [Template.handlers, Output.handlersAll_append, handlersAll_captioned, handlersAll_captioned] at hmem
    cases hmem
  | _ => exact fills_of_const props id type layout fun _ => rfl

end Templates

end Standard

end Registry

end ComponentStream
