import ComponentStream.Proofs.Protocol.Grammar
import ComponentStream.Proofs.Registry.Rendering
import ComponentStream.Proofs.Registry.Wiring

/-!
# What user events deliver

Users touch elements of trees that were rendered by any number of renderers with a common clock.  Where the components are
of standard types, whatever their properties hold, no event is blocked, and what it delivers is an action of the node whose
element was touched, which the wire reads back as it was.  A type or a payload that the wire does not accept is not
delivered, though it takes a timestamp, and the timestamps of what is delivered increase.

* `Action.check_toWire`, `check_toValue_iff`, `emit_cases` — actions on the wire, and emissions as actions;
* `Comes`, `comes_trigger` — all that can come of an event;
* `Familiar`, `exists_belongsTo` — an element with a handler belongs to a node and asks in its name for what it has to;
* `Touch`, `outcomes`, `delivered` — events on trees, one after the other on one clock;
* `Comes.clock_le`, `delivered_pairwise` — an event never sets the clock back, so that a series of them delivers in order;
* `Touch.On`, `Answers`, `Touch.Present.answered` — what comes of a single event;
* `delivered_in_order` — a series of events.
-/

namespace ComponentStream

open Json (Value)
open Protocol (Component Node Action ActionType)

/-! ### Actions on the wire -/

/-- The payload of an action as a value, null if it has none. -/
def Protocol.Action.content (a : Action) : Value :=
  match a.payload with
  | some fields => .obj fields
  | none => .null

theorem Protocol.Action.payload_written_iff {fields : Assoc Value} {v : Value} (h : Assoc.get? "payload" fields = some v)
    (a : Action) : Protocol.OptionalMember fields "payload" Protocol.DictionaryWritten a.payload ↔ v = a.content := by
  rw [Action.content]
  cases a.payload with
  | none => simp [Protocol.OptionalMember, h]
  | some payload => simp [Protocol.OptionalMember, Protocol.DictionaryWritten, h]

/-- **What is sent for an action is read as this action**, whatever its payload holds. -/
theorem Protocol.Action.check_toWire (a : Action) : Action.check a.toWire = .ok a := by
  refine (Protocol.action_eq_ok_iff _ _).mpr ⟨_, rfl, ?_⟩
  obtain ⟨type, componentId, payload, timestamp⟩ := a
  cases payload with
  | none => exact ⟨rfl, .inl rfl, .inl rfl, rfl⟩
  | some fields => exact ⟨rfl, .inl rfl, ⟨_, rfl, rfl⟩, rfl⟩

namespace Render

open Registry (Standard Entry Supplied)

/-! ### Emissions -/

/-- The wire accepts a type and a payload. -/
def Acceptable (type payload : Value) : Prop :=
  (∃ kind : ActionType, type = .str kind.name) ∧ (payload = .null ∨ ∃ fields, payload = .obj fields)

theorem acceptable_of_action {type payload : Value} {a : Action} (htype : type = .str a.type.name)
    (hpayload : payload = a.content) : Acceptable type payload := by
  refine ⟨⟨a.type, htype⟩, ?_⟩
  rw [hpayload, Action.content]
  cases a.payload with
  | none => exact .inl rfl
  | some fields => exact .inr ⟨fields, rfl⟩

theorem check_toValue_iff {e : Emission} {timestamp : Int} {a : Action} :
    Action.check (e.toValue timestamp) = .ok a ↔
      e.type = .str a.type.name ∧ a.componentId = e.componentId ∧ e.payload = a.content ∧ a.timestamp = timestamp := by
  rw [Protocol.action_eq_ok_iff]
  constructor
  · rintro ⟨fields, hfields, hwritten⟩
    cases hfields
    have hid : Value.str e.componentId = .str a.componentId := by
      rcases hwritten.componentId with hid | ⟨hnone, _⟩
      · exact Option.some.inj hid
      · cases hnone
    have htime : Value.int timestamp = .int a.timestamp := Option.some.inj hwritten.timestamp
    exact ⟨Option.some.inj hwritten.type, (Value.str.inj hid).symm, (a.payload_written_iff rfl).mp hwritten.payload,
      (Value.int.inj htime).symm⟩
  · rintro ⟨htype, hid, hpayload, rfl⟩
    refine ⟨_, rfl, ?_, .inl ?_, (a.payload_written_iff rfl).mpr hpayload, rfl⟩
    · exact congrArg some htype
    · exact congrArg (fun id => some (Value.str id)) hid.symm

/-- An emission becomes an action if its type and its payload are acceptable, and it takes a timestamp in any case. -/
theorem emit_cases (clock : Clock) (e : Emission) :
    (∃ a, emit clock e = (⟨clock.next + 1⟩, some a) ∧ a.componentId = e.componentId ∧ a.timestamp = clock.next ∧
        e.type = .str a.type.name ∧ e.payload = a.content) ∨
      (¬ Acceptable e.type e.payload ∧ emit clock e = (⟨clock.next + 1⟩, none)) := by
  rw [emit]
  cases hcheck : Action.check (e.toValue clock.next) with
  | ok a =>
    obtain ⟨htype, hid, hpayload, htime⟩ := check_toValue_iff.mp hcheck
    exact .inl ⟨a, rfl, hid, htime, htype, hpayload⟩
  | error faults =>
    refine .inr ⟨?_, rfl⟩
    rintro ⟨⟨kind, hkind⟩, hpayload⟩
    have hread : ∃ payload, Action.check (e.toValue clock.next) = .ok ⟨kind, e.componentId, payload, clock.next⟩ := by
      rcases hpayload with hnull | ⟨fields, hfields⟩
      · exact ⟨none, check_toValue_iff.mpr ⟨hkind, rfl, hnull, rfl⟩⟩
      · exact ⟨some fields, check_toValue_iff.mpr ⟨hkind, rfl, hfields, rfl⟩⟩
    obtain ⟨payload, hread⟩ := hread
    rw [hcheck] at hread
    cases hread

/-- What the handler that a target means asks for; nothing at all where there is none or it does not take the arguments. -/
def asking (rendered : List Rendered) (target : Target) (args : List Value) : Option (Option Emission) :=
  match locate rendered target with
  | .ok handler => handler.run args
  | .error _ => none

/-- All that can come of an event, with the clock after it. -/
inductive Comes (clock : Clock) : Option (Option Emission) → Clock × Outcome → Prop
  | blocked (obstacle : Obstacle) : Comes clock none (clock, .blocked obstacle)
  | nothing : Comes clock (some none) (clock, .nothing)
  | sent {e : Emission} {a : Action} (id : a.componentId = e.componentId) (time : a.timestamp = clock.next)
      (type : e.type = .str a.type.name) (payload : e.payload = a.content) :
      Comes clock (some (some e)) (⟨clock.next + 1⟩, .sent a)
  | invalid {e : Emission} (refused : ¬ Acceptable e.type e.payload) :
      Comes clock (some (some e)) (⟨clock.next + 1⟩, .invalid)

theorem comes_trigger (clock : Clock) (rendered : List Rendered) (target : Target) (args : List Value) :
    Comes clock (asking rendered target args) (trigger clock rendered target args) := by
  rw [asking, trigger]
  cases locate rendered target with
  | error obstacle => exact .blocked obstacle
  | ok handler =>
    dsimp only
    cases handler.run args with
    | none => exact .blocked .wrongArguments
    | some asked =>
      cases asked with
      | none => exact .nothing
      | some e =>
        dsimp only
        rcases emit_cases clock e with ⟨a, hemit, hid, htime, htype, hpayload⟩ | ⟨hrefused, hemit⟩
        · rw [hemit]
          exact .sent hid htime htype hpayload
        · rw [hemit]
          exact .invalid hrefused

/-! ### Elements of standard components -/

/-- If the type of a component is registered, its renderer is a standard one. -/
def Familiar (registry : Registry) (c : Component) : Prop :=
  ∀ entry, Registry.get? registry c.type = some entry → ∃ s : Standard, entry.renderer = s.render

theorem familiar_registry (c : Component) : Familiar Standard.registry c := by
  intro entry hentry
  obtain ⟨s, _, rfl⟩ := Standard.exists_of_get?_registry hentry
  exact ⟨s, rfl⟩

/-- The renderer of a component is that of a standard type. -/
def RenderedBy (registry : Registry) (c : Component) (s : Standard) : Prop :=
  (Registry.get? registry c.type).map Entry.renderer = some s.render

theorem exists_template {registry : Registry} {c : Component} (h : Familiar registry c) :
    ∃ t : Template, (∀ rs, (drawComponent registry c rs).output = t.fill (rs.map fun r => r.output)) ∧
      ∀ event handler, (event, handler) ∈ t.handlers →
        ∃ s, RenderedBy registry c s ∧ s.Wired c.id (keptProps registry c) event handler := by
  cases hentry : Registry.get? registry c.type with
  | none =>
    refine ⟨noteTemplate ("Unknown component: " ++ c.type), fun rs => ?_, fun _ _ hmem => absurd hmem List.not_mem_nil⟩
    rw [drawComponent, hentry]
    exact placeholder_eq_fill _ _
  | some entry =>
    obtain ⟨s, hs⟩ := h entry hentry
    rcases s.fills (keptProps registry c) c.id c.type
        (flexStyle c.layout (Assoc.mapValues Protocol.StyleValue.toJson (c.style.getD []))) with
      ⟨failure, hfails⟩ | ⟨t, hfill, hwired⟩
    · refine ⟨noteTemplate ("Failed to render: " ++ c.type), fun rs => ?_, fun _ _ hmem => absurd hmem List.not_mem_nil⟩
      rw [drawComponent, hentry]
      dsimp only
      rw [renderEntry, hs, hfails]
      exact placeholder_eq_fill _ _
    · refine ⟨t, fun rs => ?_, fun event handler hmem => ⟨s, ?_, hwired event handler hmem⟩⟩
      · rw [drawComponent, hentry]
        dsimp only
        rw [renderEntry, hs, hfill]
      · rw [RenderedBy, hentry, Option.map_some, hs]

section Belonging

variable {registry : Registry} {n : Node} {path : List Nat} {e : Output} {event : String} {handler : Handler}

/-- An element with a handler is the own one of a node and wired as it has to be, or it is below the output of a child. -/
theorem own_or_passed (h : Familiar registry n.component) (hwalk : walkPath (draw registry n).output path = .ok e)
    (hhandler : handlerOf event e = .ok handler) :
    (markOn? (frame registry n) path = none ∧
        ∃ s, RenderedBy registry n.component s ∧ s.Wired n.component.id (keptProps registry n.component) event handler) ∨
      ∃ k rest i child, path = k :: rest ∧ markOn? (frame registry n) path = some (i, rest) ∧
        n.childList[i]? = some child ∧ walkPath (draw registry child).output rest = .ok e := by
  obtain ⟨t, hfill, hwired⟩ := exists_template h
  have hframe : frame registry n = t.fill ((List.range n.childList.length).map Output.native) := by
    rw [frame, hfill, map_output_marks]
  rw [draw_eq, hfill, List.map_map] at hwalk
  rw [hframe]
  cases t with
  | closed o =>
    have hmem : (event, handler) ∈ o.handlers := mem_handlers_of_walkPath hwalk hhandler
    exact .inl ⟨markOn?_eq_none_of_handlerOf hwalk hhandler, hwired event handler hmem⟩
  | around tag attrs text own =>
    -- The element around the children has no handlers, so that the path goes on to an own element or to a child.
    cases path with
    | nil =>
      obtain rfl := Except.ok.inj hwalk
      cases hhandler
    | cons k rest =>
      obtain ⟨o, hget, hrest⟩ := (walkPath_element_cons ..).mp hwalk
      rw [Template.fill, markOn?]
      by_cases hk : k < own.length
      · rw [List.getElem?_append_left hk] at hget ⊢
        have hmem : (event, handler) ∈ Output.handlersAll own :=
          Output.handlers_subset_handlersAll (List.mem_of_getElem? hget) (mem_handlers_of_walkPath hrest hhandler)
        refine .inl ⟨?_, hwired event handler hmem⟩
        rw [hget]
        exact markOn?_eq_none_of_handlerOf hrest hhandler
      · rw [List.getElem?_append_right (Nat.le_of_not_lt hk), List.getElem?_map] at hget
        obtain ⟨child, hchild, rfl⟩ := Option.map_eq_some_iff.mp hget
        have hlt : k - own.length < n.childList.length := (List.getElem?_eq_some_iff.mp hchild).1
        refine .inr ⟨k, rest, k - own.length, child, rfl, ?_, hchild, hrest⟩
        rw [List.getElem?_append_right (Nat.le_of_not_lt hk), List.getElem?_map, List.getElem?_range hlt,
          Option.map_some, Option.bind_some, markOn?]

/-- **Every handler belongs to a component of a standard type.**  Where a path leads to an element with a handler, the
element was made by the renderer of one node of the tree, which is of a standard type, and the handler asks in its name for
what such a component asks for. -/
theorem exists_belongsTo (h : ∀ w m, n.at? w = some m → Familiar registry m.component)
    (hwalk : walkPath (draw registry n).output path = .ok e) (hhandler : handlerOf event e = .ok handler) :
    ∃ m s, BelongsTo registry n path m ∧ RenderedBy registry m.component s ∧
      s.Wired m.component.id (keptProps registry m.component) event handler := by
  induction path generalizing n with
  | nil =>
    rcases own_or_passed (h [] n rfl) hwalk hhandler with ⟨hwithin, s, hs, hwired⟩ | ⟨k, rest, _, _, hpath, _⟩
    · exact ⟨n, s, .own hwithin, hs, hwired⟩
    · cases hpath
  | cons k path ih =>
    rcases own_or_passed (h [] n rfl) hwalk hhandler with
      ⟨hwithin, s, hs, hwired⟩ | ⟨_, rest, i, child, hpath, hinto, hchild, hrest⟩
    · exact ⟨n, s, .own hwithin, hs, hwired⟩
    · cases hpath
      have hbelow : ∀ w m, child.at? w = some m → Familiar registry m.component := fun w m hat =>
        h (i :: w) m (by rw [Node.at?, hchild]; exact hat)
      obtain ⟨m, s, hbelongs, hs, hwired⟩ := ih hbelow hrest
      exact ⟨m, s, .passed hinto hchild hbelongs, hs, hwired⟩

end Belonging

/-! ### Events one after the other -/

/-- An event on trees that were rendered with a registry. -/
structure Touch where
  registry : Registry
  roots : List Node
  rendered : List Rendered
  renders : renderAll registry roots = .ok rendered
  target : Target
  args : List Value

def Touch.run (clock : Clock) (t : Touch) : Clock × Outcome := trigger clock t.rendered t.target t.args

/-- What comes of events one after the other, whose renderers have one clock. -/
def outcomes : Clock → List Touch → List Outcome
  | _, [] => []
  | clock, t :: ts => (t.run clock).2 :: outcomes (t.run clock).1 ts

def Outcome.action? : Outcome → Option Action
  | .sent a => some a
  | _ => none

/-- The actions that are delivered, in order. -/
def delivered (clock : Clock) (ts : List Touch) : List Action := (outcomes clock ts).filterMap Outcome.action?

theorem Outcome.action?_eq_some_iff {o : Outcome} {a : Action} : o.action? = some a ↔ o = .sent a := by
  cases o <;> simp [action?]

/-- An event never sets the clock back, and an action takes the next timestamp. -/
theorem Comes.clock_le {clock : Clock} {asked : Option (Option Emission)} {after : Clock × Outcome}
    (h : Comes clock asked after) : clock.next ≤ after.1.next ∧
      ∀ a, after.2 = .sent a → a.timestamp = clock.next ∧ a.timestamp < after.1.next := by
  have hnext : clock.next < clock.next + 1 := Int.lt_succ clock.next
  cases h with
  | blocked obstacle => exact ⟨le_rfl, fun a h => by cases h⟩
  | nothing => exact ⟨le_rfl, fun a h => by cases h⟩
  | invalid => exact ⟨hnext.le, fun a h => by cases h⟩
  | sent id time type payload =>
    refine ⟨hnext.le, fun a h => ?_⟩
    cases h
    exact ⟨time, time ▸ hnext⟩

/-- **Timestamps increase** from one delivered action to the next, whoever rendered what they happened on. -/
theorem delivered_pairwise (clock : Clock) (ts : List Touch) :
    (delivered clock ts).Pairwise (fun a b => a.timestamp < b.timestamp) ∧
      ∀ a ∈ delivered clock ts, clock.next ≤ a.timestamp := by
  induction ts generalizing clock with
  | nil => exact ⟨.nil, fun a ha => absurd ha List.not_mem_nil⟩
  | cons t ts ih =>
    obtain ⟨hclock, hsent⟩ := (comes_trigger clock t.rendered t.target t.args).clock_le
    obtain ⟨hpairwise, hleast⟩ := ih (t.run clock).1
    have hlater : ∀ a ∈ delivered (t.run clock).1 ts, clock.next ≤ a.timestamp := fun a ha => hclock.trans (hleast a ha)
    rw [delivered, outcomes, List.filterMap_cons]
    split
    · exact ⟨hpairwise, hlater⟩
    · next first hfirst =>
      obtain ⟨htime, hlt⟩ := hsent first (Outcome.action?_eq_some_iff.mp hfirst)
      refine ⟨List.pairwise_cons.mpr ⟨fun a ha => hlt.trans_le (hleast a ha), hpairwise⟩, fun a ha => ?_⟩
      rcases List.mem_cons.mp ha with rfl | ha
      · exact htime.ge
      · exact hlater a ha

/-! ### What comes of an event -/

/-- A touch means the element in a place of the output of a node: the node is the first with the identifier, and the element
the first with the tag in the place that the path leads to. -/
structure Touch.On (t : Touch) (n : Node) (path : List Nat) : Prop where
  among : ∃ w, Node.among? t.roots w = some n
  element : ∃ r rest o e, Rendered.findAll? t.target.id t.rendered = some r ∧ render t.registry n = .ok r ∧
    path = t.target.path ++ rest ∧ walkPath r.output t.target.path = .ok o ∧ seek t.target.tag o = .ok e ∧
    walkPath r.output path = .ok e

/-- A handler is present on an element among standard components, and it is supplied with what it takes. -/
structure Touch.Present (t : Touch) : Prop where
  familiar : ∀ w m, Node.among? t.roots w = some m → Familiar t.registry m.component
  located : ∃ handler, locate t.rendered t.target = .ok handler
  supplied : Supplied t.target.event t.args

/-- What comes of an event when a component asks to send a type and a payload, or asks for nothing. -/
inductive Answers (id : String) : Option (Value × Value) → Outcome → Prop
  /-- An action of the component is sent, with what was asked for, and the wire reads it back as it was. -/
  | sent {type payload : Value} {a : Action} (acceptable : Acceptable type payload) (names : a.componentId = id)
      (kind : type = .str a.type.name) (content : payload = a.content) (valid : Action.check a.toWire = .ok a) :
      Answers id (some (type, payload)) (.sent a)
  /-- What the wire does not accept is not sent. -/
  | refused {type payload : Value} (unacceptable : ¬ Acceptable type payload) : Answers id (some (type, payload)) .invalid
  | quiet : Answers id none .nothing

theorem Answers.eq_nothing {id : String} {o : Outcome} (h : Answers id none o) : o = .nothing := by
  cases h
  rfl

/-- The element that a touch means belongs to a single node, a component of a standard type, and what comes of it is what
this component asks for.  Nothing comes of a disabled button. -/
def Touch.Answered (t : Touch) (o : Outcome) : Prop :=
  (∃ n path, t.On n path) ∧ ∀ n path, t.On n path → ∃ m s asked, (∀ m', BelongsTo t.registry n path m' ↔ m' = m) ∧
    RenderedBy t.registry m.component s ∧
    s.asks (keptProps t.registry m.component) t.target.event t.args = some asked ∧ Answers m.component.id asked o ∧
    (s = .button → Registry.Standard.flag (keptProps t.registry m.component) "disabled" = true → o = .nothing)

/-- What comes of an event when its handler asks to send something in the name of a component, or nothing. -/
theorem Comes.answers {clock : Clock} {id : String} {asked : Option (Value × Value)} {after : Clock × Outcome}
    (h : Comes clock (some (asked.map fun e => ⟨id, e.1, e.2⟩)) after) : Answers id asked after.2 := by
  cases asked with
  | none =>
    cases h
    exact .quiet
  | some e =>
    obtain ⟨type, payload⟩ := e
    cases h with
    | sent hid _ htype hpayload =>
      exact .sent (acceptable_of_action htype hpayload) hid htype hpayload (Action.check_toWire _)
    | invalid hrefused => exact .refused hrefused

/-- Where a handler is present, the element that it is on has a place. -/
theorem Touch.exists_on {t : Touch} {handler : Handler} (h : locate t.rendered t.target = .ok handler) :
    ∃ n path, t.On n path := by
  rw [locate] at h
  split at h
  · cases h
  · next r hfound =>
    obtain ⟨w, n, hat, _, hr⟩ := exists_node_of_findAll? t.renders hfound
    obtain ⟨o, hwalk, h⟩ := exists_of_bind_eq_ok h
    obtain ⟨e, hseek, _⟩ := exists_of_bind_eq_ok h
    obtain ⟨rest, hrest⟩ := exists_walkPath_of_seek hseek
    refine ⟨n, t.target.path ++ rest, ⟨w, hat⟩, r, rest, o, e, hfound, hr, rfl, hwalk, hseek, ?_⟩
    rw [walkPath_append, hwalk]
    exact hrest

/-- The handler that a touch means is on the element that it means. -/
theorem Touch.On.handlerOf_eq {t : Touch} {n : Node} {path : List Nat} (h : t.On n path) :
    ∃ e, walkPath (draw t.registry n).output path = .ok e ∧ locate t.rendered t.target = handlerOf t.target.event e := by
  obtain ⟨r, rest, o, e, hfound, hr, _, hwalk, hseek, hplace⟩ := h.element
  refine ⟨e, (render_eq_ok_iff.mp hr).2 ▸ hplace, ?_⟩
  rw [locate, hfound]
  dsimp only
  rw [hwalk]
  show seek t.target.tag o >>= handlerOf t.target.event = _
  rw [hseek]
  rfl

/-- **What comes of a single event.** -/
theorem Touch.Present.answered {t : Touch} (h : t.Present) (clock : Clock) : t.Answered (t.run clock).2 := by
  obtain ⟨handler, hlocate⟩ := h.located
  refine ⟨exists_on hlocate, fun n path hon => ?_⟩
  obtain ⟨e, hplace, hhandler⟩ := hon.handlerOf_eq
  obtain ⟨w, hat⟩ := hon.among
  have hbelow : ∀ v m, n.at? v = some m → Familiar t.registry m.component := fun v m hv =>
    h.familiar (w ++ v) m ((Node.among?_append hat v).trans hv)
  obtain ⟨m, s, hbelongs, hrendered, hwired⟩ := exists_belongsTo hbelow hplace (hhandler.symm.trans hlocate)
  obtain ⟨asked, hasks, hrun⟩ := hwired t.args h.supplied
  have hanswers : Answers m.component.id asked (t.run clock).2 := by
    have hcomes := comes_trigger clock t.rendered t.target t.args
    rw [asking, hlocate] at hcomes
    dsimp only at hcomes
    rw [hrun] at hcomes
    exact hcomes.answers
  refine ⟨m, s, asked, fun m' => ⟨fun hm' => hm'.unique hbelongs, fun hm' => hm' ▸ hbelongs⟩, hrendered, hasks, hanswers, ?_⟩
  rintro rfl hdisabled
  obtain rfl := Standard.eq_none_of_disabled hdisabled hasks
  exact hanswers.eq_nothing

/-- **Events deliver valid actions in order.**  Whatever handlers are touched on elements of standard components, and whoever
rendered them with whatever properties, every event is answered as the component that its element belongs to has it, and the
actions that are delivered, all told, have increasing timestamps, none of which is before the time of the clock. -/
theorem delivered_in_order (clock : Clock) (ts : List Touch) (h : ∀ t ∈ ts, t.Present) :
    List.Forall₂ Touch.Answered ts (outcomes clock ts) ∧
      (delivered clock ts).Pairwise (fun a b => a.timestamp < b.timestamp) ∧
      ∀ a ∈ delivered clock ts, clock.next ≤ a.timestamp := by
  refine ⟨?_, delivered_pairwise clock ts⟩
  induction ts generalizing clock with
  | nil => exact .nil
  | cons t ts ih =>
    rw [List.forall_mem_cons] at h
    exact .cons (h.1.answered clock) (ih (t.run clock).1 h.2)

theorem exists_of_isOk {α : Type} {outcome : Except Obstacle α} (h : outcome.isOk = true) : ∃ a, outcome = .ok a := by
  cases outcome with
  | error obstacle => cases h
  | ok a => exact ⟨a, rfl⟩

/-- A form with an input and a disabled button. -/
def nameForm : Node :=
  ⟨⟨"form", "Card", [("title", .str "Name")], none, none⟩,
    some [⟨⟨"name", "TextInput", [("label", .str "Name")], none, none⟩, none⟩,
      ⟨⟨"save", "Button", [("label", .str "Save"), ("disabled", .bool true)], none, none⟩, none⟩]⟩

/-- A registry that knows buttons and does not check them. -/
def buttonRegistry : Registry := [("Button", ⟨"Button", Standard.button.render, none, "", .interactable⟩)]

def buttonWith (id name : String) (v : Value) : Node := ⟨⟨id, "Button", [(name, v)], none, none⟩, none⟩

/-- Events on what two renderers made: an input in a form, a button of a kind that the wire does not know, the disabled
button of the form, and a button with a null in its payload. -/
def mixedTouches : List Touch :=
  [⟨Standard.registry, [nameForm], _, rfl, ⟨"form", [1], some "input", "change"⟩, [.null]⟩,
    ⟨buttonRegistry, [buttonWith "bad" "eventType" (.str "bogus")], _, rfl, ⟨"bad", [], none, "click"⟩, []⟩,
    ⟨Standard.registry, [nameForm], _, rfl, ⟨"save", [], none, "click"⟩, []⟩,
    ⟨buttonRegistry, [buttonWith "good" "payload" (.obj [("note", .null)])], _, rfl, ⟨"good", [], none, "click"⟩, []⟩]

theorem present_mixedTouches : ∀ t ∈ mixedTouches, t.Present := by
  have hbuttons : ∀ c, Familiar buttonRegistry c := fun c entry hentry => by
    obtain ⟨_, rfl⟩ := Prod.mk.inj (List.mem_singleton.mp (Assoc.mem_of_get? hentry))
    exact ⟨.button, rfl⟩
  have hclick : Supplied "click" [] := ⟨fun _ => rfl, fun h => absurd h (by decide)⟩
  have hchange : Supplied "change" [.null] := ⟨fun h => absurd h (by decide), fun _ => ⟨_, rfl⟩⟩
  have hlocated : ∀ t ∈ mixedTouches, (locate t.rendered t.target).isOk = true := by decide +kernel
  intro t ht
  have hhandler := exists_of_isOk (hlocated t ht)
  simp only [mixedTouches, List.mem_cons, List.not_mem_nil, or_false] at ht
  rcases ht with rfl | rfl | rfl | rfl
  · exact ⟨fun _ m _ => familiar_registry m.component, hhandler, hchange⟩
  · exact ⟨fun _ m _ => hbuttons m.component, hhandler, hclick⟩
  · exact ⟨fun _ m _ => familiar_registry m.component, hhandler, hclick⟩
  · exact ⟨fun _ m _ => hbuttons m.component, hhandler, hclick⟩

/-- The refused button takes a timestamp, the disabled one does not. -/
theorem delivered_in_order_of_mixedTouches :
    (∀ t ∈ mixedTouches, t.Present) ∧ List.Forall₂ Touch.Answered mixedTouches (outcomes ⟨100⟩ mixedTouches) ∧
      (outcomes ⟨100⟩ mixedTouches).map (fun o => o.action?.map fun a => (a.componentId, a.timestamp)) =
        [some ("name", 100), none, none, some ("good", 102)] :=
  ⟨present_mixedTouches, (delivered_in_order ⟨100⟩ mixedTouches present_mixedTouches).1, by decide +kernel⟩

end Render

end ComponentStream
