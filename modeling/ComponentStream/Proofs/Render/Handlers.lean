import ComponentStream.Proofs.Render.Mirror
import ComponentStream.Render.Trigger

/-!
# Handlers in outputs

A handler is found by going to a component, along a path into its output and on to a tag.  Every one of these leads to a
place in the output of a node, and the element in that place was made for this node or came with the output of a child.
Which of the two is told by rendering the node once more with marks in the places of the outputs of its children.

* `Output.handlers`, `mem_handlers_of_walkPath` — the handlers that paths can lead to;
* `exists_walkPath_of_seek`, `exists_node_of_findAll?` — what is found by a tag or by an identifier has a place;
* `frame`, `markOn?`, `BelongsTo`, `BelongsTo.unique` — the node whose element stands in a place;
* `Template` — outputs with a place for the outputs of the children.
-/

namespace ComponentStream

open Json (Value)
open Protocol (Node)

namespace Render

/-- When two steps in a row succeed, each of them does. -/
theorem exists_of_bind_eq_ok {ε α β : Type} {outcome : Except ε α} {f : α → Except ε β} {b : β}
    (h : outcome >>= f = .ok b) : ∃ a, outcome = .ok a ∧ f a = .ok b := by
  cases outcome with
  | error e => cases h
  | ok a => exact ⟨a, rfl, h⟩

/-! ### Handlers and paths -/

mutual

/-- The handlers of an element and of everything below it. -/
def Output.handlers : Output → List (String × Handler)
  | .plain _ => []
  | .native _ => []
  | .element _ _ _ children handlers => handlers ++ handlersAll children

def Output.handlersAll : List Output → List (String × Handler)
  | [] => []
  | o :: os => o.handlers ++ handlersAll os

end

theorem Output.handlersAll_eq_flatMap (os : List Output) : handlersAll os = os.flatMap handlers := by
  induction os with
  | nil => rfl
  | cons o os ih => rw [handlersAll, ih, List.flatMap_cons]

theorem Output.handlersAll_append (os os' : List Output) : handlersAll (os ++ os') = handlersAll os ++ handlersAll os' := by
  rw [handlersAll_eq_flatMap, handlersAll_eq_flatMap, handlersAll_eq_flatMap, List.flatMap_append]

theorem Output.handlers_subset_handlersAll {o : Output} {os : List Output} (h : o ∈ os) : o.handlers ⊆ handlersAll os := by
  rw [handlersAll_eq_flatMap]
  exact fun p hp => List.mem_flatMap.mpr ⟨o, h, hp⟩

theorem walkPath_element_cons (tag : String) (attrs : Assoc Value) (text : Value) (children : List Output)
    (handlers : List (String × Handler)) (k : Nat) (path : List Nat) {e : Output} :
    walkPath (.element tag attrs text children handlers) (k :: path) = .ok e ↔
      ∃ child, children[k]? = some child ∧ walkPath child path = .ok e := by
  rw [walkPath]
  cases children[k]? <;> simp

theorem walkPath_append (o : Output) (path rest : List Nat) :
    walkPath o (path ++ rest) = walkPath o path >>= fun e => walkPath e rest := by
  induction path generalizing o with
  | nil => rfl
  | cons k path ih =>
    cases o with
    | plain s => rfl
    | native i => rfl
    | element tag attrs text children handlers =>
      rw [List.cons_append, walkPath, walkPath]
      cases children[k]? with
      | none => rfl
      | some child => exact ih child

theorem exists_of_handlerOf {event : String} {e : Output} {handler : Handler} (h : handlerOf event e = .ok handler) :
    ∃ tag attrs text children handlers, e = .element tag attrs text children handlers ∧
      Assoc.get? event handlers = some handler := by
  cases e with
  | plain s => cases h
  | native i => cases h
  | element tag attrs text children handlers =>
    rw [handlerOf] at h
    cases hget : Assoc.get? event handlers with
    | none =>
      rw [hget] at h
      cases h
    | some found =>
      rw [hget] at h
      cases h
      exact ⟨tag, attrs, text, children, handlers, rfl, hget⟩

theorem mem_handlers_of_walkPath {o e : Output} {path : List Nat} {event : String} {handler : Handler}
    (hwalk : walkPath o path = .ok e) (hhandler : handlerOf event e = .ok handler) : (event, handler) ∈ o.handlers := by
  induction path generalizing o with
  | nil =>
    obtain rfl : o = e := Except.ok.inj hwalk
    obtain ⟨tag, attrs, text, children, handlers, rfl, hget⟩ := exists_of_handlerOf hhandler
    exact List.mem_append_left _ (Assoc.mem_of_get? hget)
  | cons k path ih =>
    cases o with
    | plain s => cases hwalk
    | native i => cases hwalk
    | element tag attrs text children handlers =>
      obtain ⟨child, hget, hrest⟩ := (walkPath_element_cons ..).mp hwalk
      exact List.mem_append_right _ (Output.handlers_subset_handlersAll (List.mem_of_getElem? hget) (ih hrest))

/-! ### What is looked for -/

mutual

theorem Output.exists_walkPath_of_find? {tag : String} {e : Output} : ∀ o : Output, o.find? tag = some e →
    ∃ path, walkPath o path = .ok e
  | .plain _, h => by cases h
  | .native _, h => by cases h
  | .element t attrs text children handlers, h => by
    rw [Output.find?] at h
    split at h
    · exact ⟨[], congrArg Except.ok (Option.some.inj h)⟩
    · obtain ⟨k, child, path, hget, hwalk⟩ := Output.exists_walkPath_of_findAll? children h
      exact ⟨k :: path, (walkPath_element_cons ..).mpr ⟨child, hget, hwalk⟩⟩

theorem Output.exists_walkPath_of_findAll? {tag : String} {e : Output} : ∀ os : List Output, findAll? tag os = some e →
    ∃ (k : Nat) (o : Output) (path : List Nat), os[k]? = some o ∧ walkPath o path = .ok e
  | [], h => by cases h
  | o :: os, h => by
    rw [Output.findAll?] at h
    split at h
    · next found hfound =>
      cases h
      obtain ⟨path, hwalk⟩ := Output.exists_walkPath_of_find? o hfound
      exact ⟨0, o, path, rfl, hwalk⟩
    · obtain ⟨k, o', path, hget, hwalk⟩ := Output.exists_walkPath_of_findAll? os h
      exact ⟨k + 1, o', path, hget, hwalk⟩

end

theorem exists_walkPath_of_seek {tag : Option String} {o e : Output} (h : seek tag o = .ok e) :
    ∃ path, walkPath o path = .ok e := by
  cases tag with
  | none => exact ⟨[], h⟩
  | some tag =>
    cases o with
    | plain s => cases h
    | native i => cases h
    | element t attrs text children handlers =>
      simp only [seek] at h
      split at h
      · next found hfound =>
        cases h
        exact Output.exists_walkPath_of_find? _ hfound
      · cases h

mutual

theorem Rendered.exists_at?_of_find? {id : String} {found : Rendered} : ∀ r : Rendered, r.find? id = some found →
    ∃ w, r.at? w = some found ∧ found.id = id
  | ⟨i, type, props, layout, output, ending, faults, children⟩, h => by
    rw [Rendered.find?] at h
    split at h
    · next hid =>
      cases h
      exact ⟨[], rfl, hid⟩
    · obtain ⟨k, w, hat, hid⟩ := Rendered.exists_among?_of_findAll? children h
      exact ⟨k :: w, hat, hid⟩

theorem Rendered.exists_among?_of_findAll? {id : String} {found : Rendered} : ∀ rs : List Rendered,
    findAll? id rs = some found → ∃ k w, Rendered.among? rs (k :: w) = some found ∧ found.id = id
  | [], h => by cases h
  | r :: rs, h => by
    rw [Rendered.findAll?] at h
    split at h
    · next found' hfound =>
      cases h
      obtain ⟨w, hat, hid⟩ := Rendered.exists_at?_of_find? r hfound
      exact ⟨0, w, hat, hid⟩
    · obtain ⟨k, w, hat, hid⟩ := Rendered.exists_among?_of_findAll? rs h
      exact ⟨k + 1, w, hat, hid⟩

end

/-- A result that is found by an identifier is the result for a node with this identifier. -/
theorem exists_node_of_findAll? {registry : Registry} {ns : List Node} {rs : List Rendered} {id : String} {r : Rendered}
    (hrendered : renderAll registry ns = .ok rs) (h : Rendered.findAll? id rs = some r) :
    ∃ w n, Node.among? ns w = some n ∧ n.component.id = id ∧ render registry n = .ok r := by
  obtain ⟨k, w, hamong, hid⟩ := Rendered.exists_among?_of_findAll? _ h
  obtain ⟨n, hn, hr⟩ := exists_node_of_among? hrendered hamong
  exact ⟨k :: w, n, hn, (mirrors_render hr).id.symm.trans hid, hr⟩

/-! ### Whose element it is -/

/-- Results that have marks for outputs, one for each index. -/
def marks (count : Nat) : List Rendered := (List.range count).map fun i => { (default : Rendered) with output := .native i }

theorem map_output_marks (count : Nat) : ((marks count).map fun r => r.output) = (List.range count).map Output.native := by
  rw [marks, List.map_map]
  rfl

/-- The output of a node with marks where the outputs of its children stand. -/
def frame (registry : Registry) (n : Node) : Output :=
  (drawComponent registry n.component (marks n.childList.length)).output

/-- The first mark on a path, with the rest of the path. -/
def markOn? : Output → List Nat → Option (Nat × List Nat)
  | .native i, path => some (i, path)
  | .element _ _ _ children _, k :: path => children[k]?.bind fun child => markOn? child path
  | _, _ => none

/-- The element at the end of a path in the output of a node belongs to a node: to the node itself unless the path leads into
the output of a child, and to whom it belongs there otherwise. -/
inductive BelongsTo (registry : Registry) : Node → List Nat → Node → Prop
  | own {n : Node} {path : List Nat} (within : markOn? (frame registry n) path = none) : BelongsTo registry n path n
  | passed {n child m : Node} {i : Nat} {path rest : List Nat} (into : markOn? (frame registry n) path = some (i, rest))
      (is : n.childList[i]? = some child) (belongs : BelongsTo registry child rest m) : BelongsTo registry n path m

theorem BelongsTo.unique {registry : Registry} {n m m' : Node} {path : List Nat} (h : BelongsTo registry n path m)
    (h' : BelongsTo registry n path m') : m = m' := by
  induction h with
  | own within =>
    cases h' with
    | own => rfl
    | passed into => rw [within] at into; cases into
  | passed into is _ ih =>
    cases h' with
    | own within => rw [into] at within; cases within
    | passed into' is' belongs' =>
      rw [into] at into'
      cases into'
      rw [is] at is'
      cases is'
      exact ih belongs'

/-! ### Outputs around the outputs of children -/

/-- How the output of a component depends on the outputs of its children: not at all, or they stand behind elements of its
own. -/
inductive Template where
  | closed (o : Output)
  | around (tag : String) (attrs : Assoc Value) (text : Value) (own : List Output)

def Template.fill : Template → List Output → Output
  | closed o, _ => o
  | around tag attrs text own, outs => .element tag attrs text (own ++ outs) []

/-- The handlers of all elements that are not passed on from the children. -/
def Template.handlers : Template → List (String × Handler)
  | closed o => o.handlers
  | around _ _ _ own => Output.handlersAll own

/-- A placeholder as a template, which has a note of its own. -/
def noteTemplate (message : String) : Template :=
  .around "div" [("role", .str "note"), ("placeholder", .bool true)] .null
    [.element "span" [("color", .str "red")] (.str message) [] []]

theorem placeholder_eq_fill (message : String) (outs : List Output) :
    placeholder message outs = (noteTemplate message).fill outs := rfl

theorem markOn?_eq_none_of_handlerOf {o e : Output} {path : List Nat} {event : String} {handler : Handler}
    (hwalk : walkPath o path = .ok e) (hhandler : handlerOf event e = .ok handler) : markOn? o path = none := by
  induction path generalizing o with
  | nil =>
    obtain rfl : o = e := Except.ok.inj hwalk
    obtain ⟨tag, attrs, text, children, handlers, rfl, _⟩ := exists_of_handlerOf hhandler
    rfl
  | cons k path ih =>
    cases o with
    | plain s => cases hwalk
    | native i => cases hwalk
    | element tag attrs text children handlers =>
      obtain ⟨child, hget, hrest⟩ := (walkPath_element_cons ..).mp hwalk
      rw [markOn?, hget]
      exact ih hrest

end Render

end ComponentStream
