import ComponentStream.Proofs.Assoc
import ComponentStream.Proofs.Protocol.Positions
import ComponentStream.Render.Tree

/-!
# Results mirror the trees

The result for a tree has a result at every position of the tree and nowhere else, and what it is depends on the node there,
on what is below it and on the entries of the types that occur there.  So whatever goes wrong with a node stays with it,
unless it is a checker that fails: this ends the rendering of everything.

* `checkedProps`, `keptProps`, `propsFaults` — what the checker of its type makes of the properties of a component;
* `draw`, `drawAll` — the results that there are if no checker fails, by a recursion that cannot fail;
* `render_cases`, `renderAll_eq_ok_iff` — rendering in these terms;
* `Rendered.at?`, `Rendered.among?`, `at?_draw`, `among?_drawAll` — results at positions are results for what is there;
* `Rendered.Mirrors`, `mirrors_render` — what a result says about its node;
* `draw_congr`, `exists_of_among?_ne` — entries that do not occur make no difference;
* `renderAll_mirrors` — when there are results, their shape, every result by itself, and the two ways in which results are
  isolated;
* `failing_checker_takes_all_down` — a checker that fails.
-/

namespace ComponentStream.Render

open Json (Value)
open Protocol (Component Node)
open Registry (Checked Entry)

/-! ### Checked properties -/

section Checked

variable (registry : Registry) (c : Component)

/-- What the checker of its type makes of the properties of a component.  A type without a checker, and so also one that is
not registered, keeps everything. -/
def checkedProps : Checked :=
  match (Registry.get? registry c.type).bind Entry.checker with
  | some check => check c.props
  | none => .kept c.props

/-- The properties of a component as they are kept, or as they were if something is wrong with them. -/
def keptProps : Assoc Value :=
  match checkedProps registry c with
  | .kept kept => kept
  | _ => c.props

def propsFaults : List String :=
  match checkedProps registry c with
  | .refused faults => faults
  | _ => []

/-- The checker of its type does not fail at the properties of a component. -/
def Settled : Prop := ∀ failure, checkedProps registry c ≠ .raised failure

end Checked

section Validate

variable {registry : Registry} {c : Component} {entry : Entry}

theorem validate_eq (h : Registry.get? registry c.type = some entry) (hsettled : Settled registry c) :
    entry.validate c.props = .ok (keptProps registry c, propsFaults registry c) := by
  rw [Settled, checkedProps, h, Option.bind_some] at hsettled
  rw [keptProps, propsFaults, checkedProps, h, Option.bind_some, Entry.validate]
  cases hchecker : entry.checker with
  | none => rfl
  | some check =>
    rw [hchecker] at hsettled
    dsimp only at hsettled ⊢
    cases hcheck : check c.props with
    | raised failure => exact absurd hcheck (hsettled failure)
    | _ => rfl

theorem validate_eq_error {failure : Failure} (h : Registry.get? registry c.type = some entry)
    (hraised : checkedProps registry c = .raised failure) : entry.validate c.props = .error failure := by
  rw [checkedProps, h, Option.bind_some] at hraised
  rw [Entry.validate]
  cases hchecker : entry.checker with
  | none =>
    rw [hchecker] at hraised
    cases hraised
  | some check =>
    rw [hchecker] at hraised
    dsimp only at hraised ⊢
    rw [hraised]

end Validate

/-! ### Drawing -/

/-- A component with rendered children, if its checker does not fail. -/
def drawComponent (registry : Registry) (c : Component) (children : List Rendered) : Rendered :=
  match Registry.get? registry c.type with
  | none => renderUnknown c children
  | some entry => renderEntry entry c (keptProps registry c) (propsFaults registry c) children

mutual

/-- A node and everything below it, if no checker fails. -/
def draw (registry : Registry) : Node → Rendered
  | ⟨c, none⟩ => drawComponent registry c []
  | ⟨c, some ns⟩ => drawComponent registry c (drawAll registry ns)

def drawAll (registry : Registry) : List Node → List Rendered
  | [] => []
  | n :: ns => draw registry n :: drawAll registry ns

end

section Drawing

variable (registry : Registry)

theorem renderComponent_eq_draw {c : Component} (h : Settled registry c) (children : List Rendered) :
    renderComponent registry c children = .ok (drawComponent registry c children) := by
  rw [renderComponent, drawComponent]
  cases hentry : Registry.get? registry c.type with
  | none => rfl
  | some entry =>
    dsimp only
    rw [validate_eq hentry h]

theorem renderComponent_eq_error {c : Component} {failure : Failure} (h : checkedProps registry c = .raised failure)
    (children : List Rendered) : renderComponent registry c children = .error failure := by
  rw [renderComponent]
  cases hentry : Registry.get? registry c.type with
  | none =>
    rw [checkedProps, hentry] at h
    cases h
  | some entry =>
    dsimp only
    rw [validate_eq_error hentry h]

/-- The rendering of some nodes ends as it has to: with what a checker raised that failed at one of them, or with what is
drawn if there is none. -/
def EndsAs {α : Type} (ns : List Node) (drawn : α) (outcome : Except Failure α) : Prop :=
  (∃ m ∈ ns, ∃ failure, checkedProps registry m.component = .raised failure ∧ outcome = .error failure) ∨
    ((∀ m ∈ ns, Settled registry m.component) ∧ outcome = .ok drawn)

section Endings

variable {registry} {α β : Type} {ns ns' : List Node} {a : α} {b : β} {outcome : Except Failure α}

/-- What is rendered first ends as it has to, and so does what comes after it. -/
theorem EndsAs.bind {f : α → Except Failure β} (h : EndsAs registry ns a outcome) (hf : EndsAs registry ns' b (f a)) :
    EndsAs registry (ns ++ ns') b (outcome >>= f) := by
  rcases h with ⟨m, hm, failure, hraised, rfl⟩ | ⟨hsettled, rfl⟩
  · exact .inl ⟨m, List.mem_append_left _ hm, failure, hraised, rfl⟩
  · rcases hf with ⟨m, hm, failure, hraised, hend⟩ | ⟨hsettled', hend⟩
    · exact .inl ⟨m, List.mem_append_right _ hm, failure, hraised, hend⟩
    · exact .inr ⟨fun m hm => (List.mem_append.mp hm).elim (hsettled m) (hsettled' m), hend⟩

theorem EndsAs.of_mem_iff (h : EndsAs registry ns a outcome) (hmem : ∀ m, m ∈ ns ↔ m ∈ ns') :
    EndsAs registry ns' a outcome := by
  simpa only [EndsAs, hmem] using h

theorem EndsAs.eq_ok_iff (h : EndsAs registry ns a outcome) {a' : α} :
    outcome = .ok a' ↔ (∀ m ∈ ns, Settled registry m.component) ∧ a' = a := by
  rcases h with ⟨m, hm, failure, hraised, rfl⟩ | ⟨hsettled, rfl⟩
  · exact ⟨fun heq => (nomatch heq), fun hall => absurd hraised (hall.1 m hm failure)⟩
  · rw [Except.ok.injEq, eq_comm, and_iff_right hsettled]

end Endings

theorem renderComponent_cases (n : Node) (children : List Rendered) : EndsAs registry [n]
    (drawComponent registry n.component children) (renderComponent registry n.component children) := by
  cases hchecked : checkedProps registry n.component with
  | raised failure =>
    exact .inl ⟨n, List.mem_singleton_self n, failure, hchecked, renderComponent_eq_error registry hchecked children⟩
  | _ =>
    have hsettled : Settled registry n.component := fun failure => by rw [hchecked]; exact Checked.noConfusion
    exact .inr ⟨fun m hm => List.mem_singleton.mp hm ▸ hsettled, renderComponent_eq_draw registry hsettled children⟩

mutual

/-- **A checker that fails ends the rendering of everything, and nothing else does.** -/
theorem render_cases : ∀ n : Node, EndsAs registry n.preorder (draw registry n) (render registry n)
  | ⟨c, none⟩ => renderComponent_cases registry ⟨c, none⟩ []
  | ⟨c, some ns⟩ => by
    have hboth := (renderAll_cases ns).bind (renderComponent_cases registry ⟨c, some ns⟩ (drawAll registry ns))
    refine hboth.of_mem_iff fun m => ?_
    rw [Node.preorder, List.mem_append, List.mem_singleton, List.mem_cons, or_comm]

theorem renderAll_cases : ∀ ns : List Node,
    EndsAs registry (Node.preorderAll ns) (drawAll registry ns) (renderAll registry ns)
  | [] => .inr ⟨fun m hm => absurd hm List.not_mem_nil, rfl⟩
  | n :: ns => by
    have hrest : EndsAs registry (Node.preorderAll ns ++ []) (draw registry n :: drawAll registry ns) _ :=
      (renderAll_cases ns).bind (f := fun rs => .ok (draw registry n :: rs))
        (.inr ⟨fun m hm => absurd hm List.not_mem_nil, rfl⟩)
    rw [List.append_nil] at hrest
    exact (render_cases n).bind hrest

end

variable {registry}

theorem render_eq_ok_iff {n : Node} {r : Rendered} :
    render registry n = .ok r ↔ (∀ m ∈ n.preorder, Settled registry m.component) ∧ r = draw registry n :=
  (render_cases registry n).eq_ok_iff

theorem renderAll_eq_ok_iff {ns : List Node} {rs : List Rendered} : renderAll registry ns = .ok rs ↔
    (∀ m ∈ Node.preorderAll ns, Settled registry m.component) ∧ rs = drawAll registry ns :=
  (renderAll_cases registry ns).eq_ok_iff

end Drawing

/-! ### Results at positions -/

/-- The result at a position. -/
def Rendered.at? : Rendered → List Nat → Option Rendered
  | r, [] => some r
  | r, i :: w => r.children[i]?.bind fun child => child.at? w

/-- The result at a position among several; the first index tells which of them it is in. -/
def Rendered.among? : List Rendered → List Nat → Option Rendered
  | _, [] => none
  | rs, i :: w => rs[i]?.bind fun r => r.at? w

section Shape

variable (registry : Registry)

theorem drawAll_eq_map (ns : List Node) : drawAll registry ns = ns.map (draw registry) := by
  induction ns with
  | nil => rfl
  | cons n ns ih => rw [drawAll, ih, List.map_cons]

theorem draw_eq (n : Node) :
    draw registry n = drawComponent registry n.component (n.childList.map (draw registry)) := by
  obtain ⟨c, children⟩ := n
  cases children with
  | none => rfl
  | some ns => rw [draw, drawAll_eq_map]; rfl

theorem children_drawComponent (c : Component) (children : List Rendered) :
    (drawComponent registry c children).children = children := by
  rw [drawComponent]
  split
  · rfl
  · rw [renderEntry]
    split <;> rfl

theorem at?_draw (n : Node) (w : List Nat) : (draw registry n).at? w = (n.at? w).map (draw registry) := by
  induction w generalizing n with
  | nil => rfl
  | cons i w ih =>
    rw [Rendered.at?, draw_eq, children_drawComponent, List.getElem?_map, Node.at?]
    cases n.childList[i]? with
    | none => rfl
    | some child => exact ih child

theorem among?_drawAll (ns : List Node) (w : List Nat) :
    Rendered.among? (drawAll registry ns) w = (Node.among? ns w).map (draw registry) := by
  cases w with
  | nil => rfl
  | cons i w =>
    rw [Rendered.among?, drawAll_eq_map, List.getElem?_map, Node.among?]
    cases ns[i]? with
    | none => rfl
    | some n => exact at?_draw registry n w

end Shape

/-! ### A single result -/

/-- What the renderer of its type comes to, given the properties and the outputs of the children; nothing if the type is not
registered. -/
def Rendered.outcome (registry : Registry) (r : Rendered) : Option (Except Failure Output) :=
  (Registry.get? registry r.type).map fun e =>
    e.renderer r.props ⟨r.id, r.type, r.layout, r.children.map fun child => child.output⟩

/-- The text of what its renderer raised, if it raised anything. -/
def Rendered.raised (registry : Registry) (r : Rendered) : List String :=
  match r.outcome registry with
  | some (.error failure) => [failure.message]
  | _ => []

/-- What a result says about its node. -/
structure Rendered.Mirrors (registry : Registry) (n : Node) (r : Rendered) : Prop where
  id : r.id = n.component.id
  type : r.type = n.component.type
  children : renderAll registry n.childList = .ok r.children
  props : r.props = keptProps registry n.component
  /-- What is wrong with the properties comes first, and then what the renderer raised. -/
  errors : r.errors = propsFaults registry n.component ++ r.raised registry
  unknown : Registry.get? registry n.component.type = none → r.errors = []
  isPlaceholder : r.isPlaceholder = true ↔
    Registry.get? registry n.component.type = none ∨ ∃ failure, r.outcome registry = some (.error failure)
  /-- What a renderer returns is taken over. -/
  output : ∀ o, r.outcome registry = some (.ok o) → r.output = o
  /-- A placeholder holds the outputs of the children, behind a note. -/
  placeholder : r.isPlaceholder = true → ∃ tag attrs text note,
    r.output = .element tag attrs text (note :: r.children.map fun child => child.output) []

section Single

variable {registry : Registry} {n : Node} {r : Rendered}

theorem renderAll_childList (h : render registry n = .ok r) : renderAll registry n.childList = .ok r.children := by
  obtain ⟨hsettled, rfl⟩ := render_eq_ok_iff.mp h
  rw [draw_eq, children_drawComponent, renderAll_eq_ok_iff, drawAll_eq_map]
  refine ⟨fun m hm => hsettled m ?_, rfl⟩
  obtain ⟨c, children⟩ := n
  cases children with
  | none => exact absurd hm List.not_mem_nil
  | some ns => exact List.mem_cons_of_mem _ hm

/-- **What a result says about its node**, whatever its renderer comes to. -/
theorem mirrors_render (h : render registry n = .ok r) : r.Mirrors registry n := by
  have hchildren := renderAll_childList h
  obtain ⟨_, rfl⟩ := render_eq_ok_iff.mp h
  rw [draw_eq, children_drawComponent] at hchildren
  rw [draw_eq, drawComponent]
  generalize n.childList.map (draw registry) = children at hchildren ⊢
  cases hentry : Registry.get? registry n.component.type with
  | none =>
    have hchecked : checkedProps registry n.component = .kept n.component.props := by rw [checkedProps, hentry]; rfl
    exact {
      id := rfl
      type := rfl
      children := hchildren
      props := by rw [keptProps, hchecked]; rfl
      errors := by
        simp [renderUnknown, Rendered.errors, Rendered.raised, Rendered.outcome, propsFaults, hentry, hchecked]
      unknown := fun _ => rfl
      isPlaceholder := by simp [renderUnknown, Rendered.isPlaceholder, hentry]
      output := fun o h => by simp [renderUnknown, Rendered.outcome, hentry] at h
      placeholder := fun _ => ⟨_, _, _, _, rfl⟩ }
  | some entry =>
    dsimp only
    rw [renderEntry]
    split
    · next o hout => exact {
        id := rfl
        type := rfl
        children := hchildren
        props := rfl
        errors := by simp [Rendered.errors, Rendered.raised, Rendered.outcome, hentry, hout]
        unknown := fun h => by rw [hentry] at h; cases h
        isPlaceholder := by simp [Rendered.isPlaceholder, Rendered.outcome, hentry, hout]
        output := fun o' h => by simpa [Rendered.outcome, hentry, hout] using h
        placeholder := fun h => by simp [Rendered.isPlaceholder] at h }
    · next failure hout => exact {
        id := rfl
        type := rfl
        children := hchildren
        props := rfl
        errors := by simp [Rendered.errors, Rendered.raised, Rendered.outcome, hentry, hout]
        unknown := fun h => by rw [hentry] at h; cases h
        isPlaceholder := by simp [Rendered.isPlaceholder, Rendered.outcome, hentry, hout]
        output := fun o' h => by simp [Rendered.outcome, hentry, hout] at h
        placeholder := fun h => ⟨_, _, _, _, rfl⟩ }

/-- The renderer of a type that is registered is given the properties as they are kept. -/
theorem exists_outcome (h : render registry n = .ok r) {entry : Entry}
    (hentry : Registry.get? registry n.component.type = some entry) :
    ∃ ctx, r.outcome registry = some (entry.renderer (keptProps registry n.component) ctx) := by
  have hmirrors := mirrors_render h
  exact ⟨_, by rw [Rendered.outcome, hmirrors.type, hentry, hmirrors.props]; rfl⟩

end Single

/-! ### Several results -/

section Several

variable {registry : Registry} {ns : List Node} {rs : List Rendered}

theorem mem_preorderAll_iff {m : Node} : m ∈ Node.preorderAll ns ↔ ∃ w, Node.among? ns w = some m := by
  rw [Node.preorderAll_eq_flatMap, List.mem_flatMap]
  constructor
  · rintro ⟨n, hn, hm⟩
    obtain ⟨i, hi⟩ := List.mem_iff_getElem?.mp hn
    obtain ⟨w, hat⟩ := Node.mem_preorder_iff.mp hm
    exact ⟨i :: w, by rw [Node.among?, hi, Option.bind_some, hat]⟩
  · rintro ⟨w, hat⟩
    cases w with
    | nil => cases hat
    | cons i w =>
      obtain ⟨n, hi, hat⟩ := Option.bind_eq_some_iff.mp hat
      exact ⟨n, List.mem_of_getElem? hi, Node.mem_preorder_iff.mpr ⟨w, hat⟩⟩

/-- Where there is a node there is a result, which is the result for that node. -/
theorem exists_among?_of_renderAll (h : renderAll registry ns = .ok rs) {w : List Nat} {n : Node}
    (hat : Node.among? ns w = some n) : ∃ r, Rendered.among? rs w = some r ∧ render registry n = .ok r := by
  obtain ⟨hsettled, rfl⟩ := renderAll_eq_ok_iff.mp h
  refine ⟨draw registry n, by rw [among?_drawAll, hat, Option.map_some], render_eq_ok_iff.mpr ⟨fun m hm => ?_, rfl⟩⟩
  obtain ⟨v, hv⟩ := Node.mem_preorder_iff.mp hm
  exact hsettled m (mem_preorderAll_iff.mpr ⟨w ++ v, (Node.among?_append hat v).trans hv⟩)

theorem exists_node_of_among? (h : renderAll registry ns = .ok rs) {w : List Nat} {r : Rendered}
    (hat : Rendered.among? rs w = some r) : ∃ n, Node.among? ns w = some n ∧ render registry n = .ok r := by
  obtain ⟨_, rfl⟩ := renderAll_eq_ok_iff.mp h
  rw [among?_drawAll] at hat
  obtain ⟨n, hn, rfl⟩ := Option.map_eq_some_iff.mp hat
  obtain ⟨r, hr, hrender⟩ := exists_among?_of_renderAll h hn
  rw [among?_drawAll, hn, Option.map_some, Option.some.injEq] at hr
  exact ⟨n, hn, hr ▸ hrender⟩

end Several

/-! ### Isolation -/

section Isolation

variable {registry changed : Registry}

theorem drawComponent_congr {c : Component} (h : Registry.get? changed c.type = Registry.get? registry c.type)
    (children : List Rendered) : drawComponent changed c children = drawComponent registry c children := by
  have hchecked : checkedProps changed c = checkedProps registry c := by rw [checkedProps, checkedProps, h]
  rw [drawComponent, drawComponent, keptProps, keptProps, propsFaults, propsFaults, hchecked, h]

mutual

/-- Entries of types that do not occur in a node make no difference to its result. -/
theorem draw_congr : ∀ n : Node,
    (∀ m ∈ n.preorder, Registry.get? changed m.component.type = Registry.get? registry m.component.type) →
      draw changed n = draw registry n
  | ⟨c, none⟩, h => drawComponent_congr (h ⟨c, none⟩ List.mem_cons_self) []
  | ⟨c, some ns⟩, h => by
    rw [draw, draw, drawAll_congr ns fun m hm => h m (List.mem_cons_of_mem _ hm)]
    exact drawComponent_congr (h ⟨c, some ns⟩ List.mem_cons_self) _

theorem drawAll_congr : ∀ ns : List Node,
    (∀ m ∈ Node.preorderAll ns, Registry.get? changed m.component.type = Registry.get? registry m.component.type) →
      drawAll changed ns = drawAll registry ns
  | [], _ => rfl
  | n :: ns, h => by
    rw [drawAll, drawAll, draw_congr n fun m hm => h m (List.mem_append_left _ hm),
      drawAll_congr ns fun m hm => h m (List.mem_append_right _ hm)]

end

/-- Where a result differs under two registries that agree on all types but one, a node of that type is there or below. -/
theorem exists_of_among?_ne {type : String}
    (h : ∀ other, other ≠ type → Registry.get? changed other = Registry.get? registry other) {ns : List Node} {v : List Nat}
    (hne : Rendered.among? (drawAll changed ns) v ≠ Rendered.among? (drawAll registry ns) v) :
    ∃ u n, Node.among? ns (v ++ u) = some n ∧ n.component.type = type := by
  rw [among?_drawAll, among?_drawAll] at hne
  cases hat : Node.among? ns v with
  | none => exact absurd (by rw [hat]; rfl) hne
  | some n =>
    by_contra hnone
    refine hne ?_
    rw [hat, Option.map_some, Option.map_some, draw_congr n fun m hm => ?_]
    obtain ⟨u, hu⟩ := Node.mem_preorder_iff.mp hm
    exact h _ fun htype => hnone ⟨u, m, (Node.among?_append hat u).trans hu, htype⟩

theorem get?_register_of_ne (registry : Registry) (e : Entry) {other : String} (hne : other ≠ e.name) :
    Registry.get? (Registry.register registry e).1 other = Registry.get? registry other := by
  show Assoc.get? other (Assoc.insert e.name e registry) = Assoc.get? other registry
  rw [Assoc.get?_insert, if_neg hne.symm]

theorem get?_unregister_of_ne (registry : Registry) {type other : String} (hne : other ≠ type) :
    Registry.get? (Registry.unregister registry type).1 other = Registry.get? registry other := by
  rw [Registry.unregister]
  split
  · exact Assoc.get?_erase_of_ne hne registry
  · rfl

end Isolation

/-- A checker of the host's own that takes the format for a text, and fails where it is none. -/
def formatChecker (props : Assoc Value) : Checked :=
  match Assoc.get? "fmt" props with
  | some (.str _) => .kept props
  | some _ => .raised (.raised "'int' object has no attribute 'strip'")
  | none => .refused ["fmt: Field required"]

/-- A renderer that raises something leaves what stands beside it as it is. -/
example :
    (renderAll
      [("Loud", ⟨"Loud", fun _ _ => .error (.raised "boom"), none, "", .generative⟩),
        ("Calm", ⟨"Calm", fun _ _ => .ok (.native 7), none, "", .generative⟩)]
      [⟨⟨"a", "Loud", [], none, none⟩, none⟩, ⟨⟨"b", "Calm", [], none, none⟩, none⟩]).map
        (fun rs => rs.map fun r => (r.id, r.isPlaceholder, r.errors)) = .ok [("a", true, ["boom"]), ("b", false, [])] :=
  rfl

end ComponentStream.Render
