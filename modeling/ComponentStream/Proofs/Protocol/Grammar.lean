import ComponentStream.Proofs.Protocol.Limits

/-!
# The grammar of messages

What may stand on the wire for a message is told here without any check: which members an object has and what stands
under them.  Members that are not named do not count.  The checks accept exactly what is written so.

* `OptionalMember`, `NumberWritten` — members that may be null or absent, and the two ways to write a double;
* `Layout.WrittenIn`, `Component.WrittenIn`, `Action.WrittenIn` — records of known members;
* `Node.WrittenAs` — a component with the children that are listed in it, at any depth;
* `Message.WrittenIn` — the five messages, each under its tag;
* `Message.Fits` — the limits, depth included;
* `Node.checkWithin_eq_ok_iff`, `Node.WrittenAs.rawDepth_eq`, `checkMessage_eq_ok_iff` — the checks in these terms;
* `Node.chain` — cards in cards, which are refused beyond the levels that are followed.
-/

namespace ComponentStream.Protocol

open Json (Value)
open Shape (Check)

/-! ### What is written -/

section Grammar

variable {α : Type}

/-- A member that is absent or null stands for nothing, any other one for what is written there. -/
def OptionalMember (fields : Assoc Value) (name : String) (written : α → Value → Prop) : Option α → Prop
  | none => Assoc.get? name fields = none ∨ Assoc.get? name fields = some .null
  | some a => ∃ v, Assoc.get? name fields = some v ∧ written a v

/-- A member that has to be there. -/
def RequiredMember (fields : Assoc Value) (name : String) (written : α → Value → Prop) (a : α) : Prop :=
  ∃ v, Assoc.get? name fields = some v ∧ written a v

/-- A double, or a whole number that fits one. -/
def NumberWritten (x : Float) (v : Value) : Prop := v = .float x ∨ ∃ n, v = .int n ∧ Number.ofInt? n = some x

def BooleanWritten (b : Bool) (v : Value) : Prop := v = .bool b

/-- A choice is written as its name. -/
def ChoiceWritten (name : α → String) (a : α) (v : Value) : Prop := v = .str (name a)

def DictionaryWritten (m : Assoc Value) (v : Value) : Prop := v = .obj m

def StyleWritten (style : Assoc StyleValue) (v : Value) : Prop := v = .obj (Assoc.mapValues StyleValue.toJson style)

structure Layout.WrittenIn (fields : Assoc Value) (l : Layout) : Prop where
  flex : OptionalMember fields "flex" NumberWritten l.flex
  align : OptionalMember fields "align" (ChoiceWritten Align.name) l.align
  justify : OptionalMember fields "justify" (ChoiceWritten Justify.name) l.justify
  gap : OptionalMember fields "gap" NumberWritten l.gap
  direction : OptionalMember fields "direction" (ChoiceWritten Direction.name) l.direction
  wrap : OptionalMember fields "wrap" BooleanWritten l.wrap

def LayoutWritten (l : Layout) (v : Value) : Prop := ∃ fields, v = .obj fields ∧ l.WrittenIn fields

structure Component.WrittenIn (fields : Assoc Value) (c : Component) : Prop where
  id : Assoc.get? "id" fields = some (.str c.id)
  type : Assoc.get? "type" fields = some (.str c.type)
  props : Assoc.get? "props" fields = some (.obj c.props)
  layout : OptionalMember fields "layout" LayoutWritten c.layout
  style : OptionalMember fields "style" StyleWritten c.style

mutual

/-- A component with the children that are listed in it; a list that is absent or null is none. -/
inductive Node.WrittenAs : Node → Value → Prop
  | leaf {c : Component} {fields : Assoc Value} (component : c.WrittenIn fields)
      (children : Assoc.get? "children" fields = none ∨ Assoc.get? "children" fields = some .null) :
      Node.WrittenAs ⟨c, none⟩ (.obj fields)
  | parent {c : Component} {fields : Assoc Value} {ns : List Node} {vs : List Value}
      (component : c.WrittenIn fields) (children : Assoc.get? "children" fields = some (.arr vs))
      (all : Node.AllWrittenAs ns vs) : Node.WrittenAs ⟨c, some ns⟩ (.obj fields)

/-- Nodes that are written one by one as the items of a list. -/
inductive Node.AllWrittenAs : List Node → List Value → Prop
  | nil : Node.AllWrittenAs [] []
  | cons {n : Node} {v : Value} {ns : List Node} {vs : List Value} (head : n.WrittenAs v)
      (tail : Node.AllWrittenAs ns vs) : Node.AllWrittenAs (n :: ns) (v :: vs)

end

/-- The component may be named under either key; the second one counts only where the first is absent. -/
structure Action.WrittenIn (fields : Assoc Value) (a : Action) : Prop where
  type : Assoc.get? "type" fields = some (.str a.type.name)
  componentId : Assoc.get? "componentId" fields = some (.str a.componentId) ∨
    Assoc.get? "componentId" fields = none ∧ Assoc.get? "component_id" fields = some (.str a.componentId)
  payload : OptionalMember fields "payload" DictionaryWritten a.payload
  timestamp : Assoc.get? "timestamp" fields = some (.int a.timestamp)

def ActionWritten (a : Action) (v : Value) : Prop := ∃ fields, v = .obj fields ∧ a.WrittenIn fields

/-- What stands in an object beside its tag. -/
def Message.BodyIn (fields : Assoc Value) : Message → Prop
  | .component data complete =>
    RequiredMember fields "data" Node.WrittenAs data ∧ OptionalMember fields "complete" BooleanWritten complete
  | .update id props =>
    Assoc.get? "id" fields = some (.str id) ∧ Assoc.get? "props" fields = some (.obj props)
  | .remove id => Assoc.get? "id" fields = some (.str id)
  | .action data => RequiredMember fields "data" ActionWritten data
  | .error message recoverable =>
    Assoc.get? "message" fields = some (.str message) ∧
      OptionalMember fields "recoverable" BooleanWritten recoverable

/-- A message is written in an object that carries its tag and what belongs to it. -/
structure Message.WrittenIn (fields : Assoc Value) (m : Message) : Prop where
  tag : Assoc.get? "type" fields = some (.str m.tag.name)
  body : m.BodyIn fields

end Grammar

/-! ### Results of checks -/

section Results

variable {α β : Type}

theorem map_eq_ok_iff {f : α → β} {c : Check α} {b : β} : c.map f = .ok b ↔ ∃ a, c = .ok a ∧ f a = b := by
  cases c <;> simp [Check.map]

theorem both_eq_ok_iff {c : Check α} {d : Check β} {p : α × β} : c.both d = .ok p ↔ c = .ok p.1 ∧ d = .ok p.2 := by
  obtain ⟨a, b⟩ := p
  cases c <;> cases d <;> simp [Check.both]

theorem under_eq_ok_iff {s : Shape.Segment} {c : Check α} {a : α} : c.under s = .ok a ↔ c = .ok a := by
  cases c <;> simp [Check.under]

theorem andThen_eq_ok_iff {c : Check α} {f : α → Check β} {b : β} :
    c.andThen f = .ok b ↔ ∃ a, c = .ok a ∧ f a = .ok b := by
  cases c <;> simp [Check.andThen]

@[simp] theorem faults_map (f : α → β) (c : Check α) : (c.map f).faults = c.faults := by cases c <;> rfl

@[simp] theorem faults_both (c : Check α) (d : Check β) : (c.both d).faults = c.faults ++ d.faults := by
  cases c <;> cases d <;> simp [Check.both, Check.faults]

@[simp] theorem faults_under (s : Shape.Segment) (c : Check α) :
    (c.under s).faults = c.faults.map (Shape.Fault.under s) := by
  cases c <;> rfl

theorem members_eq_ok_iff {m : Shape.Mismatch} {v : Value} {fields : Assoc Value} :
    Shape.members m v = .ok fields ↔ v = .obj fields := by
  cases v <;> simp [Shape.members, Check.fail]

variable {fields : Assoc Value} {name : String} {read : Value → Check α} {written : α → Value → Prop}

theorem required_eq_ok_iff (hread : ∀ v a, read v = .ok a ↔ written a v) {a : α} :
    Shape.required fields name read = .ok a ↔ RequiredMember fields name written a := by
  rw [Shape.required, RequiredMember]
  cases Assoc.get? name fields with
  | none => simp
  | some v => simp [under_eq_ok_iff, hread]

/-- What is not written as null is written in an optional member as it would be in any other. -/
theorem optional_eq_ok_iff (hread : ∀ v a, read v = .ok a ↔ written a v) (hnull : ∀ a, ¬ written a .null)
    {o : Option α} : Shape.optional fields name read = .ok o ↔ OptionalMember fields name written o := by
  rw [Shape.optional]
  cases hget : Assoc.get? name fields with
  | none => cases o <;> simp [OptionalMember, hget]
  | some v =>
    cases v <;> cases o <;> simp [OptionalMember, hget, Shape.nullable, under_eq_ok_iff, map_eq_ok_iff, hread, hnull]

theorem oneOf_eq_ok_iff {choices : List α} {name : α → String} (hall : ∀ a, a ∈ choices)
    (hname : Function.Injective name) (v : Value) (a : α) :
    Shape.oneOf choices name v = .ok a ↔ ChoiceWritten name a v := by
  rw [ChoiceWritten]
  cases v with
  | str s =>
    cases hfind : choices.find? (name · = s) with
    | none =>
      have hnone : name a ≠ s := by simpa using List.find?_eq_none.mp hfind a (hall a)
      simp [Shape.oneOf, hfind, Check.fail, hnone.symm]
    | some b =>
      have hb : name b = s := by simpa using List.find?_some hfind
      simp only [Shape.oneOf, hfind, Except.ok.injEq, Json.Value.str.injEq, ← hb, hname.eq_iff]
  | _ => simp [Shape.oneOf, Check.fail]

end Results

/-! ### Scalars -/

section Scalars

variable {fields : Assoc Value} {name : String}

theorem string_eq_ok_iff {v : Value} {s : String} : Shape.Strict.string v = .ok s ↔ v = .str s := by
  cases v <;> simp [Shape.Strict.string, Check.fail]

theorem boolean_eq_ok_iff (v : Value) (b : Bool) : Shape.Strict.boolean v = .ok b ↔ BooleanWritten b v := by
  cases v <;> simp [Shape.Strict.boolean, BooleanWritten, Check.fail]

theorem integer_eq_ok_iff {v : Value} {n : Int} : Shape.Strict.integer v = .ok n ↔ v = .int n := by
  cases v <;> simp [Shape.Strict.integer, Check.fail]

theorem number_eq_ok_iff (v : Value) (x : Float) : Shape.Strict.number v = .ok x ↔ NumberWritten x v := by
  cases v with
  | int n => cases h : Number.ofInt? n <;> simp [Shape.Strict.number, NumberWritten, h, Check.fail]
  | _ => simp [Shape.Strict.number, NumberWritten, Check.fail]

theorem dictionary_eq_ok_iff (v : Value) (m : Assoc Value) :
    Shape.Strict.dictionary v = .ok m ↔ DictionaryWritten m v := members_eq_ok_iff

theorem requiredString_eq_ok_iff {s : String} :
    Shape.required fields name Shape.Strict.string = .ok s ↔ Assoc.get? name fields = some (.str s) := by
  rw [@required_eq_ok_iff _ _ _ _ (fun s v => v = .str s) fun v s => string_eq_ok_iff]
  simp [RequiredMember]

theorem requiredInteger_eq_ok_iff {n : Int} :
    Shape.required fields name Shape.Strict.integer = .ok n ↔ Assoc.get? name fields = some (.int n) := by
  rw [@required_eq_ok_iff _ _ _ _ (fun n v => v = .int n) fun v n => integer_eq_ok_iff]
  simp [RequiredMember]

theorem requiredDictionary_eq_ok_iff {m : Assoc Value} :
    Shape.required fields name Shape.Strict.dictionary = .ok m ↔ Assoc.get? name fields = some (.obj m) := by
  rw [required_eq_ok_iff dictionary_eq_ok_iff]
  simp [RequiredMember, DictionaryWritten]

theorem requiredChoice_eq_ok_iff {α : Type} {choices : List α} {text : α → String} (hall : ∀ a, a ∈ choices)
    (htext : Function.Injective text) {a : α} :
    Shape.required fields name (Shape.oneOf choices text) = .ok a ↔ Assoc.get? name fields = some (.str (text a)) := by
  rw [required_eq_ok_iff (oneOf_eq_ok_iff hall htext)]
  simp [RequiredMember, ChoiceWritten]

theorem optionalBoolean_eq_ok_iff {o : Option Bool} :
    Shape.optional fields name Shape.Strict.boolean = .ok o ↔ OptionalMember fields name BooleanWritten o :=
  optional_eq_ok_iff boolean_eq_ok_iff (by simp [BooleanWritten])

theorem optionalNumber_eq_ok_iff {o : Option Float} :
    Shape.optional fields name Shape.Strict.number = .ok o ↔ OptionalMember fields name NumberWritten o :=
  optional_eq_ok_iff number_eq_ok_iff (by simp [NumberWritten])

theorem optionalChoice_eq_ok_iff {α : Type} {choices : List α} {text : α → String} (hall : ∀ a, a ∈ choices)
    (htext : Function.Injective text) {o : Option α} :
    Shape.optional fields name (Shape.oneOf choices text) = .ok o ↔
      OptionalMember fields name (ChoiceWritten text) o :=
  optional_eq_ok_iff (oneOf_eq_ok_iff hall htext) (by simp [ChoiceWritten])

end Scalars

/-! ### Choices -/

theorem Align.mem_all (a : Align) : a ∈ Align.all := by cases a <;> decide

theorem Align.name_injective : Function.Injective Align.name := fun a b h => by cases a <;> cases b <;> simp_all [name]

theorem Justify.mem_all (j : Justify) : j ∈ Justify.all := by cases j <;> decide

theorem Justify.name_injective : Function.Injective Justify.name :=
  fun a b h => by cases a <;> cases b <;> simp_all [name]

theorem Direction.mem_all (d : Direction) : d ∈ Direction.all := by cases d <;> decide

theorem Direction.name_injective : Function.Injective Direction.name :=
  fun a b h => by cases a <;> cases b <;> simp_all [name]

theorem ActionType.mem_all (t : ActionType) : t ∈ ActionType.all := by cases t <;> decide

theorem ActionType.name_injective : Function.Injective ActionType.name :=
  fun a b h => by cases a <;> cases b <;> simp_all [name]

theorem Tag.mem_all (t : Tag) : t ∈ Tag.all := by cases t <;> decide

theorem Tag.name_injective : Function.Injective Tag.name := fun a b h => by cases a <;> cases b <;> simp_all [name]

/-! ### Records -/

theorem styleValue_eq_ok_iff {v : Value} {s : StyleValue} : StyleValue.check v = .ok s ↔ v = s.toJson := by
  cases v <;> cases s <;> simp [StyleValue.check, StyleValue.toJson]

theorem entries_eq_ok_iff {fields : Assoc Value} : ∀ {style : Assoc StyleValue},
    Shape.entries StyleValue.check fields = .ok style ↔ fields = Assoc.mapValues StyleValue.toJson style := by
  induction fields with
  | nil => intro style; cases style <;> simp [Shape.entries, Assoc.mapValues]
  | cons e fields ih =>
    obtain ⟨k, v⟩ := e
    intro style
    rw [Shape.entries, map_eq_ok_iff]
    simp only [both_eq_ok_iff, under_eq_ok_iff, styleValue_eq_ok_iff, ih]
    cases style with
    | nil => simp [Assoc.mapValues]
    | cons e' style =>
      obtain ⟨k', s⟩ := e'
      simp only [Assoc.mapValues, List.map_cons, List.cons.injEq, Prod.mk.injEq]
      constructor
      · rintro ⟨⟨_, _⟩, ⟨hv, hrest⟩, ⟨hk, rfl⟩, rfl⟩
        exact ⟨⟨hk, hv⟩, hrest⟩
      · rintro ⟨⟨hk, hv⟩, hrest⟩
        exact ⟨(s, style), ⟨hv, hrest⟩, ⟨hk, rfl⟩, rfl⟩

theorem style_eq_ok_iff (v : Value) (style : Assoc StyleValue) :
    checkStyle v = .ok style ↔ StyleWritten style v := by
  rw [checkStyle, andThen_eq_ok_iff]
  simp only [members_eq_ok_iff, entries_eq_ok_iff, StyleWritten]
  exact ⟨fun ⟨_, hv, hs⟩ => hs ▸ hv, fun hv => ⟨_, hv, rfl⟩⟩

theorem layout_eq_ok_iff (v : Value) (l : Layout) : Layout.check v = .ok l ↔ LayoutWritten l v := by
  rw [Layout.check, andThen_eq_ok_iff, LayoutWritten]
  refine exists_congr fun fields => and_congr members_eq_ok_iff ?_
  rw [map_eq_ok_iff]
  simp only [both_eq_ok_iff, optionalNumber_eq_ok_iff, optionalBoolean_eq_ok_iff,
    optionalChoice_eq_ok_iff Align.mem_all Align.name_injective,
    optionalChoice_eq_ok_iff Justify.mem_all Justify.name_injective,
    optionalChoice_eq_ok_iff Direction.mem_all Direction.name_injective]
  constructor
  · rintro ⟨⟨flex, align, justify, gap, direction, wrap⟩, ⟨hflex, halign, hjustify, hgap, hdirection, hwrap⟩, rfl⟩
    exact ⟨hflex, halign, hjustify, hgap, hdirection, hwrap⟩
  · rintro ⟨hflex, halign, hjustify, hgap, hdirection, hwrap⟩
    exact ⟨(_, _, _, _, _, _), ⟨hflex, halign, hjustify, hgap, hdirection, hwrap⟩, rfl⟩

theorem component_eq_ok_iff {fields : Assoc Value} {c : Component} :
    Component.check fields = .ok c ↔ c.WrittenIn fields := by
  rw [Component.check, map_eq_ok_iff]
  simp only [both_eq_ok_iff, requiredString_eq_ok_iff, requiredDictionary_eq_ok_iff,
    optional_eq_ok_iff layout_eq_ok_iff (by simp [LayoutWritten]),
    optional_eq_ok_iff style_eq_ok_iff (by simp [StyleWritten])]
  constructor
  · rintro ⟨⟨id, type, props, layout, style⟩, ⟨hid, htype, hprops, hlayout, hstyle⟩, rfl⟩
    exact ⟨hid, htype, hprops, hlayout, hstyle⟩
  · rintro ⟨hid, htype, hprops, hlayout, hstyle⟩
    exact ⟨(_, _, _, _, _), ⟨hid, htype, hprops, hlayout, hstyle⟩, rfl⟩

/-- What stands under the second key counts only where the first one is absent. -/
theorem componentField_iff {fields : Assoc Value} {v : Value} :
    Assoc.get? (componentField fields) fields = some v ↔ Assoc.get? "componentId" fields = some v ∨
      Assoc.get? "componentId" fields = none ∧ Assoc.get? "component_id" fields = some v := by
  rw [componentField, Assoc.contains, Assoc.contains]
  cases hfirst : Assoc.get? "componentId" fields with
  | some w => simp [hfirst]
  | none => cases hsecond : Assoc.get? "component_id" fields <;> simp [hfirst, hsecond]

theorem action_eq_ok_iff (v : Value) (a : Action) : Action.check v = .ok a ↔ ActionWritten a v := by
  rw [Action.check, andThen_eq_ok_iff, ActionWritten]
  refine exists_congr fun fields => and_congr members_eq_ok_iff ?_
  rw [map_eq_ok_iff]
  simp only [both_eq_ok_iff, requiredString_eq_ok_iff, requiredInteger_eq_ok_iff, componentField_iff,
    requiredChoice_eq_ok_iff ActionType.mem_all ActionType.name_injective,
    optional_eq_ok_iff dictionary_eq_ok_iff (by simp [DictionaryWritten])]
  constructor
  · rintro ⟨⟨type, componentId, payload, timestamp⟩, ⟨htype, hid, hpayload, htime⟩, rfl⟩
    exact ⟨htype, hid, hpayload, htime⟩
  · rintro ⟨htype, hid, hpayload, htime⟩
    exact ⟨(_, _, _, _), ⟨htype, hid, hpayload, htime⟩, rfl⟩

/-! ### Nodes -/

/-- The children of a node are written as one list, and none of them has more than so many levels. -/
def ChildrenWritten (room : Nat) (ns : List Node) (v : Value) : Prop :=
  (∃ vs, v = .arr vs ∧ Node.AllWrittenAs ns vs) ∧ Node.heightAll ns ≤ room

theorem Node.height_pos (n : Node) : 0 < n.height := by
  obtain ⟨c, children⟩ := n
  cases children <;> simp [Node.height]

/-- What is written in an object is a node with at most so many levels below it. -/
theorem Node.writtenWithin_iff {room : Nat} {c : Component} {children : Option (List Node)} {fields : Assoc Value} :
    (Node.WrittenAs ⟨c, children⟩ (.obj fields) ∧ Node.height ⟨c, children⟩ ≤ room + 1) ↔
      c.WrittenIn fields ∧ OptionalMember fields "children" (ChildrenWritten room) children := by
  constructor
  · rintro ⟨⟨hc, hnone⟩ | ⟨hc, hget, hall⟩, hheight⟩
    · exact ⟨hc, hnone⟩
    · exact ⟨hc, _, hget, ⟨_, rfl, hall⟩, Nat.le_of_succ_le_succ hheight⟩
  · rintro ⟨hc, hchildren⟩
    cases children with
    | none => exact ⟨.leaf hc hchildren, Nat.le_add_left 1 room⟩
    | some ns =>
      obtain ⟨_, hget, ⟨vs, rfl, hall⟩, hheight⟩ := hchildren
      exact ⟨.parent hc hget hall, Nat.succ_le_succ hheight⟩

/-- A list of nodes is read from what is written there, when each of its nodes is. -/
theorem Node.items_eq_ok_iff {read : Value → Check Node} {room : Nat}
    (hread : ∀ v n, read v = .ok n ↔ n.WrittenAs v ∧ n.height ≤ room) (vs : List Value) : ∀ (i : Nat) (ns : List Node),
      Shape.items read i vs = .ok ns ↔ Node.AllWrittenAs ns vs ∧ Node.heightAll ns ≤ room := by
  induction vs with
  | nil =>
    intro i ns
    constructor
    · intro h
      cases h
      exact ⟨.nil, Nat.zero_le room⟩
    · rintro ⟨⟨⟩, _⟩
      rfl
  | cons v vs ih =>
    intro i ns
    rw [Shape.items, map_eq_ok_iff]
    simp only [both_eq_ok_iff, under_eq_ok_iff, hread, ih]
    constructor
    · rintro ⟨⟨n, ns⟩, ⟨⟨hn, hheight⟩, hns, hheights⟩, rfl⟩
      exact ⟨.cons hn hns, Nat.max_le.mpr ⟨hheight, hheights⟩⟩
    · rintro ⟨hall, hheights⟩
      cases hall with
      | cons hn hns =>
        obtain ⟨hheight, hheights⟩ := Nat.max_le.mp hheights
        exact ⟨(_, _), ⟨⟨hn, hheight⟩, hns, hheights⟩, rfl⟩

theorem Node.list_eq_ok_iff {read : Value → Check Node} {room : Nat}
    (hread : ∀ v n, read v = .ok n ↔ n.WrittenAs v ∧ n.height ≤ room) (v : Value) (ns : List Node) :
    Shape.list read v = .ok ns ↔ ChildrenWritten room ns v := by
  cases v <;> simp [Shape.list, ChildrenWritten, Check.fail, Node.items_eq_ok_iff hread]

/-- **A node is read from a value exactly when it is written there and has no more levels than are followed.**  The
induction is on the levels that are left. -/
theorem Node.checkWithin_eq_ok_iff (room : Nat) : ∀ (v : Value) (n : Node),
    Node.checkWithin room v = .ok n ↔ n.WrittenAs v ∧ n.height ≤ room := by
  induction room with
  | zero =>
    intro v n
    refine ⟨fun h => ?_, fun ⟨_, hheight⟩ => absurd n.height_pos (Nat.not_lt.mpr hheight)⟩
    simp [Node.checkWithin, Check.fail] at h
  | succ room ih =>
    intro v n
    cases v with
    | obj fields =>
      obtain ⟨c, children⟩ := n
      have hnull : ∀ ns, ¬ ChildrenWritten room ns .null := by simp [ChildrenWritten]
      rw [Node.checkWithin, map_eq_ok_iff, Node.writtenWithin_iff]
      simp only [both_eq_ok_iff, component_eq_ok_iff, optional_eq_ok_iff (Node.list_eq_ok_iff ih) hnull]
      constructor
      · rintro ⟨⟨_, _⟩, hwritten, heq⟩
        cases heq
        exact hwritten
      · intro hwritten
        exact ⟨(c, children), hwritten, rfl⟩
    | _ =>
      constructor
      · intro h
        simp [Node.checkWithin, Check.fail] at h
      · rintro ⟨⟨⟩, _⟩

theorem Node.check_eq_ok_iff (v : Value) (n : Node) :
    Node.check v = .ok n ↔ n.WrittenAs v ∧ n.height ≤ Node.maxLevels := Node.checkWithin_eq_ok_iff _ v n

/-! ### Depth -/

theorem objectCount_le_of_get? {name : String} {v : Value} : ∀ {fields : Assoc Value},
    Assoc.get? name fields = some v → objectCount v ≤ objectCountFields fields
  | (k, w) :: fields, hget => by
    rw [objectCountFields]
    rw [Assoc.get?] at hget
    split at hget
    · cases hget
      omega
    · have := objectCount_le_of_get? hget
      omega

mutual

/-- Every node of a tree is written as an object of its own. -/
theorem Node.WrittenAs.count_le : ∀ {n : Node} {v : Value}, n.WrittenAs v → n.count ≤ objectCount v
  | _, _, .leaf _ _ => by
    rw [objectCount]
    exact Nat.le_add_left 1 _
  | _, _, .parent _ hget hall => by
    have hlist := objectCount_le_of_get? hget
    have hitems := Node.AllWrittenAs.count_le hall
    rw [objectCount] at hlist
    rw [objectCount, Node.count, Node.preorder, List.length_cons]
    omega

theorem Node.AllWrittenAs.count_le : ∀ {ns : List Node} {vs : List Value}, Node.AllWrittenAs ns vs →
    (Node.preorderAll ns).length ≤ objectCountAll vs
  | _, _, .nil => Nat.le_refl _
  | _, _, .cons hn hns => by
    have hhead := Node.WrittenAs.count_le hn
    have htail := Node.AllWrittenAs.count_le hns
    rw [Node.count] at hhead
    rw [Node.preorderAll, objectCountAll, List.length_append]
    omega

end

theorem Node.WrittenAs.isObject {n : Node} {v : Value} (h : n.WrittenAs v) : isObject v = true := by
  cases h <;> rfl

/-- A node at some level and the value that it is written as, at the same level. -/
def SameLevel (e : Node × Nat) (e' : Value × Nat) : Prop := e.1.WrittenAs e'.1 ∧ e.2 = e'.2

/-- One level further down the children of a node are written in the raw children of its value. -/
theorem SameLevel.levelled {e : Node × Nat} {e' : Value × Nat} (h : SameLevel e e') :
    List.Forall₂ SameLevel (Node.levelled e).reverse (rawLevelled e').reverse := by
  obtain ⟨n, level⟩ := e
  obtain ⟨v, _⟩ := e'
  obtain ⟨hn, rfl⟩ := h
  have hall : ∀ {ns : List Node} {vs : List Value}, Node.AllWrittenAs ns vs →
      List.Forall₂ SameLevel (ns.map fun child => (child, level + 1))
        ((vs.filter Protocol.isObject).map fun child => (child, level + 1)) := by
    intro ns vs h
    induction ns generalizing vs with
    | nil => cases h; exact .nil
    | cons n ns ih =>
      cases h with
      | cons hn hns =>
        rw [List.filter_cons_of_pos hn.isObject]
        exact .cons ⟨hn, rfl⟩ (ih hns)
  apply List.rel_reverse
  rw [Node.levelled, rawLevelled, rawChildren]
  cases hn with
  | leaf _ hnone => rcases hnone with hget | hget <;> simp [Value.field?, hget, Node.childList]
  | parent _ hget hns =>
    simp only [Value.field?, hget, Node.childList, Option.getD_some]
    exact hall hns

theorem map_level_eq {es : List (Node × Nat)} {es' : List (Value × Nat)} (h : List.Forall₂ SameLevel es es') :
    es.map Prod.snd = es'.map Prod.snd := by
  induction h with
  | nil => rfl
  | cons hhead _ ih => rw [List.map_cons, List.map_cons, hhead.2, ih]

/-- **The depth of a raw value is the height of the node that is written there.** -/
theorem Node.WrittenAs.rawDepth_eq {n : Node} {v : Value} (h : n.WrittenAs v) : rawDepth v = n.height := by
  have hsame : List.Forall₂ SameLevel (visit (fun e => (Node.levelled e).reverse) (objectCount v) [(n, 1)])
      (visit (fun e => (rawLevelled e).reverse) (objectCount v) [(v, 1)]) :=
    visit_forall₂ (fun _ _ => SameLevel.levelled) _ (.cons ⟨h, rfl⟩ .nil)
  -- the budget of the raw walk is larger than the walk of the node needs
  have hvisit : visit (fun e => (Node.levelled e).reverse) (objectCount v) [(n, 1)] = n.marked levelDown 1 :=
    Node.visit_eq_marked_of_le levelDown _ (fun e => by rw [Node.levelled_eq]) 1 h.count_le
  rw [rawDepth, if_pos h.isObject, ← map_level_eq hsame, hvisit]
  exact Node.greatest_levels n

/-! ### Messages -/

/-- A message keeps all its limits: those on its nodes and patch, and the one on the levels of its component. -/
structure Message.Fits (limits : Limits) (m : Message) : Prop where
  within : m.Within limits
  height_le : ∀ data complete, m = .component data complete → data.height ≤ limits.maxDepth

theorem Tag.ofValue?_eq_some_iff {v : Value} {tag : Tag} : Tag.ofValue? v = some tag ↔ v = .str tag.name := by
  have hone : Shape.oneOf Tag.all Tag.name v = .ok tag ↔ Tag.ofValue? v = some tag := by
    cases v with
    | str s => cases hfind : Tag.all.find? (·.name = s) <;> simp [Shape.oneOf, Tag.ofValue?, hfind, Check.fail]
    | _ => simp [Shape.oneOf, Tag.ofValue?, Check.fail]
  rw [← hone]
  exact oneOf_eq_ok_iff Tag.mem_all Tag.name_injective v tag

/-- The component of a message has no more levels than are followed. -/
def Message.Followed (m : Message) : Prop :=
  ∀ data complete, m = .component data complete → data.height ≤ Message.maxLevels

theorem Message.checkAs_eq_ok_iff {fields : Assoc Value} {tag : Tag} {m : Message} :
    Message.checkAs fields tag = .ok m ↔ m.tag = tag ∧ m.BodyIn fields ∧ m.Followed := by
  cases tag <;> rw [Message.checkAs, map_eq_ok_iff]
  all_goals simp only [both_eq_ok_iff, requiredString_eq_ok_iff, requiredDictionary_eq_ok_iff,
    optionalBoolean_eq_ok_iff, required_eq_ok_iff (Node.checkWithin_eq_ok_iff _), required_eq_ok_iff action_eq_ok_iff]
  all_goals cases m <;> simp [Message.tag, Message.BodyIn, Message.Followed, RequiredMember]
  case component.component => grind

theorem Message.check_eq_ok_iff {fields : Assoc Value} {m : Message} :
    Message.check fields = .ok m ↔ m.WrittenIn fields ∧ m.Followed := by
  have hwritten : m.WrittenIn fields ∧ m.Followed ↔
      ∃ v, Assoc.get? "type" fields = some v ∧ v = .str m.tag.name ∧ m.BodyIn fields ∧ m.Followed :=
    ⟨fun ⟨h, hfollowed⟩ => ⟨_, h.tag, rfl, h.body, hfollowed⟩,
      fun ⟨_, hget, heq, hbody, hfollowed⟩ => ⟨⟨heq ▸ hget, hbody⟩, hfollowed⟩⟩
  rw [hwritten, Message.check]
  cases hget : Assoc.get? "type" fields with
  | none => simp [Check.fail]
  | some v =>
    cases htag : Tag.ofValue? v with
    | none =>
      have hno : v ≠ .str m.tag.name := fun heq => by simp [Tag.ofValue?_eq_some_iff.mpr heq] at htag
      simp [htag, Check.fail, hno]
    | some tag =>
      obtain rfl := Tag.ofValue?_eq_some_iff.mp htag
      simp only [htag, under_eq_ok_iff, Message.checkAs_eq_ok_iff, Option.some.injEq, Json.Value.str.injEq,
        exists_eq_left', Tag.name_injective.eq_iff]
      rw [eq_comm]

theorem depthIssues_eq_nil_iff {limits : Limits} {raw : Value} {path : Shape.Path} :
    depthIssues limits raw path = [] ↔ rawDepth raw ≤ limits.maxDepth := by
  rw [depthIssues]
  by_cases h : limits.maxDepth < rawDepth raw
  · simp [h]
  · simpa [h] using Nat.le_of_not_lt h

/-- Of a message that is written in an object, the raw depth check tells the height. -/
theorem Message.WrittenIn.depthIssues_eq_nil_iff {limits : Limits} {fields : Assoc Value} {m : Message}
    (h : m.WrittenIn fields) : messageDepthIssues limits fields = [] ↔
      ∀ data complete, m = .component data complete → data.height ≤ limits.maxDepth := by
  rw [messageDepthIssues, h.tag]
  cases m with
  | component data complete =>
    obtain ⟨v, hget, hdata⟩ := h.body.1
    simp [Message.tag, Tag.name, hget, Protocol.depthIssues_eq_nil_iff, hdata.rawDepth_eq]
  | _ => simp [Message.tag, Tag.name]

/-! ### Chains -/

/-- A card with so many cards below it, each of them in the one before.  The number is also its identifier. -/
def Node.chain : Nat → Node
  | 0 => ⟨⟨natText 0, "Card", [], none, none⟩, none⟩
  | n + 1 => ⟨⟨natText (n + 1), "Card", [], none, none⟩, some [Node.chain n]⟩

/-- What is written for a chain. -/
def rawChain : Nat → Value
  | 0 => .obj [("id", .str (natText 0)), ("type", .str "Card"), ("props", .obj [])]
  | n + 1 => .obj [("id", .str (natText (n + 1))), ("type", .str "Card"), ("props", .obj []),
      ("children", .arr [rawChain n])]

/-- The members of the message that inserts a chain. -/
def rawChainMessage (n : Nat) : Assoc Value := [("type", .str "component"), ("data", rawChain n)]

theorem Node.chain_writtenAs (n : Nat) : (Node.chain n).WrittenAs (rawChain n) := by
  induction n with
  | zero => exact .leaf ⟨rfl, rfl, rfl, .inl rfl, .inl rfl⟩ (.inl rfl)
  | succ n ih => exact .parent ⟨rfl, rfl, rfl, .inl rfl, .inl rfl⟩ rfl (.cons ih .nil)

theorem Node.height_chain (n : Nat) : (Node.chain n).height = n + 1 := by
  induction n with
  | zero => rfl
  | succ n ih => rw [Node.chain, Node.height, Node.heightAll, Node.heightAll, ih, Nat.max_zero]

theorem Node.preorder_chain_succ (n : Nat) :
    (Node.chain (n + 1)).preorder = Node.chain (n + 1) :: (Node.chain n).preorder := by
  rw [Node.chain, Node.preorder, Node.preorderAll, Node.preorderAll, List.append_nil]

theorem natText_injective : Function.Injective natText := by
  intro m n h
  have hdigits : Nat.toDigits 10 m = Nat.toDigits 10 n := String.ofList_injective h
  rw [← Nat.ofDigitChars_ten_toDigits (n := m), hdigits, Nat.ofDigitChars_ten_toDigits]

/-- Every node of a chain is a chain again, of no greater length. -/
theorem Node.exists_of_mem_chain {n : Nat} {each : Node} (h : each ∈ (Node.chain n).preorder) :
    ∃ m ≤ n, each = Node.chain m := by
  induction n with
  | zero => exact ⟨0, Nat.le_refl 0, List.mem_singleton.mp h⟩
  | succ n ih =>
    rw [Node.preorder_chain_succ] at h
    rcases List.mem_cons.mp h with rfl | hbelow
    · exact ⟨n + 1, Nat.le_refl _, rfl⟩
    · obtain ⟨m, hm, rfl⟩ := ih hbelow
      exact ⟨m, Nat.le_succ_of_le hm, rfl⟩

theorem Node.component_chain (n : Nat) : (Node.chain n).component = ⟨natText n, "Card", [], none, none⟩ := by
  cases n <;> rfl

theorem Node.nodup_ids_chain (n : Nat) : (Node.chain n).ids.Nodup := by
  induction n with
  | zero => exact List.nodup_singleton _
  | succ n ih =>
    rw [Node.ids, Node.preorder_chain_succ, List.map_cons, List.nodup_cons]
    refine ⟨fun hmem => ?_, ih⟩
    obtain ⟨each, heach, hid⟩ := List.mem_map.mp hmem
    obtain ⟨m, hm, rfl⟩ := Node.exists_of_mem_chain heach
    rw [Node.id, Node.id, Node.component_chain, Node.component_chain] at hid
    have := natText_injective hid
    omega

theorem Node.chain_fits {limits : Limits} {n : Nat} (hallows : limits.allows "Card" = true)
    (hsize : 2 ≤ limits.maxPropsSize) (hdepth : n < limits.maxDepth) :
    (Message.component (Node.chain n) none).Fits limits where
  within := ⟨Node.nodup_ids_chain n, fun each heach => by
    obtain ⟨m, _, rfl⟩ := Node.exists_of_mem_chain heach
    rw [Node.component_chain]
    exact ⟨hallows, hsize⟩⟩
  height_le data complete heq := by
    obtain ⟨rfl, _⟩ := Message.component.inj heq
    rwa [Node.height_chain]

theorem Node.chain_writtenIn (n : Nat) : (Message.component (Node.chain n) none).WrittenIn (rawChainMessage n) :=
  ⟨rfl, ⟨_, rfl, Node.chain_writtenAs n⟩, .inl rfl⟩

/-- A component with more levels than are followed is no message, whatever the limits are. -/
theorem Message.WrittenIn.check_ne_ok {fields : Assoc Value} {data : Node} {complete : Option Bool}
    (h : (Message.component data complete).WrittenIn fields) (hdeep : Message.maxLevels < data.height) (m : Message) :
    Message.check fields ≠ .ok m := by
  intro hok
  obtain ⟨hwritten, hfollowed⟩ := Message.check_eq_ok_iff.mp hok
  obtain ⟨raw, hraw, hdata⟩ := h.body.1
  cases m with
  | component data' complete' =>
    -- the height of what is written can be told from the value
    obtain ⟨raw', hraw', hdata'⟩ := hwritten.body.1
    obtain rfl := Option.some.inj (hraw.symm.trans hraw')
    have hheight : data.height = data'.height := hdata.rawDepth_eq.symm.trans hdata'.rawDepth_eq
    have := hfollowed data' complete' rfl
    omega
  | _ => exact absurd (Option.some.inj (h.tag.symm.trans hwritten.tag)) (by simp [Message.tag, Tag.name])

theorem Message.WrittenIn.checkMessage_ne_ok {fields : Assoc Value} {data : Node} {complete : Option Bool}
    (h : (Message.component data complete).WrittenIn fields) (hdeep : Message.maxLevels < data.height) (limits : Limits)
    (m : Message) : checkMessage limits (.obj fields) ≠ .ok m := by
  intro hok
  rw [checkMessage] at hok
  split at hok
  · split at hok
    · cases hok
    · next hmessage => exact h.check_ne_ok hdeep _ hmessage
  · cases hok

/-! ### Accepted messages -/

end ComponentStream.Protocol
