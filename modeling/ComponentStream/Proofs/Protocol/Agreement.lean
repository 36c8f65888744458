import ComponentStream.Proofs.Protocol.Diagnostics

/-!
# A node by itself and in its message

A node is checked in two places: by itself, where it was found at the root, and inside the message that inserts it.  Both
checks accept the same values and tell the same issues in the same order.  Only the places differ: the shape is told from
the top of the message, under its tag, and everything else from the member that holds the node.

* `Issue.behind`, `nodeIssues_eq_map` — the path to a node stands before everything that is told of it;
* `AboutMembers`, `aboutMembers_component` — the faults of a record of members name one of them first;
* `Message.check_eq_map` — the check of the message is that of the node, further down;
* `Issue.Moved`, `SameVerdict` — what is told in one place and in the other;
* `checkMessage_agrees_with_checkNode` — the agreement.
-/

namespace ComponentStream.Protocol

open Json (Value)
open Shape (Check Fault Path Segment)

/-! ### Issues of nodes -/

section Prefixed

variable {β γ : Type} {next : β → Nat → β} {next' : γ → Nat → γ} {f : β → γ}

mutual

/-- Marks that are translated on the way down are translated everywhere. -/
theorem Node.marked_map (hf : ∀ mark i, f (next mark i) = next' (f mark) i) : ∀ (n : Node) (mark : β),
    n.marked next' (f mark) = (n.marked next mark).map fun e => (e.1, f e.2)
  | ⟨c, none⟩, mark => rfl
  | ⟨c, some ns⟩, mark => by
    rw [Node.marked, Node.marked, List.map_cons, Node.markedAll_map hf ns mark 0]

theorem Node.markedAll_map (hf : ∀ mark i, f (next mark i) = next' (f mark) i) : ∀ (ns : List Node) (mark : β) (i : Nat),
    Node.markedAll next' (f mark) i ns = (Node.markedAll next mark i ns).map fun e => (e.1, f e.2)
  | [], _, _ => rfl
  | n :: ns, mark, i => by
    rw [Node.markedAll, Node.markedAll, List.map_append, Node.markedAll_map hf ns mark (i + 1), ← hf,
      Node.marked_map hf n (next mark i)]

end

end Prefixed

/-- The same issue with a path before its own. -/
def Issue.behind (path : Path) (i : Issue) : Issue := { i with path := path ++ i.path }

theorem occurrences_eq_map (n : Node) (path : Path) :
    occurrences n path = (occurrences n []).map fun o => (o.1, path ++ o.2) := by
  have hstep : ∀ (way : Path) (i : Nat), path ++ stepDown way i = stepDown (path ++ way) i := fun way i =>
    (List.append_assoc ..).symm
  have hmarked := Node.marked_map hstep n []
  rw [List.append_nil] at hmarked
  rw [Node.occurrences_eq_marked, Node.occurrences_eq_marked, hmarked]

theorem occurrenceIssues_map (limits : Limits) (path : Path) (os : List Occurrence) : ∀ seen : List String,
    occurrenceIssues limits seen (os.map fun o => (o.1, path ++ o.2)) =
      (occurrenceIssues limits seen os).map (Issue.behind path) := by
  induction os with
  | nil => exact fun _ => rfl
  | cons o os ih =>
    intro seen
    have hid : idIssues seen (o.1, path ++ o.2) = (idIssues seen o).map (Issue.behind path) := by
      rw [idIssues, idIssues]
      split <;> simp [Issue.behind]
    have htype : typeIssues limits (o.1, path ++ o.2) = (typeIssues limits o).map (Issue.behind path) := by
      rw [typeIssues, typeIssues]
      split <;> simp [Issue.behind]
    have hsize : sizeIssues limits o.1.component.props (path ++ o.2) =
        (sizeIssues limits o.1.component.props o.2).map (Issue.behind path) := by
      rw [sizeIssues, sizeIssues]
      split <;> simp [Issue.behind]
    rw [List.map_cons, occurrenceIssues, occurrenceIssues, List.map_append, List.map_append, List.map_append, ← hid,
      ← htype, ← hsize, ← ih]

/-- **The path to a node stands before everything that is told of it.** -/
theorem nodeIssues_eq_map (limits : Limits) (n : Node) (path : Path) :
    nodeIssues limits n path = (nodeIssues limits n []).map (Issue.behind path) := by
  rw [nodeIssues, nodeIssues, occurrences_eq_map, occurrenceIssues_map]

/-! ### Faults of nodes -/

section Members

variable {α β : Type} {c : Check α} {d : Check β}

/-- Every fault is in one of the named members. -/
def AboutMembers (names : List String) (c : Check α) : Prop :=
  ∀ f ∈ c.faults, ∃ name rest, name ∈ names ∧ f.path = .key name :: rest

variable {name : String} {names names' : List String}

theorem aboutMembers_under (name : String) (c : Check α) : AboutMembers [name] (c.under (.key name)) := by
  intro f hf
  rw [faults_under] at hf
  obtain ⟨g, _, rfl⟩ := List.mem_map.mp hf
  exact ⟨name, g.path, List.mem_singleton_self name, rfl⟩

theorem AboutMembers.both (hc : AboutMembers names c) (hd : AboutMembers names' d) :
    AboutMembers (names ++ names') (c.both d) := by
  intro f hf
  rw [faults_both, List.mem_append] at hf
  rcases hf with hf | hf
  · obtain ⟨name, rest, hname, hpath⟩ := hc f hf
    exact ⟨name, rest, List.mem_append_left _ hname, hpath⟩
  · obtain ⟨name, rest, hname, hpath⟩ := hd f hf
    exact ⟨name, rest, List.mem_append_right _ hname, hpath⟩

theorem AboutMembers.map (hc : AboutMembers names c) (f : α → β) : AboutMembers names (c.map f) := by
  rwa [AboutMembers, faults_map]

variable (fields : Assoc Value)

theorem aboutMembers_required (name : String) (read : Value → Check α) :
    AboutMembers [name] (Shape.required fields name read) := by
  rw [Shape.required]
  cases Assoc.get? name fields with
  | some v => exact aboutMembers_under name (read v)
  | none => exact aboutMembers_under name (Check.fail .missing : Check α)

theorem aboutMembers_optional (name : String) (read : Value → Check α) :
    AboutMembers [name] (Shape.optional fields name read) := by
  rw [Shape.optional]
  cases Assoc.get? name fields with
  | some v => exact aboutMembers_under name (Shape.nullable read v)
  | none => exact fun f hf => absurd hf List.not_mem_nil

theorem aboutMembers_component :
    AboutMembers ["id", "type", "props", "layout", "style"] (Component.check fields) :=
  ((aboutMembers_required fields "id" Shape.Strict.string).both
    ((aboutMembers_required fields "type" Shape.Strict.string).both
      ((aboutMembers_required fields "props" Shape.Strict.dictionary).both
        ((aboutMembers_optional fields "layout" Layout.check).both
          (aboutMembers_optional fields "style" checkStyle))))).map _

theorem aboutMembers_checkWithin (room : Nat) :
    AboutMembers ["id", "type", "props", "layout", "style", "children"] (Node.checkWithin (room + 1) (.obj fields)) :=
  ((aboutMembers_component fields).both (aboutMembers_optional fields "children" _)).map _

end Members

/-- A fault of a node is the value itself, or is in one of its members. -/
theorem path_of_checkWithin {room : Nat} {raw : Value} {f : Fault} (h : f ∈ (Node.checkWithin room raw).faults) :
    f.path = [] ∨ ∃ name rest, name ≠ "" ∧ f.path = .key name :: rest := by
  cases room with
  | zero => exact .inl (List.mem_singleton.mp h ▸ rfl)
  | succ room =>
    cases raw with
    | obj fields =>
      obtain ⟨name, rest, hname, hpath⟩ := aboutMembers_checkWithin fields room f h
      refine .inr ⟨name, rest, ?_, hpath⟩
      rintro rfl
      exact absurd hname (by decide)
    | _ => exact .inl (List.mem_singleton.mp h ▸ rfl)

/-! ### The last level -/

section Levels

theorem mem_faults_under_iff {α : Type} {c : Check α} {s : Segment} {rest : Path} {cause : Shape.Mismatch} :
    ⟨s :: rest, cause⟩ ∈ (c.under s).faults ↔ ⟨rest, cause⟩ ∈ c.faults := by
  rw [faults_under, List.mem_map]
  constructor
  · rintro ⟨⟨path, found⟩, hf, heq⟩
    cases heq
    exact hf
  · exact fun hf => ⟨_, hf, rfl⟩

theorem faults_items {α : Type} (read : Value → Check α) (vs : List Value) : ∀ i : Nat,
    (Shape.items read i vs).faults = (vs.zipIdx i).flatMap fun e => (read e.1).faults.map (Fault.under (.index e.2)) := by
  induction vs with
  | nil => exact fun _ => rfl
  | cons v vs ih =>
    intro i
    rw [Shape.items, faults_map, faults_both, faults_under, ih, List.zipIdx_cons, List.flatMap_cons]

theorem mem_faults_items_iff {α : Type} {read : Value → Check α} {vs : List Value} {i : Nat} {rest : Path}
    {cause : Shape.Mismatch} : ⟨.index i :: rest, cause⟩ ∈ (Shape.items read 0 vs).faults ↔
      ∃ v, vs[i]? = some v ∧ ⟨rest, cause⟩ ∈ (read v).faults := by
  rw [faults_items, List.mem_flatMap]
  constructor
  · rintro ⟨⟨v, j⟩, hget, hmem⟩
    obtain ⟨⟨path, found⟩, hf, heq⟩ := List.mem_map.mp hmem
    cases heq
    exact ⟨v, List.mem_zipIdx_iff_getElem?.mp hget, hf⟩
  · rintro ⟨v, hget, hmem⟩
    exact ⟨(v, i), List.mem_zipIdx_iff_getElem?.mpr hget, List.mem_map.mpr ⟨_, hmem, rfl⟩⟩

variable {room : Nat} {fields : Assoc Value} {rest : Path} {cause : Shape.Mismatch}

theorem items_congr {α : Type} {read read' : Value → Check α} {vs : List Value} (h : ∀ v ∈ vs, read v = read' v) :
    ∀ {i : Nat}, Shape.items read i vs = Shape.items read' i vs := by
  induction vs with
  | nil => exact rfl
  | cons v vs ih =>
    intro i
    rw [Shape.items, Shape.items, h v List.mem_cons_self, ih fun w hw => h w (List.mem_cons_of_mem v hw)]

/-- What is told of a child is what is told where the child is checked. -/
theorem mem_faults_child_iff {i : Nat} :
    ⟨.key "children" :: .index i :: rest, cause⟩ ∈ (Node.checkWithin (room + 1) (.obj fields)).faults ↔
      ∃ vs v, Assoc.get? "children" fields = some (.arr vs) ∧ vs[i]? = some v ∧
        ⟨rest, cause⟩ ∈ (Node.checkWithin room v).faults := by
  have hcomponent : (⟨.key "children" :: .index i :: rest, cause⟩ : Fault) ∉ (Component.check fields).faults := by
    intro hmem
    obtain ⟨name, rest', hname, heq⟩ := aboutMembers_component fields _ hmem
    cases heq
    exact absurd hname (by decide)
  rw [Node.checkWithin, faults_map, faults_both, List.mem_append, or_iff_right hcomponent, Shape.optional]
  cases hget : Assoc.get? "children" fields with
  | none => simp [Check.faults]
  | some v =>
    cases v with
    | null => simp [Shape.nullable, Check.under, Check.faults]
    | arr vs =>
      show _ ∈ (((Shape.list (Node.checkWithin room) (.arr vs)).map some).under (.key "children")).faults ↔ _
      rw [mem_faults_under_iff, faults_map, Shape.list, mem_faults_items_iff]
      simp
    | _ => simp [Shape.nullable, Shape.list, Check.faults, Check.map, Check.under, Check.fail, Fault.under]

/-- **Too deep nesting is told of exactly what stands behind the last level.** -/
theorem tooNested_mem_iff (room : Nat) : ∀ (v : Value) (w : List Nat),
    ⟨stepsTo w, .tooNested⟩ ∈ (Node.checkWithin room v).faults ↔
      w.length = room ∧ (v.follow (stepsTo w)).isSome = true := by
  induction room with
  | zero =>
    intro v w
    cases w with
    | nil => simp [Node.checkWithin, Check.fail, Check.faults, stepsTo, Value.follow]
    | cons i w => simp [Node.checkWithin, Check.fail, Check.faults, stepsTo]
  | succ room ih =>
    intro v w
    cases v with
    | obj fields =>
      cases w with
      | nil =>
        have hmembers : (⟨[], .tooNested⟩ : Fault) ∉ (Node.checkWithin (room + 1) (.obj fields)).faults := by
          intro hmem
          obtain ⟨_, _, _, hpath⟩ := aboutMembers_checkWithin fields room _ hmem
          cases hpath
        simp [stepsTo, hmembers]
      | cons i w =>
        have hsteps : stepsTo (i :: w) = .key "children" :: .index i :: stepsTo w := rfl
        rw [hsteps, mem_faults_child_iff]
        simp only [ih, Value.follow, List.length_cons, Nat.add_right_cancel_iff]
        cases hget : Assoc.get? "children" fields with
        | none => simp
        | some v =>
          cases v with
          | arr vs => cases hitem : vs[i]? <;> simp [Value.follow, hitem]
          | _ => simp [Value.follow]
    | _ => cases w <;> simp [Node.checkWithin, Check.fail, Check.faults, stepsTo, Value.follow]

/-- Where nothing stands behind the last level, one more makes no difference. -/
theorem checkWithin_succ_eq (room : Nat) : ∀ v : Value, (∀ w, w.length = room → v.follow (stepsTo w) = none) →
    Node.checkWithin (room + 1) v = Node.checkWithin room v := by
  induction room with
  | zero => exact fun v h => absurd (h [] rfl) (Option.some_ne_none v)
  | succ room ih =>
    intro v h
    cases v with
    | obj fields =>
      have hchildren : Shape.optional fields "children" (Shape.list (Node.checkWithin (room + 1))) =
          Shape.optional fields "children" (Shape.list (Node.checkWithin room)) := by
        rw [Shape.optional, Shape.optional]
        cases hget : Assoc.get? "children" fields with
        | none => rfl
        | some v =>
          cases v with
          | arr vs =>
            refine congrArg (fun c => Check.under (.key "children") (Check.map some c)) (items_congr fun v hv => ih v ?_) 
            intro w hw
            obtain ⟨i, hi⟩ := List.mem_iff_getElem?.mp hv
            simpa [stepsTo, Value.follow, hget, hi] using h (i :: w) (by rw [List.length_cons, hw])
          | _ => rfl
      rw [Node.checkWithin, Node.checkWithin, hchildren]
    | _ => rfl

end Levels

/-! ### The same verdict -/

/-- The steps of a path in words, each behind a point. -/
def dotted (p : Path) : String := String.join (p.map fun s => "." ++ s.text)

theorem joined_cons (name : String) (p : Path) : Path.joined (.key name :: p) = name ++ dotted p := by
  have hone : Path.joined [.key name] = name := by simp [Path.joined, Segment.text]
  have happend := joined_append (List.cons_ne_nil (Segment.key name) []) p
  rwa [hone] at happend

/-- What is told of a node by itself, and what is told instead of the message that carries it. -/
structure Issue.Moved (alone carried : Issue) : Prop where
  /-- The same is wrong, and so the message is the same, and the limit if one is broken. -/
  problem_eq : carried.problem = alone.problem
  /-- The shape is told under the tag of the message, everything else under the member instead of the root. -/
  place : match alone.problem with
    | .shape _ => ∃ p, alone.path = p ∧ carried.path = [.key "component", .key "data"] ++ p ∧
        alone.place = (if p = [] then "root" else p.joined) ∧ carried.place = "component.data" ++ dotted p
    | _ => ∃ q, alone.path = [.key "root"] ++ q ∧ carried.path = [.key "data"] ++ q ∧
        alone.place = "root" ++ dotted q ∧ carried.place = "data" ++ dotted q

theorem moved_fault {f : Fault} (h : f.path = [] ∨ ∃ name rest, name ≠ "" ∧ f.path = .key name :: rest) :
    (Issue.ofFault f).Moved (Issue.ofFault ((f.under (.key "data")).under (.key "component"))) where
  problem_eq := rfl
  place := by
    refine ⟨f.path, rfl, rfl, ?_, ?_⟩
    · show f.path.text = if f.path = [] then "root" else f.path.joined
      rcases h with hnil | ⟨name, rest, hname, hpath⟩
      · rw [hnil]
        rfl
      · have hne : Path.joined (.key name :: rest) ≠ "" := by
          rw [joined_cons]
          exact fun heq => hname (String.append_eq_empty_iff.mp heq).1
        rw [hpath, Path.text, if_neg hne, if_neg (List.cons_ne_nil _ _)]
    · show Path.text (.key "component" :: .key "data" :: f.path) = "component.data" ++ dotted f.path
      have hjoined : Path.joined (.key "component" :: .key "data" :: f.path) = "component.data" ++ dotted f.path := by
        have hwords : dotted (.key "data" :: f.path) = ".data" ++ dotted f.path := by
          rw [dotted, List.map_cons, String.join_cons]
          rfl
        rw [joined_cons, hwords, ← String.append_assoc]
        rfl
      have hne : "component.data" ++ dotted f.path ≠ "" := fun heq =>
        absurd (String.append_eq_empty_iff.mp heq).1 (by decide)
      rw [Path.text, hjoined, if_neg hne]

/-- A fault of the shape that is told of the message is told of the node at the rest of its path. -/
theorem Issue.Moved.eq_of_shape {i : Issue} {p : Path} {cause : Shape.Mismatch}
    (h : i.Moved ⟨[.key "component", .key "data"] ++ p, .shape cause⟩) : i = ⟨p, .shape cause⟩ := by
  obtain ⟨path, problem⟩ := i
  obtain ⟨hproblem, hplace⟩ := h
  subst hproblem
  obtain ⟨_, rfl, hpath, _⟩ := hplace
  rw [List.append_cancel_left hpath]

theorem exists_moved {alone carried : List Issue} (h : List.Forall₂ Issue.Moved alone carried) {i : Issue}
    (hi : i ∈ carried) : ∃ j ∈ alone, j.Moved i := by
  induction h with
  | nil => exact absurd hi List.not_mem_nil
  | cons hhead _ ih =>
    rcases List.mem_cons.mp hi with rfl | hi
    · exact ⟨_, List.mem_cons_self, hhead⟩
    · obtain ⟨j, hj, hmoved⟩ := ih hi
      exact ⟨j, List.mem_cons_of_mem _ hj, hmoved⟩

theorem moved_behind {i : Issue} (h : i.problem.limit? ≠ none ∨ ∃ id, i.problem = .duplicateId id) :
    (i.behind [.key "root"]).Moved (i.behind [.key "data"]) where
  problem_eq := rfl
  place := by
    obtain ⟨q, problem⟩ := i
    have hplace : ∀ name : String, (Issue.behind [.key name] ⟨q, problem⟩).place = name ++ dotted q := by
      intro name
      rw [← joined_cons]
      cases problem with
      | notAnObject kind => exact absurd h (by simp [Problem.limit?])
      | shape cause => exact absurd h (by simp [Problem.limit?])
      | _ => rfl
    have hmoved : ∃ q', (Issue.behind [.key "root"] ⟨q, problem⟩).path = [.key "root"] ++ q' ∧
        (Issue.behind [.key "data"] ⟨q, problem⟩).path = [.key "data"] ++ q' ∧
        (Issue.behind [.key "root"] ⟨q, problem⟩).place = "root" ++ dotted q' ∧
        (Issue.behind [.key "data"] ⟨q, problem⟩).place = "data" ++ dotted q' :=
      ⟨q, rfl, rfl, hplace "root", hplace "data"⟩
    cases problem with
    | shape cause => exact absurd h (by simp [Problem.limit?])
    | _ => exact hmoved

/-- Both checks accept the same node, or tell the same issues one by one, each in its place. -/
def SameVerdict (complete : Option Bool) : Except (List Issue) Node → Except (List Issue) Message → Prop
  | .ok n, .ok m => m = .component n complete
  | .error alone, .error carried => List.Forall₂ Issue.Moved alone carried
  | _, _ => False

theorem sameVerdict_whenClear {alone carried : List Issue} (h : List.Forall₂ Issue.Moved alone carried) (n : Node)
    (complete : Option Bool) : SameVerdict complete (whenClear alone n) (whenClear carried (.component n complete)) := by
  cases h with
  | nil => rfl
  | cons hhead htail => exact .cons hhead htail

theorem nodeIssues_moved (limits : Limits) (n : Node) :
    List.Forall₂ Issue.Moved (nodeIssues limits n [.key "root"]) (nodeIssues limits n [.key "data"]) := by
  rw [nodeIssues_eq_map, nodeIssues_eq_map limits n [.key "data"], List.forall₂_map_left_iff, List.forall₂_map_right_iff,
    List.forall₂_same]
  intro i hi
  obtain ⟨_, _, _, rfl | ⟨_, rfl⟩ | ⟨_, rfl⟩⟩ := Node.exists_of_mem_nodeIssues hi
  · exact moved_behind (.inr ⟨_, rfl⟩)
  · exact moved_behind (.inl (by simp [Problem.limit?]))
  · exact moved_behind (.inl (by simp [Problem.limit?]))

theorem faults_moved {room : Nat} {faults : List Fault} {raw : Value} (h : Node.checkWithin room raw = .error faults) :
    List.Forall₂ Issue.Moved (faults.map Issue.ofFault)
      (((faults.map (Fault.under (.key "data"))).map (Fault.under (.key "component"))).map Issue.ofFault) := by
  rw [List.map_map, List.map_map, List.forall₂_map_left_iff, List.forall₂_map_right_iff, List.forall₂_same]
  intro f hf
  have hmem : f ∈ (Node.checkWithin room raw).faults := by rwa [h]
  exact moved_fault (path_of_checkWithin hmem)

/-! ### The message of a node -/

variable {fields : Assoc Value} {data : Value} {complete : Option Bool}

/-- The check of a message is that of its node, two steps further in. -/
theorem Message.check_eq_map (htype : Assoc.get? "type" fields = some (.str "component"))
    (hdata : Assoc.get? "data" fields = some data)
    (hcomplete : Shape.optional fields "complete" Shape.Strict.boolean = .ok complete) :
    Message.check fields =
      (((Node.checkWithin Message.maxLevels data).under (.key "data")).map fun n =>
        Message.component n complete).under (.key "component") := by
  have htag : Tag.ofValue? (.str "component") = some .component := Tag.ofValue?_eq_some_iff.mpr rfl
  have hrequired : Shape.required fields "data" (Node.checkWithin Message.maxLevels) =
      (Node.checkWithin Message.maxLevels data).under (.key "data") := by
    rw [Shape.required, hdata]
  rw [Message.check, htype]
  simp only [htag, Message.checkAs, hrequired, hcomplete]
  cases Node.checkWithin Message.maxLevels data <;> rfl

/-- The two checks of a node agree, whatever else stands in the message, if nothing stands behind the last level. -/
theorem checkMessage_sameVerdict (limits : Limits) (htype : Assoc.get? "type" fields = some (.str "component"))
    (hdata : Assoc.get? "data" fields = some data)
    (hcomplete : Shape.optional fields "complete" Shape.Strict.boolean = .ok complete)
    (hlevels : limits.maxDepth < rawDepth data ∨
      ∀ w : List Nat, w.length = Message.maxLevels → data.follow (stepsTo w) = none) :
    SameVerdict complete (checkNode limits [.key "root"] data) (checkMessage limits (.obj fields)) := by
  have hdepth : messageDepthIssues limits fields = depthIssues limits data [.key "data"] := by
    rw [messageDepthIssues, htype, hdata]
    rfl
  rw [checkNode, checkMessage, hdepth]
  by_cases hdeep : limits.maxDepth < rawDepth data
  · -- too deep a value is not taken apart in either place
    have hissues : ∀ path, depthIssues limits data path = [⟨path, .tooDeep (rawDepth data) limits.maxDepth⟩] := fun path =>
      if_pos hdeep
    rw [hissues, hissues]
    exact .cons (moved_behind (i := ⟨[], .tooDeep (rawDepth data) limits.maxDepth⟩) (.inl (by simp [Problem.limit?]))) .nil
  · have hclear : ∀ path, depthIssues limits data path = [] := fun path => if_neg hdeep
    have hsame : Node.check data = Node.checkWithin Message.maxLevels data :=
      checkWithin_succ_eq Message.maxLevels data (hlevels.resolve_left hdeep)
    rw [hclear, hclear, Message.check_eq_map htype hdata hcomplete, hsame]
    cases hcheck : Node.checkWithin Message.maxLevels data with
    | error faults => exact faults_moved hcheck
    | ok n => exact sameVerdict_whenClear (nodeIssues_moved limits n) n complete

/-- What the check of a node tells of its shape is a fault of its shape, where the depth is permitted. -/
theorem mem_faults_of_shape_mem {limits : Limits} {path place : Path} {cause : Shape.Mismatch} {issues : List Issue}
    (hdepth : rawDepth data ≤ limits.maxDepth) (h : checkNode limits path data = .error issues)
    (hmem : ⟨place, .shape cause⟩ ∈ issues) : ⟨place, cause⟩ ∈ (Node.check data).faults := by
  rw [checkNode, depthIssues_eq_nil_iff.mpr hdepth] at h
  cases hcheck : Node.check data with
  | error faults =>
    simp only [hcheck, Except.error.injEq] at h
    obtain ⟨⟨_, _⟩, hf, heq⟩ := List.mem_map.mp (h ▸ hmem)
    cases heq
    exact hf
  | ok n =>
    simp only [hcheck] at h
    have hissues : issues = nodeIssues limits n path := by
      rw [whenClear] at h
      split at h
      · cases h
      · exact (Except.error.inj h).symm
    -- a node that has its shape is told of limits and identifiers alone
    obtain ⟨_, _, _, heq | ⟨_, heq⟩ | ⟨_, heq⟩⟩ := Node.exists_of_mem_nodeIssues (hissues ▸ hmem)
    all_goals exact absurd (congrArg Issue.problem heq) (by simp)

/-- What stands behind the last level is told of the message, and not of the node by itself. -/
theorem not_sameVerdict_of_follow (limits : Limits) (htype : Assoc.get? "type" fields = some (.str "component"))
    (hdata : Assoc.get? "data" fields = some data)
    (hcomplete : Shape.optional fields "complete" Shape.Strict.boolean = .ok complete)
    (hdepth : rawDepth data ≤ limits.maxDepth) {w : List Nat} (hw : w.length = Message.maxLevels)
    (hfollow : (data.follow (stepsTo w)).isSome = true) :
    ¬ SameVerdict complete (checkNode limits [.key "root"] data) (checkMessage limits (.obj fields)) := by
  have hdepthIssues : messageDepthIssues limits fields = [] := by
    rw [messageDepthIssues, htype, hdata]
    exact depthIssues_eq_nil_iff.mpr hdepth
  have htold : ⟨stepsTo w, .tooNested⟩ ∈ (Node.checkWithin Message.maxLevels data).faults :=
    (tooNested_mem_iff _ data w).mpr ⟨hw, hfollow⟩
  have hnot : ⟨stepsTo w, .tooNested⟩ ∉ (Node.check data).faults := fun hmem => by
    have hlength := ((tooNested_mem_iff _ data w).mp hmem).1
    rw [hw] at hlength
    exact absurd hlength (by decide)
  rw [checkMessage, hdepthIssues, Message.check_eq_map htype hdata hcomplete]
  cases hcheck : Node.checkWithin Message.maxLevels data with
  | ok n => exact absurd (hcheck ▸ htold) List.not_mem_nil
  | error faults =>
    intro hsame
    cases halone : checkNode limits [.key "root"] data with
    | ok n => exact (halone ▸ hsame : SameVerdict complete (.ok n) (.error _))
    | error alone =>
      have hmoved : List.Forall₂ Issue.Moved alone
          (((faults.map (Fault.under (.key "data"))).map (Fault.under (.key "component"))).map Issue.ofFault) :=
        (halone ▸ hsame : SameVerdict complete (.error alone) (.error _))
      have hcarried : ⟨[.key "component", .key "data"] ++ stepsTo w, .shape .tooNested⟩ ∈
          ((faults.map (Fault.under (.key "data"))).map (Fault.under (.key "component"))).map Issue.ofFault := by
        rw [List.map_map, List.map_map]
        exact List.mem_map.mpr ⟨_, hcheck ▸ htold, rfl⟩
      obtain ⟨issue, hmem, hissue⟩ := exists_moved hmoved hcarried
      exact hnot (mem_faults_of_shape_mem hdepth halone (hissue.eq_of_shape ▸ hmem))

end ComponentStream.Protocol
