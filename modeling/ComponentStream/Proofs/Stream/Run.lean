import ComponentStream.Proofs.Protocol.Limits
import ComponentStream.Proofs.Tree.Insert
import ComponentStream.Stream.Feed

/-!
# Runs over one tree

Whatever arrives in whatever buffer, a tree changes by three kinds of edits alone: properties are overridden, a
subtree is removed, or a node is inserted.  Each of them keeps a tree sound, and so does every run.

* `Tree.Edited`, `Tree.Reachable` — one edit, and what comes of the empty tree by edits;
* `Applied` — everything that can become of a message, with `applied`: nothing else does;
* `applyMessage_tree` — a message leaves the tree alone or makes one edit;
* `Carries`, `processRecord_cases` — the message that a record carries, if any, and what becomes of a record;
* `Intake.Op`, `Intake.actAll` — everything that can be done to buffers over one tree, and runs of it;
* `Intake.actAll_invariant` — what every message keeps, every run keeps;
* `Intake.actAll_sound` — the agreement of the links in every state of every run.
-/

namespace ComponentStream

open Protocol (Limits Message Node)

/-! ### Edits -/

namespace Tree

variable {t t' : Tree}

/-- One change to the components of a tree. -/
inductive Edited (t : Tree) : Tree → Prop where
  | merged {t' : Tree} (id : String) (patch : Assoc Json.Value) : t.mergeProps id patch = some t' → Edited t t'
  | removed (id : String) : Edited t (t.remove id)
  | inserted {t' : Tree} (n : Node) : t.insert n = .ok t' → Edited t t'

/-- What comes of the empty tree by edits, whatever its version and its mark for the end. -/
inductive Reachable : Tree → Prop where
  | empty : Reachable .empty
  | edited {t t' : Tree} : Reachable t → Edited t t' → Reachable t'
  | stamped {t : Tree} (version : Nat) (complete : Bool) :
      Reachable t → Reachable { t with version := version, complete := complete }

theorem Sound.edited (h : t.Sound) (he : t.Edited t') : t'.Sound := by
  cases he with
  | merged id patch hm => exact h.mergeProps hm
  | removed id => exact h.remove id
  | inserted n hins => exact h.insert hins

theorem Reachable.sound (h : t.Reachable) : t.Sound := by
  induction h with
  | empty => exact Sound.empty
  | edited _ he ih => exact ih.edited he
  | stamped version complete _ ih => exact ih.stamp version complete

end Tree

namespace Stream

open ComponentStream.Tree (Edited Reachable)

variable {t : Tree}

/-! ### Messages and records -/

/-- Everything that can become of a message: the tree after it and the verdict, with what was found before. -/
inductive Applied (limits : Limits) (t : Tree) : Message → Tree → Verdict → Prop where
  | full {n : Node} {complete : Option Bool} :
      (limits.maxComponents ≤ t.size ∨ limits.maxComponents < t.size + t.newIds n) →
      Applied limits t (.component n complete) t (.dropped (.treeFull limits.maxComponents))
  | unplaced {n : Node} {complete : Option Bool} {e : Tree.Error} : t.placementDepth n = .error e →
      Applied limits t (.component n complete) t (.refused e n)
  | tooDeep {n : Node} {complete : Option Bool} {depth : Nat} : t.placementDepth n = .ok depth →
      limits.maxDepth < depth →
      Applied limits t (.component n complete) t (.dropped (.tooDeep n.id depth limits.maxDepth))
  | refused {n : Node} {complete : Option Bool} {e : Tree.Error} : t.insert n = .error e →
      Applied limits t (.component n complete) t (.refused e n)
  | inserted {n : Node} {complete : Option Bool} {depth : Nat} {t' : Tree} :
      t.size + t.newIds n ≤ limits.maxComponents → t.placementDepth n = .ok depth → depth ≤ limits.maxDepth →
      t.insert n = .ok t' →
      Applied limits t (.component n complete)
        { t' with version := t'.version + 1, complete := t'.complete || complete = some true }
        (.accepted (.component n complete))
  | merged {id : String} {props : Assoc Json.Value} {t' : Tree} : t.mergeProps id props = some t' →
      Applied limits t (.update id props) { t' with version := t'.version + 1 } (.accepted (.update id props))
  | unknown {id : String} {props : Assoc Json.Value} : t.mergeProps id props = none →
      Applied limits t (.update id props) t (.dropped (.unknownTarget id))
  | removed {id : String} : t.contains id = true →
      Applied limits t (.remove id) { t.remove id with version := (t.remove id).version + 1 }
        (.accepted (.remove id))
  | absent {id : String} : ¬ t.contains id = true → Applied limits t (.remove id) t (.accepted (.remove id))
  | action (data : Protocol.Action) : Applied limits t (.action data) t (.accepted (.action data))
  | error (message : String) (recoverable : Option Bool) :
      Applied limits t (.error message recoverable) t (.accepted (.error message recoverable))

theorem applied_component (limits : Limits) (t : Tree) (n : Node) (complete : Option Bool) :
    Applied limits t (.component n complete) (applyComponent limits t n complete).1
      (applyComponent limits t n complete).2 := by
  rw [applyComponent]
  by_cases hfull : limits.maxComponents ≤ t.size ∨ limits.maxComponents < t.size + t.newIds n
  · rw [if_pos hfull]
    exact .full hfull
  · rw [if_neg hfull]
    cases hdepth : t.placementDepth n with
    | error e => exact .unplaced hdepth
    | ok depth =>
      by_cases hdeep : limits.maxDepth < depth
      · simp only [if_pos hdeep]
        exact .tooDeep hdepth hdeep
      · simp only [if_neg hdeep]
        cases hins : t.insert n with
        | error e => exact .refused hins
        | ok t' => exact .inserted (by omega) hdepth (by omega) hins

/-- **What applying a message does.** -/
theorem applied (limits : Limits) (t : Tree) (m : Message) :
    Applied limits t m (applyMessage limits t m).1 (applyMessage limits t m).2 := by
  cases m with
  | component n complete => exact applied_component limits t n complete
  | update id props =>
    rw [applyMessage]
    cases hm : t.mergeProps id props with
    | none => exact .unknown hm
    | some t' => exact .merged hm
  | remove id =>
    rw [applyMessage, Tree.remove?]
    by_cases hid : t.contains id = true
    · rw [if_pos hid]
      exact .removed hid
    · rw [if_neg hid]
      exact .absent hid
  | action data => exact .action data
  | error message recoverable => exact .error message recoverable

/-- A message leaves the tree alone or makes one edit and stamps it. -/
theorem applyMessage_tree (limits : Limits) (t : Tree) (m : Message) :
    (applyMessage limits t m).1 = t ∨
      ∃ t' complete, t.Edited t' ∧
        (applyMessage limits t m).1 = { t' with version := t'.version + 1, complete := complete } := by
  have happ := applied limits t m
  generalize (applyMessage limits t m).1 = u, (applyMessage limits t m).2 = v at happ
  cases happ with
  | @inserted n complete _ t' _ _ _ hins => exact Or.inr ⟨t', _, Edited.inserted n hins, rfl⟩
  | @merged id props t' hm => exact Or.inr ⟨t', t'.complete, Edited.merged id props hm, rfl⟩
  | @removed id _ => exact Or.inr ⟨t.remove id, (t.remove id).complete, Edited.removed id, rfl⟩
  | _ => exact Or.inl rfl

/-- A record carries a message: it is text, the text is a value, and the value is accepted as the message. -/
def Carries (limits : Limits) (record : List UInt8) (m : Message) : Prop :=
  ∃ line raw, Text.Utf8.read (strip record) = .ok line ∧ Json.read line = some raw ∧
    Protocol.checkMessage limits raw = .ok m

/-- What a record carries keeps the limits by itself. -/
theorem Carries.within {limits : Limits} {record : List UInt8} {m : Message} (h : Carries limits record m) :
    m.Within limits := by
  obtain ⟨_, _, _, _, hcheck⟩ := h
  exact Protocol.within_of_checkMessage hcheck

/-- A record is blank, or is dropped whatever the tree, or carries a message, which is then applied. -/
theorem processRecord_cases (limits : Limits) (record : List UInt8) :
    (strip record = [] ∧ ∀ t, processRecord limits t record = (t, .blank)) ∨
      (strip record ≠ [] ∧ ∃ w, ∀ t, processRecord limits t record = (t, .dropped w)) ∨
      (strip record ≠ [] ∧ ∃ m, Carries limits record m ∧
        ∀ t, processRecord limits t record = applyMessage limits t m) := by
  simp only [processRecord]
  by_cases hblank : strip record = []
  · simp only [hblank, List.isEmpty_nil, if_true]
    exact Or.inl ⟨trivial, fun _ => trivial⟩
  · simp only [List.isEmpty_iff, if_neg hblank]
    refine Or.inr ?_
    cases hread : Text.Utf8.read (strip record) with
    | error offset => exact Or.inl ⟨hblank, _, fun _ => rfl⟩
    | ok line =>
      simp only [processLine]
      cases hvalue : Json.read line with
      | none => exact Or.inl ⟨hblank, _, fun _ => rfl⟩
      | some raw =>
        simp only [processValue]
        cases hcheck : Protocol.checkMessage limits raw with
        | error issues => exact Or.inl ⟨hblank, _, fun _ => rfl⟩
        | ok m => exact Or.inr ⟨hblank, m, ⟨line, raw, hread, hvalue, hcheck⟩, fun _ => rfl⟩

/-- A record holds one message or none, and which one it is does not depend on the tree. -/
theorem processRecord_uniform (limits : Limits) (record : List UInt8) :
    (∃ v : Verdict, v.message? = none ∧ ∀ t, processRecord limits t record = (t, v)) ∨
      ∃ m, ∀ t, processRecord limits t record = applyMessage limits t m := by
  rcases processRecord_cases limits record with ⟨_, hblank⟩ | ⟨_, w, hdropped⟩ | ⟨_, m, _, happlied⟩
  · exact Or.inl ⟨.blank, rfl, hblank⟩
  · exact Or.inl ⟨.dropped w, rfl, hdropped⟩
  · exact Or.inr ⟨m, happlied⟩

/-- The bytes of a record bear on the tree only through the one message they hold. -/
theorem processRecord_tree (limits : Limits) (t : Tree) (record : List UInt8) :
    (processRecord limits t record).1 = t ∨ ∃ m, processRecord limits t record = applyMessage limits t m := by
  rcases processRecord_uniform limits record with ⟨v, _, hv⟩ | ⟨m, hm⟩
  · exact Or.inl (congrArg Prod.fst (hv t))
  · exact Or.inr ⟨m, hm t⟩

theorem Reachable.applyMessage (h : t.Reachable) (limits : Limits) (m : Message) :
    (applyMessage limits t m).1.Reachable := by
  rcases applyMessage_tree limits t m with hsame | ⟨t', complete, he, hstamp⟩
  · rw [hsame]
    exact h
  · rw [hstamp]
    exact (h.edited he).stamped _ _

theorem Reachable.processRecord (h : t.Reachable) (limits : Limits) (record : List UInt8) :
    (processRecord limits t record).1.Reachable := by
  rcases processRecord_tree limits t record with hsame | ⟨m, hm⟩
  · rw [hsame]
    exact h
  · rw [hm]
    exact Reachable.applyMessage h limits m

theorem Reachable.processAll (h : t.Reachable) (limits : Limits) (records : List (List UInt8)) :
    (processAll limits t records).1.Reachable := by
  induction records generalizing t with
  | nil => exact h
  | cons record records ih => exact ih (Reachable.processRecord h limits record)

theorem processRecord_invariant {limits : Limits} {P : Tree → Prop}
    (hstep : ∀ t record m, t.Reachable → P t → Carries limits record m → P (applyMessage limits t m).1)
    (hr : t.Reachable) (hp : P t) (record : List UInt8) : P (processRecord limits t record).1 := by
  rcases processRecord_cases limits record with ⟨_, hblank⟩ | ⟨_, w, hdropped⟩ | ⟨_, m, hm, happlied⟩
  · rw [hblank]
    exact hp
  · rw [hdropped]
    exact hp
  · rw [happlied]
    exact hstep t record m hr hp hm

theorem processAll_invariant {limits : Limits} {P : Tree → Prop}
    (hstep : ∀ t record m, t.Reachable → P t → Carries limits record m → P (applyMessage limits t m).1)
    (hr : t.Reachable) (hp : P t) (records : List (List UInt8)) : P (processAll limits t records).1 := by
  induction records generalizing t with
  | nil => exact hp
  | cons record records ih =>
    exact ih (Reachable.processRecord hr limits record) (processRecord_invariant hstep hr hp record)

/-! ### Runs -/

namespace Intake

/-- What can be done to buffers over one tree; each buffer has its number. -/
inductive Op where
  | feed (n : Nat) (chunk : List UInt8)
  | flush (n : Nat)
  | apply (m : Message)
  | reset (n : Nat)
  | fork

/-- Carries one operation out. -/
def act (i : Intake) : Op → Intake
  | .feed n chunk => (i.feed n chunk).1
  | .flush n => (i.flush n).1
  | .apply m => (i.apply m).1
  | .reset n => i.reset n
  | .fork => i.fork

/-- Carries several operations out, one after the other. -/
def actAll (i : Intake) (ops : List Op) : Intake := ops.foldl act i

/-- The text of a node whose children are given by their texts. -/
def nodeText (id type props : String) (below : List String) : String :=
  "\x7b\"id\":\"" ++ id ++ "\",\"type\":\"" ++ type ++ "\",\"props\":" ++ props ++ ",\"children\":["
    ++ ",".intercalate below ++ "]\x7d"

def componentText (node : String) : String := "\x7b\"type\":\"component\",\"data\":" ++ node ++ "\x7d"

def updateText (id props : String) : String :=
  "\x7b\"type\":\"update\",\"id\":\"" ++ id ++ "\",\"props\":" ++ props ++ "\x7d"

def removeText (id : String) : String := "\x7b\"type\":\"remove\",\"id\":\"" ++ id ++ "\"\x7d"

/-- The bytes of some texts, each with the newline that ends a record. -/
def ndjson (texts : List String) : List UInt8 := texts.flatMap fun text => Text.Utf8.encode text.toList ++ [newline]

variable {i : Intake}

theorem act_reachable (h : i.tree.Reachable) (op : Op) : (i.act op).tree.Reachable := by
  cases op with
  | feed n chunk => exact Reachable.processAll h i.limits _
  | flush n => exact Reachable.processRecord h i.limits _
  | apply m => exact Reachable.applyMessage h i.limits m
  | reset n => exact Reachable.empty
  | fork => exact h

theorem actAll_reachable (h : i.tree.Reachable) (ops : List Op) : (i.actAll ops).tree.Reachable := by
  induction ops generalizing i with
  | nil => exact h
  | cons op ops ih => exact ih (act_reachable h op)

theorem limits_act (i : Intake) (op : Op) : (i.act op).limits = i.limits := by
  cases op <;> rfl

/-- **What every message of a record keeps, every run keeps** in which no message comes from elsewhere. -/
theorem actAll_invariant {P : Tree → Prop} (hempty : P .empty)
    (hstep : ∀ t record m, t.Reachable → P t → Carries i.limits record m → P (applyMessage i.limits t m).1)
    (hr : i.tree.Reachable) (hp : P i.tree) (ops : List Op) (hops : ∀ m, Op.apply m ∉ ops) :
    P (i.actAll ops).tree := by
  induction ops generalizing i with
  | nil => exact hp
  | cons op ops ih =>
    refine ih ?_ (act_reachable hr op) ?_ fun m hm => hops m (List.mem_cons_of_mem _ hm)
    · rw [limits_act]
      exact hstep
    · cases op with
      | feed n chunk => exact processAll_invariant hstep hr hp _
      | flush n => exact processRecord_invariant hstep hr hp _
      | apply m => exact absurd List.mem_cons_self (hops m)
      | reset n => exact hempty
      | fork => exact hp

/-- **The tree is sound in every state of every run from the empty tree**, whatever bytes come in and whichever
buffers they come in by: no component has two parents, none lies below itself, and every component lies below a
root. -/
theorem actAll_sound (limits : Limits) (ops : List Op) :
    ((start limits).actAll ops).tree.Sound ∧
      (∀ p q c, c ∈ ((start limits).actAll ops).tree.children p → c ∈ ((start limits).actAll ops).tree.children q →
        p = q) ∧
      (∀ id, ¬ ((start limits).actAll ops).tree.Ancestor id id) ∧
      ∀ id, ((start limits).actAll ops).tree.contains id = true →
        ∃ r ∈ ((start limits).actAll ops).tree.rootIds, ((start limits).actAll ops).tree.Encloses r id ∧
          Relation.ReflTransGen (fun p c => c ∈ ((start limits).actAll ops).tree.children p) r id := by
  have h : ((start limits).actAll ops).tree.Sound := (actAll_reachable (i := start limits) Reachable.empty ops).sound
  exact ⟨h, fun p q c hp hq => h.owner_unique hp hq, h.acyclic, fun id hid => h.exists_root hid⟩

end Intake

end Stream

end ComponentStream
