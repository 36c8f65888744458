import ComponentStream.Proofs.Stream.Account
import ComponentStream.Proofs.Stream.Trace

/-!
# Series of updates

Updates to several components may come in any order.  What a series of them makes of a tree can be told for each component
by itself: its properties are overridden by one map, into which the patches for it are merged in the order in which they
came.  The rest of the tree stays, but for the version, which counts the updates that met a component.

* `Update`, `patchesFor`, `mergedFor` — updates, those for one component, and these as one patch;
* `Tree.overridden` — a tree with the properties of all components overridden;
* `Tree.overridden_eq_of_patchesFor_eq`, `Tree.overridden_concat_last` — interleaving and repetition;
* `Tree.applyMessage_update` — one update;
* `Intake.actAll_updates`, `Intake.verdictsAll_updates` — a series of updates;
* `Intake.Updated`, `Intake.updates_merge` — what this means for every part of the tree.
-/

namespace ComponentStream

open Json (Value)
open Protocol (Component Limits Message)

namespace Stream

/-- A patch for the properties of one component. -/
structure Update where
  target : String
  patch : Assoc Value

def Update.message (u : Update) : Message := .update u.target u.patch

def Update.op (u : Update) : Intake.Op := .apply u.message

/-- The patches for one component, in order. -/
def patchesFor (id : String) (us : List Update) : List (Assoc Value) :=
  (us.filter fun u => u.target = id).map Update.patch

/-- The patches for one component, merged into one map in order. -/
def mergedFor (id : String) (us : List Update) : Assoc Value := (patchesFor id us).foldl Assoc.merge []

theorem patchesFor_append (id : String) (us us' : List Update) :
    patchesFor id (us ++ us') = patchesFor id us ++ patchesFor id us' := by
  rw [patchesFor, List.filter_append, List.map_append]
  rfl

theorem patchesFor_singleton (id : String) (u : Update) :
    patchesFor id [u] = if u.target = id then [u.patch] else [] := by
  by_cases h : u.target = id <;> simp [patchesFor, h]

/-- A component with its properties overridden by the patches for an identifier. -/
def overriddenBy (us : List Update) (id : String) (c : Component) : Component :=
  { c with props := Assoc.merge c.props (mergedFor id us) }

theorem merge_mergedFor (m : Assoc Value) (id : String) (us : List Update) :
    Assoc.merge m (mergedFor id us) = Assoc.merge m (patchesFor id us).flatten := Assoc.merge_foldl_merge m _

theorem overriddenBy_append (us us' : List Update) (id : String) (c : Component) :
    overriddenBy (us ++ us') id c = overriddenBy us' id (overriddenBy us id c) := by
  simp only [overriddenBy, merge_mergedFor, patchesFor_append, List.flatten_append, Assoc.merge_append]

theorem overriddenBy_singleton (u : Update) (id : String) (c : Component) :
    overriddenBy [u] id c = if id = u.target then { c with props := Assoc.merge c.props u.patch } else c := by
  rw [overriddenBy, merge_mergedFor, patchesFor_singleton]
  by_cases h : u.target = id
  · rw [if_pos h, if_pos h.symm, List.flatten_singleton]
  · rw [if_neg h, if_neg (Ne.symm h)]
    rfl

/-- The number of updates that meet some property of their target depends on the series of patches for each target alone. -/
theorem countP_target_eq {us us' : List Update} (h : ∀ id, patchesFor id us' = patchesFor id us) (p : String → Bool) :
    us'.countP (fun u => p u.target) = us.countP fun u => p u.target := by
  have hcount : ∀ (vs : List Update) (id : String), (vs.map Update.target).count id = (patchesFor id vs).length := by
    intro vs id
    rw [patchesFor, List.length_map, ← List.countP_eq_length_filter, List.count, List.countP_map]
    rfl
  have hperm : (us'.map Update.target).Perm (us.map Update.target) :=
    List.perm_iff_count.mpr fun id => by rw [hcount, hcount, h]
  have hp := hperm.countP_eq p
  rwa [List.countP_map, List.countP_map] at hp

end Stream

open ComponentStream.Stream (Update patchesFor mergedFor overriddenBy)

namespace Tree

variable {t : Tree}

/-- A tree with the properties of every component overridden by the patches for it. -/
def overridden (t : Tree) (us : List Update) : Tree :=
  { t with
    components := t.components.map fun e => (e.1, overriddenBy us e.1 e.2)
    version := t.version + us.countP fun u => t.contains u.target }

/-- The verdict on an update. -/
def verdictOn (t : Tree) (u : Update) : Stream.Verdict :=
  if t.contains u.target then .accepted u.message else .dropped (.unknownTarget u.target)

theorem get?_overridden (t : Tree) (us : List Update) (id : String) :
    Assoc.get? id (t.overridden us).components = (Assoc.get? id t.components).map (overriddenBy us id) :=
  Assoc.get?_map (overriddenBy us) id t.components

theorem contains_overridden (t : Tree) (us : List Update) (id : String) :
    (t.overridden us).contains id = t.contains id := by
  rw [contains, Assoc.contains, get?_overridden, Option.isSome_map]
  rfl

theorem verdictOn_overridden (t : Tree) (us : List Update) : (t.overridden us).verdictOn = t.verdictOn := by
  funext u
  rw [verdictOn, verdictOn, contains_overridden]

theorem distinct_overridden (h : Assoc.Distinct t.components) (us : List Update) :
    Assoc.Distinct (t.overridden us).components := by
  have hkeys : Assoc.keys (t.overridden us).components = Assoc.keys t.components := List.map_map ..
  rwa [Assoc.Distinct, hkeys]

theorem overridden_nil (t : Tree) : t.overridden [] = t := by
  have hsame : t.components.map (fun e => (e.1, overriddenBy [] e.1 e.2)) = t.components := List.map_id' t.components
  rw [overridden, hsame]
  rfl

/-- Two series of updates, one after the other, are one. -/
theorem overridden_append (t : Tree) (us us' : List Update) :
    t.overridden (us ++ us') = (t.overridden us).overridden us' := by
  have hcomponents : t.components.map (fun e => (e.1, overriddenBy (us ++ us') e.1 e.2)) =
      (t.overridden us).components.map fun e => (e.1, overriddenBy us' e.1 e.2) := by
    rw [overridden, List.map_map]
    exact List.map_congr_left fun e _ => by rw [Stream.overriddenBy_append]; rfl
  have hversion : t.version + (us ++ us').countP (fun u => t.contains u.target) =
      t.version + us.countP (fun u => t.contains u.target) +
        us'.countP (fun u => (t.overridden us).contains u.target) := by
    simp only [contains_overridden, List.countP_append, Nat.add_assoc]
  rw [overridden, hcomponents, hversion]
  rfl

theorem overridden_singleton (t : Tree) (u : Update) :
    t.overridden [u] =
      { t with
        components := t.components.map fun e =>
          if e.1 = u.target then (e.1, { e.2 with props := Assoc.merge e.2.props u.patch }) else e
        version := t.version + if t.contains u.target then 1 else 0 } := by
  have hcomponents : t.components.map (fun e => (e.1, overriddenBy [u] e.1 e.2)) = t.components.map fun e =>
      if e.1 = u.target then (e.1, { e.2 with props := Assoc.merge e.2.props u.patch }) else e := by
    refine List.map_congr_left fun e _ => ?_
    rw [Stream.overriddenBy_singleton]
    split <;> rfl
  have hversion : [u].countP (fun u => t.contains u.target) = if t.contains u.target then 1 else 0 :=
    List.countP_singleton
  rw [overridden, hcomponents, hversion]

/-- Series of updates with the same patches for each component, in the same order, override alike, however they are
interleaved. -/
theorem overridden_eq_of_patchesFor_eq (t : Tree) {us us' : List Update}
    (h : ∀ id, patchesFor id us' = patchesFor id us) : t.overridden us' = t.overridden us := by
  have hone : overriddenBy us' = overriddenBy us := by
    funext id c
    rw [overriddenBy, overriddenBy, mergedFor, mergedFor, h]
  rw [overridden, overridden, hone, Stream.countP_target_eq h]

/-- The last patch for an identifier overrides nothing when it comes again. -/
theorem overridden_concat_last (t : Tree) {us : List Update} {id : String} {patch : Assoc Value}
    (hlast : (patchesFor id us).getLast? = some patch) :
    t.overridden (us ++ [⟨id, patch⟩]) =
      { t.overridden us with version := (t.overridden us).version + if t.contains id then 1 else 0 } := by
  obtain ⟨ps, hps⟩ := List.getLast?_eq_some_iff.mp hlast
  have hone : overriddenBy (us ++ [⟨id, patch⟩]) = overriddenBy us := by
    funext id' c
    rw [Stream.overriddenBy_append, Stream.overriddenBy_singleton]
    split
    · next heq =>
      subst heq
      simp [overriddenBy, Stream.merge_mergedFor, hps, Assoc.merge_append, Assoc.merge_merge_self]
    · rfl
  rw [overridden, overridden, hone, List.countP_append, List.countP_singleton, Nat.add_assoc]

/-- **One update** overrides the properties of its target; one for a component that is not stored does nothing. -/
theorem applyMessage_update (h : Assoc.Distinct t.components) (limits : Limits) (u : Update) :
    Stream.applyMessage limits t u.message = (t.overridden [u], t.verdictOn u) := by
  rw [Update.message, Stream.applyMessage, mergeProps, overridden_singleton, verdictOn, contains, Assoc.contains]
  cases hget : Assoc.get? u.target t.components with
  | none =>
    have habsent : u.target ∉ Assoc.keys t.components := Assoc.get?_eq_none_iff.mp hget
    have hsame : t.components.map (fun e =>
        if e.1 = u.target then (e.1, { e.2 with props := Assoc.merge e.2.props u.patch }) else e) =
        t.components.map id :=
      List.map_congr_left fun e he => if_neg fun heq => habsent (List.mem_map.mpr ⟨e, he, heq⟩)
    simp [hsame]
  | some c =>
    rw [← Assoc.insert_eq_map h hget fun c => { c with props := Assoc.merge c.props u.patch }]
    rfl

end Tree

namespace Stream

namespace Intake

variable {i : Intake}

/-- **A series of updates** overrides the properties of every component by the patches for it. -/
theorem actAll_updates (h : Assoc.Distinct i.tree.components) (us : List Update) :
    i.actAll (us.map Update.op) = { i with tree := i.tree.overridden us } := by
  induction us generalizing i with
  | nil =>
    rw [Tree.overridden_nil]
    rfl
  | cons u us ih =>
    have hone : i.act u.op = { i with tree := i.tree.overridden [u] } := by
      rw [Update.op, act, apply, Tree.applyMessage_update h]
    have hsplit : i.tree.overridden (u :: us) = (i.tree.overridden [u]).overridden us :=
      Tree.overridden_append i.tree [u] us
    rw [List.map_cons, actAll, List.foldl_cons, hone, hsplit]
    exact ih (i := { i with tree := i.tree.overridden [u] }) (Tree.distinct_overridden h [u])

/-- The verdict on each of them is settled by the tree before all of them. -/
theorem verdictsAll_updates (h : Assoc.Distinct i.tree.components) (us : List Update) :
    i.verdictsAll (us.map Update.op) = us.map i.tree.verdictOn := by
  induction us generalizing i with
  | nil => rfl
  | cons u us ih =>
    have hone : i.apply u.message = ({ i with tree := i.tree.overridden [u] }, i.tree.verdictOn u) := by
      rw [apply, Tree.applyMessage_update h]
    rw [List.map_cons, verdictsAll, Update.op, verdicts, act, hone,
      ih (i := { i with tree := i.tree.overridden [u] }) (Tree.distinct_overridden h [u]), List.map_cons]
    exact congrArg (_ :: us.map ·) (Tree.verdictOn_overridden i.tree [u])

/-- An update that misses is reported, and nothing else is. -/
theorem reports_updates (t : Tree) (us : List Update) :
    reports (us.map t.verdictOn) =
      (us.filter fun u => !t.contains u.target).map fun u => .warning (.unknownTarget u.target) := by
  induction us with
  | nil => rfl
  | cons u us ih =>
    rw [List.map_cons, reports_cons, ih, List.filter_cons, Tree.verdictOn]
    cases t.contains u.target <;> rfl

/-- What a series of updates leaves behind. -/
structure Updated (i i' : Intake) (us : List Update) : Prop where
  /-- Every component keeps its identifier, type, layout and style; its properties are overridden by the patches for it,
  which are merged into one map in order. -/
  components : i'.tree.components =
    i.tree.components.map fun e => (e.1, { e.2 with props := Assoc.merge e.2.props (mergedFor e.1 us) })
  /-- Of all values for a property the last one counts, and the value from before if there is none. -/
  values : ∀ id c c', Assoc.get? id i.tree.components = some c → Assoc.get? id i'.tree.components = some c' →
    ∀ k, Assoc.get? k c'.props = (Assoc.get? k (patchesFor id us).flatten.reverse).or (Assoc.get? k c.props)
  /-- Properties that were there keep their positions, and new ones come behind them in the order of their first values. -/
  order : ∀ id c c', Assoc.get? id i.tree.components = some c → Assoc.get? id i'.tree.components = some c' →
    Assoc.keys c'.props =
      Assoc.keys c.props ++ ((Assoc.keys (patchesFor id us).flatten).filter fun k => k ∉ Assoc.keys c.props).eraseDups
  childIds : i'.tree.childIds = i.tree.childIds
  parentIds : i'.tree.parentIds = i.tree.parentIds
  rootIds : i'.tree.rootIds = i.tree.rootIds
  complete : i'.tree.complete = i.tree.complete
  /-- The version counts the updates that meet a component. -/
  version : i'.tree.version = i.tree.version + us.countP fun u => i.tree.contains u.target
  limits : i'.limits = i.limits
  buffers : i'.buffers = i.buffers

theorem updated_overridden (i : Intake) (us : List Update) : i.Updated { i with tree := i.tree.overridden us } us := by
  have hprops : ∀ {id c c'}, Assoc.get? id i.tree.components = some c →
      Assoc.get? id (i.tree.overridden us).components = some c' →
      c'.props = Assoc.merge c.props (patchesFor id us).flatten := by
    intro id c c' hc hc'
    rw [Tree.get?_overridden, hc] at hc'
    rw [← Option.some.inj hc', overriddenBy, merge_mergedFor]
  refine ⟨rfl, fun id c c' hc hc' k => ?_, fun id c c' hc hc' => ?_, rfl, rfl, rfl, rfl, rfl, rfl, rfl⟩
  · rw [hprops hc hc', Assoc.get?_merge]
  · rw [hprops hc hc', Assoc.keys_merge]

/-- **Updates are an ordered merge for each component.**  Whatever series of updates a tree takes that came about by edits:
every component has its properties overridden by the patches for it, merged in order, and the rest of the tree stays, but
for the version, which counts the updates that meet a component.  Each of the other updates is reported as a warning of a
missing target, and nothing else is.  All of this depends on the series of patches for each component alone, not on how they
are interleaved; and when the last patch for a component comes again, only the version changes. -/
theorem updates_merge (h : i.tree.Reachable) (us : List Update) :
    i.Updated (i.actAll (us.map Update.op)) us ∧
      reports (i.verdictsAll (us.map Update.op)) =
        (us.filter fun u => !i.tree.contains u.target).map (fun u => .warning (.unknownTarget u.target)) ∧
      (∀ r ∈ reports (i.verdictsAll (us.map Update.op)), r.kind = .missingTarget) ∧
      (∀ us', (∀ id, patchesFor id us' = patchesFor id us) →
        i.actAll (us'.map Update.op) = i.actAll (us.map Update.op)) ∧
      ∀ id patch, (patchesFor id us).getLast? = some patch →
        (i.actAll ((us ++ [(⟨id, patch⟩ : Update)]).map Update.op)).tree =
          { (i.actAll (us.map Update.op)).tree with
            version := (i.actAll (us.map Update.op)).tree.version + if i.tree.contains id then 1 else 0 } := by
  have hd : Assoc.Distinct i.tree.components := h.sound.keyed.components
  have hrun : ∀ vs : List Update, i.actAll (vs.map Update.op) = { i with tree := i.tree.overridden vs } :=
    actAll_updates hd
  rw [verdictsAll_updates hd, reports_updates, hrun us]
  refine ⟨i.updated_overridden us, rfl, fun r hr => ?_, fun us' hus' => ?_, fun id patch hlast => ?_⟩
  · obtain ⟨u, _, rfl⟩ := List.mem_map.mp hr
    rfl
  · rw [hrun us', Tree.overridden_eq_of_patchesFor_eq i.tree hus']
  · rw [hrun]
    exact Tree.overridden_concat_last i.tree hlast

/-- A card with two properties. -/
def cardOfTwo : Tree :=
  Tree.empty.attach none ⟨⟨"card", "Card", [("title", .str "draft"), ("width", .int 1)], none, none⟩, none⟩

theorem cardOfTwo_reachable : cardOfTwo.Reachable :=
  Tree.Reachable.empty.edited (Tree.Edited.inserted
    ⟨⟨"card", "Card", [("title", .str "draft"), ("width", .int 1)], none, none⟩, none⟩ rfl)

/-- Two updates for the card, and one that misses between them. -/
def cardUpdates : List Update :=
  [⟨"card", [("note", .null), ("title", .str "second")]⟩, ⟨"ghost", [("title", .null)]⟩, ⟨"card", [("title", .str "last")]⟩]

/-- They leave the last title in the first place and a note behind the width. -/
theorem updates_merge_of_card :
    (ofTree .standard cardOfTwo).tree.Reachable ∧
      ((ofTree .standard cardOfTwo).actAll (cardUpdates.map Update.op)).tree.components =
        [("card", ⟨"card", "Card", [("title", .str "last"), ("width", .int 1), ("note", .null)], none, none⟩)] ∧
      ((ofTree .standard cardOfTwo).actAll (cardUpdates.map Update.op)).tree.version = 2 ∧
      reports ((ofTree .standard cardOfTwo).verdictsAll (cardUpdates.map Update.op)) =
        [.warning (.unknownTarget "ghost")] := by
  have hr : (ofTree .standard cardOfTwo).tree.Reachable := cardOfTwo_reachable
  obtain ⟨hupdated, hreports, _⟩ := updates_merge hr cardUpdates
  exact ⟨hr, hupdated.components, hupdated.version, hreports⟩

end Intake

end Stream

end ComponentStream
