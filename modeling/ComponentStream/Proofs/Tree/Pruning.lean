import ComponentStream.Proofs.Tree.Graft
import ComponentStream.Proofs.Tree.Stamp

/-!
# A removal prunes one subtree

Removing a stored component takes away its entries and those of everything below it.  The one other trace that it leaves
is in the list of its parent, which loses it.  All the rest stays as it was, in the order in which it was.

* `Assoc.keys_insert_of_get?` — a known name keeps its position;
* `Tree.Pruned` — a tree without certain components, told entry by entry;
* `Tree.Sound.pruned_of_remove` — what a removal leaves, in a sound tree;
* `Tree.remove_prunes` — the same for every tree that came about by edits, with what the removal answers.
-/

namespace ComponentStream

namespace Assoc

variable {α : Type}

/-- A known name keeps its position. -/
theorem keys_insert_of_get? {k : String} {m : Assoc α} {old : α} (h : get? k m = some old) (v : α) :
    keys (insert k v m) = keys m := by
  rw [keys_insert, if_pos (contains_iff.mp (contains_of_get? h))]

theorem keys_without (gone : List String) (m : Assoc α) :
    keys (without gone m) = (keys m).filter fun k => !gone.contains k := by
  rw [keys, keys, without, List.filter_map]
  rfl

end Assoc

namespace Tree

variable {t : Tree} {id : String}

/-- A tree without the components `gone`, the topmost of which is `id`: their entries are gone, the list of its parent
has lost it, and everything else is as it was, in its order. -/
structure Pruned (t : Tree) (id : String) (gone : List String) (u : Tree) : Prop where
  components : u.components = Assoc.without gone t.components
  parentIds : u.parentIds = Assoc.without gone t.parentIds
  /-- Whose children are listed, in order. -/
  listed : Assoc.keys u.childIds = (Assoc.keys t.childIds).filter fun k => !gone.contains k
  /-- The lists of children themselves. -/
  childIds : ∀ k, k ∉ gone → Assoc.get? k u.childIds =
    if t.parent? id = some k then (Assoc.get? k t.childIds).map (·.erase id) else Assoc.get? k t.childIds
  rootIds : u.rootIds = t.rootIds.erase id
  stamp : t.SameStamp u

/-! ### A detached component -/

theorem keys_childIds_unlink (t : Tree) (parent id : String) :
    Assoc.keys (t.unlink parent id).childIds = Assoc.keys t.childIds := by
  rw [unlink]
  cases hp : Assoc.get? parent t.childIds with
  | none => rfl
  | some siblings => exact Assoc.keys_insert_of_get? hp _

theorem keys_childIds_detach (t : Tree) (id : String) :
    Assoc.keys (t.detach id).childIds = Assoc.keys t.childIds := by
  rw [detach]
  cases t.parent? id with
  | none => rfl
  | some parent => exact keys_childIds_unlink t parent id

/-! ### What is left -/

namespace Sound

/-- Of the roots, none but the component itself goes with it. -/
theorem rootIds_without_below (h : t.Sound) {gone : List String} (hgone : ∀ k, k ∈ gone ↔ t.Encloses id k) :
    (t.rootIds.filter fun k => !gone.contains k) = t.rootIds.erase id := by
  rw [h.keyed.rootIds.erase_eq_filter]
  apply List.filter_congr
  intro r hr
  have hiff : r ∈ gone ↔ r = id := by
    rw [hgone]
    constructor
    · exact fun henc => (h.eq_of_encloses_root hr henc).symm
    · rintro rfl
      exact Encloses.refl r
  simp only [List.contains_eq_mem, hiff]
  by_cases hrid : r = id <;> simp [hrid]

/-- **What a removal leaves of a sound tree.** -/
theorem pruned_of_remove (h : t.Sound) (hid : t.contains id = true) :
    ∃ gone, (∀ k, k ∈ gone ↔ t.Encloses id k) ∧ t.Pruned id gone (t.remove id) := by
  obtain ⟨gone, heq, hgone⟩ := h.remove_eq_without hid
  have hsame := relisted_detach t id
  have hstamp := sameStamp_remove t id
  rw [heq] at hstamp ⊢
  refine ⟨gone, hgone, ?_, ?_, ?_, ?_, ?_, hstamp⟩
  · exact congrArg (Assoc.without gone) hsame.components
  · exact congrArg (Assoc.without gone) hsame.parentIds
  · exact (Assoc.keys_without gone _).trans (by rw [keys_childIds_detach])
  · intro k hk
    rw [get?_childIds_without, if_neg hk, get?_childIds_detach]
  · show (t.detach id).rootIds.filter _ = _
    rw [hsame.rootIds]
    exact h.rootIds_without_below hgone

end Sound

/-- **A removal prunes exactly one subtree.**  It answers whether the component is stored; if it is, the entries of the
component and of everything below it are gone and nothing else is, and if it is not, nothing changes. -/
theorem remove_prunes (h : t.Reachable) (id : String) :
    (t.contains id = false → t.remove? id = none ∧ t.remove id = t) ∧
      (t.contains id = true →
        ∃ gone, t.remove? id = some (t.remove id) ∧ (∀ k, k ∈ gone ↔ t.Encloses id k) ∧
          t.Pruned id gone (t.remove id)) := by
  constructor
  · intro hid
    have hnot : ¬ t.contains id = true := by simp [hid]
    exact ⟨by rw [remove?, if_neg hnot], remove_of_not_contains hnot⟩
  · intro hid
    obtain ⟨gone, hgone, hpruned⟩ := h.sound.pruned_of_remove hid
    exact ⟨gone, by rw [remove?, if_pos hid], hgone, hpruned⟩

/-- A page with a list of two items and a note beside it. -/
def pageOfLists : Tree :=
  Tree.empty.attach none (.bare "page" [.bare "list" [.bare "first" [], .bare "second" []], .bare "note" []])

theorem pageOfLists_reachable : pageOfLists.Reachable :=
  Reachable.empty.edited (Edited.inserted
    (.bare "page" [.bare "list" [.bare "first" [], .bare "second" []], .bare "note" []]) rfl)

/-- The list goes with its items; the page above it and the note beside it stay. -/
theorem remove_prunes_of_list_of_items :
    pageOfLists.Reachable ∧
      ∃ gone, pageOfLists.remove? "list" = some (pageOfLists.remove "list") ∧ "first" ∈ gone ∧ "page" ∉ gone ∧
        (pageOfLists.remove "list").components = Assoc.without gone pageOfLists.components ∧
        Assoc.get? "page" (pageOfLists.remove "list").childIds = some ["note"] ∧
        (pageOfLists.remove "list").rootIds = ["page"] := by
  obtain ⟨gone, hanswer, hgone, hpruned⟩ := (remove_prunes pageOfLists_reachable "list").2 rfl
  have hfirst : pageOfLists.Owns "list" "first" := rfl
  have hpage : "page" ∉ gone := by
    intro hmem
    have hroot : "page" ∈ pageOfLists.rootIds := by decide
    have heq := pageOfLists_reachable.sound.eq_of_encloses_root hroot ((hgone "page").mp hmem)
    exact absurd heq (by decide)
  refine ⟨pageOfLists_reachable, gone, hanswer, (hgone "first").mpr hfirst.ancestor.encloses, hpage,
    hpruned.components, ?_, ?_⟩
  · rw [hpruned.childIds "page" hpage]
    rfl
  · rw [hpruned.rootIds]
    rfl

end Tree

end ComponentStream
