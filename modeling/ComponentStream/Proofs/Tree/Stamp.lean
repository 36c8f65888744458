import ComponentStream.Proofs.Tree.Entries

/-!
# Edits and the stamp of a tree

The version of a tree and its mark for the end are its *stamp*.  Edits change components and links; none of their steps
touches the stamp, which is left to whoever applies a message.

* `Tree.SameStamp` — two trees with the same stamp;
* `Tree.sameStamp_remove`, `Tree.sameStamp_insert`, `Tree.sameStamp_mergeProps` — the three edits.
-/

namespace ComponentStream.Tree

open Protocol (Component Node)

variable {t t' t'' : Tree}

/-- Two trees agree on the version and on the mark for the end. -/
structure SameStamp (t t' : Tree) : Prop where
  version : t'.version = t.version
  complete : t'.complete = t.complete

theorem SameStamp.refl (t : Tree) : t.SameStamp t := ⟨rfl, rfl⟩

theorem SameStamp.trans (h : t.SameStamp t') (h' : t'.SameStamp t'') : t.SameStamp t'' :=
  ⟨h'.version.trans h.version, h'.complete.trans h.complete⟩

/-! ### Removing -/

theorem sameStamp_forget (t : Tree) (id : String) : t.SameStamp (t.forget id) := ⟨rfl, rfl⟩

theorem sameStamp_discardAll (budget : Nat) (t : Tree) (pending : List String) :
    t.SameStamp (discardAll budget t pending) := by
  induction budget generalizing t pending with
  | zero => exact .refl t
  | succ budget ih =>
    cases pending with
    | nil => exact .refl t
    | cons id pending =>
      rw [discardAll]
      by_cases hid : t.contains id = true
      · rw [if_pos hid]
        exact (sameStamp_forget t id).trans (ih _ _)
      · rw [if_neg hid]
        exact ih _ _

theorem sameStamp_discard (t : Tree) (id : String) : t.SameStamp (t.discard id) := sameStamp_discardAll _ t _

theorem sameStamp_unlink (t : Tree) (parent id : String) : t.SameStamp (t.unlink parent id) := by
  rw [unlink]
  cases Assoc.get? parent t.childIds with
  | none => exact .refl t
  | some siblings => exact ⟨rfl, rfl⟩

/-- A removal keeps the stamp. -/
theorem sameStamp_remove (t : Tree) (id : String) : t.SameStamp (t.remove id) := by
  rw [remove]
  by_cases hid : t.contains id = true
  · rw [if_pos hid]
    cases t.parent? id with
    | none => exact sameStamp_discard t id
    | some parent => exact (sameStamp_unlink t parent id).trans (sameStamp_discard _ id)
  · rw [if_neg hid]
    exact .refl t

/-! ### Inserting -/

theorem sameStamp_dropUndeclared (t : Tree) (id : String) (declared : List String) :
    t.SameStamp (t.dropUndeclared id declared) := by
  rw [dropUndeclared]
  -- the children are those of the tree at the start, which the fold leaves behind
  generalize t.children id = ids
  induction ids generalizing t with
  | nil => exact .refl t
  | cons child ids ih =>
    rw [List.foldl_cons]
    by_cases hdrop : (!declared.contains child) = true ∧ t.parent? child = some id
    · rw [if_pos hdrop]
      exact (sameStamp_discard t child).trans (ih _)
    · rw [if_neg hdrop]
      exact ih t

theorem sameStamp_leaveParent (t : Tree) (id parent : String) : t.SameStamp (t.leaveParent id parent) := by
  rw [leaveParent]
  cases t.parent? id with
  | none => exact .refl t
  | some former =>
    by_cases hsame : former = parent
    · simp only [if_pos hsame]
      exact .refl t
    · simp only [if_neg hsame]
      exact sameStamp_unlink t former id

theorem sameStamp_adopt (t : Tree) (id : String) (parent : Option String) : t.SameStamp (t.adopt id parent) := by
  cases parent with
  | none =>
    rw [adopt]
    by_cases hplaced : Assoc.contains id t.parentIds = true ∨ t.rootIds.contains id = true
    · rw [if_pos hplaced]
      exact .refl t
    · rw [if_neg hplaced]
      exact ⟨rfl, rfl⟩
  | some parent =>
    have hleft := sameStamp_leaveParent t id parent
    exact ⟨hleft.version, hleft.complete⟩

theorem sameStamp_place (t : Tree) (parent : Option String) (c : Component) (declared : List String) :
    t.SameStamp (t.place parent c declared) := by
  have hdropped := sameStamp_dropUndeclared t c.id declared
  have hstored : t.SameStamp ((t.dropUndeclared c.id declared).store c declared) :=
    ⟨hdropped.version, hdropped.complete⟩
  exact hstored.trans (sameStamp_adopt _ c.id parent)

mutual

theorem sameStamp_attach (t : Tree) (parent : Option String) : ∀ n : Node, t.SameStamp (t.attach parent n)
  | ⟨c, none⟩ => sameStamp_place t parent c []
  | ⟨c, some ns⟩ => (sameStamp_place t parent c (ns.map Node.id)).trans (sameStamp_attachAll _ c.id ns)

theorem sameStamp_attachAll (t : Tree) (parent : String) : ∀ ns : List Node, t.SameStamp (t.attachAll parent ns)
  | [] => .refl t
  | n :: ns => (sameStamp_attach t (some parent) n).trans (sameStamp_attachAll _ parent ns)

end

/-- An insertion that is not refused keeps the stamp. -/
theorem sameStamp_insert {n : Node} (h : t.insert n = .ok t') : t.SameStamp t' := by
  rw [insert] at h
  by_cases hrepeats : hasRepeats (n.walk.map Node.id) = true
  · rw [if_pos hrepeats] at h
    exact absurd h (by simp)
  · rw [if_neg hrepeats] at h
    cases habove : t.ancestors n.id with
    | error e =>
      rw [habove] at h
      exact absurd h (by simp)
    | ok above =>
      simp only [habove] at h
      cases hbelow : (n.walk.map Node.id).find? above.contains with
      | some id =>
        rw [hbelow] at h
        exact absurd h (by simp)
      | none =>
        rw [hbelow] at h
        obtain rfl := Except.ok.inj h
        exact sameStamp_attach t none n

/-! ### Updating -/

/-- An update keeps the stamp. -/
theorem sameStamp_mergeProps {id : String} {patch : Assoc Json.Value} (h : t.mergeProps id patch = some t') :
    t.SameStamp t' := by
  obtain ⟨c, _, rfl⟩ := mergeProps_eq_some_iff.mp h
  exact ⟨rfl, rfl⟩

end ComponentStream.Tree
