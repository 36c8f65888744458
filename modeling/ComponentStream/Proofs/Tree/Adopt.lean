import ComponentStream.Proofs.Tree.Remove

/-!
# Entries and places

A component is placed in two steps: it is stored with its declared children, and it takes its place under a parent
or among the roots.  This file says what either step does to each entry of a tree.

* `Tree.get?_components_store`, `Tree.get?_childIds_store` — the entries of the component that is stored;
* `Tree.leaveParent_eq`, `Tree.adopt_none` — what the two steps come to case by case;
* `Tree.parent?_adopt`, `Tree.get?_childIds_adopt_former`, `Tree.get?_childIds_adopt_of_ne` — the links that change
  when a component takes its place;
* `Tree.rootIds_adopt_below` — the roots.
-/

namespace ComponentStream.Tree

open Protocol (Component)

variable {t : Tree}

/-! ### Storing -/

theorem get?_components_store (t : Tree) (c : Component) (declared : List String) (k : String) :
    Assoc.get? k (t.store c declared).components = if k = c.id then some c else Assoc.get? k t.components := by
  show Assoc.get? k (Assoc.insert c.id c t.components) = _
  rw [Assoc.get?_insert]
  simp only [eq_comm]

theorem get?_childIds_store (t : Tree) (c : Component) (declared : List String) (k : String) :
    Assoc.get? k (t.store c declared).childIds = if k = c.id then some declared else Assoc.get? k t.childIds := by
  show Assoc.get? k (Assoc.insert c.id declared t.childIds) = _
  rw [Assoc.get?_insert]
  simp only [eq_comm]

theorem Keyed.store (h : t.Keyed) (c : Component) (declared : List String) : (t.store c declared).Keyed :=
  ⟨h.components.insert _ _, h.childIds.insert _ _, h.parentIds, h.rootIds⟩

/-! ### Leaving the former parent -/

/-- A component stays where it is, or leaves the list of a parent that is to be its former one. -/
theorem leaveParent_eq (t : Tree) (id parent : String) :
    t.leaveParent id parent = t ∨
      ∃ former, t.parent? id = some former ∧ former ≠ parent ∧ t.leaveParent id parent = t.unlink former id := by
  rw [leaveParent]
  cases hp : t.parent? id with
  | none => exact Or.inl rfl
  | some former =>
    by_cases h : former = parent
    · exact Or.inl (if_pos h)
    · exact Or.inr ⟨former, rfl, h, if_neg h⟩

theorem relisted_leaveParent (t : Tree) (id parent : String) : t.Relisted (t.leaveParent id parent) := by
  rcases t.leaveParent_eq id parent with hsame | ⟨former, _, _, hunlink⟩
  · rw [hsame]
    exact Relisted.refl t
  · rw [hunlink]
    exact relisted_unlink t former id

theorem Keyed.leaveParent (h : t.Keyed) (id parent : String) : (t.leaveParent id parent).Keyed := by
  rcases t.leaveParent_eq id parent with hsame | ⟨former, _, _, hunlink⟩
  · rw [hsame]
    exact h
  · rw [hunlink]
    exact h.unlink former id

/-! ### Taking a place -/

/-- Without a new parent only the roots change, and only for a component that is new there. -/
theorem adopt_none (t : Tree) (id : String) :
    t.adopt id none =
      { t with
        rootIds := t.rootIds ++
          if Assoc.contains id t.parentIds = true ∨ t.rootIds.contains id = true then [] else [id] } := by
  rw [adopt]
  by_cases h : Assoc.contains id t.parentIds = true ∨ t.rootIds.contains id = true
  · rw [if_pos h, if_pos h, List.append_nil]
  · rw [if_neg h, if_neg h]

theorem adopt_components (t : Tree) (id : String) (parent : Option String) :
    (t.adopt id parent).components = t.components := by
  cases parent with
  | none => rw [adopt_none]
  | some parent => exact (relisted_leaveParent t id parent).components

theorem parent?_adopt (t : Tree) (id : String) (parent : Option String) (k : String) :
    (t.adopt id parent).parent? k = if k = id then parent.or (t.parent? k) else t.parent? k := by
  cases parent with
  | none =>
    rw [adopt_none, Option.none_or, ite_self]
    rfl
  | some parent =>
    show Assoc.get? k (Assoc.insert id parent (t.leaveParent id parent).parentIds) = _
    rw [Assoc.get?_insert, (relisted_leaveParent t id parent).parentIds, Option.some_or]
    simp only [eq_comm, parent?]

/-- A component that goes below another parent leaves the list of its former one. -/
theorem get?_childIds_adopt_former {id parent former : String} (hformer : t.parent? id = some former)
    (hne : former ≠ parent) :
    Assoc.get? former (t.adopt id (some parent)).childIds = (Assoc.get? former t.childIds).map (·.erase id) := by
  show Assoc.get? former (t.leaveParent id parent).childIds = _
  rw [leaveParent, hformer]
  show Assoc.get? former (if former = parent then t else t.unlink former id).childIds = _
  rw [if_neg hne, get?_childIds_unlink, if_pos rfl]

/-- No other list of children changes. -/
theorem get?_childIds_adopt_of_ne {id k : String} {parent : Option String}
    (h : t.parent? id = some k → parent = none ∨ parent = some k) :
    Assoc.get? k (t.adopt id parent).childIds = Assoc.get? k t.childIds := by
  cases parent with
  | none => rw [adopt_none]
  | some parent =>
    show Assoc.get? k (t.leaveParent id parent).childIds = _
    rcases t.leaveParent_eq id parent with hsame | ⟨former, hp, hf, hunlink⟩
    · rw [hsame]
    · have hk : k ≠ former := by
        rintro rfl
        rcases h hp with hnone | hsome
        · exact absurd hnone (by simp)
        · exact hf (Option.some.inj hsome).symm
      rw [hunlink, get?_childIds_unlink, if_neg hk]

theorem rootIds_adopt_below (t : Tree) (id parent : String) :
    (t.adopt id (some parent)).rootIds = t.rootIds.erase id := by
  show (t.leaveParent id parent).rootIds.erase id = _
  rw [(relisted_leaveParent t id parent).rootIds]

theorem Keyed.adopt (h : t.Keyed) (id : String) (parent : Option String) : (t.adopt id parent).Keyed := by
  cases parent with
  | none =>
    rw [adopt_none]
    refine ⟨h.components, h.childIds, h.parentIds, ?_⟩
    show (t.rootIds ++ if _ then _ else _).Nodup
    split
    · rw [List.append_nil]
      exact h.rootIds
    · rename_i hnew
      have hnot : id ∉ t.rootIds := fun hm => hnew (Or.inr (by simpa using hm))
      rw [← List.concat_eq_append]
      exact h.rootIds.concat hnot
  | some parent =>
    have hl := h.leaveParent id parent
    exact ⟨hl.components, hl.childIds, hl.parentIds.insert _ _, hl.rootIds.erase id⟩

end ComponentStream.Tree
