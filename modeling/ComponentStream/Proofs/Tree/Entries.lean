import ComponentStream.Proofs.Tree.Insert

/-!
# Stored components under edits

A component that is stored after an edit has come in with it, or was stored before and has kept its data and its place.

* `Tree.mergeProps_eq_some_iff`, `Tree.component_mergeProps` — an update overrides the properties of one component;
* `Tree.Sound.kept_of_remove` — what a removal leaves is as it was;
* `Tree.Insertable.component_attach` — what is stored after an insertion is a component of the node, or is as it was;
* `Tree.Keyed.size_le`, `Tree.Insertable.size_attach_le` — how many components there are afterwards.
-/

namespace ComponentStream

open Protocol (Component Node)

namespace Protocol

mutual

/-- The placements of a node place its components. -/
theorem Node.map_component_placements (parent : Option String) :
    ∀ n : Node, (n.placements parent).map Placement.component = n.preorder.map Node.component
  | ⟨c, none⟩ => rfl
  | ⟨c, some ns⟩ => by
    rw [Node.placements, List.map_cons, Node.map_component_placementsAll c.id ns, Node.preorder, List.map_cons]

theorem Node.map_component_placementsAll (parent : String) :
    ∀ ns : List Node, (Node.placementsAll parent ns).map Placement.component = (Node.preorderAll ns).map Node.component
  | [] => rfl
  | n :: ns => by
    rw [Node.placementsAll, List.map_append, Node.map_component_placements (some parent) n,
      Node.map_component_placementsAll parent ns, Node.preorderAll, List.map_append]

end

end Protocol

namespace Tree

variable {t t' : Tree} {n : Node}

/-! ### Updates -/

theorem mergeProps_eq_some_iff {id : String} {patch : Assoc Json.Value} :
    t.mergeProps id patch = some t' ↔
      ∃ c, Assoc.get? id t.components = some c ∧
        t' = { t with
          components := Assoc.insert id { c with props := Assoc.merge c.props patch } t.components } := by
  rw [mergeProps]
  cases Assoc.get? id t.components with
  | none => simp
  | some c => simp [eq_comm]

/-- A component that is stored after an update is as it was, or has its properties overridden. -/
theorem component_mergeProps {id k : String} {patch : Assoc Json.Value} {c : Component}
    (hm : t.mergeProps id patch = some t') (hc : Assoc.get? k t'.components = some c) :
    (∃ d, Assoc.get? k t.components = some d ∧ c = { d with props := Assoc.merge d.props patch }) ∨
      Assoc.get? k t.components = some c := by
  obtain ⟨d, hd, rfl⟩ := mergeProps_eq_some_iff.mp hm
  rw [Assoc.get?_insert] at hc
  by_cases hk : id = k
  · subst hk
    rw [if_pos rfl] at hc
    exact Or.inl ⟨d, hd, (Option.some.inj hc).symm⟩
  · rw [if_neg hk] at hc
    exact Or.inr hc

/-- What is stored after an update was stored before, under the same parent. -/
theorem kept_of_mergeProps {id k : String} {patch : Assoc Json.Value} (hm : t.mergeProps id patch = some t')
    (hk : t'.contains k = true) : t.contains k = true ∧ t'.parent? k = t.parent? k := by
  obtain ⟨c, hc⟩ := Assoc.exists_get?_of_contains hk
  refine ⟨?_, ?_⟩
  · rcases component_mergeProps hm hc with ⟨d, hd, _⟩ | hold
    · exact Assoc.contains_of_get? hd
    · exact Assoc.contains_of_get? hold
  · obtain ⟨d, _, rfl⟩ := mergeProps_eq_some_iff.mp hm
    rfl

/-! ### Removals -/

/-- What a removal leaves was stored before, and has kept its data and its parent. -/
theorem Sound.kept_of_remove (h : t.Sound) {id k : String} (hk : (t.remove id).contains k = true) :
    t.contains k = true ∧ Assoc.get? k (t.remove id).components = Assoc.get? k t.components ∧
      (t.remove id).parent? k = t.parent? k := by
  by_cases hid : t.contains id = true
  · obtain ⟨gone, heq, _⟩ := h.remove_eq_without hid
    have hsame := relisted_detach t id
    rw [heq, contains_without, contains, hsame.components] at hk
    rw [heq, get?_components_without, parent?_without, if_neg hk.1, if_neg hk.1, parent?, parent?, hsame.components,
      hsame.parentIds]
    exact ⟨hk.2, rfl, rfl⟩
  · rw [remove_of_not_contains hid] at hk ⊢
    exact ⟨hk, rfl, rfl⟩

/-! ### Insertions -/

/-- A component that is stored after an insertion is one of the node, or was stored before with the same data. -/
theorem Insertable.component_attach (hi : t.Insertable n) (h : t.Sound) {k : String} {c : Component}
    (hc : Assoc.get? k (t.attach none n).components = some c) :
    (∃ each ∈ n.preorder, each.component = c) ∨ Assoc.get? k t.components = some c := by
  by_cases hk : k ∈ n.ids
  · obtain ⟨d, hd, rfl⟩ := Node.exists_placement none hk
    obtain rfl := Option.some.inj (((hi.placing h).placed_component d hd).symm.trans hc)
    have hmem : d.component ∈ n.preorder.map Node.component := by
      rw [← Node.map_component_placements none n]
      exact List.mem_map_of_mem hd
    exact Or.inl (List.mem_map.mp hmem)
  · rw [(hi.kept h hk (Assoc.contains_of_get? hc)).1] at hc
    exact Or.inr hc

/-! ### Sizes -/

/-- A tree that stores nothing but what another one stores is no larger. -/
theorem Keyed.size_le (h : t'.Keyed) (hsub : ∀ k, t'.contains k = true → t.contains k = true) : t'.size ≤ t.size := by
  have hlen := length_le_of_contains (m := t.components) h.components fun k hk => hsub k (Assoc.contains_iff.mpr hk)
  rwa [Assoc.keys, List.length_map] at hlen

/-- An insertion adds no more components than the node has that were not stored. -/
theorem Insertable.size_attach_le (hi : t.Insertable n) (h : t.Sound) :
    (t.attach none n).size ≤ t.size + t.newIds n := by
  have hsub : Assoc.keys (t.attach none n).components ⊆
      Assoc.keys t.components ++ (n.walk.filter fun each => !t.contains each.id).map Node.id := by
    intro k hk
    rw [List.mem_append]
    rcases (hi.contains_attach h k).mp (Assoc.contains_iff.mpr hk) with hmem | ⟨hold, _⟩
    · by_cases hst : t.contains k = true
      · exact Or.inl (Assoc.contains_iff.mp hst)
      · obtain ⟨each, heach, rfl⟩ := List.mem_map.mp hmem
        rw [Node.walk_eq_preorder]
        exact Or.inr (List.mem_map_of_mem (List.mem_filter.mpr ⟨heach, by simpa using hst⟩))
    · exact Or.inl (Assoc.contains_iff.mp hold)
  have hlen := (List.subperm_of_subset (h.attach hi).keyed.components hsub).length_le
  rwa [List.length_append, Assoc.keys, Assoc.keys, List.length_map, List.length_map, List.length_map] at hlen

end Tree

end ComponentStream
