import ComponentStream.Proofs.Tree.Discard

/-!
# Removing a component

Removing a stored component takes it from the list of its parent and leaves out the component with everything below
it.

* `Tree.detach` — a tree in which a component is in no list of children;
* `Tree.Relisted` — a tree with other lists of children, which is all that a detachment makes of it;
* `Tree.remove_eq_without` — what is left out are the component and its descendants;
* `Tree.Sound.remove` — the rest is sound again.
-/

namespace ComponentStream.Tree

variable {t : Tree}

/-- Takes a component out of the list of its parent, if it has one. -/
def detach (t : Tree) (id : String) : Tree :=
  match t.parent? id with
  | some parent => t.unlink parent id
  | none => t

theorem remove_eq_discard {id : String} (hid : t.contains id = true) : t.remove id = (t.detach id).discard id := by
  rw [remove, if_pos hid, detach]
  cases t.parent? id <;> rfl

theorem remove_of_not_contains {id : String} (hid : ¬ t.contains id = true) : t.remove id = t := by
  rw [remove, if_neg hid]

/-! ### Taking a component from its siblings -/

/-- A tree that differs from another one in its lists of children at most. -/
structure Relisted (t t' : Tree) : Prop where
  components : t'.components = t.components
  parentIds : t'.parentIds = t.parentIds
  rootIds : t'.rootIds = t.rootIds

theorem Relisted.refl (t : Tree) : t.Relisted t := ⟨rfl, rfl, rfl⟩

theorem relisted_unlink (t : Tree) (parent id : String) : t.Relisted (t.unlink parent id) := by
  rw [unlink]
  cases Assoc.get? parent t.childIds with
  | none => exact Relisted.refl t
  | some siblings => exact ⟨rfl, rfl, rfl⟩

theorem relisted_detach (t : Tree) (id : String) : t.Relisted (t.detach id) := by
  rw [detach]
  cases t.parent? id with
  | none => exact Relisted.refl t
  | some parent => exact relisted_unlink t parent id

theorem get?_childIds_unlink (t : Tree) (parent id k : String) :
    Assoc.get? k (t.unlink parent id).childIds =
      if k = parent then (Assoc.get? k t.childIds).map (·.erase id) else Assoc.get? k t.childIds := by
  rw [unlink]
  cases hp : Assoc.get? parent t.childIds with
  | none =>
    by_cases hk : k = parent
    · subst hk
      simp [hp]
    · simp [hk]
  | some siblings =>
    show Assoc.get? k (Assoc.insert parent (siblings.erase id) t.childIds) = _
    rw [Assoc.get?_insert]
    by_cases hk : k = parent
    · subst hk
      simp [hp]
    · have hne : ¬ parent = k := fun he => hk he.symm
      rw [if_neg hne, if_neg hk]

theorem Keyed.unlink (h : t.Keyed) (parent id : String) : (t.unlink parent id).Keyed := by
  rw [Tree.unlink]
  cases Assoc.get? parent t.childIds with
  | none => exact h
  | some siblings => exact ⟨h.components, h.childIds.insert _ _, h.parentIds, h.rootIds⟩

theorem Keyed.detach (h : t.Keyed) (id : String) : (t.detach id).Keyed := by
  rw [Tree.detach]
  cases t.parent? id with
  | none => exact h
  | some parent => exact h.unlink parent id

/-- Only the list of its parent changes when a component is detached. -/
theorem get?_childIds_detach (t : Tree) (id k : String) :
    Assoc.get? k (t.detach id).childIds =
      if t.parent? id = some k then (Assoc.get? k t.childIds).map (·.erase id) else Assoc.get? k t.childIds := by
  rw [detach]
  cases t.parent? id with
  | none => rfl
  | some parent =>
    show Assoc.get? k (t.unlink parent id).childIds = _
    rw [get?_childIds_unlink]
    simp only [Option.some.injEq, eq_comm]

/-- In a sound tree no list but that of its parent holds a component, so it is erased from all of them. -/
theorem Sound.get?_childIds_detach_eq_map (h : t.Sound) (id k : String) :
    Assoc.get? k (t.detach id).childIds = (Assoc.get? k t.childIds).map (·.erase id) := by
  rw [get?_childIds_detach]
  by_cases ho : t.Owns k id
  · exact if_pos ho
  · refine (if_neg ho).trans ?_
    cases hk : Assoc.get? k t.childIds with
    | none => rfl
    | some cs =>
      have hcs : t.children k = cs := by rw [children, hk]; rfl
      have hid : id ∉ cs := fun hm => ho (h.owns_iff.mpr (hcs ▸ hm))
      rw [Option.map_some, List.erase_of_not_mem hid]

/-! ### What is left -/

theorem Sound.children_detach (h : t.Sound) (id k : String) : (t.detach id).children k = (t.children k).erase id := by
  rw [children, h.get?_childIds_detach_eq_map, children]
  cases Assoc.get? k t.childIds <;> rfl

theorem owns_detach {id p c : String} : (t.detach id).Owns p c ↔ t.Owns p c := by
  rw [Owns, parent?, (relisted_detach t id).parentIds]
  exact Iff.rfl

/-- **Removing a stored component leaves out exactly the component and its descendants**, once it is detached from
its parent. -/
theorem Sound.remove_eq_without (h : t.Sound) {id : String} (hid : t.contains id = true) :
    ∃ gone, t.remove id = (t.detach id).without gone ∧ ∀ k, k ∈ gone ↔ t.Encloses id k := by
  obtain ⟨gone, heq, hcut⟩ := discard_eq_without (h.keyed.detach id) id
  have hstored : ∀ k, (t.detach id).contains k = t.contains k := fun k => by
    rw [contains, (relisted_detach t id).components]
    rfl
  refine ⟨gone, by rw [remove_eq_discard hid, heq], fun k => ⟨fun hk => ?_, fun hk => ?_⟩⟩
  · obtain ⟨r, hr, henc⟩ := hcut.below k hk
    obtain rfl := List.mem_singleton.mp hr
    exact henc.mono fun _ _ ho => owns_detach.mp ho
  · induction hk with
    | refl => exact hcut.tops_gone id List.mem_cons_self (by rw [hstored]; exact hid)
    | @tail p c _ ho ih =>
      by_cases hci : c = id
      · exact hci ▸ hcut.tops_gone id List.mem_cons_self (by rw [hstored]; exact hid)
      · refine hcut.closed p ih c (mem_owned.mpr ⟨?_, owns_detach.mpr ho⟩) (by rw [hstored]; exact h.stored_of_owns ho)
        rw [h.children_detach]
        exact (List.mem_erase_of_ne hci).mpr (h.owns_iff.mp ho)

/-- Removing a component keeps a tree sound. -/
theorem Sound.remove (h : t.Sound) (id : String) : (t.remove id).Sound := by
  by_cases hid : t.contains id = true
  · obtain ⟨gone, heq, hgone⟩ := h.remove_eq_without hid
    have hsame := relisted_detach t id
    rw [heq]
    have hself : id ∈ gone := (hgone id).mpr (Encloses.refl id)
    have hdown : ∀ p c, t.Owns p c → p ∈ gone → c ∈ gone := fun p c ho hp =>
      (hgone c).mpr (Relation.ReflTransGen.tail ((hgone p).mp hp) ho)
    have hup : ∀ p c, t.Owns p c → c ∈ gone → c ≠ id → p ∈ gone := by
      intro p c ho hc hne
      rcases ((hgone c).mp hc).cases_parent with heq' | ⟨q, hq, hiq⟩
      · exact absurd heq'.symm hne
      · obtain rfl : q = p := Option.some.inj (hq.symm.trans ho)
        exact (hgone q).mpr hiq
    have hcontains : ∀ k, ((t.detach id).without gone).contains k = true ↔ k ∉ gone ∧ t.contains k = true := by
      intro k
      rw [contains_without, contains, hsame.components]
      exact Iff.rfl
    have howns : ∀ p c, ((t.detach id).without gone).Owns p c ↔ c ∉ gone ∧ t.Owns p c := by
      intro p c
      rw [owns_without, owns_detach]
    have hchildren : ∀ k,
        ((t.detach id).without gone).children k = if k ∈ gone then [] else (t.children k).erase id := by
      intro k
      rw [children_without, h.children_detach]
    refine Sound.ofLinks ((h.keyed.detach id).without gone) ?_ ?_ ?_ ?_ ?_ ?_ ?_
    · intro k c hk
      rw [get?_components_without, hsame.components] at hk
      by_cases hg : k ∈ gone
      · exact absurd hk (by simp [hg])
      · rw [if_neg hg] at hk
        exact h.id_eq k c hk
    · intro k
      rw [hcontains, Assoc.contains, get?_childIds_without, h.get?_childIds_detach_eq_map]
      by_cases hg : k ∈ gone
      · simp [hg]
      · simpa [hg, Assoc.contains] using h.listed_iff k
    · intro p c
      rw [howns, hchildren]
      constructor
      · rintro ⟨hc, ho⟩
        have hp : p ∉ gone := fun hp => hc (hdown p c ho hp)
        have hne : c ≠ id := fun he => hc (he ▸ hself)
        rw [if_neg hp]
        exact (List.mem_erase_of_ne hne).mpr (h.owns_iff.mp ho)
      · intro hc
        by_cases hp : p ∈ gone
        · exact absurd hc (by simp [hp])
        · rw [if_neg hp, (h.siblings_nodup p).mem_erase_iff] at hc
          have ho : t.Owns p c := h.owns_iff.mpr hc.2
          exact ⟨fun hg => hp (hup p c ho hg hc.1), ho⟩
    · intro p c ho
      have ho' := (howns p c).mp ho
      exact (hcontains c).mpr ⟨ho'.1, h.stored_of_owns ho'.2⟩
    · intro p
      rw [hchildren]
      by_cases hp : p ∈ gone
      · rw [if_pos hp]
        exact List.nodup_nil
      · rw [if_neg hp]
        exact (h.siblings_nodup p).erase id
    · intro k
      rw [mem_rootIds_without, hsame.rootIds, hcontains, h.root_iff, parent?_without, parent?, parent?, hsame.parentIds]
      by_cases hg : k ∈ gone <;> simp [hg]
    · exact Subrelation.wf (fun {p c} ho => ((howns p c).mp ho).2) h.grounded
  · rw [remove_of_not_contains hid]
    exact h

end ComponentStream.Tree
