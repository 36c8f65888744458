import Mathlib.Data.List.Perm.Subperm
import ComponentStream.Proofs.Tree.Sound

/-!
# The way up, computed

In a sound tree the way up from a component ends before its budget does, and lists exactly the ancestors.

* `Tree.WayUp` — the ancestors of a component in order, by the links alone; there is at most one such list;
* `Tree.Sound.ancestors_eq_ok_iff` — what is computed is this list, and there is no cycle to be reported;
* `Tree.Sound.ancestors_eq_ok` — its members are the ancestors.
-/

namespace ComponentStream.Tree

variable {t : Tree}

/-- Distinct names with entries are no more than the entries. -/
theorem length_le_of_contains {α : Type} {m : Assoc α} {ks : List String} (hnd : ks.Nodup)
    (h : ∀ k ∈ ks, Assoc.contains k m = true) : ks.length ≤ m.length := by
  have hsub : ks ⊆ Assoc.keys m := fun k hk => Assoc.contains_iff.mp (h k hk)
  have hlen := (List.subperm_of_subset hnd hsub).length_le
  rwa [Assoc.keys, List.length_map] at hlen

/-! ### The way up by links -/

/-- The ancestors of a component from its parent up to its root. -/
inductive WayUp (t : Tree) : String → List String → Prop where
  | root {id : String} : t.parent? id = none → WayUp t id []
  | step {id p : String} {above : List String} : t.Owns p id → WayUp t p above → WayUp t id (p :: above)

/-- There is one way up from a component. -/
theorem WayUp.unique {id : String} {above above' : List String} (h : t.WayUp id above) (h' : t.WayUp id above') :
    above = above' := by
  induction h generalizing above' with
  | root hnone =>
    cases h' with
    | root => rfl
    | step ho _ => exact absurd (hnone.symm.trans ho) (by simp)
  | step ho _ ih =>
    cases h' with
    | root hnone => exact absurd (hnone.symm.trans ho) (by simp)
    | step ho' hway =>
      obtain rfl := Option.some.inj (ho.symm.trans ho')
      rw [ih hway]

theorem WayUp.mem_iff {id a : String} {above : List String} (h : t.WayUp id above) : a ∈ above ↔ t.Ancestor a id := by
  induction h with
  | root hnone =>
    refine ⟨fun ha => absurd ha List.not_mem_nil, fun ha => ?_⟩
    obtain ⟨q, hq, _⟩ := ha.cases_parent
    exact absurd (hnone.symm.trans hq) (by simp)
  | step ho _ ih =>
    rw [List.mem_cons, ih]
    constructor
    · rintro (rfl | ha)
      · exact ho.ancestor
      · exact ha.encloses.ancestor_of_owns ho
    · intro ha
      obtain ⟨q, hq, haq⟩ := ha.cases_parent
      obtain rfl := Option.some.inj (ho.symm.trans hq)
      exact haq.eq_or_ancestor

/-- A way up stays one in another tree that has the links along it. -/
theorem WayUp.transfer {t' : Tree} {Kept : String → Prop} (hparent : ∀ k, Kept k → t'.parent? k = t.parent? k)
    (hup : ∀ p k, Kept k → t.Owns p k → Kept p) {id : String} {above : List String} (h : t.WayUp id above)
    (hid : Kept id) : t'.WayUp id above := by
  induction h with
  | root hnone => exact WayUp.root ((hparent _ hid).trans hnone)
  | step ho _ ih => exact WayUp.step ((hparent _ hid).trans ho) (ih (hup _ _ hid ho))

/-! ### The way up as it is computed -/

/-- The way up from a component, those below it on the way having been passed. -/
theorem Sound.ancestorsFrom_eq_ok (h : t.Sound) (budget : Nat) :
    ∀ (id : String) (passed : List String), (id :: passed).Nodup → (∀ s ∈ passed, t.Ancestor id s) →
      budget + passed.length = t.parentIds.length + 1 →
      ∃ above, t.ancestorsFrom budget (id :: passed) (t.parent? id) = .ok above ∧ t.WayUp id above := by
  induction budget with
  | zero =>
    intro id passed hnd hpassed hb
    -- the components that were passed have parents, so they alone would use the budget up
    have hlen := length_le_of_contains (m := t.parentIds) (List.nodup_cons.mp hnd).2 fun s hs => by
      obtain ⟨q, hq, _⟩ := (hpassed s hs).cases_parent
      exact Assoc.contains_of_get? hq
    omega
  | succ budget ih =>
    intro id passed hnd hpassed hb
    cases hp : t.parent? id with
    | none => exact ⟨[], rfl, WayUp.root hp⟩
    | some p =>
      have ho : t.Owns p id := hp
      have hall : ∀ s ∈ id :: passed, t.Ancestor p s := by
        intro s hs
        rcases List.mem_cons.mp hs with rfl | hmem
        · exact ho.ancestor
        · exact ho.ancestor_of_encloses (hpassed s hmem).encloses
      have hnew : p ∉ id :: passed := fun hm => h.acyclic p (hall p hm)
      obtain ⟨above, heq, hway⟩ := ih p (id :: passed) (List.nodup_cons.mpr ⟨hnew, hnd⟩) hall
        (by rw [List.length_cons]; omega)
      refine ⟨p :: above, ?_, WayUp.step ho hway⟩
      rw [ancestorsFrom, if_neg (by simpa using hnew), heq]

theorem Sound.exists_wayUp (h : t.Sound) (id : String) : ∃ above, t.ancestors id = .ok above ∧ t.WayUp id above :=
  h.ancestorsFrom_eq_ok (t.parentIds.length + 1) id [] (List.nodup_singleton id)
    (fun _ hs => absurd hs List.not_mem_nil) rfl

/-- What is computed is the way up. -/
theorem Sound.ancestors_eq_ok_iff (h : t.Sound) {id : String} {above : List String} :
    t.ancestors id = .ok above ↔ t.WayUp id above := by
  obtain ⟨found, heq, hway⟩ := h.exists_wayUp id
  rw [heq, Except.ok.injEq]
  exact ⟨fun hsame => hsame ▸ hway, fun hother => hway.unique hother⟩

/-- The ancestors of a component, as they are computed. -/
theorem Sound.ancestors_eq_ok (h : t.Sound) (id : String) :
    ∃ above, t.ancestors id = .ok above ∧ ∀ a, a ∈ above ↔ t.Ancestor a id := by
  obtain ⟨above, heq, hway⟩ := h.exists_wayUp id
  exact ⟨above, heq, fun _ => hway.mem_iff⟩

end ComponentStream.Tree
