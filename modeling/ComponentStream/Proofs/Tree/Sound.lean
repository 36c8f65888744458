import Mathlib.Logic.Relation
import Mathlib.Order.WellFounded
import ComponentStream.Proofs.Assoc
import ComponentStream.Tree.Edit

/-!
# Sound trees

The index, the two directions of links and the list of roots say the same thing four times over.  A tree is *sound*
when they agree.

* `Tree.Owns`, `Tree.Encloses`, `Tree.Ancestor` — one link, any number of links, at least one link;
* `Tree.Sound` — the agreement, with the way up from every component finite;
* `Tree.Sound.exists_root` — every component lies below a root, along links of both directions;
* `Tree.Sound.empty`, `Tree.Sound.stamp`, `Tree.Sound.mergeProps` — the changes that leave the links alone.
-/

namespace ComponentStream.Tree

open Protocol (Component Node)

/-! ### Links -/

/-- The parent of `c` is `p`. -/
def Owns (t : Tree) (p c : String) : Prop := t.parent? c = some p

/-- The way up from `d` passes `a`, or they are the same. -/
def Encloses (t : Tree) (a d : String) : Prop := Relation.ReflTransGen t.Owns a d

/-- The way up from `d` passes `a`. -/
def Ancestor (t : Tree) (a d : String) : Prop := Relation.TransGen t.Owns a d

variable {t t' : Tree}

theorem Owns.ancestor {p c : String} (h : t.Owns p c) : t.Ancestor p c := Relation.TransGen.single h

theorem Encloses.refl (id : String) : t.Encloses id id := Relation.ReflTransGen.refl

theorem Encloses.mono (h : ∀ p c, t'.Owns p c → t.Owns p c) {a d : String} (ha : t'.Encloses a d) :
    t.Encloses a d :=
  Relation.ReflTransGen.mono h _ _ ha

/-- The way up from a component is the way up from its parent. -/
theorem Encloses.cases_parent {a d : String} (h : t.Encloses a d) :
    a = d ∨ ∃ p, t.Owns p d ∧ t.Encloses a p := by
  rcases Relation.ReflTransGen.cases_tail h with heq | ⟨p, hap, hpd⟩
  · exact Or.inl heq.symm
  · exact Or.inr ⟨p, hpd, hap⟩

theorem Ancestor.cases_parent {a d : String} (h : t.Ancestor a d) : ∃ p, t.Owns p d ∧ t.Encloses a p := by
  obtain ⟨p, hap, hpd⟩ := Relation.TransGen.tail'_iff.mp h
  exact ⟨p, hpd, hap⟩

theorem Encloses.ancestor_of_owns {a p d : String} (h : t.Encloses a p) (hp : t.Owns p d) : t.Ancestor a d :=
  Relation.TransGen.tail' h hp

theorem Owns.ancestor_of_encloses {a c d : String} (h : t.Owns a c) (hc : t.Encloses c d) : t.Ancestor a d :=
  Relation.TransGen.head' h hc

theorem Ancestor.encloses {a d : String} (h : t.Ancestor a d) : t.Encloses a d := h.to_reflTransGen

theorem Encloses.eq_or_ancestor {a d : String} (h : t.Encloses a d) : a = d ∨ t.Ancestor a d := by
  rcases h.cases_parent with heq | ⟨p, hp, hap⟩
  · exact Or.inl heq
  · exact Or.inr (hap.ancestor_of_owns hp)

/-! ### Agreement -/

/-- No map of the tree has a name twice, and no root is listed twice. -/
structure Keyed (t : Tree) : Prop where
  components : Assoc.Distinct t.components
  childIds : Assoc.Distinct t.childIds
  parentIds : Assoc.Distinct t.parentIds
  rootIds : t.rootIds.Nodup

/-- The index, the links in both directions and the roots agree. -/
structure Sound (t : Tree) : Prop where
  keyed : t.Keyed
  /-- Every component is stored under its own identifier. -/
  id_eq : ∀ id c, Assoc.get? id t.components = some c → c.id = id
  /-- Exactly the stored components have a list of children. -/
  listed_iff : ∀ id, Assoc.contains id t.childIds = true ↔ t.contains id = true
  /-- The parent of a component is the one whose list it is in. -/
  parent_iff : ∀ p c, t.parent? c = some p ↔ t.contains p = true ∧ c ∈ t.children p
  /-- Every child is stored. -/
  child_stored : ∀ p c, c ∈ t.children p → t.contains c = true
  /-- No list of children repeats one. -/
  siblings_nodup : ∀ p, (t.children p).Nodup
  /-- The roots are the components without a parent. -/
  root_iff : ∀ id, id ∈ t.rootIds ↔ t.contains id = true ∧ t.parent? id = none
  /-- Every way up ends. -/
  grounded : WellFounded t.Owns

theorem listed_of_mem_children {p c : String} (h : c ∈ t.children p) : Assoc.contains p t.childIds = true := by
  rw [Assoc.contains]
  cases hg : Assoc.get? p t.childIds with
  | none =>
    rw [children, hg] at h
    exact absurd h List.not_mem_nil
  | some cs => rfl

namespace Sound

/-- What has to be checked of links: each child's parent is the one component whose list it is in. -/
theorem ofLinks (keyed : t.Keyed) (id_eq : ∀ id c, Assoc.get? id t.components = some c → c.id = id)
    (listed_iff : ∀ id, Assoc.contains id t.childIds = true ↔ t.contains id = true)
    (owns_iff : ∀ p c, t.Owns p c ↔ c ∈ t.children p) (child_stored : ∀ p c, t.Owns p c → t.contains c = true)
    (siblings_nodup : ∀ p, (t.children p).Nodup)
    (root_iff : ∀ id, id ∈ t.rootIds ↔ t.contains id = true ∧ t.parent? id = none)
    (grounded : WellFounded t.Owns) : t.Sound where
  keyed := keyed
  id_eq := id_eq
  listed_iff := listed_iff
  parent_iff := by
    intro p c
    constructor
    · intro ho
      have hc : c ∈ t.children p := (owns_iff p c).mp ho
      exact ⟨(listed_iff p).mp (listed_of_mem_children hc), hc⟩
    · exact fun h => (owns_iff p c).mpr h.2
  child_stored := fun p c hc => child_stored p c ((owns_iff p c).mpr hc)
  siblings_nodup := siblings_nodup
  root_iff := root_iff
  grounded := grounded

theorem owner_stored (h : t.Sound) {p c : String} (hc : c ∈ t.children p) : t.contains p = true :=
  (h.listed_iff p).mp (listed_of_mem_children hc)

theorem owns_iff (h : t.Sound) {p c : String} : t.Owns p c ↔ c ∈ t.children p :=
  ⟨fun ho => ((h.parent_iff p c).mp ho).2, fun hc => (h.parent_iff p c).mpr ⟨h.owner_stored hc, hc⟩⟩

/-- No component is in the lists of two others. -/
theorem owner_unique (h : t.Sound) {p q c : String} (hp : c ∈ t.children p) (hq : c ∈ t.children q) : p = q := by
  have hp' : t.parent? c = some p := h.owns_iff.mpr hp
  have hq' : t.parent? c = some q := h.owns_iff.mpr hq
  exact Option.some.inj (hp'.symm.trans hq')

theorem stored_of_owns (h : t.Sound) {p c : String} (ho : t.Owns p c) : t.contains c = true :=
  h.child_stored p c (h.owns_iff.mp ho)

theorem owner_stored_of_owns (h : t.Sound) {p c : String} (ho : t.Owns p c) : t.contains p = true :=
  ((h.parent_iff p c).mp ho).1

theorem ancestor_stored (h : t.Sound) {a d : String} (ha : t.Ancestor a d) : t.contains a = true := by
  induction ha using Relation.TransGen.head_induction_on with
  | single ho => exact h.owner_stored_of_owns ho
  | head ho _ _ => exact h.owner_stored_of_owns ho

theorem parent?_eq_none_of_not_stored (h : t.Sound) {id : String} (hid : ¬ t.contains id = true) :
    t.parent? id = none := by
  cases hp : t.parent? id with
  | none => rfl
  | some p => exact absurd (h.stored_of_owns hp) hid

/-- A root lies below nothing but itself. -/
theorem eq_of_encloses_root (h : t.Sound) {a r : String} (hr : r ∈ t.rootIds) (henc : t.Encloses a r) : a = r := by
  rcases henc.cases_parent with heq | ⟨p, hp, _⟩
  · exact heq
  · have hnone : t.parent? r = none := ((h.root_iff r).mp hr).2
    exact absurd (hnone.symm.trans hp) (by simp)

/-- No component is an ancestor of itself. -/
theorem acyclic (h : t.Sound) (id : String) : ¬ t.Ancestor id id :=
  fun ha => (h.grounded.transGen.irrefl).irrefl id ha

/-- The way up from every component ends at a root, and the same links lead down again. -/
theorem exists_root (h : t.Sound) {id : String} (hid : t.contains id = true) :
    ∃ r ∈ t.rootIds, t.Encloses r id ∧ Relation.ReflTransGen (fun p c => c ∈ t.children p) r id := by
  induction id using h.grounded.induction with
  | _ id ih =>
    cases hp : t.parent? id with
    | none => exact ⟨id, (h.root_iff id).mpr ⟨hid, hp⟩, Encloses.refl id, Relation.ReflTransGen.refl⟩
    | some p =>
      have ho : t.Owns p id := hp
      obtain ⟨r, hr, hup, hdown⟩ := ih p ho (h.owner_stored_of_owns ho)
      exact ⟨r, hr, Relation.ReflTransGen.tail hup ho, Relation.ReflTransGen.tail hdown (h.owns_iff.mp ho)⟩

/-! ### Changes without effect on the links -/

/-- The empty tree is sound. -/
theorem empty : Tree.empty.Sound where
  keyed := ⟨List.nodup_nil, List.nodup_nil, List.nodup_nil, List.nodup_nil⟩
  id_eq := by
    intro id c h
    exact absurd h (by simp [Tree.empty, Assoc.get?])
  listed_iff := fun _ => Iff.rfl
  parent_iff := by
    intro p c
    simp [Tree.empty, parent?, Assoc.get?, contains, Assoc.contains]
  child_stored := by
    intro p c h
    exact absurd h List.not_mem_nil
  siblings_nodup := fun _ => List.nodup_nil
  root_iff := by
    intro id
    simp [Tree.empty, contains, Assoc.contains, Assoc.get?]
  grounded := ⟨fun id => Acc.intro id fun p h => absurd h (by simp [Owns, parent?, Tree.empty, Assoc.get?])⟩

/-- Neither the version nor the mark for the end bears on the links. -/
theorem stamp (h : t.Sound) (version : Nat) (complete : Bool) :
    ({ t with version := version, complete := complete } : Tree).Sound :=
  ⟨⟨h.keyed.components, h.keyed.childIds, h.keyed.parentIds, h.keyed.rootIds⟩, h.id_eq, h.listed_iff, h.parent_iff,
    h.child_stored, h.siblings_nodup, h.root_iff, h.grounded⟩

/-- Overriding properties keeps a tree sound. -/
theorem mergeProps (h : t.Sound) {id : String} {patch : Assoc Json.Value} (hm : t.mergeProps id patch = some t') :
    t'.Sound := by
  rw [Tree.mergeProps] at hm
  cases hc : Assoc.get? id t.components with
  | none =>
    rw [hc] at hm
    exact absurd hm (by simp)
  | some c =>
    rw [hc] at hm
    obtain rfl := Option.some.inj hm
    have hstored : t.contains id = true := Assoc.contains_of_get? hc
    have hsame : ∀ k, Assoc.contains k
        (Assoc.insert id { c with props := Assoc.merge c.props patch } t.components) = t.contains k := by
      intro k
      rw [Assoc.contains_insert]
      by_cases hk : id = k
      · subst hk
        simp [hstored]
      · simp [hk, contains]
    refine ⟨⟨h.keyed.components.insert _ _, h.keyed.childIds, h.keyed.parentIds, h.keyed.rootIds⟩, ?_, ?_, ?_, ?_,
      h.siblings_nodup, ?_, h.grounded⟩
    · intro k c' hk
      rw [Assoc.get?_insert] at hk
      by_cases heq : id = k
      · rw [if_pos heq] at hk
        obtain rfl := Option.some.inj hk
        exact (h.id_eq id c hc).trans heq
      · rw [if_neg heq] at hk
        exact h.id_eq k c' hk
    · intro k
      rw [contains, hsame]
      exact h.listed_iff k
    · intro p k
      rw [contains, hsame]
      exact h.parent_iff p k
    · intro p k hk
      rw [contains, hsame]
      exact h.child_stored p k hk
    · intro k
      rw [contains, hsame]
      exact h.root_iff k

end Sound

end ComponentStream.Tree
