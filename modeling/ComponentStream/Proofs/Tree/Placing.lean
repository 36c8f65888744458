import ComponentStream.Proofs.Tree.Placement

/-!
# A tree in the middle of an insertion

Between two placements a tree is not sound: a component that has been placed lists children that are still under
their former parents, or not stored at all.  What holds in between is said relative to the tree as it was before.

* `Tree.Placing` — the state of a tree after some placements: the components placed have their new entries, the
  others have kept theirs less the children that have moved, or are gone because they lay below a placed one;
* `Tree.Next` — what a placement has to do with the ones before it;
* `Tree.Placing.not_placed_of_gone` — no placement drops a component that has been placed.

The point of the last one is that the children that a placement drops lead to no
component that has been placed, because from those the way up passes placed components alone until it comes to the
top, and no ancestor of the top takes part in the insertion.
-/

namespace ComponentStream.Tree

open Protocol (Component Node)

variable {t₀ t u : Tree} {top : String} {done : List Placement} {p : Placement} {gone : List String}

/-- The components that have been moved below a parent. -/
def movedIds (done : List Placement) : List String := (done.filter fun d => d.parent.isSome).map Placement.id

/-- The members of a list that have not been moved. -/
def leftAlone (moved cs : List String) : List String := cs.filter fun c => !moved.contains c

theorem mem_leftAlone {moved cs : List String} {c : String} : c ∈ leftAlone moved cs ↔ c ∈ cs ∧ c ∉ moved := by
  simp [leftAlone]

theorem movedIds_append (done : List Placement) (p : Placement) :
    movedIds (done ++ [p]) = movedIds done ++ movedIds [p] := by
  rw [movedIds, List.filter_append, List.map_append]
  rfl

theorem leftAlone_leftAlone (moved moved' cs : List String) :
    leftAlone moved' (leftAlone moved cs) = leftAlone (moved ++ moved') cs := by
  rw [leftAlone, leftAlone, List.filter_filter, leftAlone]
  apply List.filter_congr
  intro c _
  simp [Bool.and_comm]

theorem movedIds_of_none (h : p.parent = none) : movedIds [p] = [] := by
  simp [movedIds, h]

theorem movedIds_of_some {q : String} (h : p.parent = some q) : movedIds [p] = [p.id] := by
  simp [movedIds, h]

theorem leftAlone_nil (cs : List String) : leftAlone [] cs = cs := by
  simp [leftAlone]

/-- Moving nothing that a list holds leaves it as it is. -/
theorem leftAlone_eq_self {moved cs : List String} (h : ∀ c ∈ cs, c ∉ moved) : leftAlone moved cs = cs := by
  apply List.filter_eq_self.mpr
  intro c hc
  simpa using h c hc

theorem erase_eq_leftAlone {cs : List String} (h : cs.Nodup) (id : String) : cs.erase id = leftAlone [id] cs := by
  rw [h.erase_eq_filter]
  apply List.filter_congr
  intro c _
  by_cases hc : c = id <;> simp [hc]

/-- The state of a tree after some placements, `t₀` being the tree before and `top` the component placed first. -/
structure Placing (t₀ : Tree) (top : String) (done : List Placement) (t : Tree) : Prop where
  keyed : t.Keyed
  /-- All placements but that of the top go below a component that has been placed. -/
  grounded : ∀ d ∈ done, (d.parent = none ∧ d.id = top) ∨ ∃ e ∈ done, d.parent = some e.id
  placed_component : ∀ d ∈ done, Assoc.get? d.id t.components = some d.component
  placed_children : ∀ d ∈ done, Assoc.get? d.id t.childIds = some d.declared
  placed_parent : ∀ d ∈ done, t.parent? d.id = d.parent.or (t₀.parent? d.id)
  /-- A stored component that has not been placed has its old entries, less the children that have moved. -/
  kept : ∀ k, k ∉ done.map Placement.id → t.contains k = true →
    Assoc.get? k t.components = Assoc.get? k t₀.components ∧
      Assoc.get? k t.childIds = (Assoc.get? k t₀.childIds).map (leftAlone (movedIds done)) ∧
      t.parent? k = t₀.parent? k
  /-- A component that is not stored has no entry anywhere. -/
  lost : ∀ k, ¬ t.contains k = true → Assoc.get? k t.childIds = none ∧ t.parent? k = none
  /-- What is gone lay below a component that has been placed. -/
  below : ∀ k, t₀.contains k = true → ¬ t.contains k = true → ∃ d ∈ done, t₀.Ancestor d.id k
  owner : ∀ q c, t.Owns q c → t.contains q = true ∧ t.contains c = true ∧ c ∈ t.children q
  /-- The lists of components that have not been placed hold no foreign children. -/
  unmoved : ∀ q c, q ∉ done.map Placement.id → c ∈ t.children q → t.Owns q c
  roots : t.rootIds = leftAlone (movedIds done) t₀.rootIds ++
    if done = [] ∨ t₀.contains top = true then [] else [top]

/-- What the next placement has to do with the ones before it. -/
structure Next (top : String) (done : List Placement) (p : Placement) : Prop where
  fresh : p.id ∉ done.map Placement.id
  origin : (p.parent = none ∧ p.id = top ∧ done = []) ∨
    (p.id ≠ top ∧ ∃ d ∈ done, p.parent = some d.id ∧ p.id ∈ d.declared)
  only : ∀ d ∈ done, p.id ∈ d.declared → p.parent = some d.id

theorem Next.ne (hn : Next top done p) {d : Placement} (hd : d ∈ done) : d.id ≠ p.id := fun he =>
  hn.fresh (he ▸ List.mem_map_of_mem hd)

/-- Before the first placement nothing has changed. -/
theorem Placing.start (h : t.Sound) (top : String) : t.Placing top [] t where
  keyed := h.keyed
  grounded := fun d hd => absurd hd List.not_mem_nil
  placed_component := fun d hd => absurd hd List.not_mem_nil
  placed_children := fun d hd => absurd hd List.not_mem_nil
  placed_parent := fun d hd => absurd hd List.not_mem_nil
  kept := by
    intro k _ _
    have hid : leftAlone (movedIds []) = id := funext leftAlone_nil
    rw [hid, Option.map_id]
    exact ⟨rfl, rfl, rfl⟩
  lost := by
    intro k hk
    refine ⟨Assoc.get?_eq_none_of_not_contains ?_, h.parent?_eq_none_of_not_stored hk⟩
    rw [← Bool.not_eq_true, h.listed_iff]
    exact hk
  below := fun k hk hk' => absurd hk hk'
  owner := fun q c ho => ⟨h.owner_stored_of_owns ho, h.stored_of_owns ho, h.owns_iff.mp ho⟩
  unmoved := fun q c _ hc => h.owns_iff.mpr hc
  roots := by
    rw [if_pos (Or.inl rfl), List.append_nil]
    exact (leftAlone_nil _).symm

namespace Placing

/-! ### Entries -/

theorem children_placed (h : Placing t₀ top done t) {d : Placement} (hd : d ∈ done) : t.children d.id = d.declared := by
  rw [children, h.placed_children d hd]
  rfl

theorem contains_placed (h : Placing t₀ top done t) {d : Placement} (hd : d ∈ done) : t.contains d.id = true :=
  Assoc.contains_of_get? (h.placed_component d hd)

theorem siblings_nodup (h : Placing t₀ top done t) (h₀ : t₀.Sound) {k : String} (hk : k ∉ done.map Placement.id)
    (hstored : t.contains k = true) : (t.children k).Nodup := by
  rw [children, (h.kept k hk hstored).2.1]
  have hold := h₀.siblings_nodup k
  rw [children] at hold
  cases hg : Assoc.get? k t₀.childIds with
  | none => exact List.nodup_nil
  | some cs =>
    rw [hg] at hold
    exact List.Nodup.filter _ hold

/-- Before the first placement everything has its old parent. -/
theorem parent?_of_nil (h : Placing t₀ top [] t) (h₀ : t₀.Sound) (k : String) : t.parent? k = t₀.parent? k := by
  by_cases hst : t.contains k = true
  · exact (h.kept k List.not_mem_nil hst).2.2
  · have hold : ¬ t₀.contains k = true := by
      intro hold
      obtain ⟨d, hd, _⟩ := h.below k hold hst
      exact absurd hd List.not_mem_nil
    rw [(h.lost k hst).2, h₀.parent?_eq_none_of_not_stored hold]

/-! ### What a placement drops -/

/-- A link up from a component that has not been placed is an old one. -/
theorem owns_old (h : Placing t₀ top done t) {q c : String} (hc : c ∉ done.map Placement.id) (ho : t.Owns q c) :
    t₀.Owns q c := by
  obtain ⟨_, hstored, _⟩ := h.owner q c ho
  exact ((h.kept c hc hstored).2.2).symm.trans ho

/-- A link up from a component that has been placed leads to another one, unless it is the old link of the top. -/
theorem owns_placed (h : Placing t₀ top done t) {q c : String} (hc : c ∈ done.map Placement.id) (ho : t.Owns q c) :
    q ∈ done.map Placement.id ∨ (c = top ∧ t₀.Owns q top) := by
  obtain ⟨d, hd, rfl⟩ := List.mem_map.mp hc
  have hpar : d.parent.or (t₀.parent? d.id) = some q := (h.placed_parent d hd).symm.trans ho
  rcases h.grounded d hd with ⟨hnone, htop⟩ | ⟨e, he, hsome⟩
  · rw [hnone, Option.none_or] at hpar
    exact Or.inr ⟨htop, htop ▸ hpar⟩
  · rw [hsome, Option.some_or] at hpar
    obtain rfl := Option.some.inj hpar
    exact Or.inl (List.mem_map_of_mem he)

/-- Below a component that has not been placed and does not enclose the top, nothing has been placed, and the way up
is the old one. -/
theorem encloses_old (h : Placing t₀ top done t) {r k : String} (hr : r ∉ done.map Placement.id)
    (htop : ¬ t₀.Encloses r top) (henc : t.Encloses r k) : k ∉ done.map Placement.id ∧ t₀.Encloses r k := by
  induction henc with
  | refl => exact ⟨hr, Encloses.refl r⟩
  | @tail z k _ ho ih =>
    obtain ⟨hz, henc₀⟩ := ih
    have hk : k ∉ done.map Placement.id := by
      intro hk
      rcases h.owns_placed hk ho with hzd | ⟨rfl, hold⟩
      · exact hz hzd
      · exact htop (Relation.ReflTransGen.tail henc₀ hold)
    exact ⟨hk, Relation.ReflTransGen.tail henc₀ (h.owns_old hk ho)⟩

/-- The children that a placement drops have not been placed themselves, and were children before. -/
theorem undeclared_old (h : Placing t₀ top done t) (hn : Next top done p) (hfree : ¬ t₀.Ancestor p.id top)
    {r : String} (ho : t.Owns p.id r) : r ∉ done.map Placement.id ∧ t₀.Owns p.id r := by
  have hr : r ∉ done.map Placement.id := by
    intro hr
    rcases h.owns_placed hr ho with hp | ⟨_, hold⟩
    · exact hn.fresh hp
    · exact hfree hold.ancestor
  exact ⟨hr, h.owns_old hr ho⟩

/-- **Nothing that a placement drops has been placed**; all of it lay below the component that is placed. -/
theorem not_placed_of_gone (h : Placing t₀ top done t) (hn : Next top done p) (hfree : ¬ t₀.Ancestor p.id top)
    (hcut : t.Cut (t.undeclared p.id p.declared (t.children p.id)) gone) {k : String} (hk : k ∈ gone) :
    k ∉ done.map Placement.id ∧ t₀.Ancestor p.id k := by
  obtain ⟨r, hr, henc⟩ := hcut.below k hk
  obtain ⟨_, _, ho⟩ := mem_undeclared.mp hr
  obtain ⟨hrd, hold⟩ := h.undeclared_old hn hfree ho
  have htop : ¬ t₀.Encloses r top := fun he => hfree (hold.ancestor_of_encloses he)
  obtain ⟨hkd, henc₀⟩ := h.encloses_old hrd htop henc
  exact ⟨hkd, hold.ancestor_of_encloses henc₀⟩

end Placing

end ComponentStream.Tree
