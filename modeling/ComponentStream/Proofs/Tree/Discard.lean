import Mathlib.Data.List.Basic
import ComponentStream.Proofs.Tree.Sound

/-!
# Discarding subtrees

Components are discarded by work list: each one taken from the list is forgotten, and the children it owns are put
in its place.  Whatever the shape of the links, a discard leaves out the entries of certain components and changes
nothing else.

* `Tree.without` — a tree without the entries of some components;
* `Tree.Cut` — what the components left out have to do with the ones that were to be discarded;
* `Tree.discardAll_eq_without`, `Tree.discard_eq_without`, `Tree.dropUndeclared_eq_without` — every discard is a cut.
-/

namespace ComponentStream.Tree

open Protocol (Component Node)

variable {t t' : Tree} {tops gone : List String}

/-! ### Leaving components out -/

/-- A tree without the entries of some components. -/
def without (gone : List String) (t : Tree) : Tree :=
  { t with
    components := Assoc.without gone t.components
    childIds := Assoc.without gone t.childIds
    parentIds := Assoc.without gone t.parentIds
    rootIds := t.rootIds.filter fun id => !gone.contains id }

theorem get?_components_without (gone : List String) (t : Tree) (id : String) :
    Assoc.get? id (t.without gone).components = if id ∈ gone then none else Assoc.get? id t.components :=
  Assoc.get?_without gone id t.components

theorem get?_childIds_without (gone : List String) (t : Tree) (id : String) :
    Assoc.get? id (t.without gone).childIds = if id ∈ gone then none else Assoc.get? id t.childIds :=
  Assoc.get?_without gone id t.childIds

theorem contains_without {id : String} :
    (t.without gone).contains id = true ↔ id ∉ gone ∧ t.contains id = true := by
  rw [contains, Assoc.contains, get?_components_without]
  by_cases h : id ∈ gone
  · simp [h]
  · simp [h, contains, Assoc.contains]

theorem children_without (gone : List String) (t : Tree) (id : String) :
    (t.without gone).children id = if id ∈ gone then [] else t.children id := by
  rw [children, get?_childIds_without]
  by_cases h : id ∈ gone
  · rw [if_pos h, if_pos h]
    rfl
  · rw [if_neg h, if_neg h]
    rfl

theorem parent?_without (gone : List String) (t : Tree) (id : String) :
    (t.without gone).parent? id = if id ∈ gone then none else t.parent? id :=
  Assoc.get?_without gone id t.parentIds

theorem owns_without {p c : String} : (t.without gone).Owns p c ↔ c ∉ gone ∧ t.Owns p c := by
  rw [Owns, parent?_without]
  by_cases h : c ∈ gone
  · simp [h]
  · simp [h, Owns]

theorem mem_rootIds_without {id : String} : id ∈ (t.without gone).rootIds ↔ id ∈ t.rootIds ∧ id ∉ gone := by
  simp [without]

theorem encloses_of_without {a d : String} (h : (t.without gone).Encloses a d) : t.Encloses a d :=
  h.mono fun _ _ ho => (owns_without.mp ho).2

theorem without_nil (t : Tree) : t.without [] = t := by
  rw [without, Assoc.without_nil, Assoc.without_nil, Assoc.without_nil]
  simp

theorem without_without (gone gone' : List String) (t : Tree) :
    (t.without gone).without gone' = t.without (gone ++ gone') := by
  simp only [without, Assoc.without_without, List.filter_filter, List.contains_eq_mem, List.mem_append]
  congr 1
  apply List.filter_congr
  intro id _
  by_cases h : id ∈ gone <;> by_cases h' : id ∈ gone' <;> simp [h, h']

theorem Keyed.without (h : t.Keyed) (gone : List String) : (t.without gone).Keyed where
  components := h.components.without gone
  childIds := h.childIds.without gone
  parentIds := h.parentIds.without gone
  rootIds := h.rootIds.filter _

theorem forget_eq_without (h : t.Keyed) (id : String) : t.forget id = t.without [id] := by
  rw [forget, Assoc.erase_eq_without h.components, Assoc.erase_eq_without h.childIds,
    Assoc.erase_eq_without h.parentIds, h.rootIds.erase_eq_filter, without]
  congr 1
  apply List.filter_congr
  intro k _
  by_cases hk : k = id <;> simp [hk]

/-! ### Cuts -/

/-- Components that are left out together: the tops among them, everything else below a top, and with a component
all stored children that it owns. -/
structure Cut (t : Tree) (tops gone : List String) : Prop where
  stored : ∀ id ∈ gone, t.contains id = true
  below : ∀ id ∈ gone, ∃ r ∈ tops, t.Encloses r id
  tops_gone : ∀ r ∈ tops, t.contains r = true → r ∈ gone
  closed : ∀ p ∈ gone, ∀ c ∈ t.owned p, t.contains c = true → c ∈ gone

theorem mem_owned {p c : String} : c ∈ t.owned p ↔ c ∈ t.children p ∧ t.Owns p c := by
  simp [owned, Owns]

theorem mem_owned_without {p c : String} (hp : p ∉ gone) (hc : c ∉ gone) (h : c ∈ t.owned p) :
    c ∈ (t.without gone).owned p := by
  obtain ⟨hmem, ho⟩ := mem_owned.mp h
  refine mem_owned.mpr ⟨?_, owns_without.mpr ⟨hc, ho⟩⟩
  rw [children_without, if_neg hp]
  exact hmem

/-- Cutting nothing off. -/
theorem Cut.nil (t : Tree) : t.Cut [] [] := by
  constructor <;> intro id h <;> exact absurd h List.not_mem_nil

/-- A cut after a cut is one cut. -/
theorem Cut.append {tops' gone' : List String} (h : t.Cut tops gone)
    {later : List String} (h' : (t.without gone).Cut later gone') (hsub : ∀ r ∈ later, r ∈ tops')
    (hall : ∀ r ∈ tops', t.contains r = true → r ∉ gone → r ∈ later) :
    t.Cut (tops ++ tops') (gone ++ gone') where
  stored := by
    intro id hid
    rcases List.mem_append.mp hid with hg | hg
    · exact h.stored id hg
    · exact (contains_without.mp (h'.stored id hg)).2
  below := by
    intro id hid
    rcases List.mem_append.mp hid with hg | hg
    · obtain ⟨r, hr, henc⟩ := h.below id hg
      exact ⟨r, List.mem_append_left _ hr, henc⟩
    · obtain ⟨r, hr, henc⟩ := h'.below id hg
      exact ⟨r, List.mem_append_right _ (hsub r hr), encloses_of_without henc⟩
  tops_gone := by
    intro r hr hstored
    by_cases hg : r ∈ gone
    · exact List.mem_append_left _ hg
    · rcases List.mem_append.mp hr with htop | htop
      · exact absurd (h.tops_gone r htop hstored) hg
      · exact List.mem_append_right _
          (h'.tops_gone r (hall r htop hstored hg) (contains_without.mpr ⟨hg, hstored⟩))
  closed := by
    intro p hp c hc hstored
    by_cases hg : c ∈ gone
    · exact List.mem_append_left _ hg
    · rcases List.mem_append.mp hp with hpg | hpg
      · exact List.mem_append_left _ (h.closed p hpg c hc hstored)
      · have hpn : p ∉ gone := (contains_without.mp (h'.stored p hpg)).1
        exact List.mem_append_right _
          (h'.closed p hpg c (mem_owned_without hpn hg hc) (contains_without.mpr ⟨hg, hstored⟩))

/-! ### The work list -/

theorem length_flatMap_erase (id : String) (m : Assoc (List String)) :
    ((Assoc.erase id m).flatMap Prod.snd).length + ((Assoc.get? id m).getD []).length
      = (m.flatMap Prod.snd).length := by
  induction m with
  | nil => rfl
  | cons e m ih =>
    obtain ⟨k, cs⟩ := e
    rw [List.flatMap_cons, List.length_append]
    by_cases h : k = id
    · simp [Assoc.erase, Assoc.get?, h]
      omega
    · simp only [Assoc.erase, Assoc.get?, h, if_false, List.flatMap_cons, List.length_append]
      omega

/-- Forgetting a component uses up the links to its children. -/
theorem linkCount_forget (t : Tree) (id : String) :
    (t.forget id).linkCount + (t.children id).length = t.linkCount :=
  length_flatMap_erase id t.childIds

/-- Forgetting a stored component and then cutting its children off is a cut at the component. -/
theorem Cut.forget {id : String} {pending : List String} (hid : t.contains id = true)
    (h : (t.without [id]).Cut (t.owned id ++ pending) gone) : t.Cut (id :: pending) (id :: gone) where
  stored := by
    intro k hk
    rcases List.mem_cons.mp hk with rfl | hg
    · exact hid
    · exact (contains_without.mp (h.stored k hg)).2
  below := by
    intro k hk
    rcases List.mem_cons.mp hk with rfl | hg
    · exact ⟨k, List.mem_cons_self, Encloses.refl k⟩
    · obtain ⟨r, hr, henc⟩ := h.below k hg
      have henc' : t.Encloses r k := encloses_of_without henc
      rcases List.mem_append.mp hr with ho | hp
      · have hir : t.Owns id r := (mem_owned.mp ho).2
        exact ⟨id, List.mem_cons_self, (hir.ancestor_of_encloses henc').encloses⟩
      · exact ⟨r, List.mem_cons_of_mem _ hp, henc'⟩
  tops_gone := by
    intro r hr hstored
    by_cases hri : r = id
    · exact hri ▸ List.mem_cons_self
    · have hmem : r ∈ pending := (List.mem_cons.mp hr).resolve_left hri
      have hst : (t.without [id]).contains r = true := contains_without.mpr ⟨by simpa using hri, hstored⟩
      exact List.mem_cons_of_mem _ (h.tops_gone r (List.mem_append_right _ hmem) hst)
  closed := by
    intro p hp c hc hstored
    by_cases hci : c = id
    · exact hci ▸ List.mem_cons_self
    · have hst : (t.without [id]).contains c = true := contains_without.mpr ⟨by simpa using hci, hstored⟩
      rcases List.mem_cons.mp hp with rfl | hpg
      · exact List.mem_cons_of_mem _ (h.tops_gone c (List.mem_append_left _ hc) hst)
      · have hpn : p ∉ [id] := (contains_without.mp (h.stored p hpg)).1
        exact List.mem_cons_of_mem _ (h.closed p hpg c (mem_owned_without hpn (by simpa using hci) hc) hst)

/-- A top that is not stored adds nothing to a cut. -/
theorem Cut.skip {id : String} {pending : List String} (hid : ¬ t.contains id = true) (h : t.Cut pending gone) :
    t.Cut (id :: pending) gone where
  stored := h.stored
  below := by
    intro k hk
    obtain ⟨r, hr, henc⟩ := h.below k hk
    exact ⟨r, List.mem_cons_of_mem _ hr, henc⟩
  tops_gone := by
    intro r hr hstored
    rcases List.mem_cons.mp hr with rfl | hmem
    · exact absurd hstored hid
    · exact h.tops_gone r hmem hstored
  closed := h.closed

/-- The work list leaves out a cut, if every link and every component in the list has its unit of budget. -/
theorem discardAll_eq_without (budget : Nat) :
    ∀ (t : Tree) (pending : List String), t.Keyed → t.linkCount + pending.length ≤ budget →
      ∃ gone, discardAll budget t pending = t.without gone ∧ t.Cut pending gone := by
  induction budget with
  | zero =>
    intro t pending _ hb
    have hnil : pending = [] := List.length_eq_zero_iff.mp (by omega)
    subst hnil
    exact ⟨[], (t.without_nil).symm, Cut.nil t⟩
  | succ budget ih =>
    intro t pending hk hb
    cases pending with
    | nil => exact ⟨[], (t.without_nil).symm, Cut.nil t⟩
    | cons id pending =>
      rw [List.length_cons] at hb
      by_cases hid : t.contains id = true
      · -- every child that comes into the list is paid for by its link
        have hlen : (t.owned id).length ≤ (t.children id).length := List.length_filter_le _ _
        have hcount := t.linkCount_forget id
        have hforget := forget_eq_without hk id
        obtain ⟨gone, heq, hcut⟩ := ih (t.forget id) (t.owned id ++ pending)
          (hforget ▸ hk.without [id]) (by rw [List.length_append]; omega)
        refine ⟨id :: gone, ?_, Cut.forget hid (hforget ▸ hcut)⟩
        rw [discardAll, if_pos hid, heq, hforget, without_without]
        rfl
      · obtain ⟨gone, heq, hcut⟩ := ih t pending hk (by omega)
        refine ⟨gone, ?_, hcut.skip hid⟩
        rw [discardAll, if_neg hid, heq]

/-- Discarding a component is a cut at it. -/
theorem discard_eq_without (h : t.Keyed) (id : String) :
    ∃ gone, t.discard id = t.without gone ∧ t.Cut [id] gone :=
  discardAll_eq_without (t.linkCount + 1) t [id] h le_rfl

/-! ### Undeclared children -/

/-- The children that a component owns and does not declare any more. -/
def undeclared (t : Tree) (id : String) (declared cs : List String) : List String :=
  cs.filter fun c => !declared.contains c && decide (t.parent? c = some id)

theorem mem_undeclared {id c : String} {declared cs : List String} :
    c ∈ t.undeclared id declared cs ↔ c ∈ cs ∧ c ∉ declared ∧ t.Owns id c := by
  simp [undeclared, Owns]

/-- Dropping the undeclared ones of some children, one after the other, is one cut at all of them. -/
theorem foldl_discard_eq_without (id : String) (declared cs : List String) :
    ∀ (t : Tree), t.Keyed → ∃ gone,
      cs.foldl (fun t child =>
        if !declared.contains child ∧ t.parent? child = some id then t.discard child else t) t = t.without gone ∧
      t.Cut (t.undeclared id declared cs) gone := by
  induction cs with
  | nil => exact fun t _ => ⟨[], (t.without_nil).symm, Cut.nil t⟩
  | cons c cs ih =>
    intro t hk
    by_cases hc : c ∉ declared ∧ t.Owns id c
    · obtain ⟨gone, heq, hcut⟩ := discard_eq_without hk c
      obtain ⟨gone', heq', hcut'⟩ := ih (t.without gone) (hk.without gone)
      refine ⟨gone ++ gone', ?_, ?_⟩
      · have hcond : (!declared.contains c) = true ∧ t.parent? c = some id := ⟨by simpa using hc.1, hc.2⟩
        rw [List.foldl_cons, if_pos hcond, heq, heq', without_without]
      · have hhead : t.undeclared id declared (c :: cs) = [c] ++ t.undeclared id declared cs := by
          have hcond : (!declared.contains c && decide (t.parent? c = some id)) = true := by
            simpa [Owns] using hc
          rw [undeclared, List.filter_cons, if_pos hcond]
          rfl
        rw [hhead]
        refine hcut.append hcut' ?_ ?_
        · intro r hr
          obtain ⟨hmem, hnd, ho⟩ := mem_undeclared.mp hr
          exact mem_undeclared.mpr ⟨hmem, hnd, (owns_without.mp ho).2⟩
        · intro r hr _ hng
          obtain ⟨hmem, hnd, ho⟩ := mem_undeclared.mp hr
          exact mem_undeclared.mpr ⟨hmem, hnd, owns_without.mpr ⟨hng, ho⟩⟩
    · obtain ⟨gone, heq, hcut⟩ := ih t hk
      refine ⟨gone, ?_, ?_⟩
      · have hcond : ¬ ((!declared.contains c) = true ∧ t.parent? c = some id) :=
          fun h => hc ⟨by simpa using h.1, h.2⟩
        rw [List.foldl_cons, if_neg hcond, heq]
      · have hhead : t.undeclared id declared (c :: cs) = t.undeclared id declared cs := by
          have hcond : ¬ (!declared.contains c && decide (t.parent? c = some id)) = true := by
            simpa [Owns] using hc
          rw [undeclared, List.filter_cons, if_neg hcond]
          rfl
        rw [hhead]
        exact hcut

/-- Dropping the undeclared children of a component is one cut at all of them. -/
theorem dropUndeclared_eq_without (h : t.Keyed) (id : String) (declared : List String) :
    ∃ gone, t.dropUndeclared id declared = t.without gone ∧
      t.Cut (t.undeclared id declared (t.children id)) gone :=
  foldl_discard_eq_without id declared (t.children id) t h

end ComponentStream.Tree
