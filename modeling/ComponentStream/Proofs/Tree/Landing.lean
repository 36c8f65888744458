import ComponentStream.Proofs.Tree.Depth
import ComponentStream.Proofs.Tree.Rebuild

/-!
# Where an inserted node comes to lie

How deep a node will lie is told before it is inserted, from the way up as it is then and from the levels of the node.
The insertion may move components in from elsewhere and drop what they had below them.  What was told comes true all the
same, since the top of the node keeps its way up and nothing is left below the node but what it declares.

* `Tree.level`, `Tree.Sound.level_eq_ok_iff` — the level of a component, by its ancestors;
* `Tree.Deepest` — the greatest level among some components;
* `Tree.Sound.deepest_of_holds` — below a way up, it is the length of the way and the height of the node;
* `Tree.Insertable.materialize_top` — what is read back of an inserted node is the node;
* `Tree.placementDepth_exact` — the main result.
-/

namespace ComponentStream.Tree

open Protocol (Component Node)

variable {t t' : Tree} {n : Node} {above : List String}

/-! ### Levels -/

/-- The level of a component: one for itself and one for each of its ancestors. -/
def level (t : Tree) (id : String) : Except Error Nat := (t.ancestors id).map fun above => above.length + 1

theorem Sound.level_eq_ok_iff (h : t.Sound) {id : String} {k : Nat} :
    t.level id = .ok k ↔ ∃ above, t.WayUp id above ∧ above.length + 1 = k := by
  obtain ⟨found, heq, hway⟩ := h.exists_wayUp id
  have hlevel : t.level id = .ok (found.length + 1) := by rw [level, heq]; rfl
  rw [hlevel, Except.ok.injEq]
  exact ⟨fun hk => ⟨found, hway, hk⟩, fun ⟨above, hother, hk⟩ => hway.unique hother ▸ hk⟩

/-- All of some components have levels, and the greatest of these is `k`. -/
structure Deepest (t : Tree) (ids : List String) (k : Nat) : Prop where
  bound : ∀ id ∈ ids, ∃ l, t.level id = .ok l ∧ l ≤ k
  reached : ∃ id ∈ ids, t.level id = .ok k

/-- The deepest component of a node that is held lies as far down as the way up from the top and the height allow. -/
theorem Sound.deepest_of_holds (h : t.Sound) (hn : t.Holds n) (hway : t.WayUp n.id above) :
    t.Deepest n.ids (above.length + n.height) := by
  constructor
  · intro id hid
    obtain ⟨way, hw, hlen⟩ := h.wayUp_of_holds hn hway id hid
    exact ⟨way.length + 1, h.level_eq_ok_iff.mpr ⟨way, hw, rfl⟩, hlen⟩
  · obtain ⟨id, hid, way, hw, hlen⟩ := h.exists_deepest hn hway
    exact ⟨id, hid, h.level_eq_ok_iff.mpr ⟨way, hw, hlen⟩⟩

/-! ### After the insertion -/

namespace Insertable

/-- What is read back is the node, each of its lists of children being there. -/
theorem materialize_top (hi : t.Insertable n) (h : t.Sound) :
    (t.attach none n).materialize n.id = .ok (some n.closed) := by
  have hstored : (t.attach none n).contains n.id = true := (hi.contains_attach h n.id).mpr (Or.inl n.id_mem_ids)
  obtain ⟨m, hm, hid, hheld⟩ := (h.attach hi).materialize_eq_ok hstored
  obtain rfl : m = n.closed := hheld.unique (hi.holds_closed h) (hid.trans n.id_closed.symm)
  exact hm

/-- What is stored outside the node was stored before, with the same ancestors. -/
theorem ancestors_outside (hi : t.Insertable n) (h : t.Sound) {id : String} (hid : id ∉ n.ids)
    (hst : (t.attach none n).contains id = true) :
    t.contains id = true ∧ (t.attach none n).ancestors id = t.ancestors id := by
  obtain ⟨way, heq, hway⟩ := h.exists_wayUp id
  have hnew : (t.attach none n).ancestors id = .ok way :=
    (h.attach hi).ancestors_eq_ok_iff.mpr (hi.wayUp_outside h hid hst hway)
  exact ⟨(((hi.contains_attach h id).mp hst).resolve_left hid).1, hnew.trans heq.symm⟩

end Insertable

/-- **How deep a node comes to lie is told before it is inserted, and exactly.**  When an insertion into a tree that came
about by edits succeeds, the placement depth of the node in the tree before is the greatest level among the components
that are read back with its top afterwards, which are those below it.  Everything else that is stored afterwards was
stored before and has the ancestors that it had, so that nothing has come to lie deeper. -/
theorem placementDepth_exact (h : t.Reachable) (hins : t.insert n = .ok t') :
    ∃ depth m, t.placementDepth n = .ok depth ∧ t'.materialize n.id = .ok (some m) ∧
      (∀ id, id ∈ m.ids ↔ t'.Encloses n.id id) ∧ t'.Deepest m.ids depth ∧
      ∀ id, t'.contains id = true → id ∉ m.ids → t.contains id = true ∧ t'.ancestors id = t.ancestors id := by
  have hs : t.Sound := h.sound
  obtain ⟨hi, rfl⟩ := (insert_eq_ok_iff hs).mp hins
  have hheld := hi.holds_closed hs
  have hbelow : ∀ id, id ∈ n.closed.ids ↔ (t.attach none n).Encloses n.id id := fun id => by
    rw [(hs.attach hi).mem_ids_iff hheld, Node.id_closed]
  obtain ⟨above, _, hway⟩ := hs.exists_wayUp n.id
  have htop : (t.attach none n).WayUp n.closed.id above := by
    rw [Node.id_closed]
    exact hi.wayUp_top hs hway
  have hdeepest := (hs.attach hi).deepest_of_holds hheld htop
  rw [Node.height_closed] at hdeepest
  refine ⟨above.length + n.height, n.closed, hs.placementDepth_eq_ok_iff.mpr ⟨above, hway, rfl⟩, hi.materialize_top hs,
    hbelow, hdeepest, ?_⟩
  intro id hst hid
  rw [Node.ids_closed] at hid
  exact hi.ancestors_outside hs hid hst

/-- A page with a list, whose item has a text below it, and with an empty note. -/
def pageWithText : Tree :=
  Tree.empty.attach none (.bare "page" [.bare "list" [.bare "item" [.bare "text" []]], .bare "note" []])

theorem pageWithText_reachable : pageWithText.Reachable :=
  Reachable.empty.edited (Edited.inserted
    (.bare "page" [.bare "list" [.bare "item" [.bare "text" []]], .bare "note" []]) rfl)

/-- A note that takes the item over lies three levels deep with it, although the text below the item lay four levels deep:
the text is gone. -/
theorem placementDepth_exact_of_item_taken_over :
    pageWithText.Reachable ∧ pageWithText.level "text" = .ok 4 ∧
      ∃ t', pageWithText.insert (.bare "note" [.bare "item" []]) = .ok t' ∧
        pageWithText.placementDepth (.bare "note" [.bare "item" []]) = .ok 3 ∧ t'.Deepest ["note", "item"] 3 ∧
          t'.ancestors "list" = .ok ["page"] := by
  refine ⟨pageWithText_reachable, rfl, _, rfl, rfl, ?_⟩
  obtain ⟨depth, m, hdepth, hm, _, hdeepest, hrest⟩ :=
    placementDepth_exact (n := .bare "note" [.bare "item" []]) pageWithText_reachable rfl
  obtain rfl : 3 = depth := Except.ok.inj (Eq.trans rfl hdepth)
  obtain rfl : .bare "note" [.bare "item" []] = m := Option.some.inj (Except.ok.inj (Eq.trans rfl hm))
  exact ⟨hdeepest, (hrest "list" rfl (by decide)).2.trans rfl⟩

end ComponentStream.Tree
