import ComponentStream.Proofs.Protocol.Levels
import ComponentStream.Proofs.Tree.Entries
import ComponentStream.Proofs.Tree.Graft

/-!
# How deep components lie

A component lies as deep as its way up is long.  An insertion gives the components of the node new ways up, all of
which lead through its top; everybody else keeps theirs.  A bound on the depth of a tree is therefore kept by an
insertion that keeps it at its top.

* `Tree.Sound.wayUp_of_holds`, `Tree.Sound.exists_deepest` — below a component that heads a node of some height, the ways
  up are longer by less than the height, and one of them by just as much as that allows;
* `Tree.Sound.placementDepth_eq_ok_iff` — how deep a node would lie;
* `Tree.Insertable.wayUp_top`, `Tree.Insertable.wayUp_inside`, `Tree.Insertable.wayUp_outside` — ways after an insertion;
* `Tree.Shallow` — a bound on all ways up, with what keeps it;
* `Tree.Sound.height_le_of_shallow` — the same bound in the forest.
-/

namespace ComponentStream

open Protocol (Component Node)

namespace Protocol

mutual

theorem Node.height_closed : ∀ n : Node, n.closed.height = n.height
  | ⟨_, none⟩ => rfl
  | ⟨_, some ns⟩ => by
    rw [Node.closed, Node.height, Node.height, Node.heightAll_closedAll ns]

theorem Node.heightAll_closedAll : ∀ ns : List Node, Node.heightAll (Node.closedAll ns) = Node.heightAll ns
  | [] => rfl
  | n :: ns => by
    rw [Node.closedAll, Node.heightAll, Node.heightAll, Node.height_closed n, Node.heightAll_closedAll ns]

end

mutual

theorem Node.ids_closed : ∀ n : Node, n.closed.ids = n.ids
  | ⟨_, none⟩ => rfl
  | ⟨_, some ns⟩ => by
    rw [Node.closed, Node.ids_mk, Node.ids_mk, Node.idsAll_closedAll ns]

theorem Node.idsAll_closedAll : ∀ ns : List Node, Node.idsAll (Node.closedAll ns) = Node.idsAll ns
  | [] => rfl
  | n :: ns => by
    rw [Node.closedAll, Node.idsAll_cons, Node.idsAll_cons, Node.ids_closed n, Node.idsAll_closedAll ns]

end

end Protocol

namespace Tree

variable {t t' : Tree} {n : Node} {above : List String} {k : Nat}

/-! ### Ways up within a node -/

theorem HoldsAll.holds {ns : List Node} (h : t.HoldsAll ns) (hn : n ∈ ns) : t.Holds n := by
  induction ns with
  | nil => exact absurd hn List.not_mem_nil
  | cons m ns ih =>
    rcases List.mem_cons.mp hn with rfl | hmem
    · exact h.1
    · exact ih h.2 hmem

/-- The tops of the children that a node holds are owned by its own. -/
theorem Sound.owns_of_holds (h : t.Sound) {c : Component} {ns : List Node} (hh : t.Holds ⟨c, some ns⟩) :
    ∀ m ∈ ns, t.Owns c.id m.id := fun _ hm =>
  h.owns_iff.mpr (hh.2.1 ▸ List.mem_map_of_mem hm)

mutual

/-- Below a component the ways up are longer by less than the height of the node that it heads. -/
theorem Sound.wayUp_of_holds (h : t.Sound) : ∀ {m : Node} {above : List String}, t.Holds m → t.WayUp m.id above →
    ∀ id ∈ m.ids, ∃ way, t.WayUp id way ∧ way.length < above.length + m.height
  | ⟨c, some ns⟩, above, hh, hway, id, hid => by
    rw [Node.ids_mk] at hid
    rw [Node.height]
    rcases List.mem_cons.mp hid with rfl | hmem
    · exact ⟨above, hway, by omega⟩
    · obtain ⟨way, hw, hlen⟩ := Sound.wayUp_of_holdsAll h hh.2.2 (h.owns_of_holds hh) hway id hmem
      exact ⟨way, hw, by omega⟩

theorem Sound.wayUp_of_holdsAll (h : t.Sound) : ∀ {ms : List Node} {p : String} {above : List String}, t.HoldsAll ms →
    (∀ m ∈ ms, t.Owns p m.id) → t.WayUp p above →
      ∀ id ∈ Node.idsAll ms, ∃ way, t.WayUp id way ∧ way.length ≤ above.length + Node.heightAll ms
  | m :: ms, p, above, ⟨hm, hms⟩, howns, hway, id, hid => by
    rw [Node.idsAll_cons] at hid
    rw [Node.heightAll]
    rcases List.mem_append.mp hid with hmem | hmem
    · obtain ⟨way, hw, hlen⟩ :=
        Sound.wayUp_of_holds h hm (WayUp.step (howns m List.mem_cons_self) hway) id hmem
      rw [List.length_cons] at hlen
      exact ⟨way, hw, by omega⟩
    · obtain ⟨way, hw, hlen⟩ :=
        Sound.wayUp_of_holdsAll h hms (fun k hk => howns k (List.mem_cons_of_mem _ hk)) hway id hmem
      exact ⟨way, hw, by omega⟩

end

mutual

/-- One of the ways up is as long as the height allows. -/
theorem Sound.exists_deepest (h : t.Sound) : ∀ {m : Node} {above : List String}, t.Holds m → t.WayUp m.id above →
    ∃ id ∈ m.ids, ∃ way, t.WayUp id way ∧ way.length + 1 = above.length + m.height
  | ⟨c, some ns⟩, above, hh, hway => by
    rw [Node.ids_mk, Node.height]
    rcases Sound.exists_deepestAll h hh.2.2 (h.owns_of_holds hh) hway with hnone | ⟨id, hid, way, hw, hlen⟩
    · exact ⟨c.id, List.mem_cons_self, above, hway, by omega⟩
    · exact ⟨id, List.mem_cons_of_mem _ hid, way, hw, by omega⟩

theorem Sound.exists_deepestAll (h : t.Sound) : ∀ {ms : List Node} {p : String} {above : List String}, t.HoldsAll ms →
    (∀ m ∈ ms, t.Owns p m.id) → t.WayUp p above → Node.heightAll ms = 0 ∨
      ∃ id ∈ Node.idsAll ms, ∃ way, t.WayUp id way ∧ way.length = above.length + Node.heightAll ms
  | [], _, _, _, _, _ => Or.inl rfl
  | m :: ms, p, above, ⟨hm, hms⟩, howns, hway => by
    rw [Node.idsAll_cons, Node.heightAll]
    obtain ⟨id, hid, way, hw, hlen⟩ := Sound.exists_deepest h hm (WayUp.step (howns m List.mem_cons_self) hway)
    rw [List.length_cons] at hlen
    rcases Nat.le_total (Node.heightAll ms) m.height with hle | hle
    · exact Or.inr ⟨id, List.mem_append_left _ hid, way, hw, by omega⟩
    · rcases Sound.exists_deepestAll h hms (fun k hk => howns k (List.mem_cons_of_mem _ hk)) hway with
        hnone | ⟨id', hid', way', hw', hlen'⟩
      · exact Or.inr ⟨id, List.mem_append_left _ hid, way, hw, by omega⟩
      · exact Or.inr ⟨id', List.mem_append_right _ hid', way', hw', by omega⟩

end

/-- How deep a node would lie is told by the way up from its top and by its height. -/
theorem Sound.placementDepth_eq_ok_iff (h : t.Sound) {depth : Nat} :
    t.placementDepth n = .ok depth ↔ ∃ above, t.WayUp n.id above ∧ above.length + n.height = depth := by
  obtain ⟨found, heq, hway⟩ := h.exists_wayUp n.id
  rw [placementDepth, heq, Node.depth_eq_height, Except.ok.injEq]
  exact ⟨fun hd => ⟨found, hway, hd⟩, fun ⟨above, hother, hd⟩ => hway.unique hother ▸ hd⟩

/-! ### Ways up after an insertion -/

namespace Insertable

/-- A component outside the node keeps its way up. -/
theorem wayUp_outside (hi : t.Insertable n) (h : t.Sound) {id : String} (hid : id ∉ n.ids)
    (hst : (t.attach none n).contains id = true) (hway : t.WayUp id above) : (t.attach none n).WayUp id above := by
  have hparent : ∀ c, c ∉ n.ids ∧ (t.attach none n).contains c = true →
      (t.attach none n).parent? c = t.parent? c := fun c hc => (hi.kept h hc.1 hc.2).2.2
  refine hway.transfer hparent (fun p c hc ho => ?_) ⟨hid, hst⟩
  have hnew : (t.attach none n).Owns p c := (hparent c hc).trans ho
  exact ⟨(hi.owner_not_mem_ids h hc.1 hnew).1, (h.attach hi).owner_stored_of_owns hnew⟩

/-- So does the top of the node. -/
theorem wayUp_top (hi : t.Insertable n) (h : t.Sound) (hway : t.WayUp n.id above) :
    (t.attach none n).WayUp n.id above := by
  cases hway with
  | root hnone => exact WayUp.root ((hi.parent?_top h).trans hnone)
  | @step _ p _ ho hway =>
    have hnew : (t.attach none n).Owns p n.id := (hi.parent?_top h).trans ho
    have hp : p ∉ n.ids := fun hmem => hi.free p hmem ho.ancestor
    exact WayUp.step hnew (hi.wayUp_outside h hp ((h.attach hi).owner_stored_of_owns hnew) hway)

/-- The ways up of the components of the node lead through its top. -/
theorem wayUp_inside (hi : t.Insertable n) (h : t.Sound) (hway : t.WayUp n.id above) :
    ∀ id ∈ n.ids, ∃ way, (t.attach none n).WayUp id way ∧ way.length < above.length + n.height := by
  have htop : (t.attach none n).WayUp n.closed.id above := by
    rw [Node.id_closed]
    exact hi.wayUp_top h hway
  have hall := (h.attach hi).wayUp_of_holds (hi.holds_closed h) htop
  rwa [Node.ids_closed, Node.height_closed] at hall

end Insertable

/-! ### Bounds -/

/-- Every way up has fewer components than `k`. -/
def Shallow (t : Tree) (k : Nat) : Prop :=
  ∀ id, t.contains id = true → ∃ above, t.WayUp id above ∧ above.length < k

/-- A tree whose components were stored in another one under the same parents is as shallow. -/
theorem Shallow.of_kept (hs : t.Shallow k) (h' : t'.Sound)
    (hkept : ∀ id, t'.contains id = true → t.contains id = true ∧ t'.parent? id = t.parent? id) : t'.Shallow k := by
  intro id hid
  obtain ⟨above, hway, hlen⟩ := hs id (hkept id hid).1
  refine ⟨above, hway.transfer (fun c hc => (hkept c hc).2) (fun p c hc ho => ?_) hid, hlen⟩
  exact h'.owner_stored_of_owns ((hkept c hc).2.trans ho)

/-- **An insertion keeps a bound on the depth that it keeps at its top.** -/
theorem Shallow.attach (hs : t.Shallow k) (h : t.Sound) (hi : t.Insertable n) (hway : t.WayUp n.id above)
    (hk : above.length + n.height ≤ k) : (t.attach none n).Shallow k := by
  intro id hid
  by_cases hmem : id ∈ n.ids
  · obtain ⟨way, hw, hlen⟩ := hi.wayUp_inside h hway id hmem
    exact ⟨way, hw, by omega⟩
  · rcases (hi.contains_attach h id).mp hid with hin | ⟨hold, _⟩
    · exact absurd hin hmem
    · obtain ⟨way, hw, hlen⟩ := hs id hold
      exact ⟨way, hi.wayUp_outside h hmem hid hw, hlen⟩

/-- The nodes of the forest of a shallow tree are no higher than its bound. -/
theorem Sound.height_le_of_shallow (h : t.Sound) (hs : t.Shallow k) {forest : List Node} (hroots : t.roots = .ok forest) :
    ∀ m ∈ forest, m.height ≤ k := by
  intro m hm
  obtain ⟨hmap, hheld⟩ := h.roots_eq_ok_iff.mp hroots
  have hroot : m.id ∈ t.rootIds := hmap ▸ List.mem_map_of_mem hm
  have htop : t.WayUp m.id [] := WayUp.root ((h.root_iff m.id).mp hroot).2
  obtain ⟨id, hid, way, hw, hlen⟩ := h.exists_deepest (hheld.holds hm) htop
  obtain ⟨way', hw', hlen'⟩ := hs id ((hheld.holds hm).contains id hid)
  rw [hw'.unique hw, List.length_nil] at *
  omega

end Tree

end ComponentStream
