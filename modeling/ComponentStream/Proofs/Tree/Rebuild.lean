import Mathlib.Logic.Relation
import ComponentStream.Proofs.Tree.Depth

/-!
# Taking a tree apart and putting it together again

A component that is read back comes with everything that is stored below it, each component once and as it is stored.
Read back from all its roots, a tree has lost nothing: when these nodes are inserted one after the other into the empty
tree, the same index comes about, the same links and the same roots.

* `Tree.Encloses.comparable` — of two components above a third one, one lies above the other;
* `Tree.Sound.mem_ids_iff`, `Tree.Sound.ids_nodup` — which components a node that is held has, each of them once;
* `Tree.ReadsBack`, `Tree.Sound.readsBack_of_holds` — a component with everything below it, as it is stored;
* `Protocol.Node.graft_of_disjoint` — a graft that has nothing to prune and nothing to replace;
* `Tree.Reachable.exists_insertAll` — a forest without repetitions comes in node by node;
* `Tree.SameIndex`, `Tree.Sound.sameIndex_of_roots_eq` — the forest of a sound tree determines its index;
* `Tree.read_back_loses_nothing` — the main result.
-/

namespace ComponentStream

open Protocol (Component Node)

/-! ### Forests without repetitions -/

namespace Protocol

theorem Node.idsAll_append (ns ms : List Node) : Node.idsAll (ns ++ ms) = Node.idsAll ns ++ Node.idsAll ms := by
  simp only [Node.idsAll, Node.preorderAll_eq_flatMap, List.flatMap_append, List.map_append]

mutual

/-- Pruning what a node does not have changes nothing. -/
theorem Node.prune_eq_self {gone : List String} : ∀ {n : Node}, (∀ k ∈ gone, k ∉ n.ids) → n.prune gone = n
  | ⟨c, none⟩, _ => rfl
  | ⟨c, some ns⟩, h => by
    rw [Node.prune, Node.pruneAll_eq_self fun k hk hmem => h k hk (by
      rw [Node.ids_mk]
      exact List.mem_cons_of_mem _ hmem)]

theorem Node.pruneAll_eq_self {gone : List String} : ∀ {ns : List Node}, (∀ k ∈ gone, k ∉ Node.idsAll ns) →
    Node.pruneAll gone ns = ns
  | [], _ => rfl
  | n :: ns, h => by
    have hn : ∀ k ∈ gone, k ∉ n.ids ∧ k ∉ Node.idsAll ns := by
      intro k hk
      have hnot := h k hk
      rwa [Node.idsAll_cons, List.mem_append, not_or] at hnot
    have htop : ¬ gone.contains n.id = true := fun hgone =>
      (hn n.id (by simpa using hgone)).1 n.id_mem_ids
    rw [Node.pruneAll, if_neg htop, Node.prune_eq_self fun k hk => (hn k hk).1,
      Node.pruneAll_eq_self fun k hk => (hn k hk).2]

end

/-- A node that shares no component with a forest comes last, and the forest stays as it is. -/
theorem Node.graft_of_disjoint {n : Node} {forest : List Node} (h : ∀ k ∈ n.ids, k ∉ Node.idsAll forest) :
    n.graft forest = forest ++ [n.closed] := by
  have hbelow : ∀ k ∈ n.idsBelow, k ∉ Node.idsAll forest := by
    intro k hk
    refine h k ?_
    rw [Node.ids_eq_cons]
    exact List.mem_cons_of_mem _ hk
  rw [Node.graft, if_neg (h n.id n.id_mem_ids), Node.pruneAll_eq_self hbelow]

end Protocol

namespace Tree

variable {t u : Tree} {n : Node}

/-! ### What a node that is held has -/

mutual

/-- Every node within a node that is held is held. -/
theorem Holds.of_mem_preorder : ∀ {n : Node}, t.Holds n → ∀ m ∈ n.preorder, t.Holds m
  | ⟨c, some ns⟩, hh, m, hm => by
    rw [Node.preorder] at hm
    rcases List.mem_cons.mp hm with rfl | hmem
    · exact hh
    · exact HoldsAll.of_mem_preorderAll hh.2.2 m hmem

theorem HoldsAll.of_mem_preorderAll : ∀ {ns : List Node}, t.HoldsAll ns → ∀ m ∈ Node.preorderAll ns, t.Holds m
  | n :: ns, ⟨hn, hns⟩, m, hm => by
    rw [Node.preorderAll] at hm
    rcases List.mem_append.mp hm with hmem | hmem
    · exact Holds.of_mem_preorder hn m hmem
    · exact HoldsAll.of_mem_preorderAll hns m hmem

end

mutual

/-- A node that is held has all its lists of children. -/
theorem Holds.closed_eq : ∀ {n : Node}, t.Holds n → n.closed = n
  | ⟨c, some ns⟩, ⟨_, _, hns⟩ => by
    rw [Node.closed, HoldsAll.closedAll_eq hns]

theorem HoldsAll.closedAll_eq : ∀ {ns : List Node}, t.HoldsAll ns → Node.closedAll ns = ns
  | [], _ => rfl
  | n :: ns, ⟨hn, hns⟩ => by
    rw [Node.closedAll, Holds.closed_eq hn, HoldsAll.closedAll_eq hns]

end

theorem Holds.children_eq (h : t.Holds n) :
    Assoc.get? n.id t.components = some n.component ∧
      ∃ ns, n.children = some ns ∧ t.children n.id = ns.map Node.id := by
  obtain ⟨c, children⟩ := n
  cases children with
  | none => exact absurd h id
  | some ns => exact ⟨h.1, ns, rfl, h.2.1⟩

/-- Of two components above a third one, one lies above the other. -/
theorem Encloses.comparable {a b d : String} (ha : t.Encloses a d) (hb : t.Encloses b d) :
    t.Encloses a b ∨ t.Encloses b a := by
  have hunique : Relator.RightUnique (Function.swap t.Owns) := fun d p q hp hq =>
    Option.some.inj (Eq.trans (Eq.symm hp) hq)
  have htotal := Relation.ReflTransGen.total_of_right_unique hunique
    (Relation.reflTransGen_swap.mpr ha) (Relation.reflTransGen_swap.mpr hb)
  exact htotal.symm.imp Relation.reflTransGen_swap.mp Relation.reflTransGen_swap.mp

namespace Sound

mutual

/-- The components of a node that is held lie below its top. -/
theorem encloses_of_mem_ids (h : t.Sound) : ∀ {n : Node}, t.Holds n → ∀ k ∈ n.ids, t.Encloses n.id k
  | ⟨c, some ns⟩, hh, k, hk => by
    rw [Node.ids_mk] at hk
    rcases List.mem_cons.mp hk with rfl | hmem
    · exact Encloses.refl c.id
    · obtain ⟨m, hm, henc⟩ := encloses_of_mem_idsAll h hh.2.2 k hmem
      exact ((h.owns_of_holds hh m hm).ancestor_of_encloses henc).encloses

theorem encloses_of_mem_idsAll (h : t.Sound) : ∀ {ns : List Node}, t.HoldsAll ns → ∀ k ∈ Node.idsAll ns,
    ∃ m ∈ ns, t.Encloses m.id k
  | n :: ns, ⟨hn, hns⟩, k, hk => by
    rw [Node.idsAll_cons] at hk
    rcases List.mem_append.mp hk with hmem | hmem
    · exact ⟨n, List.mem_cons_self, encloses_of_mem_ids h hn k hmem⟩
    · obtain ⟨m, hm, henc⟩ := encloses_of_mem_idsAll h hns k hmem
      exact ⟨m, List.mem_cons_of_mem _ hm, henc⟩

end

/-- **A node that is held has exactly the components at and below its top.** -/
theorem mem_ids_iff (h : t.Sound) (hn : t.Holds n) {k : String} : k ∈ n.ids ↔ t.Encloses n.id k := by
  refine ⟨h.encloses_of_mem_ids hn k, fun henc => ?_⟩
  induction henc with
  | refl => exact n.id_mem_ids
  | @tail p c _ ho ih => exact hn.mem_ids_of_mem_children p ih c (h.owns_iff.mp ho)

/-- Two children of one component do not lie below each other. -/
theorem eq_of_encloses_sibling (h : t.Sound) {p a b : String} (ha : t.Owns p a) (hb : t.Owns p b)
    (henc : t.Encloses a b) : a = b := by
  rcases henc.cases_parent with heq | ⟨q, hq, haq⟩
  · exact heq
  · obtain rfl := Option.some.inj (Eq.trans (Eq.symm hb) hq)
    exact absurd (ha.ancestor_of_encloses haq) (h.acyclic p)

mutual

/-- A node that is held has no component twice. -/
theorem ids_nodup (h : t.Sound) : ∀ {n : Node}, t.Holds n → n.ids.Nodup
  | ⟨c, some ns⟩, hh => by
    have howns := h.owns_of_holds hh
    rw [Node.ids_mk, List.nodup_cons]
    constructor
    · intro hmem
      obtain ⟨m, hm, henc⟩ := h.encloses_of_mem_idsAll hh.2.2 c.id hmem
      exact h.acyclic c.id ((howns m hm).ancestor_of_encloses henc)
    · refine idsAll_nodup h hh.2.2 (hh.2.1 ▸ h.siblings_nodup c.id) fun n hn m hm henc => ?_
      exact h.eq_of_encloses_sibling (howns n hn) (howns m hm) henc

/-- Nor have several nodes, when no top lies below another one. -/
theorem idsAll_nodup (h : t.Sound) : ∀ {ns : List Node}, t.HoldsAll ns → (ns.map Node.id).Nodup →
    (∀ n ∈ ns, ∀ m ∈ ns, t.Encloses n.id m.id → n.id = m.id) → (Node.idsAll ns).Nodup
  | [], _, _, _ => List.nodup_nil
  | n :: ns, ⟨hn, hns⟩, hnd, htops => by
    obtain ⟨hnew, hnd⟩ := List.nodup_cons.mp hnd
    have hrest := idsAll_nodup h hns hnd fun k hk m hm =>
      htops k (List.mem_cons_of_mem _ hk) m (List.mem_cons_of_mem _ hm)
    rw [Node.idsAll_cons]
    refine (ids_nodup h hn).append hrest fun k hk hk' => ?_
    obtain ⟨m, hm, henc⟩ := h.encloses_of_mem_idsAll hns k hk'
    have hmem := List.mem_cons_of_mem n hm
    -- a component of both would put one of the two tops below the other one
    have heq : n.id = m.id := by
      rcases ((h.mem_ids_iff hn).mp hk).comparable henc with hnm | hmn
      · exact htops n List.mem_cons_self m hmem hnm
      · exact (htops m hmem n List.mem_cons_self hmn).symm
    exact hnew (heq ▸ List.mem_map_of_mem hm)

end

/-- The forest of a sound tree has no component twice. -/
theorem idsAll_roots_nodup (h : t.Sound) {forest : List Node} (hroots : t.roots = .ok forest) :
    (Node.idsAll forest).Nodup := by
  obtain ⟨hmap, hheld⟩ := h.roots_eq_ok_iff.mp hroots
  refine h.idsAll_nodup hheld (hmap ▸ h.keyed.rootIds) fun n _ m hm henc => ?_
  exact h.eq_of_encloses_root (hmap ▸ List.mem_map_of_mem hm) henc

end Sound

/-! ### Reading one component back -/

/-- A node is a stored component with everything below it: its walk visits the component and its stored descendants,
each of them once, and every node on it has the data that are stored and its children in the order of their list. -/
structure ReadsBack (t : Tree) (id : String) (n : Node) : Prop where
  id_eq : n.id = id
  visited_iff : ∀ k, k ∈ n.walk.map Node.id ↔ t.contains k = true ∧ t.Encloses id k
  visited_once : (n.walk.map Node.id).Nodup
  stored : ∀ m ∈ n.walk, Assoc.get? m.id t.components = some m.component
  ordered : ∀ m ∈ n.walk, ∃ ms, m.children = some ms ∧ Assoc.get? m.id t.childIds = some (ms.map Node.id)

namespace Sound

/-- The list of children of a stored component. -/
theorem get?_childIds (h : t.Sound) {id : String} (hid : t.contains id = true) :
    Assoc.get? id t.childIds = some (t.children id) := by
  obtain ⟨cs, hcs⟩ := Assoc.exists_get?_of_contains ((h.listed_iff id).mpr hid)
  rw [children, hcs]
  rfl

/-- **What is held is read back.** -/
theorem readsBack_of_holds (h : t.Sound) (hn : t.Holds n) : t.ReadsBack n.id n := by
  have hwalk : n.walk.map Node.id = n.ids := by
    rw [Node.walk_eq_preorder]
    rfl
  have hwithin : ∀ m ∈ n.walk, t.Holds m := by
    rw [Node.walk_eq_preorder]
    exact hn.of_mem_preorder
  refine ⟨rfl, ?_, hwalk ▸ h.ids_nodup hn, fun m hm => (hwithin m hm).children_eq.1, fun m hm => ?_⟩
  · intro k
    rw [hwalk, ← h.mem_ids_iff hn]
    exact ⟨fun hk => ⟨hn.contains k hk, hk⟩, And.right⟩
  · obtain ⟨hc, ms, hms, hcs⟩ := (hwithin m hm).children_eq
    exact ⟨ms, hms, by rw [h.get?_childIds (Assoc.contains_of_get? hc), hcs]⟩

end Sound

/-! ### Putting the forest together again -/

/-- Inserts several nodes one after the other. -/
def insertAll (t : Tree) (ns : List Node) : Except Error Tree := ns.foldlM insert t

/-- **A forest without repetitions comes in node by node**, behind what is there. -/
theorem Reachable.exists_insertAll {rest : List Node} : ∀ {t : Tree} {forest : List Node}, t.Reachable →
    t.roots = .ok forest → (Node.idsAll (forest ++ rest)).Nodup → Node.closedAll rest = rest →
      ∃ u, t.insertAll rest = .ok u ∧ u.Reachable ∧ u.roots = .ok (forest ++ rest) := by
  induction rest with
  | nil =>
    intro t forest h hroots _ _
    exact ⟨t, rfl, h, by rw [List.append_nil, hroots]⟩
  | cons n rest ih =>
    intro t forest h hroots hnd hclosed
    rw [Node.closedAll, List.cons.injEq] at hclosed
    have hsplit : forest ++ n :: rest = forest ++ [n] ++ rest := by simp
    have hparts := hnd
    rw [Node.idsAll_append, Node.idsAll_cons, List.nodup_append'] at hparts
    have hn : n.ids.Nodup := (List.nodup_append'.mp hparts.2.1).1
    have hnew : ∀ k ∈ n.ids, k ∉ Node.idsAll forest := fun k hk hmem =>
      hparts.2.2 hmem (List.mem_append_left _ hk)
    -- nothing of the node is stored yet, so that nothing lies above its top
    have hfree : ∀ a ∈ n.ids, ¬ t.Ancestor a n.id := by
      intro a _ hanc
      obtain ⟨p, hp, _⟩ := hanc.cases_parent
      exact hnew n.id n.id_mem_ids ((h.sound.mem_idsAll_roots hroots).mpr (h.sound.stored_of_owns hp))
    obtain ⟨_, hroots', hok, hafter⟩ := insert_refines_graft h n
    obtain rfl := Except.ok.inj (hroots'.symm.trans hroots)
    obtain ⟨t', hins⟩ := hok.mpr ⟨hn, hfree⟩
    have hforest := (hafter t' hins).1
    rw [Node.graft_of_disjoint hnew, hclosed.1] at hforest
    rw [hsplit] at hnd ⊢
    obtain ⟨u, hu, hreach, hall⟩ := ih (h.edited (Edited.inserted n hins)) hforest hnd hclosed.2
    refine ⟨u, ?_, hreach, hall⟩
    rw [insertAll, List.foldlM_cons, hins]
    exact hu

/-- The same entries, whatever their order, and the same roots in the same order. -/
structure SameIndex (t u : Tree) : Prop where
  components : t.components.Perm u.components
  rootIds : t.rootIds = u.rootIds
  childIds : t.childIds.Perm u.childIds
  parentIds : t.parentIds.Perm u.parentIds

namespace Sound

theorem entries_of_mem_roots (h : t.Sound) {forest : List Node} (hroots : t.roots = .ok forest) {m : Node}
    (hm : m ∈ Node.preorderAll forest) :
    Assoc.get? m.id t.components = some m.component ∧
      Assoc.get? m.id t.childIds = some (m.childList.map Node.id) := by
  obtain ⟨_, hheld⟩ := h.roots_eq_ok_iff.mp hroots
  obtain ⟨hc, ms, hms, hcs⟩ := (hheld.of_mem_preorderAll m hm).children_eq
  refine ⟨hc, ?_⟩
  rw [h.get?_childIds (Assoc.contains_of_get? hc), hcs, Node.childList, hms]
  rfl

theorem entries_of_not_stored (h : t.Sound) {k : String} (hk : t.contains k = false) :
    Assoc.get? k t.components = none ∧ Assoc.get? k t.childIds = none := by
  have hlisted : Assoc.contains k t.childIds = false := by
    rw [← Bool.not_eq_true, h.listed_iff, hk]
    simp
  exact ⟨Assoc.get?_eq_none_of_not_contains hk, Assoc.get?_eq_none_of_not_contains hlisted⟩

/-- What the index says of a component can be told from the forest. -/
theorem entries_eq_of_roots_eq (h : t.Sound) (h' : u.Sound) {forest : List Node} (hroots : t.roots = .ok forest)
    (hroots' : u.roots = .ok forest) (k : String) :
    Assoc.get? k t.components = Assoc.get? k u.components ∧ Assoc.get? k t.childIds = Assoc.get? k u.childIds := by
  by_cases hk : k ∈ Node.idsAll forest
  · obtain ⟨m, hm, rfl⟩ := List.mem_map.mp hk
    obtain ⟨hc, hcs⟩ := h.entries_of_mem_roots hroots hm
    obtain ⟨hc', hcs'⟩ := h'.entries_of_mem_roots hroots' hm
    exact ⟨hc.trans hc'.symm, hcs.trans hcs'.symm⟩
  · have hnot : ∀ {v : Tree}, v.Sound → v.roots = .ok forest → v.contains k = false := fun hv hv' => by
      rw [← Bool.not_eq_true, ← hv.mem_idsAll_roots hv']
      exact hk
    obtain ⟨hc, hcs⟩ := h.entries_of_not_stored (hnot h hroots)
    obtain ⟨hc', hcs'⟩ := h'.entries_of_not_stored (hnot h' hroots')
    exact ⟨hc.trans hc'.symm, hcs.trans hcs'.symm⟩

/-- **The forest of a sound tree determines its index.** -/
theorem sameIndex_of_roots_eq (h : t.Sound) (h' : u.Sound) {forest : List Node} (hroots : t.roots = .ok forest)
    (hroots' : u.roots = .ok forest) : t.SameIndex u := by
  have hentry := h.entries_eq_of_roots_eq h' hroots hroots'
  have howns : ∀ p k, t.Owns p k ↔ u.Owns p k := by
    intro p k
    have hchildren : t.children p = u.children p := by rw [children, children, (hentry p).2]
    rw [h.owns_iff, h'.owns_iff, hchildren]
  have hparent : ∀ k, Assoc.get? k t.parentIds = Assoc.get? k u.parentIds := fun k =>
    Option.ext fun p => howns p k
  exact {
    components := Assoc.perm_of_get?_eq h.keyed.components h'.keyed.components fun k => (hentry k).1
    rootIds := (h.roots_eq_ok_iff.mp hroots).1.symm.trans (h'.roots_eq_ok_iff.mp hroots').1
    childIds := Assoc.perm_of_get?_eq h.keyed.childIds h'.keyed.childIds fun k => (hentry k).2
    parentIds := Assoc.perm_of_get?_eq h.keyed.parentIds h'.keyed.parentIds hparent }

end Sound

/-- **Reading back loses nothing.**  In a tree that came about by edits, a component can always be read back; there is
nothing to read exactly when it is not stored, and otherwise it comes with everything below it.  All roots can be read
back, and inserted one after the other into the empty tree they make up the same index. -/
theorem read_back_loses_nothing (h : t.Reachable) :
    (∀ id, ∃ found, t.materialize id = .ok found ∧ (found = none ↔ t.contains id = false) ∧
        ∀ n, found = some n → t.ReadsBack id n) ∧
      ∃ forest u, t.roots = .ok forest ∧ Tree.empty.insertAll forest = .ok u ∧ t.SameIndex u := by
  have hs : t.Sound := h.sound
  constructor
  · intro id
    by_cases hid : t.contains id = true
    · obtain ⟨n, hn, rfl, hheld⟩ := hs.materialize_eq_ok hid
      refine ⟨some n, hn, by simp [hid], ?_⟩
      rintro m ⟨⟩
      exact hs.readsBack_of_holds hheld
    · exact ⟨none, by rw [materialize, if_neg hid], by simp [hid], by simp⟩
  · obtain ⟨forest, hroots, _, hheld⟩ := hs.exists_roots_eq_ok
    have hnone : Tree.empty.roots = .ok [] := rfl
    have hnd : (Node.idsAll ([] ++ forest)).Nodup := hs.idsAll_roots_nodup hroots
    obtain ⟨u, hu, hreach, hall⟩ := Reachable.empty.exists_insertAll hnone hnd hheld.closedAll_eq
    exact ⟨forest, u, hroots, hu, hs.sameIndex_of_roots_eq hreach.sound hroots hall⟩

/-- A page whose note has taken the item over from the list. -/
def pageOfNotes : Tree :=
  (Tree.empty.attach none (.bare "page" [.bare "list" [.bare "item" []], .bare "note" []])).attach none
    (.bare "note" [.bare "item" []])

theorem pageOfNotes_reachable : pageOfNotes.Reachable :=
  (Reachable.empty.edited
    (Edited.inserted (.bare "page" [.bare "list" [.bare "item" []], .bare "note" []]) rfl)).edited
    (Edited.inserted (.bare "note" [.bare "item" []]) rfl)

/-- The note is read back with the item that it has taken over, and the page makes up the same index again. -/
theorem read_back_loses_nothing_of_moved_item :
    pageOfNotes.Reachable ∧
      (∃ n, pageOfNotes.materialize "note" = .ok (some n) ∧ pageOfNotes.ReadsBack "note" n ∧
        n.walk.map Node.id = ["note", "item"]) ∧
      ∃ u, Tree.empty.insertAll [.bare "page" [.bare "list" [], .bare "note" [.bare "item" []]]] = .ok u ∧
        pageOfNotes.SameIndex u := by
  obtain ⟨hread, forest, u, hroots, hu, hsame⟩ := read_back_loses_nothing pageOfNotes_reachable
  obtain rfl : [.bare "page" [.bare "list" [], .bare "note" [.bare "item" []]]] = forest :=
    Except.ok.inj (Eq.trans rfl hroots)
  obtain ⟨found, hfound, _, hall⟩ := hread "note"
  obtain rfl : some (.bare "note" [.bare "item" []]) = found := Except.ok.inj (Eq.trans rfl hfound)
  exact ⟨pageOfNotes_reachable, ⟨_, hfound, hall _ rfl, rfl⟩, u, hu, hsame⟩

end Tree

end ComponentStream
