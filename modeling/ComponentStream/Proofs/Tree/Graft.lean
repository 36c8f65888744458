import ComponentStream.Proofs.Stream.Run
import ComponentStream.Proofs.Tree.Forest

/-!
# An insertion is a graft

On the flat index an insertion moves, drops and re-creates components one after the other.  On the forest it does two
things: every component that the node declares below its top is pruned with all that lies below it, and the
node takes the place of its top, or comes last if its top is new.

* `Protocol.Node.closed` — a node with absent lists of children read as empty ones;
* `Protocol.Node.pruneAll`, `Protocol.Node.replaceAll`, `Protocol.Node.graft` — the two things, on nested nodes;
* `Tree.Insertable.holds_closed` — afterwards the index holds the node;
* `Tree.Insertable.holdsAll_update` — and what was above or beside it, pruned;
* `Tree.roots_attach` — the forest afterwards is the graft.
-/

namespace ComponentStream

open Protocol (Component Node)

/-! ### Forests -/

namespace Protocol

mutual

/-- A node whose lists of children are all there, an absent one being read as empty. -/
def Node.closed : Node → Node
  | ⟨c, none⟩ => ⟨c, some []⟩
  | ⟨c, some ns⟩ => ⟨c, some (closedAll ns)⟩

/-- Several nodes whose lists of children are all there. -/
def Node.closedAll : List Node → List Node
  | [] => []
  | n :: ns => n.closed :: closedAll ns

end

mutual

/-- A node without the subtrees of some components below it. -/
def Node.prune (gone : List String) : Node → Node
  | ⟨c, none⟩ => ⟨c, none⟩
  | ⟨c, some ns⟩ => ⟨c, some (pruneAll gone ns)⟩

/-- Several nodes without the subtrees of some components. -/
def Node.pruneAll (gone : List String) : List Node → List Node
  | [] => []
  | n :: ns => if gone.contains n.id then pruneAll gone ns else n.prune gone :: pruneAll gone ns

end

mutual

/-- A node with the subtree of one component replaced. -/
def Node.replace : Node → Node → Node
  | ⟨c, none⟩, new => if c.id = new.id then new else ⟨c, none⟩
  | ⟨c, some ns⟩, new => if c.id = new.id then new else ⟨c, some (replaceAll ns new)⟩

/-- Several nodes with the subtree of one component replaced. -/
def Node.replaceAll : List Node → Node → List Node
  | [], _ => []
  | n :: ns, new => n.replace new :: replaceAll ns new

end

/-- A node with nothing but an identifier and children. -/
def Node.bare (id : String) (children : List Node) : Node := ⟨⟨id, "", [], none, none⟩, some children⟩

/-- The identifiers that a node declares below its top. -/
def Node.idsBelow (n : Node) : List String := Node.idsAll n.childList

/-- A forest with a node grafted in: what the node declares below its top is pruned wherever it is, and the node takes
the place of its top, or the last one if the forest has no such component. -/
def Node.graft (n : Node) (forest : List Node) : List Node :=
  if n.id ∈ Node.idsAll forest then Node.replaceAll (Node.pruneAll n.idsBelow forest) n.closed
  else Node.pruneAll n.idsBelow forest ++ [n.closed]

theorem Node.ids_eq_cons (n : Node) : n.ids = n.id :: n.idsBelow := by
  obtain ⟨c, children⟩ := n
  cases children <;> rfl

theorem Node.id_closed (n : Node) : n.closed.id = n.id := by
  obtain ⟨c, children⟩ := n
  cases children <;> rfl

theorem Node.map_id_closedAll (ns : List Node) : (Node.closedAll ns).map Node.id = ns.map Node.id := by
  induction ns with
  | nil => rfl
  | cons n ns ih => rw [Node.closedAll, List.map_cons, List.map_cons, ih, Node.id_closed]

theorem Node.id_prune (gone : List String) (n : Node) : (n.prune gone).id = n.id := by
  obtain ⟨c, children⟩ := n
  cases children <;> rfl

theorem Node.map_id_pruneAll (gone : List String) (ns : List Node) :
    (Node.pruneAll gone ns).map Node.id = Tree.leftAlone gone (ns.map Node.id) := by
  induction ns with
  | nil => rfl
  | cons n ns ih =>
    rw [Node.pruneAll, List.map_cons, Tree.leftAlone, List.filter_cons]
    by_cases hn : gone.contains n.id = true
    · rw [if_pos hn, if_neg (by rw [hn]; simp), ih]
      rfl
    · rw [if_neg hn, if_pos (by simpa using hn), List.map_cons, ih, Node.id_prune]
      rfl

theorem Node.replace_of_id_eq {new n : Node} (h : n.id = new.id) : n.replace new = new := by
  obtain ⟨c, children⟩ := n
  have hc : c.id = new.id := h
  cases children with
  | none => rw [Node.replace, if_pos hc]
  | some ns => rw [Node.replace, if_pos hc]

theorem Node.id_replace (n new : Node) : (n.replace new).id = n.id := by
  by_cases h : n.id = new.id
  · rw [Node.replace_of_id_eq h, h]
  · obtain ⟨c, children⟩ := n
    have hc : ¬ c.id = new.id := h
    cases children with
    | none => rw [Node.replace, if_neg hc]
    | some ns =>
      rw [Node.replace, if_neg hc]
      rfl

theorem Node.map_id_replaceAll (ns : List Node) (new : Node) :
    (Node.replaceAll ns new).map Node.id = ns.map Node.id := by
  induction ns with
  | nil => rfl
  | cons n ns ih => rw [Node.replaceAll, List.map_cons, List.map_cons, ih, Node.id_replace]

mutual

/-- Replacing a component that a node does not have changes nothing. -/
theorem Node.replace_eq_self {new : Node} : ∀ {n : Node}, new.id ∉ n.ids → n.replace new = n
  | ⟨c, none⟩, h => by
    rw [Node.replace, if_neg]
    rintro heq
    exact h (heq ▸ Node.id_mem_ids ⟨c, none⟩)
  | ⟨c, some ns⟩, h => by
    rw [Node.ids_mk, List.mem_cons, not_or] at h
    rw [Node.replace, if_neg (fun heq => h.1 heq.symm), Node.replaceAll_eq_self h.2]

theorem Node.replaceAll_eq_self {new : Node} : ∀ {ns : List Node}, new.id ∉ Node.idsAll ns →
    Node.replaceAll ns new = ns
  | [], _ => rfl
  | n :: ns, h => by
    rw [Node.idsAll_cons, List.mem_append, not_or] at h
    rw [Node.replaceAll, Node.replace_eq_self h.1, Node.replaceAll_eq_self h.2]

end

mutual

/-- Pruning adds no component. -/
theorem Node.mem_ids_of_prune {gone : List String} {k : String} : ∀ {n : Node}, k ∈ (n.prune gone).ids → k ∈ n.ids
  | ⟨c, none⟩, h => h
  | ⟨c, some ns⟩, h => by
    rw [Node.prune, Node.ids_mk] at h
    rw [Node.ids_mk]
    rcases List.mem_cons.mp h with rfl | hmem
    · exact List.mem_cons_self
    · exact List.mem_cons_of_mem _ (Node.mem_idsAll_of_pruneAll hmem)

theorem Node.mem_idsAll_of_pruneAll {gone : List String} {k : String} :
    ∀ {ns : List Node}, k ∈ Node.idsAll (Node.pruneAll gone ns) → k ∈ Node.idsAll ns
  | [], h => h
  | n :: ns, h => by
    rw [Node.pruneAll] at h
    rw [Node.idsAll_cons, List.mem_append]
    by_cases hn : gone.contains n.id = true
    · rw [if_pos hn] at h
      exact Or.inr (Node.mem_idsAll_of_pruneAll h)
    · rw [if_neg hn, Node.idsAll_cons, List.mem_append] at h
      rcases h with hmem | hmem
      · exact Or.inl (Node.mem_ids_of_prune hmem)
      · exact Or.inr (Node.mem_idsAll_of_pruneAll hmem)

end

end Protocol

/-! ### The node itself -/

namespace Tree

variable {t t' : Tree} {n : Node}

mutual

/-- An index in which all placements of a node show holds the node. -/
theorem holds_closed_of_placements {u : Tree} : ∀ (m : Node) (parent : Option String),
    (∀ d ∈ m.placements parent, Assoc.get? d.id u.components = some d.component ∧ u.children d.id = d.declared) →
      u.Holds m.closed
  | ⟨c, none⟩, parent, hall => by
    obtain ⟨hc, hcs⟩ := hall _ List.mem_cons_self
    exact ⟨hc, hcs, trivial⟩
  | ⟨c, some ns⟩, parent, hall => by
    rw [Node.placements] at hall
    obtain ⟨hc, hcs⟩ := hall _ List.mem_cons_self
    refine ⟨hc, ?_, holdsAll_closedAll_of_placements ns c.id fun d hd => hall d (List.mem_cons_of_mem _ hd)⟩
    rw [Node.map_id_closedAll]
    exact hcs

theorem holdsAll_closedAll_of_placements {u : Tree} : ∀ (ms : List Node) (parent : String),
    (∀ d ∈ Node.placementsAll parent ms,
      Assoc.get? d.id u.components = some d.component ∧ u.children d.id = d.declared) →
      u.HoldsAll (Node.closedAll ms)
  | [], _, _ => trivial
  | m :: ms, parent, hall => by
    rw [Node.placementsAll] at hall
    exact ⟨holds_closed_of_placements m (some parent) fun d hd => hall d (List.mem_append_left _ hd),
      holdsAll_closedAll_of_placements ms parent fun d hd => hall d (List.mem_append_right _ hd)⟩

end

namespace Insertable

/-- Afterwards the index holds the node. -/
theorem holds_closed (hi : t.Insertable n) (h : t.Sound) : (t.attach none n).Holds n.closed := by
  have hp := hi.placing h
  exact holds_closed_of_placements n none fun d hd => ⟨hp.placed_component d hd, hp.children_placed hd⟩

/-! ### The forest around it -/

theorem mem_idsBelow_iff (hi : t.Insertable n) {k : String} : k ∈ n.idsBelow ↔ k ∈ n.ids ∧ k ≠ n.id := by
  have hnd := hi.ids_nodup
  rw [Node.ids_eq_cons] at hnd ⊢
  rw [List.mem_cons]
  constructor
  · intro hk
    exact ⟨Or.inr hk, fun he => (List.nodup_cons.mp hnd).1 (he ▸ hk)⟩
  · rintro ⟨rfl | hk, hne⟩
    · exact absurd rfl hne
    · exact hk

/-- Moved are the components below the top. -/
theorem leftAlone_movedIds (hi : t.Insertable n) (h : t.Sound) (cs : List String) :
    leftAlone (movedIds (n.placements none)) cs = leftAlone n.idsBelow cs := by
  apply List.filter_congr
  intro c _
  have hiff : c ∈ movedIds (n.placements none) ↔ c ∈ n.idsBelow :=
    (hi.mem_movedIds_iff h).trans hi.mem_idsBelow_iff.symm
  simp [hiff]

/-- A component that lies below none of the node keeps its data and those of its children that the node does not
declare. -/
theorem entries_outside (hi : t.Insertable n) (h : t.Sound) {k : String} (hk : t.contains k = true)
    (hout : ∀ a ∈ n.ids, ¬ t.Encloses a k) :
    Assoc.get? k (t.attach none n).components = Assoc.get? k t.components ∧
      (t.attach none n).children k = leftAlone n.idsBelow (t.children k) := by
  have hkn : k ∉ n.ids := fun hmem => hout k hmem (Encloses.refl k)
  have hstored : (t.attach none n).contains k = true := (hi.contains_attach h k).mpr (Or.inr ⟨hk, hout⟩)
  obtain ⟨hcomp, hchild, _⟩ := hi.kept h hkn hstored
  refine ⟨hcomp, ?_⟩
  rw [children, hchild, children]
  cases Assoc.get? k t.childIds with
  | none => rfl
  | some cs => exact hi.leftAlone_movedIds h cs

/-- The children of such a component are declared by the node, or lie below none of it either. -/
theorem outside_of_owns (h : t.Sound) {p c : String} (hout : ∀ a ∈ n.ids, ¬ t.Encloses a p) (ho : t.Owns p c) :
    c ∈ n.ids ∨ ∀ a ∈ n.ids, ¬ t.Encloses a c := by
  by_cases hc : c ∈ n.ids
  · exact Or.inl hc
  · refine Or.inr fun a ha henc => ?_
    rcases henc.cases_parent with rfl | ⟨q, hq, haq⟩
    · exact hc ha
    · exact hout a ha (h.owner_unique (h.owns_iff.mp hq) (h.owns_iff.mp ho) ▸ haq)

mutual

/-- What lay below none of the node is held afterwards, pruned and with the node in the place of its top. -/
theorem holds_update (hi : t.Insertable n) (h : t.Sound) : ∀ {m : Node}, t.Holds m →
    (∀ a ∈ n.ids, ¬ t.Encloses a m.id) → (t.attach none n).Holds ((m.prune n.idsBelow).replace n.closed)
  | ⟨c, some ms⟩, ⟨hc, hcs, hms⟩, hout => by
    have hstored : t.contains c.id = true := Assoc.contains_of_get? hc
    obtain ⟨hcomp, hchild⟩ := hi.entries_outside h hstored hout
    have hne : ¬ c.id = n.closed.id := fun he =>
      hout n.id n.id_mem_ids (by rw [← n.id_closed, ← he]; exact Encloses.refl _)
    have hbelow : ∀ m ∈ ms, m.id ∈ n.ids ∨ ∀ a ∈ n.ids, ¬ t.Encloses a m.id := by
      intro m hm
      have ho : t.Owns c.id m.id := h.owns_iff.mpr (hcs ▸ List.mem_map_of_mem hm)
      exact outside_of_owns h hout ho
    rw [Node.prune, Node.replace, if_neg hne]
    refine ⟨hcomp.trans hc, ?_, holdsAll_update hi h hms hbelow⟩
    rw [hchild, hcs, Node.map_id_replaceAll, Node.map_id_pruneAll]

theorem holdsAll_update (hi : t.Insertable n) (h : t.Sound) : ∀ {ms : List Node}, t.HoldsAll ms →
    (∀ m ∈ ms, m.id ∈ n.ids ∨ ∀ a ∈ n.ids, ¬ t.Encloses a m.id) →
      (t.attach none n).HoldsAll (Node.replaceAll (Node.pruneAll n.idsBelow ms) n.closed)
  | [], _, _ => trivial
  | m :: ms, ⟨hm, hms⟩, hout => by
    have hrest := holdsAll_update hi h hms fun k hk => hout k (List.mem_cons_of_mem _ hk)
    rw [Node.pruneAll]
    by_cases hgone : n.idsBelow.contains m.id = true
    · rw [if_pos hgone]
      exact hrest
    · rw [if_neg hgone]
      refine ⟨?_, hrest⟩
      -- of the components of the node only the top is not pruned
      rcases hout m List.mem_cons_self with hmem | hfar
      · have htop : m.id = n.id := by
          by_contra hne
          exact hgone (by simpa using hi.mem_idsBelow_iff.mpr ⟨hmem, hne⟩)
        rw [Node.replace_of_id_eq ((Node.id_prune _ m).trans (htop.trans n.id_closed.symm))]
        exact hi.holds_closed h
      · exact holds_update hi h hm hfar

end

/-- **The forest after an insertion is the graft of the node into the forest before.** -/
theorem roots_attach (hi : t.Insertable n) (h : t.Sound) {forest : List Node} (hroots : t.roots = .ok forest) :
    (t.attach none n).roots = .ok (n.graft forest) := by
  obtain ⟨hmap, hheld⟩ := h.roots_eq_ok_iff.mp hroots
  have hout : ∀ m ∈ forest, m.id ∈ n.ids ∨ ∀ a ∈ n.ids, ¬ t.Encloses a m.id := by
    intro m hm
    have hroot : m.id ∈ t.rootIds := hmap ▸ List.mem_map_of_mem hm
    by_cases hmn : m.id ∈ n.ids
    · exact Or.inl hmn
    · exact Or.inr fun a ha henc => hmn (h.eq_of_encloses_root hroot henc ▸ ha)
  have hupdate := hi.holdsAll_update h hheld hout
  rw [(h.attach hi).roots_eq_ok_iff, hi.rootIds_attach h, hi.leftAlone_movedIds h, Node.graft]
  by_cases hst : t.contains n.id = true
  · rw [if_pos ((h.mem_idsAll_roots hroots).mpr hst), if_pos hst, List.append_nil, Node.map_id_replaceAll,
      Node.map_id_pruneAll, hmap]
    exact ⟨rfl, hupdate⟩
  · have hnew : n.id ∉ Node.idsAll forest := fun hmem => hst ((h.mem_idsAll_roots hroots).mp hmem)
    rw [Node.replaceAll_eq_self (fun hmem => hnew (n.id_closed ▸ Node.mem_idsAll_of_pruneAll hmem))] at hupdate
    rw [if_neg hnew, if_neg hst, List.map_append, Node.map_id_pruneAll, hmap, List.map_singleton, Node.id_closed]
    exact ⟨rfl, (holdsAll_append _ _).mpr ⟨hupdate, hi.holds_closed h, trivial⟩⟩

end Insertable

/-- **An insertion into a tree that came about by edits refines a graft into its forest.**  It succeeds exactly when
the node declares no identifier twice and none that lies above its top; the forest afterwards is then the graft, and
stored are the components of the node and those of before that lay below none of them. -/
theorem insert_refines_graft (h : t.Reachable) (n : Node) :
    ∃ forest, t.roots = .ok forest ∧
      ((∃ t', t.insert n = .ok t') ↔ n.ids.Nodup ∧ ∀ a ∈ n.ids, ¬ t.Ancestor a n.id) ∧
      ∀ t', t.insert n = .ok t' →
        t'.roots = .ok (n.graft forest) ∧
          ∀ k, t'.contains k = true ↔ k ∈ n.ids ∨ (t.contains k = true ∧ ∀ a ∈ n.ids, ¬ t.Encloses a k) := by
  have hs : t.Sound := h.sound
  obtain ⟨forest, hroots, _⟩ := hs.exists_roots_eq_ok
  refine ⟨forest, hroots, ⟨?_, ?_⟩, ?_⟩
  · rintro ⟨t', hins⟩
    obtain ⟨hi, _⟩ := (insert_eq_ok_iff hs).mp hins
    exact ⟨hi.ids_nodup, hi.free⟩
  · rintro ⟨hnd, hfree⟩
    exact ⟨_, (insert_eq_ok_iff hs).mpr ⟨⟨hnd, hfree⟩, rfl⟩⟩
  · intro t' hins
    obtain ⟨hi, rfl⟩ := (insert_eq_ok_iff hs).mp hins
    exact ⟨hi.roots_attach hs hroots, hi.contains_attach hs⟩

/-- A note that declares an item of a list beside it takes the item over and keeps its own place. -/
theorem insert_refines_graft_of_item_elsewhere :
    (Tree.empty.attach none (.bare "page" [.bare "list" [.bare "item" []], .bare "note" []])).Reachable ∧
      ∃ t', (Tree.empty.attach none (.bare "page" [.bare "list" [.bare "item" []], .bare "note" []])).insert
          (.bare "note" [.bare "item" []]) = .ok t' ∧
        t'.roots = .ok [.bare "page" [.bare "list" [], .bare "note" [.bare "item" []]]] := by
  have h : (Tree.empty.attach none (.bare "page" [.bare "list" [.bare "item" []], .bare "note" []])).Reachable :=
    Reachable.empty.edited (Edited.inserted (.bare "page" [.bare "list" [.bare "item" []], .bare "note" []]) rfl)
  obtain ⟨forest, hroots, _, hafter⟩ := insert_refines_graft h (.bare "note" [.bare "item" []])
  obtain rfl : [.bare "page" [.bare "list" [.bare "item" []], .bare "note" []]] = forest :=
    Except.ok.inj (Eq.trans rfl hroots)
  exact ⟨h, _, rfl, (hafter _ rfl).1⟩

end Tree

end ComponentStream
