import Mathlib.Data.List.Nodup
import ComponentStream.Proofs.Tree.Remove

/-!
# An insertion as a series of placements

A node with its inline children enters a tree one component after the other, every component before its children.
The recursion over the node thus comes to a list of placements that are carried out in order.

* `Placement` — one component with the parent it comes under and the children it declares;
* `Protocol.Node.placements` — the placements of a node, in preorder;
* `Tree.attach_eq_foldl` — entering a node carries out its placements;
* `Protocol.Node.grounded_placements` — every placement but the first goes below one that came before and declares
  it;
* `Protocol.Node.exists_placement_of_declared` — every declared child has its own placement.
-/

namespace ComponentStream

open Protocol (Component Node)

/-- One component on its way into a tree. -/
structure Placement where
  parent : Option String
  component : Component
  declared : List String

/-- The identifier of the component that is placed. -/
def Placement.id (p : Placement) : String := p.component.id

/-- Carries out a placement. -/
def Tree.put (t : Tree) (p : Placement) : Tree := t.place p.parent p.component p.declared

namespace Protocol

mutual

/-- The placements of a node below a parent. -/
def Node.placements (parent : Option String) : Node → List Placement
  | ⟨c, none⟩ => [⟨parent, c, []⟩]
  | ⟨c, some ns⟩ => ⟨parent, c, ns.map Node.id⟩ :: placementsAll c.id ns

/-- The placements of several nodes below one parent. -/
def Node.placementsAll (parent : String) : List Node → List Placement
  | [] => []
  | n :: ns => n.placements (some parent) ++ placementsAll parent ns

end

/-- The identifiers of a node and its descendants, in preorder. -/
def Node.ids (n : Node) : List String := n.preorder.map Node.id

end Protocol

/-! ### Carrying placements out -/

mutual

/-- Entering a node carries out its placements. -/
theorem Tree.attach_eq_foldl (t : Tree) (parent : Option String) :
    ∀ n : Node, t.attach parent n = (n.placements parent).foldl Tree.put t
  | ⟨c, none⟩ => rfl
  | ⟨c, some ns⟩ => by
    rw [Tree.attach, Tree.attachAll_eq_foldl, Node.placements, List.foldl_cons]
    rfl

theorem Tree.attachAll_eq_foldl (t : Tree) (parent : String) :
    ∀ ns : List Node, t.attachAll parent ns = (Node.placementsAll parent ns).foldl Tree.put t
  | [] => rfl
  | n :: ns => by
    rw [Tree.attachAll, Tree.attach_eq_foldl t (some parent) n, Tree.attachAll_eq_foldl, Node.placementsAll,
      List.foldl_append]

end

namespace Protocol

mutual

theorem Node.map_id_placements (parent : Option String) :
    ∀ n : Node, (n.placements parent).map Placement.id = n.ids
  | ⟨c, none⟩ => rfl
  | ⟨c, some ns⟩ => by
    rw [Node.placements, List.map_cons, Node.map_id_placementsAll c.id ns, Node.ids, Node.preorder, List.map_cons]
    rfl

theorem Node.map_id_placementsAll (parent : String) :
    ∀ ns : List Node, (Node.placementsAll parent ns).map Placement.id = (Node.preorderAll ns).map Node.id
  | [] => rfl
  | n :: ns => by
    rw [Node.placementsAll, List.map_append, Node.map_id_placements (some parent) n,
      Node.map_id_placementsAll parent ns, Node.preorderAll, List.map_append]
    rfl

end

theorem Node.exists_placement (parent : Option String) {n : Node} {k : String} (hk : k ∈ n.ids) :
    ∃ d ∈ n.placements parent, d.id = k := by
  rw [← Node.map_id_placements parent n] at hk
  exact List.mem_map.mp hk

theorem Node.id_mem_ids_of_placement {parent : Option String} {n : Node} {d : Placement}
    (hd : d ∈ n.placements parent) : d.id ∈ n.ids := by
  rw [← Node.map_id_placements parent n]
  exact List.mem_map_of_mem hd

/-- The first placement of a node is that of its own component. -/
theorem Node.placements_eq_cons (parent : Option String) (n : Node) :
    n.placements parent =
      ⟨parent, n.component, n.childList.map Node.id⟩ :: Node.placementsAll n.id n.childList := by
  obtain ⟨c, children⟩ := n
  cases children <;> rfl

theorem Node.first_mem_placements (parent : Option String) (n : Node) :
    ⟨parent, n.component, n.childList.map Node.id⟩ ∈ n.placements parent := by
  rw [Node.placements_eq_cons]
  exact List.mem_cons_self

theorem Node.id_mem_ids (n : Node) : n.id ∈ n.ids := by
  rw [← Node.map_id_placements none n, Node.placements_eq_cons]
  exact List.mem_cons_self

end Protocol

/-! ### Parents come first -/

/-- Every placement goes below one that came before it, among the placements seen before or in the list, and is
declared there. -/
def Grounded : List Placement → List Placement → Prop
  | _, [] => True
  | seen, p :: ps => (∃ d ∈ seen, p.parent = some d.id ∧ p.id ∈ d.declared) ∧ Grounded (seen ++ [p]) ps

theorem grounded_append (seen ps qs : List Placement) :
    Grounded seen (ps ++ qs) ↔ Grounded seen ps ∧ Grounded (seen ++ ps) qs := by
  induction ps generalizing seen with
  | nil => simp [Grounded]
  | cons p ps ih =>
    rw [List.cons_append, Grounded, Grounded, ih, and_assoc, List.append_assoc]
    rfl

namespace Protocol

mutual

theorem Node.grounded_placements_below (parent : String) :
    ∀ (n : Node) (seen : List Placement), (∃ d ∈ seen, d.id = parent ∧ n.id ∈ d.declared) →
      Grounded seen (n.placements (some parent))
  | ⟨c, none⟩, seen, ⟨d, hd, hid, hdec⟩ => ⟨⟨d, hd, by rw [hid], hdec⟩, trivial⟩
  | ⟨c, some ns⟩, seen, ⟨d, hd, hid, hdec⟩ => by
    refine ⟨⟨d, hd, by rw [hid], hdec⟩, Node.grounded_placementsAll c.id ns _ ?_⟩
    refine ⟨⟨some parent, c, ns.map Node.id⟩, List.mem_append_right _ List.mem_cons_self, rfl, ?_⟩
    intro n hn
    exact List.mem_map_of_mem hn

theorem Node.grounded_placementsAll (parent : String) :
    ∀ (ns : List Node) (seen : List Placement), (∃ d ∈ seen, d.id = parent ∧ ∀ n ∈ ns, n.id ∈ d.declared) →
      Grounded seen (Node.placementsAll parent ns)
  | [], _, _ => trivial
  | n :: ns, seen, ⟨d, hd, hid, hdec⟩ => by
    rw [Node.placementsAll, grounded_append]
    refine ⟨Node.grounded_placements_below parent n seen ⟨d, hd, hid, hdec n List.mem_cons_self⟩, ?_⟩
    exact Node.grounded_placementsAll parent ns _
      ⟨d, List.mem_append_left _ hd, hid, fun m hm => hdec m (List.mem_cons_of_mem _ hm)⟩

end

/-- After the first placement of a node, all others are grounded. -/
theorem Node.grounded_placements (n : Node) :
    Grounded [⟨none, n.component, n.childList.map Node.id⟩] (Node.placementsAll n.id n.childList) :=
  Node.grounded_placementsAll n.id n.childList _
    ⟨_, List.mem_cons_self, rfl, fun _ hm => List.mem_map_of_mem hm⟩

/-! ### Declared children are placed -/

theorem Node.exists_placement_of_mem (parent : String) {c : Node} :
    ∀ {ns : List Node}, c ∈ ns → ∃ p ∈ Node.placementsAll parent ns, p.id = c.id ∧ p.parent = some parent
  | n :: ns, hc => by
    rw [Node.placementsAll]
    rcases List.mem_cons.mp hc with rfl | hmem
    · refine ⟨⟨some parent, c.component, c.childList.map Node.id⟩, List.mem_append_left _ ?_, rfl, rfl⟩
      rw [Node.placements_eq_cons]
      exact List.mem_cons_self
    · obtain ⟨p, hp, hid, hpar⟩ := Node.exists_placement_of_mem parent hmem
      exact ⟨p, List.mem_append_right _ hp, hid, hpar⟩

mutual

/-- Every declared child has a placement below the component that declares it. -/
theorem Node.exists_placement_of_declared (parent : Option String) :
    ∀ (n : Node), ∀ d ∈ n.placements parent, ∀ c ∈ d.declared,
      ∃ p ∈ n.placements parent, p.id = c ∧ p.parent = some d.id
  | ⟨k, none⟩, d, hd, c, hc => by
    obtain rfl := List.mem_singleton.mp hd
    exact absurd hc List.not_mem_nil
  | ⟨k, some ns⟩, d, hd, c, hc => by
    rw [Node.placements] at hd ⊢
    rcases List.mem_cons.mp hd with rfl | hmem
    · obtain ⟨m, hm, rfl⟩ := List.mem_map.mp hc
      obtain ⟨p, hp, hid, hpar⟩ := Node.exists_placement_of_mem k.id hm
      exact ⟨p, List.mem_cons_of_mem _ hp, hid, hpar⟩
    · obtain ⟨p, hp, hid, hpar⟩ := Node.exists_placementsAll_of_declared k.id ns d hmem c hc
      exact ⟨p, List.mem_cons_of_mem _ hp, hid, hpar⟩

theorem Node.exists_placementsAll_of_declared (parent : String) :
    ∀ (ns : List Node), ∀ d ∈ Node.placementsAll parent ns, ∀ c ∈ d.declared,
      ∃ p ∈ Node.placementsAll parent ns, p.id = c ∧ p.parent = some d.id
  | [], d, hd, _, _ => absurd hd List.not_mem_nil
  | n :: ns, d, hd, c, hc => by
    rw [Node.placementsAll] at hd ⊢
    rcases List.mem_append.mp hd with hmem | hmem
    · obtain ⟨p, hp, hid, hpar⟩ := Node.exists_placement_of_declared (some parent) n d hmem c hc
      exact ⟨p, List.mem_append_left _ hp, hid, hpar⟩
    · obtain ⟨p, hp, hid, hpar⟩ := Node.exists_placementsAll_of_declared parent ns d hmem c hc
      exact ⟨p, List.mem_append_right _ hp, hid, hpar⟩

end

/-! ### Declared children are distinct -/

theorem Node.map_id_sublist_preorderAll :
    ∀ ns : List Node, List.Sublist (ns.map Node.id) ((Node.preorderAll ns).map Node.id)
  | [] => List.Sublist.slnil
  | n :: ns => by
    have hn : n.preorder.map Node.id = n.id :: (Node.preorderAll n.childList).map Node.id := by
      obtain ⟨c, children⟩ := n
      cases children <;> rfl
    rw [List.map_cons, Node.preorderAll, List.map_append, hn, List.cons_append]
    exact ((Node.map_id_sublist_preorderAll ns).trans (List.sublist_append_right _ _)).cons_cons _

mutual

/-- A node without repeated identifiers declares no child twice. -/
theorem Node.declared_nodup (parent : Option String) :
    ∀ n : Node, n.ids.Nodup → ∀ d ∈ n.placements parent, d.declared.Nodup
  | ⟨k, none⟩, _, d, hd => by
    obtain rfl := List.mem_singleton.mp hd
    exact List.nodup_nil
  | ⟨k, some ns⟩, hnd, d, hd => by
    rw [Node.ids, Node.preorder, List.map_cons] at hnd
    have hall : ((Node.preorderAll ns).map Node.id).Nodup := (List.nodup_cons.mp hnd).2
    rw [Node.placements] at hd
    rcases List.mem_cons.mp hd with rfl | hmem
    · exact hall.sublist (Node.map_id_sublist_preorderAll ns)
    · exact Node.declaredAll_nodup k.id ns hall d hmem

theorem Node.declaredAll_nodup (parent : String) :
    ∀ ns : List Node, ((Node.preorderAll ns).map Node.id).Nodup →
      ∀ d ∈ Node.placementsAll parent ns, d.declared.Nodup
  | [], _, d, hd => absurd hd List.not_mem_nil
  | n :: ns, hnd, d, hd => by
    rw [Node.preorderAll, List.map_append] at hnd
    rw [Node.placementsAll] at hd
    rcases List.mem_append.mp hd with hmem | hmem
    · exact Node.declared_nodup (some parent) n (hnd.sublist (List.sublist_append_left _ _)) d hmem
    · exact Node.declaredAll_nodup parent ns (hnd.sublist (List.sublist_append_right _ _)) d hmem

end

end Protocol

end ComponentStream
