import ComponentStream.Proofs.Protocol.Positions

/-!
# Walks by work list and recursion

Nodes are walked through, and their levels are counted, with work lists and no recursion.  The loops push children in
different orders, and the one over a raw value passes by whatever is not an object.  They end because nothing is pending
any more, and what they find is what the recursion finds.

* `Node.positions` — the positions in a node, in lexicographic order, with `Node.mem_positions_iff`,
  `Node.sorted_positions` and `Node.map_at?_positions`;
* `Node.drains_walk`, `Node.drains_levelled`, `Node.WrittenAs.drains_rawLevelled` — the three loops;
* `traversals_agree` — a raw value and the node that it describes.
-/

namespace ComponentStream.Protocol

open Json (Value)

/-! ### Positions in order -/

mutual

/-- The positions in a node, each before those below it and these from left to right. -/
def Node.positions : Node → List (List Nat)
  | ⟨_, none⟩ => [[]]
  | ⟨_, some ns⟩ => [] :: positionsAll 0 ns

/-- The positions in several children, the first of which has the given index. -/
def Node.positionsAll : Nat → List Node → List (List Nat)
  | _, [] => []
  | i, n :: ns => n.positions.map (i :: ·) ++ positionsAll (i + 1) ns

end

mutual

theorem Node.mem_positions_iff : ∀ (n : Node) {w : List Nat}, w ∈ n.positions ↔ (n.at? w).isSome = true
  | ⟨c, none⟩, w => by
    cases w with
    | nil => simp [Node.positions, Node.at?]
    | cons i w => simp [Node.positions, Node.at?, Node.childList]
  | ⟨c, some ns⟩, w => by
    rw [Node.positions, List.mem_cons, Node.mem_positionsAll_iff ns 0]
    cases w with
    | nil => simp [Node.at?]
    | cons i w =>
      rw [Node.at?, Node.childList, Option.getD_some]
      constructor
      · rintro (hnil | ⟨j, n, u, hget, heq, hat⟩)
        · cases hnil
        · obtain ⟨rfl, rfl⟩ := List.cons.inj heq
          rwa [Nat.zero_add, hget]
      · intro hat
        obtain ⟨m, hm⟩ := Option.isSome_iff_exists.mp hat
        obtain ⟨n, hget, hn⟩ := Option.bind_eq_some_iff.mp hm
        exact .inr ⟨i, n, w, hget, by rw [Nat.zero_add], by rw [hn]; rfl⟩

theorem Node.mem_positionsAll_iff : ∀ (ns : List Node) (i : Nat) {w : List Nat}, w ∈ Node.positionsAll i ns ↔
    ∃ j n u, ns[j]? = some n ∧ w = (i + j) :: u ∧ (n.at? u).isSome = true
  | [], i, w => by simp [Node.positionsAll]
  | n :: ns, i, w => by
    rw [Node.positionsAll, List.mem_append, List.mem_map, Node.mem_positionsAll_iff ns (i + 1)]
    constructor
    · rintro (⟨u, hu, rfl⟩ | ⟨j, m, u, hget, rfl, hat⟩)
      · exact ⟨0, n, u, rfl, rfl, n.mem_positions_iff.mp hu⟩
      · exact ⟨j + 1, m, u, hget, by rw [Nat.add_right_comm, Nat.add_assoc], hat⟩
    · rintro ⟨j, m, u, hget, rfl, hat⟩
      cases j with
      | zero =>
        obtain rfl := Option.some.inj hget
        exact .inl ⟨u, n.mem_positions_iff.mpr hat, rfl⟩
      | succ j => exact .inr ⟨j, m, u, hget, by rw [Nat.add_right_comm, Nat.add_assoc], hat⟩

end

mutual

/-- The positions are in lexicographic order, and so there is none twice. -/
theorem Node.sorted_positions : ∀ n : Node, n.positions.Pairwise (· < ·)
  | ⟨c, none⟩ => List.pairwise_singleton _ _
  | ⟨c, some ns⟩ => by
    rw [Node.positions, List.pairwise_cons]
    refine ⟨fun w hw => ?_, Node.sorted_positionsAll ns 0⟩
    obtain ⟨j, n, u, _, rfl, _⟩ := (Node.mem_positionsAll_iff ns 0).mp hw
    exact List.nil_lt_cons _ _

theorem Node.sorted_positionsAll : ∀ (ns : List Node) (i : Nat), (Node.positionsAll i ns).Pairwise (· < ·)
  | [], _ => List.Pairwise.nil
  | n :: ns, i => by
    rw [Node.positionsAll, List.pairwise_append, List.pairwise_map]
    refine ⟨n.sorted_positions.imp fun h => List.cons_lt_cons_iff.mpr (.inr ⟨rfl, h⟩),
      Node.sorted_positionsAll ns (i + 1), fun w hw w' hw' => ?_⟩
    -- the positions in later children begin with a greater index
    obtain ⟨u, _, rfl⟩ := List.mem_map.mp hw
    obtain ⟨j, _, u', _, rfl, _⟩ := (Node.mem_positionsAll_iff ns (i + 1)).mp hw'
    exact List.cons_lt_cons_iff.mpr (.inl (by omega))

end

mutual

/-- The nodes at the positions, in their order, are the preorder. -/
theorem Node.map_at?_positions : ∀ n : Node, n.positions.map n.at? = n.preorder.map some
  | ⟨c, none⟩ => rfl
  | ⟨c, some ns⟩ => by
    have hchildren := Node.map_positionsAll ns 0 (Node.at? ⟨c, some ns⟩) fun j n u hget => by
      rw [Nat.zero_add, Node.at?, Node.childList, Option.getD_some, hget, Option.bind_some]
    rw [Node.positions, Node.preorder, List.map_cons, List.map_cons, hchildren]
    rfl

theorem Node.map_positionsAll : ∀ (ns : List Node) (i : Nat) (found : List Nat → Option Node),
    (∀ j n u, ns[j]? = some n → found ((i + j) :: u) = n.at? u) →
      (Node.positionsAll i ns).map found = (Node.preorderAll ns).map some
  | [], _, _, _ => rfl
  | n :: ns, i, found, hfound => by
    have hfirst : found ∘ (i :: ·) = n.at? := funext fun u => hfound 0 n u rfl
    have hrest := Node.map_positionsAll ns (i + 1) found fun j m u hget => by
      rw [Nat.add_right_comm, Nat.add_assoc]
      exact hfound (j + 1) m u hget
    rw [Node.positionsAll, Node.preorderAll, List.map_append, List.map_append, List.map_map, hfirst, hrest,
      n.map_at?_positions]

end

/-- A list has the node at every position, in the order of the positions, and each of them once. -/
def Node.VisitedBy (n : Node) (visited : List Node) : Prop :=
  ∃ ws : List (List Nat), ws.Pairwise (· < ·) ∧ (∀ w, w ∈ ws ↔ (n.at? w).isSome = true) ∧
    visited.map some = ws.map n.at?

/-! ### The loops -/

theorem Node.drains_walk (n : Node) : Drains Node.childList [n] n.walk := by
  have hloop := drains_flatMap Node.preorder Node.preorder_eq_cons [n]
  rwa [List.flatMap_singleton, ← Node.walk_eq_preorder] at hloop

/-- The successors of a raw walk and of the walk of a node alike: the last child is on top. -/
theorem Node.drains_levelled (n : Node) :
    Drains (fun e => (Node.levelled e).reverse) [(n, 1)] (n.marked levelDown 1) := by
  have hpre : ∀ e : Node × Nat, e.1.marked levelDown e.2 =
      e :: (Node.levelled e).reverse.flatMap fun e => e.1.marked levelDown e.2 := fun e => by
    rw [Node.levelled_eq]
    exact Node.marked_eq_cons levelDown e
  have hloop := drains_flatMap (fun e : Node × Nat => e.1.marked levelDown e.2) hpre [(n, 1)]
  rwa [List.flatMap_singleton] at hloop

/-- The loop over a raw value meets the levels that the loop over the node meets, in the same order. -/
theorem Node.WrittenAs.drains_rawLevelled {n : Node} {v : Value} (h : n.WrittenAs v) :
    ∃ es, Drains (fun e => (rawLevelled e).reverse) [(v, 1)] es ∧ rawDepth v = greatest (es.map Prod.snd) := by
  have hstart : List.Forall₂ SameLevel [(n, 1)] [(v, 1)] := .cons ⟨h, rfl⟩ .nil
  obtain ⟨es, hloop, hsame⟩ := n.drains_levelled.forall₂ (fun _ _ => SameLevel.levelled) hstart
  refine ⟨es, hloop, ?_⟩
  rw [← map_level_eq hsame, Node.greatest_levels, h.rawDepth_eq]

/-- **What the loops find is what the recursion finds.**  Of a raw value that describes a node, to whatever number of levels
it is followed, the walk of the node visits the node at every position, and each once, in preorder; its depth is its
height, a leaf having one level; and the depth of the raw value is the same.  All three loops end by themselves.  So the
depth check of the raw value passes exactly when the node is within the limit. -/
theorem traversals_agree {v : Value} {n : Node} {room : Nat} (h : Node.checkWithin room v = .ok n) :
    (Drains Node.childList [n] n.walk ∧ n.walk = n.preorder ∧ n.VisitedBy n.walk) ∧
      ((∃ es, Drains (fun e => (Node.levelled e).reverse) [(n, 1)] es ∧ n.depth = greatest (es.map Prod.snd)) ∧
        n.depth = n.height) ∧
      ((∃ es, Drains (fun e => (rawLevelled e).reverse) [(v, 1)] es ∧ rawDepth v = greatest (es.map Prod.snd)) ∧
        rawDepth v = n.depth) ∧
      ∀ (limits : Limits) (path : Shape.Path), depthIssues limits v path = [] ↔ n.depth ≤ limits.maxDepth := by
  have hwritten : n.WrittenAs v := ((Node.checkWithin_eq_ok_iff room v n).mp h).1
  have hdepth : rawDepth v = n.depth := hwritten.rawDepth_eq.trans n.depth_eq_height.symm
  refine ⟨⟨n.drains_walk, n.walk_eq_preorder, n.positions, n.sorted_positions, fun w => n.mem_positions_iff, ?_⟩,
    ⟨⟨_, n.drains_levelled, ?_⟩, n.depth_eq_height⟩, ⟨hwritten.drains_rawLevelled, hdepth⟩, fun limits path => ?_⟩
  · rw [n.walk_eq_preorder, n.map_at?_positions]
  · rw [n.depth_eq_height, Node.greatest_levels]
  · rw [depthIssues_eq_nil_iff, hdepth]

/-- A page of three levels, with an identifier that occurs twice and with properties that look like children. -/
def rawPage : Value :=
  .obj [("id", .str "page"), ("type", .str "Card"), ("props", .obj [("children", .arr [.obj []])]), ("children", .arr [
    .obj [("id", .str "a"), ("type", .str "Card"), ("props", .obj []), ("children", .arr [
      .obj [("id", .str "t"), ("type", .str "Text"), ("props", .obj []), ("children", .null)]])],
    .obj [("id", .str "a"), ("type", .str "Text"), ("props", .obj [])]])]

def nodeOfRawPage : Node :=
  ⟨⟨"page", "Card", [("children", .arr [.obj []])], none, none⟩,
    some [⟨⟨"a", "Card", [], none, none⟩, some [⟨⟨"t", "Text", [], none, none⟩, none⟩]⟩,
      ⟨⟨"a", "Text", [], none, none⟩, none⟩]⟩

/-- Both occurrences of the identifier are visited, and two levels are too few. -/
theorem traversals_agree_of_page :
    Node.check rawPage = .ok nodeOfRawPage ∧ nodeOfRawPage.VisitedBy nodeOfRawPage.walk ∧
      nodeOfRawPage.walk.map Node.id = ["page", "a", "t", "a"] ∧ rawDepth rawPage = nodeOfRawPage.depth ∧
        nodeOfRawPage.depth = 3 ∧ ∀ path, depthIssues ⟨100, 2, 100, []⟩ rawPage path ≠ [] := by
  have hcheck : Node.check rawPage = .ok nodeOfRawPage := rfl
  have hdepth : nodeOfRawPage.depth = 3 := by decide
  obtain ⟨⟨_, _, hvisited⟩, _, ⟨_, hraw⟩, hlimit⟩ := traversals_agree hcheck
  refine ⟨hcheck, hvisited, by decide, hraw, hdepth, fun path hpasses => ?_⟩
  exact absurd (hdepth ▸ (hlimit _ path).mp hpasses) (by decide)

end ComponentStream.Protocol
