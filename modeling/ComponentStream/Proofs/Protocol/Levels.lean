import ComponentStream.Proofs.Traversal
import ComponentStream.Protocol.Issue

/-!
# Marks on the way down

The traversals that look for broken limits carry something along: the level of a node, or the way to it.  Both visit a
tree from right to left.

* `Node.marked` — a tree from right to left, every node with the mark that comes of its parent's and its index;
* `Node.marked_perm_preorder` — no node is missed and none is visited twice, whatever the marks;
* `Node.occurrences_eq_marked`, `Node.depth_eq_height` — the two traversals in these terms: with ways, and with levels,
  of which the greatest is the height of the tree.
-/

namespace ComponentStream.Protocol

variable {β : Type} (next : β → Nat → β)

/-! ### From right to left -/

mutual

/-- A node and its descendants from right to left, each with its mark. -/
def Node.marked (mark : β) : Node → List (Node × β)
  | ⟨c, none⟩ => [(⟨c, none⟩, mark)]
  | ⟨c, some ns⟩ => (⟨c, some ns⟩, mark) :: markedAll mark 0 ns

/-- The children of a marked node, the first of which has the given index, with their descendants. -/
def Node.markedAll (mark : β) : Nat → List Node → List (Node × β)
  | _, [] => []
  | i, n :: ns => markedAll mark (i + 1) ns ++ n.marked (next mark i)

end

/-- The children of a marked node with their marks, the first of which has the given index. -/
def Node.markedChildren (mark : β) : Nat → List Node → List (Node × β)
  | _, [] => []
  | i, n :: ns => (n, next mark i) :: markedChildren mark (i + 1) ns

theorem Node.markedAll_eq_flatMap (mark : β) (i : Nat) (ns : List Node) :
    Node.markedAll next mark i ns =
      (Node.markedChildren next mark i ns).reverse.flatMap fun e => e.1.marked next e.2 := by
  induction ns generalizing i with
  | nil => rfl
  | cons n ns ih =>
    rw [Node.markedAll, ih, Node.markedChildren, List.reverse_cons, List.flatMap_append, List.flatMap_singleton]

theorem Node.marked_eq_cons (e : Node × β) :
    e.1.marked next e.2 =
      e :: (Node.markedChildren next e.2 0 e.1.childList).reverse.flatMap fun e => e.1.marked next e.2 := by
  obtain ⟨⟨c, children⟩, mark⟩ := e
  cases children with
  | none => rfl
  | some ns =>
    rw [Node.marked, Node.markedAll_eq_flatMap]
    rfl

mutual

/-- **From right to left every node is visited, and once.** -/
theorem Node.marked_perm_preorder (mark : β) : ∀ n : Node, ((n.marked next mark).map Prod.fst).Perm n.preorder
  | ⟨c, none⟩ => List.Perm.refl _
  | ⟨c, some ns⟩ => by
    rw [Node.marked, Node.preorder, List.map_cons]
    exact (Node.markedAll_perm_preorderAll mark 0 ns).cons _

theorem Node.markedAll_perm_preorderAll (mark : β) :
    ∀ (i : Nat) (ns : List Node), ((Node.markedAll next mark i ns).map Prod.fst).Perm (Node.preorderAll ns)
  | _, [] => List.Perm.refl _
  | i, n :: ns => by
    rw [Node.markedAll, Node.preorderAll, List.map_append]
    exact ((Node.markedAll_perm_preorderAll mark (i + 1) ns).append
      (Node.marked_perm_preorder (next mark i) n)).trans List.perm_append_comm

end

theorem Node.length_marked (n : Node) (mark : β) : (n.marked next mark).length = n.count := by
  rw [← List.length_map Prod.fst, (Node.marked_perm_preorder next mark n).length_eq]
  rfl

/-- A work list with marks, its successors reversed, visits a tree from right to left, however large its budget. -/
theorem Node.visit_eq_marked_of_le (successors : Node × β → List (Node × β))
    (hsucc : ∀ e, successors e = (Node.markedChildren next e.2 0 e.1.childList).reverse) {n : Node} (mark : β)
    {budget : Nat} (hbudget : n.count ≤ budget) : visit successors budget [(n, mark)] = n.marked next mark := by
  have hpre : ∀ e : Node × β,
      e.1.marked next e.2 = e :: (successors e).flatMap fun e => e.1.marked next e.2 := fun e => by
    rw [hsucc]
    exact Node.marked_eq_cons next e
  have hlength : ([(n, mark)].flatMap fun e => e.1.marked next e.2).length ≤ budget := by
    rw [List.flatMap_singleton, Node.length_marked]
    exact hbudget
  rw [visit_eq_flatMap successors _ hpre _ _ hlength, List.flatMap_singleton]

theorem Node.visit_eq_marked (successors : Node × β → List (Node × β))
    (hsucc : ∀ e, successors e = (Node.markedChildren next e.2 0 e.1.childList).reverse) (n : Node) (mark : β) :
    visit successors n.count [(n, mark)] = n.marked next mark :=
  Node.visit_eq_marked_of_le next successors hsucc mark (Nat.le_refl _)

/-! ### Ways -/

/-- The way to a child from the way to its parent. -/
def stepDown (path : Shape.Path) (i : Nat) : Shape.Path := path ++ [.key "children", .index i]

theorem childOccurrences_eq (path : Shape.Path) (i : Nat) (ns : List Node) :
    childOccurrences path i ns = Node.markedChildren stepDown path i ns := by
  induction ns generalizing i with
  | nil => rfl
  | cons n ns ih =>
    rw [childOccurrences, ih]
    rfl

/-- The occurrences in a tree are its nodes with the ways to them. -/
theorem Node.occurrences_eq_marked (n : Node) (path : Shape.Path) : occurrences n path = n.marked stepDown path :=
  Node.visit_eq_marked stepDown _ (fun e => by rw [childOccurrences_eq]) n path

/-- No node is left out, and none occurs twice. -/
theorem Node.occurrences_perm (n : Node) (path : Shape.Path) :
    ((occurrences n path).map Prod.fst).Perm n.preorder := by
  rw [Node.occurrences_eq_marked]
  exact Node.marked_perm_preorder stepDown path n

/-! ### Levels -/

/-- The level of a child from the level of its parent. -/
def levelDown (level : Nat) (_ : Nat) : Nat := level + 1

theorem Node.levelled_eq (e : Node × Nat) : Node.levelled e = Node.markedChildren levelDown e.2 0 e.1.childList := by
  have hall : ∀ (i : Nat) (ns : List Node),
      ns.map (fun child => (child, e.2 + 1)) = Node.markedChildren levelDown e.2 i ns := by
    intro i ns
    induction ns generalizing i with
    | nil => rfl
    | cons n ns ih =>
      rw [List.map_cons, ih (i + 1)]
      rfl
  exact hall 0 e.1.childList

theorem foldl_max_le_iff (ns : List Nat) : ∀ m k : Nat, ns.foldl max m ≤ k ↔ m ≤ k ∧ ∀ n ∈ ns, n ≤ k := by
  induction ns with
  | nil => simp
  | cons n ns ih =>
    intro m k
    rw [List.foldl_cons, ih, List.forall_mem_cons, Nat.max_le, and_assoc]

theorem greatest_le_iff {ns : List Nat} {k : Nat} : greatest ns ≤ k ↔ ∀ n ∈ ns, n ≤ k := by
  rw [greatest, foldl_max_le_iff]
  simp

mutual

/-- The levels in a tree go as far as its height. -/
theorem Node.marked_level_le_iff {k : Nat} :
    ∀ (n : Node) (level : Nat), (∀ e ∈ n.marked levelDown level, e.2 ≤ k) ↔ level + n.height ≤ k + 1
  | ⟨c, none⟩, level => by
    rw [Node.marked, Node.height]
    simp
  | ⟨c, some ns⟩, level => by
    rw [Node.marked, Node.height, List.forall_mem_cons]
    constructor
    · rintro ⟨hk, hall⟩
      have := (Node.markedAll_level_le_iff ns hk 0).mp hall
      omega
    · intro h
      have hk : level ≤ k := by omega
      exact ⟨hk, (Node.markedAll_level_le_iff ns hk 0).mpr (by omega)⟩

theorem Node.markedAll_level_le_iff {k level : Nat} :
    ∀ (ns : List Node), level ≤ k → ∀ i, (∀ e ∈ Node.markedAll levelDown level i ns, e.2 ≤ k) ↔
      level + Node.heightAll ns ≤ k
  | [], hk, _ => by
    rw [Node.markedAll, Node.heightAll]
    simpa using hk
  | n :: ns, hk, i => by
    rw [Node.markedAll, Node.heightAll, List.forall_mem_append, Node.markedAll_level_le_iff ns hk (i + 1),
      Node.marked_level_le_iff n (levelDown level i), levelDown]
    omega

end

theorem Node.greatest_levels (n : Node) : greatest ((n.marked levelDown 1).map Prod.snd) = n.height := by
  have hle : ∀ k, greatest ((n.marked levelDown 1).map Prod.snd) ≤ k ↔ n.height ≤ k := fun k => by
    rw [greatest_le_iff, List.forall_mem_map, Node.marked_level_le_iff]
    omega
  exact Nat.le_antisymm ((hle _).mpr (Nat.le_refl _)) ((hle _).mp (Nat.le_refl _))

/-- **The greatest level of a tree is its height.** -/
theorem Node.depth_eq_height (n : Node) : n.depth = n.height := by
  have hvisit : visit (fun e => (Node.levelled e).reverse) n.count [(n, 1)] = n.marked levelDown 1 :=
    Node.visit_eq_marked levelDown _ (fun e => by rw [Node.levelled_eq]) n 1
  rw [Node.depth, hvisit, Node.greatest_levels]

end ComponentStream.Protocol
