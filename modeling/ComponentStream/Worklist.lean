/-!
# Traversal with a work list

A tree is visited without recursion by keeping the nodes still to be visited in a list: the first node is
visited and replaced by its successors.  `visit` takes a budget, one unit for each visit; a budget of at least
the number of nodes below the start visits them all.

Successors in their own order give preorder from left to right; successors reversed give preorder from right
to left.
-/

namespace ComponentStream

/-- Visits the nodes of a work list and everything that succeeds them, depth first. -/
def visit {α : Type} (successors : α → List α) : Nat → List α → List α
  | 0, _ => []
  | _ + 1, [] => []
  | budget + 1, a :: pending => a :: visit successors budget (successors a ++ pending)

end ComponentStream
