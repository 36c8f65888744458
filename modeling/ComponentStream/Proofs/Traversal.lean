import Mathlib.Data.List.Flatten
import Mathlib.Data.List.Forall2
import ComponentStream.Protocol.Node
import ComponentStream.Worklist

/-!
# Work lists and recursion

A traversal by work list visits what the recursion visits, in the same order, as long as its budget covers all
nodes.  The budget then never decides: the loop ends because nothing is pending.

* `Drains` — the loop of a work list without a budget;
* `drains_flatMap`, `Drains.visit_eq`, `visit_eq_flatMap` — any traversal that puts a node before what succeeds it;
* `Drains.forall₂`, `visit_forall₂` — two traversals side by side;
* `Protocol.Node.walk_eq_preorder` — the nodes of a tree.
-/

namespace ComponentStream

section Loops

variable {α β : Type} {successors : α → List α}

/-- The loop of a work list: what it visits until nothing is pending. -/
inductive Drains (successors : α → List α) : List α → List α → Prop
  | done : Drains successors [] []
  | step {a : α} {pending visited : List α} (rest : Drains successors (successors a ++ pending) visited) :
      Drains successors (a :: pending) (a :: visited)

/-- A budget that covers what the loop visits makes no difference. -/
theorem Drains.visit_eq {pending visited : List α} (h : Drains successors pending visited) {budget : Nat}
    (hb : visited.length ≤ budget) : visit successors budget pending = visited := by
  induction h generalizing budget with
  | done => cases budget <;> rfl
  | step _ ih =>
    cases budget with
    | zero => exact absurd hb (Nat.not_succ_le_zero _)
    | succ budget => rw [visit, ih (Nat.le_of_succ_le_succ hb)]

/-- The loop ends and visits in preorder, `preorder` being any function with the equation of a preorder. -/
theorem drains_flatMap (preorder : α → List α) (hpre : ∀ a, preorder a = a :: (successors a).flatMap preorder)
    (pending : List α) : Drains successors pending (pending.flatMap preorder) := by
  induction hlength : (pending.flatMap preorder).length generalizing pending with
  | zero =>
    cases pending with
    | nil => exact .done
    | cons a pending =>
      rw [List.flatMap_cons, hpre] at hlength
      exact absurd hlength (Nat.succ_ne_zero _)
  | succ k ih =>
    cases pending with
    | nil => exact .done
    | cons a pending =>
      have hvisited : (a :: pending).flatMap preorder = a :: (successors a ++ pending).flatMap preorder := by
        rw [List.flatMap_cons, hpre, List.flatMap_append, List.cons_append]
      rw [hvisited] at hlength ⊢
      exact .step (ih _ (Nat.succ.inj hlength))

/-- A work list visits in preorder if its budget covers it. -/
theorem visit_eq_flatMap (successors preorder : α → List α)
    (hpre : ∀ a, preorder a = a :: (successors a).flatMap preorder) (budget : Nat) (pending : List α)
    (hb : (pending.flatMap preorder).length ≤ budget) : visit successors budget pending = pending.flatMap preorder :=
  (drains_flatMap preorder hpre pending).visit_eq hb

/-- Beside a loop runs every other one whose successors keep in step. -/
theorem Drains.forall₂ {R : α → β → Prop} {successors' : β → List β}
    (hsucc : ∀ a b, R a b → List.Forall₂ R (successors a) (successors' b)) {pending visited : List α}
    (h : Drains successors pending visited) : ∀ {pending' : List β}, List.Forall₂ R pending pending' →
      ∃ visited', Drains successors' pending' visited' ∧ List.Forall₂ R visited visited' := by
  induction h with
  | done =>
    intro pending' hall
    cases hall
    exact ⟨[], .done, .nil⟩
  | step _ ih =>
    intro pending' hall
    cases hall with
    | cons hab hrest =>
      obtain ⟨visited', hdrains, hvisited⟩ := ih (List.rel_append (hsucc _ _ hab) hrest)
      exact ⟨_ :: visited', .step hdrains, .cons hab hvisited⟩

end Loops

/-- Work lists whose successors keep in step visit what is in step. -/
theorem visit_forall₂ {α β : Type} {R : α → β → Prop} {successors : α → List α} {successors' : β → List β}
    (hsucc : ∀ a b, R a b → List.Forall₂ R (successors a) (successors' b)) (budget : Nat) :
    ∀ {pending : List α} {pending' : List β}, List.Forall₂ R pending pending' →
      List.Forall₂ R (visit successors budget pending) (visit successors' budget pending') := by
  induction budget with
  | zero => exact fun _ => .nil
  | succ budget ih =>
    intro pending pending' h
    cases h with
    | nil => exact .nil
    | cons hab hrest => exact .cons hab (ih (List.rel_append (hsucc _ _ hab) hrest))

namespace Protocol

theorem Node.preorderAll_eq_flatMap (ns : List Node) : Node.preorderAll ns = ns.flatMap Node.preorder := by
  induction ns with
  | nil => rfl
  | cons n ns ih => rw [Node.preorderAll, ih, List.flatMap_cons]

theorem Node.preorder_eq_cons (n : Node) : n.preorder = n :: n.childList.flatMap Node.preorder := by
  obtain ⟨c, children⟩ := n
  cases children with
  | none => rfl
  | some ns =>
    rw [Node.preorder, Node.preorderAll_eq_flatMap]
    rfl

/-- Walking a tree by work list is its preorder. -/
theorem Node.walk_eq_preorder (n : Node) : n.walk = n.preorder := by
  have hone : [n].flatMap Node.preorder = n.preorder := by simp
  rw [Node.walk, visit_eq_flatMap _ _ Node.preorder_eq_cons _ _ (by rw [hone]; exact Nat.le_refl _), hone]

end Protocol

end ComponentStream
