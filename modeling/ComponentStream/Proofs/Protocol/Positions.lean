import Mathlib.Data.List.Nodup
import ComponentStream.Proofs.Protocol.Grammar

/-!
# Positions in nodes and in raw values

A position in a node is the series of indices of children that leads there from the top.  The walks over a node that carry
marks along meet each position once, and the mark there is made of the indices alone.  What is written for a node holds
every occurrence at the end of the steps that its position spells.

* `Node.at?`, `Node.among?` — the node at a position, in a node or among several;
* `Node.replaceAt`, `Node.replaceAmong` — another node at a position, and what is unchanged;
* `Node.mem_marked_iff`, `Node.nodup_marks` — the marks of a walk, and that there are no two of one kind;
* `Value.follow`, `stepsTo` — the part of a value at the end of a path, and the steps that spell a position;
* `Node.mem_occurrences_iff`, `Node.nodup_ways` — the ways to the occurrences in a node;
* `Node.WrittenAs.follow` — the way to an occurrence leads to where it is written.
-/

namespace ComponentStream

open Json (Value)
open Shape (Path Segment)

namespace Protocol

/-! ### Positions -/

/-- The node at a position. -/
def Node.at? : Node → List Nat → Option Node
  | n, [] => some n
  | n, i :: w => n.childList[i]?.bind fun child => child.at? w

section Marks

variable {β : Type} {next : β → Nat → β}

mutual

/-- The marks in a node are those of its positions. -/
theorem Node.mem_marked_iff {m : Node} {x : β} : ∀ (n : Node) (mark : β),
    (m, x) ∈ n.marked next mark ↔ ∃ w, n.at? w = some m ∧ w.foldl next mark = x
  | ⟨c, none⟩, mark => by
    rw [Node.marked, List.mem_singleton, Prod.mk.injEq]
    constructor
    · rintro ⟨rfl, rfl⟩
      exact ⟨[], rfl, rfl⟩
    · rintro ⟨w, hat, hx⟩
      cases w with
      | nil => exact ⟨(Option.some.inj hat).symm, hx.symm⟩
      | cons i w => simp [Node.at?, Node.childList] at hat
  | ⟨c, some ns⟩, mark => by
    rw [Node.marked, List.mem_cons, Node.mem_markedAll_iff ns mark 0, Prod.mk.injEq]
    constructor
    · rintro (⟨rfl, rfl⟩ | ⟨i, n, w, hget, hat, hx⟩)
      · exact ⟨[], rfl, rfl⟩
      · exact ⟨i :: w, by simp [Node.at?, Node.childList, hget, hat], by simpa using hx⟩
    · rintro ⟨w, hat, hx⟩
      cases w with
      | nil => exact .inl ⟨(Option.some.inj hat).symm, hx.symm⟩
      | cons i w =>
        obtain ⟨n, hget, hat⟩ := Option.bind_eq_some_iff.mp hat
        exact .inr ⟨i, n, w, hget, hat, by simpa using hx⟩

theorem Node.mem_markedAll_iff {m : Node} {x : β} : ∀ (ns : List Node) (mark : β) (i : Nat),
    (m, x) ∈ Node.markedAll next mark i ns ↔
      ∃ (j : Nat) (n : Node) (w : List Nat), ns[j]? = some n ∧ n.at? w = some m ∧ w.foldl next (next mark (i + j)) = x
  | [], mark, i => by simp [Node.markedAll]
  | n :: ns, mark, i => by
    rw [Node.markedAll, List.mem_append, Node.mem_markedAll_iff ns mark (i + 1), Node.mem_marked_iff n (next mark i)]
    constructor
    · rintro (⟨j, n', w, hget, hat, hx⟩ | ⟨w, hat, hx⟩)
      · exact ⟨j + 1, n', w, hget, hat, by rwa [Nat.add_right_comm] at hx⟩
      · exact ⟨0, n, w, rfl, hat, hx⟩
    · rintro ⟨j, n', w, hget, hat, hx⟩
      cases j with
      | zero =>
        obtain rfl := Option.some.inj hget
        exact .inr ⟨w, hat, hx⟩
      | succ j => exact .inl ⟨j, n', w, hget, hat, by rwa [Nat.add_right_comm]⟩

end

mutual

/-- Where different positions have different marks, no two nodes of a walk have the same one. -/
theorem Node.nodup_marks : ∀ (n : Node) (mark : β), (Function.Injective fun w : List Nat => w.foldl next mark) →
    ((n.marked next mark).map Prod.snd).Nodup
  | ⟨c, none⟩, mark, _ => List.nodup_singleton _
  | ⟨c, some ns⟩, mark, hinj => by
    rw [Node.marked, List.map_cons, List.nodup_cons]
    refine ⟨fun hmem => ?_, Node.nodup_marksAll ns mark 0 hinj⟩
    obtain ⟨⟨m, x⟩, he, heq⟩ := List.mem_map.mp hmem
    obtain ⟨j, n, w, _, _, hx⟩ := (Node.mem_markedAll_iff ns mark 0).mp he
    exact absurd (@hinj ((0 + j) :: w) [] (hx.trans heq)) (List.cons_ne_nil _ _)

theorem Node.nodup_marksAll : ∀ (ns : List Node) (mark : β) (i : Nat),
    (Function.Injective fun w : List Nat => w.foldl next mark) → ((Node.markedAll next mark i ns).map Prod.snd).Nodup
  | [], _, _, _ => List.nodup_nil
  | n :: ns, mark, i, hinj => by
    have hbelow : Function.Injective fun w : List Nat => w.foldl next (next mark i) := fun w w' heq =>
      (List.cons.inj (@hinj (i :: w) (i :: w') heq)).2
    rw [Node.markedAll, List.map_append]
    refine (Node.nodup_marksAll ns mark (i + 1) hinj).append (Node.nodup_marks n (next mark i) hbelow) ?_
    -- the marks of later children go through a greater index
    intro x hlater hfirst
    obtain ⟨⟨m, x⟩, he, rfl⟩ := List.mem_map.mp hlater
    obtain ⟨⟨m', x'⟩, he', heq⟩ := List.mem_map.mp hfirst
    obtain ⟨j, _, w, _, _, hx⟩ := (Node.mem_markedAll_iff ns mark (i + 1)).mp he
    obtain ⟨w', _, hx'⟩ := (Node.mem_marked_iff n (next mark i)).mp he'
    have hwords : (i + 1 + j) :: w = i :: w' := @hinj ((i + 1 + j) :: w) (i :: w') (hx.trans (heq.symm.trans hx'.symm))
    have hindex : i + 1 + j = i := (List.cons.inj hwords).1
    omega

end

end Marks

/-! ### Ways -/

/-- The steps from a node to a position in it. -/
def stepsTo (w : List Nat) : Path := w.flatMap fun i => [.key "children", .index i]

theorem foldl_stepDown (path : Path) (w : List Nat) : w.foldl stepDown path = path ++ stepsTo w := by
  induction w generalizing path with
  | nil => exact (List.append_nil path).symm
  | cons i w ih => rw [List.foldl_cons, ih, stepDown, List.append_assoc]; rfl

theorem stepsTo_injective : Function.Injective stepsTo := by
  intro w
  induction w with
  | nil =>
    intro w' h
    cases w' with
    | nil => rfl
    | cons i w' => exact absurd h (by simp [stepsTo])
  | cons i w ih =>
    intro w' h
    cases w' with
    | nil => exact absurd h (by simp [stepsTo])
    | cons j w' =>
      have hsteps : i = j ∧ stepsTo w = stepsTo w' := by simpa [stepsTo] using h
      rw [hsteps.1, ih hsteps.2]

theorem Node.mem_occurrences_iff {n m : Node} {path way : Path} :
    (m, way) ∈ occurrences n path ↔ ∃ w, n.at? w = some m ∧ way = path ++ stepsTo w := by
  rw [Node.occurrences_eq_marked, Node.mem_marked_iff]
  simp only [foldl_stepDown, eq_comm]

/-- No two occurrences are at the end of the same way. -/
theorem Node.nodup_ways (n : Node) (path : Path) : ((occurrences n path).map Prod.snd).Nodup := by
  rw [Node.occurrences_eq_marked]
  refine Node.nodup_marks n path fun w w' heq => ?_
  simp only [foldl_stepDown] at heq
  exact stepsTo_injective (List.append_cancel_left heq)

theorem Node.mem_preorder_iff {n m : Node} : m ∈ n.preorder ↔ ∃ w, n.at? w = some m := by
  rw [← (Node.occurrences_perm n []).mem_iff, List.mem_map]
  constructor
  · rintro ⟨⟨m, way⟩, ho, rfl⟩
    obtain ⟨w, hat, _⟩ := Node.mem_occurrences_iff.mp ho
    exact ⟨w, hat⟩
  · rintro ⟨w, hat⟩
    exact ⟨(m, [] ++ stepsTo w), Node.mem_occurrences_iff.mpr ⟨w, hat, rfl⟩, rfl⟩

theorem Node.at?_append (n : Node) (w v : List Nat) : n.at? (w ++ v) = (n.at? w).bind fun m => m.at? v := by
  induction w generalizing n with
  | nil => rfl
  | cons i w ih => simp only [List.cons_append, Node.at?, ih, Option.bind_assoc]

/-! ### Several nodes -/

/-- The node at a position among several; the first index tells which of them it is in. -/
def Node.among? : List Node → List Nat → Option Node
  | _, [] => none
  | ns, i :: w => ns[i]?.bind fun n => n.at? w

/-- Whatever is found below a node that is found is found. -/
theorem Node.among?_append {ns : List Node} {n : Node} {w : List Nat} (h : Node.among? ns w = some n) (v : List Nat) :
    Node.among? ns (w ++ v) = n.at? v := by
  cases w with
  | nil => cases h
  | cons i w =>
    obtain ⟨root, hget, hat⟩ := Option.bind_eq_some_iff.mp h
    rw [List.cons_append, Node.among?, hget, Option.bind_some, Node.at?_append, hat, Option.bind_some]

/-! ### Replacing -/

/-- A node with another one at a position; it stays as it is if there is no such position. -/
def Node.replaceAt : Node → List Nat → Node → Node
  | _, [], m => m
  | n, i :: w, m => ⟨n.component, n.children.map fun ns => ns.modify i fun child => child.replaceAt w m⟩

/-- Several nodes with another one at a position. -/
def Node.replaceAmong : List Node → List Nat → Node → List Node
  | ns, [], _ => ns
  | ns, i :: w, m => ns.modify i fun n => n.replaceAt w m

theorem Node.childList_replaceAt_cons (n m : Node) (i : Nat) (w : List Nat) :
    (n.replaceAt (i :: w) m).childList = n.childList.modify i fun child => child.replaceAt w m := by
  obtain ⟨c, children⟩ := n
  cases children with
  | none => exact (List.modify_nil _ _).symm
  | some ns => rfl

theorem Node.at?_replaceAt (n : Node) (w : List Nat) (m : Node) : (n.replaceAt w m).at? w = (n.at? w).map fun _ => m := by
  induction w generalizing n with
  | nil => rfl
  | cons i w ih =>
    rw [Node.at?, Node.childList_replaceAt_cons, Node.at?]
    cases hget : n.childList[i]? <;> simp [hget, ih]

/-- Where the way to a position does not lead through, and which does not lead through it, everything stays. -/
theorem Node.at?_replaceAt_of_not_prefix (n : Node) {w v : List Nat} (m : Node) (houtside : ¬ w <+: v)
    (habove : ¬ v <+: w) : (n.replaceAt w m).at? v = n.at? v := by
  induction w generalizing n v with
  | nil => exact absurd List.nil_prefix houtside
  | cons i w ih =>
    cases v with
    | nil => exact absurd List.nil_prefix habove
    | cons j v =>
      rw [Node.at?, Node.childList_replaceAt_cons, Node.at?]
      by_cases hij : i = j
      · subst hij
        have hbelow : ∀ child : Node, (child.replaceAt w m).at? v = child.at? v := fun child =>
          ih child (fun h => houtside (List.cons_prefix_cons.mpr ⟨rfl, h⟩))
            fun h => habove (List.cons_prefix_cons.mpr ⟨rfl, h⟩)
        cases hget : n.childList[i]? <;> simp [hget, hbelow]
      · rw [List.getElem?_modify_ne _ _ hij]

-- several nodes are like the children of one above them
theorem Node.among?_replaceAmong (ns : List Node) (w : List Nat) (m : Node) :
    Node.among? (Node.replaceAmong ns w m) w = (Node.among? ns w).map fun _ => m := by
  cases w with
  | nil => rfl
  | cons i w => exact Node.at?_replaceAt ⟨default, some ns⟩ (i :: w) m

theorem Node.among?_replaceAmong_of_not_prefix (ns : List Node) {w v : List Nat} (m : Node) (houtside : ¬ w <+: v)
    (habove : ¬ v <+: w) : Node.among? (Node.replaceAmong ns w m) v = Node.among? ns v := by
  cases w with
  | nil => exact absurd List.nil_prefix houtside
  | cons i w =>
    cases v with
    | nil => exact absurd List.nil_prefix habove
    | cons j v => exact Node.at?_replaceAt_of_not_prefix ⟨default, some ns⟩ m houtside habove

end Protocol

/-! ### Following paths -/

namespace Json

/-- The part of a value at the end of a path. -/
def Value.follow : Value → Path → Option Value
  | v, [] => some v
  | .obj fields, .key name :: path => (Assoc.get? name fields).bind fun v => v.follow path
  | .arr vs, .index i :: path => vs[i]?.bind fun v => v.follow path
  | _, _ :: _ => none

theorem Value.follow_append (v : Value) (p q : Path) : v.follow (p ++ q) = (v.follow p).bind fun u => u.follow q := by
  induction p generalizing v with
  | nil => rfl
  | cons s p ih =>
    rw [List.cons_append]
    cases v with
    | obj fields =>
      cases s with
      | key name => simp only [follow, ih, Option.bind_assoc]
      | index i => rfl
    | arr vs =>
      cases s with
      | key name => rfl
      | index i => simp only [follow, ih, Option.bind_assoc]
    | _ => cases s <;> rfl

end Json

namespace Protocol

theorem Node.AllWrittenAs.exists_getElem? : ∀ {ns : List Node} {vs : List Value}, Node.AllWrittenAs ns vs →
    ∀ {i : Nat} {n : Node}, ns[i]? = some n → ∃ v, vs[i]? = some v ∧ n.WrittenAs v
  | _, _, .nil, _, _, hget => absurd hget (by simp)
  | _, _, .cons head _, 0, _, hget => ⟨_, rfl, Option.some.inj hget ▸ head⟩
  | _, _, .cons _ tail, _ + 1, _, hget => tail.exists_getElem? hget

/-- **The way to an occurrence leads to where it is written.** -/
theorem Node.WrittenAs.follow {n m : Node} {v : Value} {w : List Nat} (h : n.WrittenAs v) (hat : n.at? w = some m) :
    ∃ u, v.follow (stepsTo w) = some u ∧ m.WrittenAs u := by
  induction w generalizing n v with
  | nil => exact ⟨v, rfl, Option.some.inj hat ▸ h⟩
  | cons i w ih =>
    obtain ⟨child, hget, hbelow⟩ := Option.bind_eq_some_iff.mp hat
    cases h with
    | leaf => exact absurd hget (by simp [Node.childList])
    | parent _ hchildren hall =>
      obtain ⟨u, hu, hchild⟩ := hall.exists_getElem? hget
      obtain ⟨part, hpart, hm⟩ := ih hchild hbelow
      have hsteps : stepsTo (i :: w) = .key "children" :: .index i :: stepsTo w := rfl
      exact ⟨part, by simp [hsteps, Value.follow, hchildren, hu, hpart], hm⟩

/-- Behind it stand the members of the component. -/
theorem Node.WrittenAs.follow_member {n m : Node} {v : Value} {w : List Nat} (h : n.WrittenAs v)
    (hat : n.at? w = some m) :
    ∃ fields, m.component.WrittenIn fields ∧
      ∀ name, v.follow (stepsTo w ++ [.key name]) = Assoc.get? name fields := by
  obtain ⟨u, hu, hm⟩ := h.follow hat
  have hmember : ∀ fields name, u = .obj fields →
      v.follow (stepsTo w ++ [.key name]) = Assoc.get? name fields := by
    rintro fields name rfl
    rw [Value.follow_append, hu]
    exact Option.bind_fun_some _
  cases hm with
  | leaf component => exact ⟨_, component, fun name => hmember _ name rfl⟩
  | parent component => exact ⟨_, component, fun name => hmember _ name rfl⟩

end Protocol

end ComponentStream
