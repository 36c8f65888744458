import ComponentStream.Proofs.Json.Codec
import ComponentStream.Proofs.Protocol.Positions

/-!
# Parts of values

What stands at the end of a path in a value has no whole numbers that the value does not have, and no more levels.  So
whatever could be read or written as a part of something could be read or written by itself, and this holds of the
properties of every component in a node.

* `Value.nesting_le_of_follow`, `Value.integers_subset_of_follow` — levels and whole numbers of a part;
* `Value.Short.follow`, `Value.isWritable_of_follow` — what follows for reading and writing;
* `Node.WrittenAs.follow_props` — the properties in a node as parts of its value;
* `Node.short_props` — the numbers in properties that were read from a text.
-/

namespace ComponentStream

namespace Json.Value

variable {u v : Value} {path : Shape.Path} {levels : Nat}

/-- The kinds of step into a value. -/
theorem exists_of_follow_cons {s : Shape.Segment} (h : v.follow (s :: path) = some u) :
    (∃ vs, v = .arr vs ∧ ∃ w ∈ vs, w.follow path = some u) ∨
      ∃ fields, v = .obj fields ∧ ∃ e ∈ fields, e.2.follow path = some u := by
  cases v with
  | arr vs =>
    cases s with
    | key name => cases h
    | index i =>
      obtain ⟨w, hget, hw⟩ := Option.bind_eq_some_iff.mp h
      exact .inl ⟨vs, rfl, w, List.mem_of_getElem? hget, hw⟩
  | obj fields =>
    cases s with
    | key name =>
      obtain ⟨w, hget, hw⟩ := Option.bind_eq_some_iff.mp h
      exact .inr ⟨fields, rfl, _, Assoc.mem_of_get? hget, hw⟩
    | index i => cases h
  | _ => cases s <;> cases h

theorem nesting_le_nestingAll {w : Value} {vs : List Value} (h : w ∈ vs) : w.nesting ≤ nestingAll vs := by
  induction vs with
  | nil => cases h
  | cons v vs ih =>
    rw [nestingAll]
    rcases List.mem_cons.mp h with rfl | h
    · exact Nat.le_max_left _ _
    · exact (ih h).trans (Nat.le_max_right _ _)

theorem nesting_le_nestingFields {e : String × Value} {fields : List (String × Value)} (h : e ∈ fields) :
    e.2.nesting ≤ nestingFields fields := by
  induction fields with
  | nil => cases h
  | cons field fields ih =>
    rw [nestingFields]
    rcases List.mem_cons.mp h with rfl | h
    · exact Nat.le_max_left _ _
    · exact (ih h).trans (Nat.le_max_right _ _)

theorem nesting_le_of_follow (h : v.follow path = some u) : u.nesting ≤ v.nesting := by
  induction path generalizing v with
  | nil => rw [Option.some.inj h]
  | cons s path ih =>
    rcases exists_of_follow_cons h with ⟨vs, rfl, w, hmem, hw⟩ | ⟨fields, rfl, e, hmem, hw⟩
    · exact (ih hw).trans ((nesting_le_nestingAll hmem).trans (Nat.le_succ _))
    · exact (ih hw).trans ((nesting_le_nestingFields hmem).trans (Nat.le_succ _))

theorem integers_subset_of_follow (h : v.follow path = some u) : ∀ n ∈ u.integers, n ∈ v.integers := by
  induction path generalizing v with
  | nil => rw [Option.some.inj h]; exact fun _ => id
  | cons s path ih =>
    intro n hn
    rcases exists_of_follow_cons h with ⟨vs, rfl, w, hmem, hw⟩ | ⟨fields, rfl, e, hmem, hw⟩
    · exact mem_integersAll_iff.mpr ⟨w, hmem, ih hw n hn⟩
    · exact mem_integersFields_iff.mpr ⟨e, hmem, ih hw n hn⟩

theorem Short.follow (hv : v.Short) (h : v.follow path = some u) : u.Short := fun n hn =>
  hv n (integers_subset_of_follow h n hn)

/-- **A part of what can be written can be written.** -/
theorem isWritable_of_follow (hv : v.isWritable levels = true) (h : v.follow path = some u) :
    u.isWritable levels = true := by
  have hnesting := nesting_le_of_follow h
  have hintegers := integers_subset_of_follow h
  rw [isWritable_iff, format_eq_usualFormat_iff, fits64_iff, isShowable_iff] at hv ⊢
  rcases hv with ⟨hfits, hlow⟩ | ⟨hlow, hshown⟩
  · exact .inl ⟨fun n hn => hfits n (hintegers n hn), hnesting.trans hlow⟩
  · exact .inr ⟨hnesting.trans hlow, fun n hn => hshown n (hintegers n hn)⟩

end Json.Value

namespace Protocol

open Json (Value)

theorem Node.WrittenAs.follow_props {n m : Node} {v : Value} {w : List Nat} (h : n.WrittenAs v) (hat : n.at? w = some m) :
    v.follow (stepsTo w ++ [.key "props"]) = some (.obj m.component.props) := by
  obtain ⟨fields, hwritten, hmember⟩ := h.follow_member hat
  exact (hmember "props").trans hwritten.props

/-- Wherever a component is in a node that was read from a text, none of its properties has too long a number. -/
theorem Node.short_props {s : List Char} {v : Value} {n m : Node} {w : List Nat} (hread : Json.read s = some v)
    (hcheck : Node.check v = .ok n) (hat : n.at? w = some m) : (Value.obj m.component.props).Short :=
  (Json.short_of_read hread).follow (((Node.check_eq_ok_iff v n).mp hcheck).1.follow_props hat)

end Protocol

end ComponentStream
