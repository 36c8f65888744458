import Mathlib.Data.List.Basic
import ComponentStream.Json.Writer

/-!
# Sizes of written values

The size of an object is the sum of what its members take, but for a byte or two.  A merge keeps members of either
object and makes no new ones, so it is no larger than both together — in one number format.  The format of a value
depends on all of its numbers, however: overriding a very large whole number changes how the doubles beside it are
written.  As the two formats differ by a plus sign in an exponent, this at most doubles a size.

* `weight` — the bytes that a text takes;
* `Near`, `Value.near` — the texts of a value in the two formats;
* `memberWeight`, `memberWeight_merge` — what the members of an object take, and those of a merge;
* `size_foldl_merge_le` — the size of an object after a series of merges.
-/

namespace ComponentStream.Json

/-! ### Bytes of texts -/

/-- The number of bytes that a text takes. -/
def weight (cs : List Char) : Nat := (Text.Utf8.encode cs).length

theorem weight_append (cs ds : List Char) : weight (cs ++ ds) = weight cs + weight ds := by
  rw [weight, Text.Utf8.encode, List.flatMap_append, List.length_append]
  rfl

theorem weight_cons (c : Char) (cs : List Char) : weight (c :: cs) = weight [c] + weight cs :=
  weight_append [c] cs

theorem weight_singleton_pos (c : Char) : 0 < weight [c] := by
  rw [weight, Text.Utf8.encode, List.flatMap_singleton, Text.Utf8.encodeScalar]
  split
  · exact Nat.one_pos
  · split
    · exact Nat.two_pos
    · split <;> simp

/-! ### The two number formats -/

/-- One text takes at most as many bytes as another, and at least half as many. -/
structure Near (cs ds : List Char) : Prop where
  le : weight cs ≤ weight ds
  le_two_mul : weight ds ≤ 2 * weight cs

namespace Near

variable {cs ds cs' ds' : List Char}

theorem refl (cs : List Char) : Near cs cs := ⟨Nat.le_refl _, by omega⟩

theorem append (h : Near cs ds) (h' : Near cs' ds') : Near (cs ++ cs') (ds ++ ds') where
  le := by
    rw [weight_append, weight_append]
    exact Nat.add_le_add h.le h'.le
  le_two_mul := by
    have h₁ := h.le_two_mul
    have h₂ := h'.le_two_mul
    rw [weight_append, weight_append]
    omega

theorem cons (c : Char) (h : Near cs ds) : Near (c :: cs) (c :: ds) := append (.refl [c]) h

end Near

/-- Behind another character, a sign at most doubles a text. -/
theorem near_plus (c : Char) (cs : List Char) : Near (c :: cs) (c :: '+' :: cs) := by
  have hc := weight_singleton_pos c
  have hplus : weight ['+'] = 1 := rfl
  have hshort := weight_cons c cs
  have hlong : weight (c :: '+' :: cs) = weight [c] + (weight ['+'] + weight cs) := by
    rw [weight_cons, weight_cons '+']
  exact ⟨by omega, by omega⟩

theorem near_exponentText (d : Number.Decimal) : Near (wideFormat.exponentText d) (usualFormat.exponentText d) := by
  rw [Number.Format.exponentText, Number.Format.exponentText]
  refine .append (.refl _) ?_
  by_cases hneg : d.point - 1 < 0
  · simp only [if_pos hneg]
    exact .refl _
  · simp only [if_neg hneg]
    exact near_plus 'e' _

theorem near_decimalText (d : Number.Decimal) : Near (wideFormat.decimalText d) (usualFormat.decimalText d) := by
  rw [Number.Format.decimalText, Number.Format.decimalText]
  show Near (if usualFormat.fixedFrom ≤ d.point - 1 ∧ d.point - 1 ≤ usualFormat.fixedTo then _ else _) _
  by_cases hfixed : usualFormat.fixedFrom ≤ d.point - 1 ∧ d.point - 1 ≤ usualFormat.fixedTo
  · rw [if_pos hfixed, if_pos hfixed]
    exact .refl _
  · rw [if_neg hfixed, if_neg hfixed]
    exact near_exponentText d

theorem near_write (x : Float) : Near (wideFormat.write x) (usualFormat.write x) := by
  rw [Number.Format.write, Number.Format.write]
  cases Number.view x with
  | finite negative m e =>
    cases negative with
    | true => exact .cons '-' (near_decimalText _)
    | false => exact near_decimalText _
  | infinite negative => exact .refl _
  | undefined => exact .refl _

namespace Value

mutual

/-- **The two formats of a value take about the same number of bytes.** -/
theorem near : ∀ v : Value, Near (v.chars wideFormat) (v.chars usualFormat)
  | .null => .refl _
  | .bool true => .refl _
  | .bool false => .refl _
  | .int _ => .refl _
  | .float x => near_write x
  | .str _ => .refl _
  | .arr [] => .refl _
  | .arr (v :: vs) => .cons '[' (.append v.near (near_tailChars vs))
  | .obj [] => .refl _
  | .obj ((k, v) :: fields) =>
    .cons '\x7b' (.append (.refl (stringChars k)) (.cons ':' (.append v.near (near_fieldsTailChars fields))))

theorem near_tailChars : ∀ vs : List Value, Near (tailChars wideFormat vs) (tailChars usualFormat vs)
  | [] => .refl _
  | v :: vs => .cons ',' (.append v.near (near_tailChars vs))

theorem near_fieldsTailChars : ∀ fields : List (String × Value),
    Near (fieldsTailChars wideFormat fields) (fieldsTailChars usualFormat fields)
  | [] => .refl _
  | (k, v) :: fields =>
    .cons ',' (.append (.refl (stringChars k)) (.cons ':' (.append v.near (near_fieldsTailChars fields))))

end

/-- A size is at least that of the text without plus signs. -/
theorem weight_le_size (v : Value) : weight (v.chars wideFormat) ≤ v.size := by
  show _ ≤ weight (v.chars v.format)
  rw [format]
  split
  · exact v.near.le
  · exact Nat.le_refl _

/-- And it is at most twice that. -/
theorem size_le_two_mul (v : Value) : v.size ≤ 2 * weight (v.chars wideFormat) := by
  show weight (v.chars v.format) ≤ _
  rw [format]
  split
  · exact v.near.le_two_mul
  · omega

/-! ### Members of objects -/

variable {f : Number.Format}

/-- The bytes that a member takes, with the comma or brace that stands before it. -/
def entryWeight (f : Number.Format) : String × Value → Nat
  | (k, v) => 1 + weight (stringChars k ++ ':' :: v.chars f)

/-- The bytes that all members of an object take. -/
def memberWeight (f : Number.Format) : Assoc Value → Nat
  | [] => 0
  | e :: fields => entryWeight f e + memberWeight f fields

theorem weight_fieldsTailChars (fields : Assoc Value) :
    weight (fieldsTailChars f fields) = memberWeight f fields + 1 := by
  induction fields with
  | nil => rfl
  | cons e fields ih =>
    obtain ⟨k, v⟩ := e
    have hcomma : weight [','] = 1 := rfl
    rw [fieldsTailChars, weight_cons, hcomma, ← List.cons_append, ← List.append_assoc, weight_append, ih,
      memberWeight, entryWeight, Nat.add_assoc, Nat.add_assoc]

/-- An object takes what its members take and the closing brace, an empty one its two braces. -/
theorem weight_obj (fields : Assoc Value) :
    weight ((obj fields).chars f) = max 2 (memberWeight f fields + 1) := by
  cases fields with
  | nil => rfl
  | cons e fields =>
    obtain ⟨k, v⟩ := e
    have hpos : 1 ≤ memberWeight f ((k, v) :: fields) := by
      rw [memberWeight, entryWeight]
      omega
    exact (weight_fieldsTailChars ((k, v) :: fields)).trans (by omega)

/-- An entry that comes in takes its place in the sum, whatever it replaces. -/
theorem memberWeight_insert (k : String) (v : Value) (fields : Assoc Value) :
    memberWeight f (Assoc.insert k v fields) ≤ memberWeight f fields + entryWeight f (k, v) := by
  induction fields with
  | nil => exact Nat.le_of_eq (Nat.add_comm _ _)
  | cons e fields ih =>
    obtain ⟨k', v'⟩ := e
    rw [Assoc.insert]
    by_cases hk : k' = k
    · subst hk
      rw [if_pos rfl, memberWeight, memberWeight]
      omega
    · rw [if_neg hk, memberWeight, memberWeight]
      omega

/-- **A merge takes no more than both of its sides.** -/
theorem memberWeight_merge (fields patch : Assoc Value) :
    memberWeight f (Assoc.merge fields patch) ≤ memberWeight f fields + memberWeight f patch := by
  induction patch generalizing fields with
  | nil => exact Nat.le_refl _
  | cons e patch ih =>
    obtain ⟨k, v⟩ := e
    calc memberWeight f (Assoc.merge fields ((k, v) :: patch))
        = memberWeight f (Assoc.merge (Assoc.insert k v fields) patch) := rfl
      _ ≤ memberWeight f (Assoc.insert k v fields) + memberWeight f patch := ih _
      _ ≤ memberWeight f fields + entryWeight f (k, v) + memberWeight f patch :=
          Nat.add_le_add_right (memberWeight_insert k v fields) _
      _ = memberWeight f fields + memberWeight f ((k, v) :: patch) := by
          rw [memberWeight, Nat.add_assoc]

/-- The text without plus signs of a merge takes no more than those of both sides. -/
theorem weight_merge_le (fields patch : Assoc Value) :
    weight ((obj (Assoc.merge fields patch)).chars f) ≤
      weight ((obj fields).chars f) + weight ((obj patch).chars f) := by
  have hmerge := memberWeight_merge (f := f) fields patch
  rw [weight_obj, weight_obj, weight_obj]
  omega

/-- **After a series of merges** of objects of limited size, the size is at most twice the limit for each of them. -/
theorem size_foldl_merge_le {maximum : Nat} {base : Assoc Value} {patches : List (Assoc Value)}
    (hbase : (obj base).size ≤ maximum) (hpatches : ∀ patch ∈ patches, (obj patch).size ≤ maximum) :
    (obj (patches.foldl Assoc.merge base)).size ≤ 2 * (maximum * (patches.length + 1)) := by
  have hall : ∀ fields, weight ((obj (patches.foldl Assoc.merge fields)).chars wideFormat) ≤
      weight ((obj fields).chars wideFormat) + maximum * patches.length := by
    induction patches with
    | nil => exact fun _ => Nat.le_refl _
    | cons patch patches ih =>
      intro fields
      have hrest := ih (fun p hp => hpatches p (List.mem_cons_of_mem _ hp)) (Assoc.merge fields patch)
      have hmerge := weight_merge_le (f := wideFormat) fields patch
      have hpatch := weight_le_size (obj patch)
      have hle := hpatches patch List.mem_cons_self
      rw [List.foldl_cons, List.length_cons, Nat.mul_succ]
      omega
  have hweight := weight_le_size (obj base)
  have hsize := size_le_two_mul (obj (patches.foldl Assoc.merge base))
  have hmerged := hall base
  rw [Nat.mul_succ]
  omega

end Value

end ComponentStream.Json
