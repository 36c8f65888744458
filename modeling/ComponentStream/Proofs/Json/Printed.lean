import ComponentStream.Json.Writer

/-!
# Texts of values

The text of a value holds no control character, and it begins and ends with a visible one: there is nothing at its ends
that could be taken for the blanks around it.

* `Visible`, `Ended`, `Solid` — visible characters, and texts of this kind;
* `solid_stringChars`, `solid_intChars`, `solid_write` — strings and numbers;
* `Value.solid_chars` — every value, in either number format.
-/

namespace ComponentStream.Json

open Number (Format)

/-- The formats in which doubles are written. -/
def wireFormats : List Format := [usualFormat, wideFormat]

theorem Value.format_mem (v : Value) : v.format ∈ wireFormats := by
  rw [Value.format]
  split <;> simp [wireFormats]

/-! ### Solid texts -/

/-- A character of ASCII that is neither a blank nor a control. -/
def Visible (c : Char) : Prop := 0x20 < c.toNat ∧ c.toNat < 0x7F

instance (c : Char) : Decidable (Visible c) := inferInstanceAs (Decidable (_ ∧ _))

theorem visible_of_all {cs : List Char} (h : cs.all (fun c => decide (Visible c)) = true) : ∀ c ∈ cs, Visible c := by
  simpa using h

/-- A text without control characters that ends visibly. -/
structure Ended (cs : List Char) : Prop where
  le : ∀ c ∈ cs, 0x20 ≤ c.toNat
  last : ∃ c front, cs = front ++ [c] ∧ Visible c

/-- And that begins visibly too. -/
structure Solid (cs : List Char) : Prop extends Ended cs where
  first : ∃ c rest, cs = c :: rest ∧ Visible c

theorem Ended.append {cs ds : List Char} (hcs : ∀ c ∈ cs, 0x20 ≤ c.toNat) (h : Ended ds) : Ended (cs ++ ds) where
  le := List.forall_mem_append.mpr ⟨hcs, h.le⟩
  last := by
    obtain ⟨c, front, rfl, hc⟩ := h.last
    exact ⟨c, cs ++ front, (List.append_assoc _ _ _).symm, hc⟩

theorem Ended.cons {c : Char} {cs : List Char} (hc : 0x20 ≤ c.toNat) (h : Ended cs) : Ended (c :: cs) :=
  .append (List.forall_mem_singleton.mpr hc) h

theorem Ended.singleton {c : Char} (hc : Visible c) : Ended [c] :=
  ⟨List.forall_mem_singleton.mpr (Nat.le_of_lt hc.1), c, [], rfl, hc⟩

theorem Solid.cons {c : Char} {cs : List Char} (hc : Visible c) (h : Ended cs) : Solid (c :: cs) :=
  ⟨h.cons (Nat.le_of_lt hc.1), c, cs, rfl, hc⟩

theorem Solid.of_visible {cs : List Char} (hne : cs ≠ []) (h : ∀ c ∈ cs, Visible c) : Solid cs where
  le c hc := Nat.le_of_lt (h c hc).1
  first := by
    obtain ⟨c, rest, rfl⟩ := List.exists_cons_of_ne_nil hne
    exact ⟨c, rest, rfl, h c List.mem_cons_self⟩
  last := ⟨cs.getLast hne, cs.dropLast, (List.dropLast_concat_getLast hne).symm, h _ (List.getLast_mem hne)⟩

/-! ### Strings -/

theorem le_escape_control : ∀ n < 0x20, (escape (Char.ofNat n)).all (fun d => decide (0x20 ≤ d.toNat)) = true := by
  decide

/-- From U+0020 on only the quote and the backslash are escaped. -/
theorem escape_of_le {c : Char} (h : 0x20 ≤ c.toNat) : escape c = if c = '"' ∨ c = '\\' then ['\\', c] else [c] := by
  have hne : ∀ d : Char, d.toNat < 0x20 → c ≠ d := fun d hd heq => by
    rw [← heq] at hd
    omega
  rw [escape, if_neg (hne '\x08' (by decide)), if_neg (hne '\x0c' (by decide)), if_neg (hne '\n' (by decide)),
    if_neg (hne '\r' (by decide)), if_neg (hne '\t' (by decide)), if_neg (Nat.not_lt.mpr h)]

theorem le_escape (c : Char) : ∀ d ∈ escape c, 0x20 ≤ d.toNat := by
  by_cases h : c.toNat < 0x20
  · have hcontrol := le_escape_control c.toNat h
    rw [Char.ofNat_toNat] at hcontrol
    simpa using hcontrol
  · have hle : 0x20 ≤ c.toNat := Nat.le_of_not_lt h
    rw [escape_of_le hle]
    split
    · exact List.forall_mem_cons.mpr ⟨by decide, List.forall_mem_singleton.mpr hle⟩
    · exact List.forall_mem_singleton.mpr hle

theorem solid_stringChars (s : String) : Solid (stringChars s) := by
  have hbody : ∀ d ∈ s.toList.flatMap escape, 0x20 ≤ d.toNat := fun d hd => by
    obtain ⟨c, _, hmem⟩ := List.mem_flatMap.mp hd
    exact le_escape c d hmem
  exact .cons (by decide) (.append hbody (.singleton (by decide)))

/-! ### Numbers -/

theorem visible_of_isDigit {c : Char} (h : c.isDigit = true) : Visible c := by
  rw [Char.isDigit, Bool.and_eq_true, decide_eq_true_iff, decide_eq_true_iff] at h
  have hlow : 48 ≤ c.toNat := h.1
  have hhigh : c.toNat ≤ 57 := h.2
  exact ⟨by omega, by omega⟩

theorem visible_of_mem_toDigits {n : Nat} {c : Char} (h : c ∈ Nat.toDigits 10 n) : Visible c :=
  visible_of_isDigit (Nat.isDigit_of_mem_toDigits (by decide) (by decide) h)

theorem solid_intChars (n : Int) : Solid (intChars n) := by
  rw [intChars]
  split
  · refine .of_visible (List.cons_ne_nil _ _) fun c hc => ?_
    rcases List.mem_cons.mp hc with rfl | hc
    · decide
    · exact visible_of_mem_toDigits hc
  · exact .of_visible Nat.toDigits_ne_nil fun c hc => visible_of_mem_toDigits hc

theorem visible_of_mem_shortest {m : Nat} {e : Int} {c : Char} (h : c ∈ (Number.shortest m e).digits) : Visible c := by
  rw [Number.shortest] at h
  split at h
  · rw [List.mem_singleton.mp h]
    decide
  · exact visible_of_mem_toDigits
      (List.mem_reverse.mp ((List.dropWhile_suffix _).subset (List.mem_reverse.mp h)))

theorem visible_replicate_zero (n : Nat) : ∀ c ∈ List.replicate n '0', Visible c := fun c hc => by
  rw [List.eq_of_mem_replicate hc]
  decide

theorem visible_append {cs ds : List Char} (hcs : ∀ c ∈ cs, Visible c) (hds : ∀ c ∈ ds, Visible c) :
    ∀ c ∈ cs ++ ds, Visible c := List.forall_mem_append.mpr ⟨hcs, hds⟩

theorem visible_cons {c : Char} {cs : List Char} (hc : Visible c) (hcs : ∀ d ∈ cs, Visible d) :
    ∀ d ∈ c :: cs, Visible d := List.forall_mem_cons.mpr ⟨hc, hcs⟩

section Decimals

variable {d : Number.Decimal}

theorem visible_fixedText (hd : ∀ c ∈ d.digits, Visible c) : ∀ c ∈ Number.fixedText d, Visible c := by
  rw [Number.fixedText]
  repeat' split
  · exact visible_cons (by decide) (visible_cons (by decide) (visible_append (visible_replicate_zero _) hd))
  · exact visible_append (visible_append hd (visible_replicate_zero _)) (visible_of_all (by decide))
  · exact visible_append (fun c hc => hd c (List.mem_of_mem_take hc))
      (visible_cons (by decide) fun c hc => hd c (List.mem_of_mem_drop hc))

theorem visible_exponentText (f : Format) (hd : ∀ c ∈ d.digits, Visible c) : ∀ c ∈ f.exponentText d, Visible c := by
  rw [Format.exponentText]
  have hexponent : ∀ c ∈ Number.padLeft f.exponentWidth (Nat.toDigits 10 (d.point - 1).natAbs), Visible c :=
    visible_append (visible_replicate_zero _) fun c hc => visible_of_mem_toDigits hc
  refine visible_append ?_ (visible_cons (by decide) (visible_append ?_ hexponent))
  · split
    · exact fun c hc => absurd hc List.not_mem_nil
    · rename_i heq
      exact heq ▸ hd
    · rename_i heq
      rw [heq] at hd
      exact visible_cons (hd _ List.mem_cons_self) (visible_cons (by decide) fun c hc => hd c (List.mem_cons_of_mem _ hc))
  · split
    · exact visible_of_all (by decide)
    · split <;> exact visible_of_all (by decide)

theorem fixedText_ne_nil : Number.fixedText d ≠ [] := by
  rw [Number.fixedText]
  repeat' split
  all_goals simp

theorem solid_decimalText (f : Format) (hd : ∀ c ∈ d.digits, Visible c) : Solid (f.decimalText d) := by
  rw [Format.decimalText]
  split
  · exact .of_visible fixedText_ne_nil (visible_fixedText hd)
  · exact .of_visible (List.append_ne_nil_of_right_ne_nil _ (List.cons_ne_nil _ _)) (visible_exponentText f hd)

end Decimals

theorem solid_write {f : Format} (hf : f ∈ wireFormats) (x : Float) : Solid (f.write x) := by
  have hnull : Solid "null".toList := .of_visible (by decide) (visible_of_all (by decide))
  have hnames : f.infinity = "null" ∧ f.undefined = "null" := by
    have hcases : f = usualFormat ∨ f = wideFormat := by simpa [wireFormats] using hf
    rcases hcases with rfl | rfl <;> exact ⟨rfl, rfl⟩
  rw [Format.write, hnames.1, hnames.2]
  split
  · rename_i m e _
    have htext := solid_decimalText (d := Number.shortest m e) f fun c hc => visible_of_mem_shortest hc
    split
    · exact .cons (by decide) htext.toEnded
    · exact htext
  · split
    · exact .cons (by decide) hnull.toEnded
    · exact hnull
  · exact hnull

/-! ### Values -/

namespace Value

variable {f : Format}

mutual

/-- **The text of a value has visible ends and no control character.** -/
theorem solid_chars (hf : f ∈ wireFormats) : ∀ v : Value, Solid (v.chars f)
  | .null => .of_visible (List.cons_ne_nil _ _) (visible_of_all (by rw [chars]; decide))
  | .bool true => .of_visible (List.cons_ne_nil _ _) (visible_of_all (by rw [chars]; decide))
  | .bool false => .of_visible (List.cons_ne_nil _ _) (visible_of_all (by rw [chars]; decide))
  | .int n => solid_intChars n
  | .float x => solid_write hf x
  | .str s => solid_stringChars s
  | .arr [] => .cons (by decide) (.singleton (by decide))
  | .arr (v :: vs) => .cons (by decide) (.append (solid_chars hf v).le (ended_tailChars hf vs))
  | .obj [] => .cons (by decide) (.singleton (by decide))
  | .obj ((k, v) :: fields) =>
    .cons (by decide) (.append (solid_stringChars k).le
      (.cons (by decide) (.append (solid_chars hf v).le (ended_fieldsTailChars hf fields))))

theorem ended_tailChars (hf : f ∈ wireFormats) : ∀ vs : List Value, Ended (tailChars f vs)
  | [] => .singleton (by decide)
  | v :: vs => .cons (by decide) (.append (solid_chars hf v).le (ended_tailChars hf vs))

theorem ended_fieldsTailChars (hf : f ∈ wireFormats) : ∀ fields : List (String × Value), Ended (fieldsTailChars f fields)
  | [] => .singleton (by decide)
  | (k, v) :: fields =>
    .cons (by decide) (.append (solid_stringChars k).le
      (.cons (by decide) (.append (solid_chars hf v).le (ended_fieldsTailChars hf fields))))

end

theorem solid_compact (v : Value) : Solid v.compact := solid_chars v.format_mem v

end Value

end ComponentStream.Json
