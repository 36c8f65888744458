import Mathlib.Algebra.Group.Int.Defs
import Mathlib.Algebra.Group.Nat.Defs
import Mathlib.Data.List.TakeWhile
import ComponentStream.Proofs.Assoc
import ComponentStream.Proofs.Json.Levels
import ComponentStream.Proofs.Json.Printed
import ComponentStream.Proofs.Text.Utf8

/-!
# Reading what is written

The reader gives back every value that it can tell apart: objects have to have distinct names, doubles a text that is read
as the same double, and whole numbers one that is not too long.  Within a bound on levels, it gives the value back if this
has no more of them, and gives up otherwise.

* `Value.Faithful` — the values of this kind;
* `stringBody_flatMap_escape` — strings;
* `Ends`, `number_append` — a number stays what it is when a comma or a closing bracket follows it;
* `withinLevels`, `Reads` — a value in front of such a continuation;
* `Value.reads` — every faithful value, by recursion on the value;
* `readWithin_chars`, `read_chars` — whole texts;
* `readWithin_intChars_of_long` — whole numbers that are too long.
-/

namespace ComponentStream.Json

/-! ### Values that are read back -/

/-- The text of a double, in either notation, is read as that double. -/
def ReadsBack (x : Float) : Prop := ∀ f ∈ wireFormats, read (f.write x) = some (.float x)

namespace Value

mutual

/-- A value all of whose parts are read back: whole numbers that are not too long, doubles that are read as they are, and
objects with distinct names. -/
def Faithful : Value → Prop
  | .int n => (intChars n).length ≤ maxLength
  | .float x => ReadsBack x
  | .arr vs => AllFaithful vs
  | .obj fields => Assoc.Distinct fields ∧ FieldsFaithful fields
  | _ => True

def AllFaithful : List Value → Prop
  | [] => True
  | v :: vs => v.Faithful ∧ AllFaithful vs

def FieldsFaithful : List (String × Value) → Prop
  | [] => True
  | (_, v) :: fields => v.Faithful ∧ FieldsFaithful fields

end

end Value

/-! ### Strings -/

theorem hex4?_hexDigits : ∀ n < 0x20, hex4? (Text.hexDigit (n / 16 / 16 / 16 % 16)) (Text.hexDigit (n / 16 / 16 % 16))
    (Text.hexDigit (n / 16 % 16)) (Text.hexDigit (n % 16)) = some n := by decide

theorem stringBody_escaped {e c : Char} (he : e ≠ 'u') (hc : escaped? e = some c) (rest : List Char) :
    stringBody ('\\' :: e :: rest) = consChar c (stringBody rest) := by
  rw [stringBody.eq_def]
  simp only [if_neg (by decide : ¬ '\\' = '"'), if_pos, if_neg he, hc]

theorem stringBody_codePoint {a b c d : Char} {n : Nat} (hn : n < 0x20) (hx : hex4? a b c d = some n)
    (rest : List Char) :
    stringBody ('\\' :: 'u' :: a :: b :: c :: d :: rest) = consChar (Char.ofNat n) (stringBody rest) := by
  have hhigh : ¬ (0xD800 ≤ n ∧ n < 0xDC00) := by omega
  have hlow : ¬ (0xDC00 ≤ n ∧ n < 0xE000) := by omega
  rw [stringBody.eq_def]
  simp only [if_neg (by decide : ¬ '\\' = '"'), if_pos, hx, if_neg hhigh, if_neg hlow]

theorem stringBody_plain {c : Char} (hquoted : ¬ (c = '"' ∨ c = '\\')) (hcontrol : ¬ c.toNat < 0x20)
    (rest : List Char) : stringBody (c :: rest) = consChar c (stringBody rest) := by
  rw [not_or] at hquoted
  rw [stringBody.eq_def]
  simp only [if_neg hquoted.1, if_neg hquoted.2, if_neg hcontrol]

/-- What is written for a character inside a string is read as that character. -/
theorem stringBody_escape (c : Char) (rest : List Char) :
    stringBody (escape c ++ rest) = consChar c (stringBody rest) := by
  rw [escape]
  split_ifs with hquoted hb hf hn hr ht hcontrol
  · refine stringBody_escaped ?_ ?_ rest <;> rcases hquoted with rfl | rfl <;> decide
  · exact hb ▸ stringBody_escaped (by decide) (by decide) rest
  · exact hf ▸ stringBody_escaped (by decide) (by decide) rest
  · exact hn ▸ stringBody_escaped (by decide) (by decide) rest
  · exact hr ▸ stringBody_escaped (by decide) (by decide) rest
  · exact ht ▸ stringBody_escaped (by decide) (by decide) rest
  · have hread := stringBody_codePoint hcontrol (hex4?_hexDigits c.toNat hcontrol) rest
    rwa [Char.ofNat_toNat] at hread
  · exact stringBody_plain hquoted hcontrol rest

theorem stringBody_flatMap_escape (cs rest : List Char) :
    stringBody (cs.flatMap escape ++ '"' :: rest) = some (cs, rest) := by
  induction cs with
  | nil =>
    rw [List.flatMap_nil, List.nil_append, stringBody.eq_def]
    rfl
  | cons c cs ih => rw [List.flatMap_cons, List.append_assoc, stringBody_escape, ih, consChar]

/-! ### Numbers -/

/-- What follows a value inside a text: nothing, a comma or a closing bracket. -/
def Ends (rest : List Char) : Prop := ∀ c ∈ rest.head?, c = ',' ∨ c = ']' ∨ c = '\x7d'

section Numbers

variable {range : Range} {rest s r : List Char} {v : Value}

theorem Ends.cons {c : Char} (hc : c = ',' ∨ c = ']' ∨ c = '\x7d') (rest : List Char) : Ends (c :: rest) := by
  intro d hd
  rw [List.head?_cons, Option.mem_some_iff] at hd
  exact hd ▸ hc

theorem Ends.not_isDigit {c : Char} (h : Ends (c :: rest)) : c.isDigit = false := by
  rcases h c rfl with rfl | rfl | rfl <;> decide

/-- Digits do not go on behind a value. -/
theorem digits_append (h : Ends rest) (s : List Char) :
    digits (s ++ rest) = digits s ∧ afterDigits (s ++ rest) = afterDigits s ++ rest := by
  induction s with
  | nil =>
    cases rest with
    | nil => exact ⟨rfl, rfl⟩
    | cons c rest => simp [digits, afterDigits, h.not_isDigit]
  | cons c s ih =>
    obtain ⟨hdigits, hafter⟩ := ih
    rw [digits, digits] at hdigits
    rw [afterDigits, afterDigits] at hafter
    by_cases hc : c.isDigit = true <;> simp [digits, afterDigits, hc, hdigits, hafter]

theorem wholePart_append (h : Ends rest) {whole : List Char} (hs : wholePart s = some (whole, r)) :
    wholePart (s ++ rest) = some (whole, r ++ rest) := by
  cases s with
  | nil => exact absurd hs (by simp [wholePart, digits])
  | cons c s =>
    by_cases hc : c = '0'
    · subst hc
      cases hs
      rfl
    · have hcons : ∀ t, wholePart (c :: t) =
          if digits (c :: t) = [] then none else some (digits (c :: t), afterDigits (c :: t)) := by
        simp [wholePart, hc]
      obtain ⟨hdigits, hafter⟩ := digits_append h (c :: s)
      rw [List.cons_append] at hdigits hafter ⊢
      rw [hcons] at hs ⊢
      rw [hdigits, hafter]
      split at hs
      · exact absurd hs (by simp)
      · rename_i hne
        cases hs
        rw [if_neg hne]

theorem fractionPart_append (h : Ends rest) {fraction : List Char} (hs : fractionPart s = some (fraction, r)) :
    fractionPart (s ++ rest) = some (fraction, r ++ rest) := by
  cases s with
  | nil =>
    cases hs
    cases rest with
    | nil => rfl
    | cons c rest => rcases h c rfl with rfl | rfl | rfl <;> rfl
  | cons c s =>
    by_cases hc : c = '.'
    · subst hc
      obtain ⟨hdigits, hafter⟩ := digits_append h s
      rw [List.cons_append, fractionPart, hdigits, hafter]
      rw [fractionPart] at hs
      split at hs
      · exact absurd hs (by simp)
      · rename_i hne
        cases hs
        rw [if_neg hne]
    · have hcons : ∀ t, fractionPart (c :: t) = some ([], c :: t) := by simp [fractionPart, hc]
      rw [hcons] at hs
      cases hs
      exact hcons _

theorem exponentDigits_append (h : Ends rest) {negative : Bool} {exponent : Option Int}
    (hs : exponentDigits negative s = some (exponent, r)) :
    exponentDigits negative (s ++ rest) = some (exponent, r ++ rest) := by
  obtain ⟨hdigits, hafter⟩ := digits_append h s
  rw [exponentDigits] at hs ⊢
  rw [hdigits, hafter]
  split at hs
  · exact absurd hs (by simp)
  · rename_i hne
    cases hs
    rw [if_neg hne]

theorem exponentPart_append (h : Ends rest) {exponent : Option Int} (hs : exponentPart s = some (exponent, r)) :
    exponentPart (s ++ rest) = some (exponent, r ++ rest) := by
  cases s with
  | nil =>
    cases hs
    cases rest with
    | nil => rfl
    | cons c rest => rcases h c rfl with rfl | rfl | rfl <;> rfl
  | cons c s =>
    by_cases hc : c = 'e' ∨ c = 'E'
    · cases s with
      | nil => exact absurd hs (by simp [exponentPart, hc, exponentDigits, digits])
      | cons d s =>
        by_cases hplus : d = '+'
        · subst hplus
          simp only [List.cons_append, exponentPart, if_pos hc] at hs ⊢
          exact exponentDigits_append h hs
        by_cases hminus : d = '-'
        · subst hminus
          simp only [List.cons_append, exponentPart, if_pos hc] at hs ⊢
          exact exponentDigits_append h hs
        · have hcons : ∀ t, exponentPart (c :: d :: t) = exponentDigits false (d :: t) := by
            simp [exponentPart, hc, hplus, hminus]
          rw [hcons] at hs
          rw [List.cons_append, List.cons_append, hcons, ← List.cons_append]
          exact exponentDigits_append h hs
    · have hcons : ∀ t, exponentPart (c :: t) = some (none, c :: t) := by simp [exponentPart, hc]
      rw [hcons] at hs
      cases hs
      exact hcons _

/-- A number without sign is its three parts. -/
theorem unsignedNumber_eq_some_iff {negative : Bool} :
    unsignedNumber range negative s = some (v, r) ↔ ∃ whole s₁ fraction s₂ exponent,
      wholePart s = some (whole, s₁) ∧ fractionPart s₁ = some (fraction, s₂) ∧
        exponentPart s₂ = some (exponent, r) ∧ numberOf range negative whole fraction exponent = some v := by
  constructor
  · intro h
    rw [unsignedNumber] at h
    cases hwhole : wholePart s with
    | none => simp [hwhole] at h
    | some p =>
      simp only [hwhole] at h
      cases hfraction : fractionPart p.2 with
      | none => simp [hfraction] at h
      | some q =>
        simp only [hfraction] at h
        cases hexponent : exponentPart q.2 with
        | none => simp [hexponent] at h
        | some e =>
          simp only [hexponent] at h
          cases hnumber : numberOf range negative p.1 q.1 e.1 with
          | none => simp [hnumber] at h
          | some w =>
            simp only [hnumber, Option.some.injEq, Prod.mk.injEq] at h
            obtain ⟨rfl, rfl⟩ := h
            exact ⟨p.1, p.2, q.1, q.2, e.1, rfl, hfraction, hexponent, hnumber⟩
  · rintro ⟨whole, s₁, fraction, s₂, exponent, hwhole, hfraction, hexponent, hnumber⟩
    simp only [unsignedNumber, hwhole, hfraction, hexponent, hnumber]

theorem unsignedNumber_append (h : Ends rest) {negative : Bool}
    (hs : unsignedNumber range negative s = some (v, r)) :
    unsignedNumber range negative (s ++ rest) = some (v, r ++ rest) := by
  obtain ⟨whole, s₁, fraction, s₂, exponent, hwhole, hfraction, hexponent, hnumber⟩ :=
    unsignedNumber_eq_some_iff.mp hs
  exact unsignedNumber_eq_some_iff.mpr ⟨whole, _, fraction, _, exponent, wholePart_append h hwhole,
    fractionPart_append h hfraction, exponentPart_append h hexponent, hnumber⟩

/-- Without a sign in front, a number is read as it stands. -/
theorem number_of_ne {c : Char} (hc : c ≠ '-') (s : List Char) :
    number range (c :: s) = unsignedNumber range false (c :: s) := by
  simp [number, hc]

/-- **A number stays what it is in front of a comma or a closing bracket.** -/
theorem number_append (h : Ends rest) (hs : number range s = some (v, r)) :
    number range (s ++ rest) = some (v, r ++ rest) := by
  cases s with
  | nil => exact absurd hs (by simp [number, unsignedNumber, wholePart, digits])
  | cons c s =>
    by_cases hc : c = '-'
    · subst hc
      exact unsignedNumber_append h hs
    · rw [number_of_ne hc] at hs
      rw [List.cons_append, number_of_ne hc, ← List.cons_append]
      exact unsignedNumber_append h hs

/-! ### What a number leaves -/

theorem wholePart_suffix {whole : List Char} (hs : wholePart s = some (whole, r)) : r <:+ s := by
  rw [wholePart.eq_def] at hs
  split at hs
  · cases hs
    exact List.suffix_cons _ _
  · split at hs
    · exact absurd hs (by simp)
    · cases hs
      exact List.dropWhile_suffix _

theorem fractionPart_suffix {fraction : List Char} (hs : fractionPart s = some (fraction, r)) : r <:+ s := by
  rw [fractionPart.eq_def] at hs
  split at hs
  · split at hs
    · exact absurd hs (by simp)
    · cases hs
      exact (List.dropWhile_suffix _).trans (List.suffix_cons _ _)
  · cases hs
    exact List.suffix_rfl

theorem exponentDigits_suffix {negative : Bool} {exponent : Option Int}
    (hs : exponentDigits negative s = some (exponent, r)) : r <:+ s := by
  rw [exponentDigits] at hs
  split at hs
  · exact absurd hs (by simp)
  · cases hs
    exact List.dropWhile_suffix _

theorem exponentPart_suffix {exponent : Option Int} (hs : exponentPart s = some (exponent, r)) : r <:+ s := by
  rw [exponentPart.eq_def] at hs
  split at hs
  · cases hs
    exact List.suffix_rfl
  · split at hs
    · split at hs
      · exact ((exponentDigits_suffix hs).trans (List.suffix_cons _ _)).trans (List.suffix_cons _ _)
      · exact ((exponentDigits_suffix hs).trans (List.suffix_cons _ _)).trans (List.suffix_cons _ _)
      · exact (exponentDigits_suffix hs).trans (List.suffix_cons _ _)
    · cases hs
      exact List.suffix_rfl

theorem unsignedNumber_suffix {negative : Bool} (hs : unsignedNumber range negative s = some (v, r)) : r <:+ s := by
  obtain ⟨_, _, _, _, _, hwhole, hfraction, hexponent, _⟩ := unsignedNumber_eq_some_iff.mp hs
  exact (exponentPart_suffix hexponent).trans ((fractionPart_suffix hfraction).trans (wholePart_suffix hwhole))

theorem number_suffix (hs : number range s = some (v, r)) : r <:+ s := by
  rw [number.eq_def] at hs
  split at hs
  · exact (unsignedNumber_suffix hs).trans (List.suffix_cons _ _)
  · exact unsignedNumber_suffix hs

/-- A number begins with a digit or a minus sign. -/
theorem isDigit_of_number {c : Char} (hs : number range (c :: s) = some (v, r)) : c = '-' ∨ c.isDigit = true := by
  by_cases hc : c = '-'
  · exact .inl hc
  · rw [number_of_ne hc] at hs
    obtain ⟨whole, s₁, _, _, _, hwhole, _⟩ := unsignedNumber_eq_some_iff.mp hs
    refine .inr (Classical.byContradiction fun hdigit => ?_)
    have hzero : c ≠ '0' := fun heq => hdigit (heq ▸ by decide)
    simp [wholePart, hzero, digits, hdigit] at hwhole

/-! ### Whole numbers -/

theorem natOfDigits_toDigits (n : Nat) : Number.natOfDigits (Nat.toDigits 10 n) = n := Nat.ofDigitChars_ten_toDigits

/-- The digits of a positive number do not begin with a zero. -/
theorem head?_toDigits_ne {n : Nat} (hn : 0 < n) : (Nat.toDigits 10 n).head? ≠ some '0' := by
  induction n using Nat.strongRecOn with
  | ind n ih =>
    by_cases hlt : n < 10
    · have hdigit : ∀ m < 10, 0 < m → [m.digitChar].head? ≠ some '0' := by decide
      rw [Nat.toDigits_of_lt_base hlt]
      exact hdigit n hlt hn
    · have hhead : (Nat.toDigits 10 n).head? = (Nat.toDigits 10 (n / 10)).head? := by
        rw [Nat.toDigits_of_base_le (by decide) (by omega), List.head?_append_of_ne_nil _ Nat.toDigits_ne_nil]
      rw [hhead]
      exact ih (n / 10) (by omega) (by omega)

theorem wholePart_toDigits (n : Nat) : wholePart (Nat.toDigits 10 n) = some (Nat.toDigits 10 n, []) := by
  by_cases hn : n = 0
  · subst hn
    decide
  · have hall : ∀ c ∈ Nat.toDigits 10 n, c.isDigit = true := fun c hc =>
      Nat.isDigit_of_mem_toDigits (by decide) (by decide) hc
    have hhead := head?_toDigits_ne (Nat.pos_of_ne_zero hn)
    have hne : Nat.toDigits 10 n ≠ [] := Nat.toDigits_ne_nil
    revert hall hhead hne
    generalize Nat.toDigits 10 n = ds
    intro hall hhead hne
    have hdigits : digits ds = ds := List.takeWhile_eq_self_iff.mpr hall
    have hafter : afterDigits ds = [] := List.dropWhile_eq_nil_iff.mpr hall
    rw [wholePart.eq_def]
    split
    · exact absurd rfl hhead
    · rw [hdigits, hafter, if_neg hne]

theorem unsignedNumber_toDigits (negative : Bool) (n : Nat) :
    unsignedNumber range negative (Nat.toDigits 10 n) =
      if (Nat.toDigits 10 n).length + (if negative then 1 else 0) ≤ maxLength then
        some (.int (Number.signed negative n), [])
      else none := by
  rw [unsignedNumber, wholePart_toDigits]
  simp only [fractionPart, exponentPart, numberOf, wholeNumber, natOfDigits_toDigits, and_self, if_true]
  by_cases hlength : (Nat.toDigits 10 n).length + (if negative then 1 else 0) ≤ maxLength
  · simp only [if_pos hlength]
  · simp only [if_neg hlength]

theorem isDigit_of_toDigits (n : Nat) : ∃ c cs, Nat.toDigits 10 n = c :: cs ∧ c.isDigit = true := by
  obtain ⟨c, cs, hcs⟩ := List.exists_cons_of_ne_nil (Nat.toDigits_ne_nil (n := n) (b := 10))
  exact ⟨c, cs, hcs, Nat.isDigit_of_mem_toDigits (by decide) (by decide)
    (hcs ▸ List.mem_cons_self : c ∈ Nat.toDigits 10 n)⟩

/-- A whole number begins with a digit or a minus sign. -/
theorem isDigit_of_intChars (n : Int) : ∃ c cs, intChars n = c :: cs ∧ (c = '-' ∨ c.isDigit = true) := by
  rw [intChars]
  split
  · exact ⟨_, _, rfl, .inl rfl⟩
  · obtain ⟨c, cs, hcs, hc⟩ := isDigit_of_toDigits n.natAbs
    exact ⟨c, cs, hcs, .inr hc⟩

/-- **A whole number is read back if it is not too long, and refused otherwise.** -/
theorem number_intChars (n : Int) :
    number range (intChars n) = if (intChars n).length ≤ maxLength then some (.int n, []) else none := by
  by_cases hn : n < 0
  · have hvalue : Number.signed true n.natAbs = n := by
      rw [Number.signed, if_pos rfl]
      omega
    rw [intChars, if_pos hn, number, unsignedNumber_toDigits, hvalue, if_pos rfl, List.length_cons]
  · have hvalue : Number.signed false n.natAbs = n := by
      rw [Number.signed, if_neg (by decide)]
      omega
    obtain ⟨c, cs, hcs, hc⟩ := isDigit_of_toDigits n.natAbs
    have hminus : c ≠ '-' := fun heq => absurd (heq ▸ hc) (by decide)
    rw [intChars, if_neg hn, hcs, number_of_ne hminus, ← hcs, unsignedNumber_toDigits, hvalue,
      if_neg Bool.false_ne_true, Nat.add_zero]

end Numbers

/-! ### Blanks and brackets -/

/-- What is read if so many levels are enough, or else the reader gives up. -/
def withinLevels {α : Type} (nesting levels : Nat) (a : α) : Except Refusal α :=
  if nesting ≤ levels then .ok a else .error .tooDeep

section Values

variable {range : Range} {n levels : Nat} {s rest : List Char}

theorem withinLevels_eq_ok_iff {α : Type} {nesting : Nat} {a b : α} :
    withinLevels nesting levels a = .ok b ↔ nesting ≤ levels ∧ a = b := by
  rw [withinLevels]
  by_cases hle : nesting ≤ levels <;> simp [hle]

theorem isBlank_of_visible {c : Char} (h : Visible c) : isBlank c = false := by
  have hne : ∀ d : Char, d.toNat ≤ 0x20 → c ≠ d := fun d hd heq => by
    have := h.1
    rw [heq] at this
    omega
  simp [isBlank, hne ' ' (by decide), hne '\t' (by decide), hne '\n' (by decide), hne '\r' (by decide)]

/-- There are no blanks in front of a text that begins visibly. -/
theorem Solid.skipBlanks_append (h : Solid s) (rest : List Char) : skipBlanks (s ++ rest) = s ++ rest := by
  obtain ⟨c, t, rfl, hc⟩ := h.first
  rw [skipBlanks, List.cons_append, List.dropWhile_cons_of_neg (by simp [isBlank_of_visible hc])]

/-- What begins with a digit or a minus sign is read as a number. -/
theorem value_of_isDigit {c : Char} (hc : c = '-' ∨ c.isDigit = true) :
    value range (n + 1) levels (c :: s) = orMalformed (anyNumber range (c :: s)) := by
  have hne : ∀ d : Char, d ≠ '-' → d.isDigit = false → c ≠ d := by
    rintro d hminus hdigit rfl
    rcases hc with heq | hc
    · exact hminus heq
    · exact absurd hc (by simp [hdigit])
  simp [value, hne 'n' (by decide) (by decide), hne 't' (by decide) (by decide), hne 'f' (by decide) (by decide),
    hne '"' (by decide) (by decide), hne '[' (by decide) (by decide), hne '\x7b' (by decide) (by decide)]

/-- No value begins with a closing bracket. -/
theorem value_of_closing {c : Char} (hc : c = ']' ∨ c = '\x7d') :
    value .finite n levels (c :: s) = .error .malformed := by
  cases n with
  | zero => rfl
  | succ n =>
    rcases hc with rfl | rfl <;> simp [value, orMalformed, anyNumber, number, unsignedNumber, wholePart, digits]

/-- A text that is all number is read as that number where a value ends. -/
theorem value_of_number {v : Value} (hs : number .finite s = some (v, [])) (hrest : Ends rest) :
    value .finite (n + 1) levels (s ++ rest) = .ok (v, rest) := by
  have happend := number_append hrest hs
  cases s with
  | nil => exact absurd hs (by simp [number, unsignedNumber, wholePart, digits])
  | cons c s =>
    rw [List.cons_append, value_of_isDigit (isDigit_of_number hs)]
    exact congrArg orMalformed happend

theorem orMalformed_eq_ok_iff {α : Type} {outcome : Option α} {a : α} : orMalformed outcome = .ok a ↔ outcome = some a := by
  cases outcome <;> simp [orMalformed]

/-- A value that is read as a double was a number. -/
theorem anyNumber_of_float {x : Float} {r : List Char} (hs : value range n levels s = .ok (.float x, r)) :
    anyNumber range s = some (.float x, r) := by
  rw [value.eq_def] at hs
  split at hs
  · cases hs
  split at hs
  · cases hs
  · cases hs
  · cases hs
  · split at hs <;> cases hs
  · split at hs
    · cases hs
    · split at hs
      · cases hs
      · split at hs <;> cases hs
  · split at hs
    · cases hs
    · split at hs
      · cases hs
      · split at hs <;> cases hs
  · exact orMalformed_eq_ok_iff.mp hs

/-- A text that is read holds its value and nothing but blanks behind it. -/
theorem exists_value_of_readTo {v : Value} (h : readTo range levels s = .ok v) :
    ∃ r, value range (budget s) levels (skipBlanks s) = .ok (v, r) ∧ skipBlanks r = [] := by
  rw [readTo] at h
  split at h
  · next hvalue =>
    split at h
    · next hblank =>
      cases h
      exact ⟨_, hvalue, hblank⟩
    · cases h
  · cases h

theorem read_eq_some_iff {v : Value} : read s = some v ↔ readTo .finite (budget s) s = .ok v := by
  rw [read, readIn]
  cases readTo .finite (budget s) s <;> simp [Except.toOption]

/-- **The text of a double that is read back is a number as a whole.** -/
theorem ReadsBack.number {f : Number.Format} {x : Float} (h : ReadsBack x) (hf : f ∈ wireFormats) :
    number .finite (f.write x) = some (.float x, []) := by
  have hsolid := solid_write hf x
  have hskip : skipBlanks (f.write x) = f.write x := by simpa using hsolid.skipBlanks_append []
  obtain ⟨r, hvalue, hblank⟩ := exists_value_of_readTo (read_eq_some_iff.mp (h f hf))
  rw [hskip] at hvalue
  have hnumber := anyNumber_of_float hvalue
  -- what is left would be a blank end, and the text has none
  have hnil : r = [] := by
    obtain ⟨d, front, hlast, hd⟩ := hsolid.last
    rcases List.suffix_concat_iff.mp (hlast ▸ number_suffix hnumber) with hnil | ⟨t, rfl, _⟩
    · exact hnil
    · have hd' := List.dropWhile_eq_nil_iff.mp hblank d (List.mem_append_right t List.mem_cons_self)
      exact absurd hd' (by simp [isBlank_of_visible hd])
  exact hnil ▸ hnumber

theorem value_array (hblank : skipBlanks s = s) (hclose : s.head? ≠ some ']') :
    value range (n + 1) (levels + 1) ('[' :: s) =
      match elements range n levels s with
      | .ok (vs, rest) => .ok (.arr vs, rest)
      | .error refusal => .error refusal := by
  rw [value, hblank]
  split
  · exact absurd rfl hclose
  · rfl

theorem value_object (hblank : skipBlanks s = s) (hclose : s.head? ≠ some '\x7d') :
    value range (n + 1) (levels + 1) ('\x7b' :: s) =
      match members range n levels s with
      | .ok (fields, rest) => .ok (.obj (Assoc.ofList fields), rest)
      | .error refusal => .error refusal := by
  rw [value, hblank]
  split
  · exact absurd rfl hclose
  · rfl

/-- A value is read where it stands, given enough steps, if its levels are not too many. -/
structure Reads (f : Number.Format) (v : Value) : Prop where
  value_eq : ∀ (n levels : Nat) (rest : List Char), 2 * (v.chars f).length ≤ n → Ends rest →
    value .finite n levels (v.chars f ++ rest) = withinLevels v.nesting levels (v, rest)

variable {f : Number.Format} {v : Value}

theorem Reads.of_number (h : number .finite (v.chars f) = some (v, [])) (hflat : v.nesting = 0) : Reads f v := by
  refine ⟨fun n levels rest hn hrest => ?_⟩
  have hne : v.chars f ≠ [] := fun hnil => by
    rw [hnil] at h
    exact absurd h (by simp [number, unsignedNumber, wholePart, digits])
  have hpos := List.length_pos_of_ne_nil hne
  obtain ⟨n, rfl⟩ : ∃ m, n = m + 1 := ⟨n - 1, by omega⟩
  rw [value_of_number h hrest, hflat, withinLevels, if_pos (Nat.zero_le _)]

/-- What is read does not begin with a closing bracket. -/
theorem Reads.head?_ne (h : Reads f v) (hf : f ∈ wireFormats) {c : Char} (hc : c = ']' ∨ c = '\x7d')
    (rest : List Char) : (v.chars f ++ rest).head? ≠ some c := by
  obtain ⟨d, t, ht, _⟩ := (v.solid_chars hf).first
  have hread := h.value_eq _ v.nesting [] (Nat.le_refl _) (by simp [Ends])
  rw [ht, List.append_nil, withinLevels, if_pos (Nat.le_refl _)] at hread
  rw [ht, List.cons_append, List.head?_cons]
  rintro heq
  cases heq
  rw [value_of_closing hc] at hread
  cases hread

/-- A text of fixed characters, which takes a single step and opens at most one level. -/
theorem Reads.of_succ (hne : v.chars f ≠ [])
    (h : ∀ n levels rest, value .finite (n + 1) levels (v.chars f ++ rest) = withinLevels v.nesting levels (v, rest)) :
    Reads f v := by
  refine ⟨fun n levels rest hn _ => ?_⟩
  have hpos := List.length_pos_of_ne_nil hne
  obtain ⟨n, rfl⟩ : ∃ m, n = m + 1 := ⟨n - 1, by omega⟩
  exact h n levels rest

/-! ### Arrays and objects -/

theorem skipBlanks_cons {c : Char} (hc : Visible c) (s : List Char) : skipBlanks (c :: s) = c :: s :=
  (Solid.of_visible (List.cons_ne_nil _ _) (List.forall_mem_singleton.mpr hc)).skipBlanks_append s

theorem Reads.elements_last (h : Reads f v) (hn : 2 * (v.chars f).length ≤ n) (rest : List Char) :
    elements .finite (n + 1) levels (v.chars f ++ ']' :: rest) = withinLevels v.nesting levels ([v], rest) := by
  rw [elements, h.value_eq n _ _ hn (.cons (by simp) rest), withinLevels, withinLevels]
  by_cases hle : v.nesting ≤ levels
  · simp only [if_pos hle, skipBlanks_cons (by decide : Visible ']')]
  · simp only [if_neg hle]

theorem Reads.elements_more (h : Reads f v) (hn : 2 * (v.chars f).length ≤ n) (hblank : skipBlanks s = s)
    {vs : List Value} {nesting : Nat} (hs : elements .finite n levels s = withinLevels nesting levels (vs, rest)) :
    elements .finite (n + 1) levels (v.chars f ++ ',' :: s) =
      withinLevels (max v.nesting nesting) levels (v :: vs, rest) := by
  rw [elements, h.value_eq n _ _ hn (.cons (by simp) s)]
  simp only [withinLevels, Nat.max_le] at hs ⊢
  by_cases hle : v.nesting ≤ levels
  · by_cases hrest : nesting ≤ levels <;>
      simp only [hle, hrest, hs, if_true, if_false, true_and, skipBlanks_cons (by decide : Visible ','), hblank]
  · simp only [hle, if_false, false_and]

theorem Reads.members_last (h : Reads f v) (hf : f ∈ wireFormats) (hn : 2 * (v.chars f).length ≤ n) (k : String)
    (rest : List Char) :
    members .finite (n + 1) levels (stringChars k ++ ':' :: (v.chars f ++ '\x7d' :: rest)) =
      withinLevels v.nesting levels ([(k, v)], rest) := by
  have hvalue := h.value_eq n levels ('\x7d' :: rest) hn (.cons (by simp) rest)
  rw [stringChars, List.cons_append, List.append_assoc, List.singleton_append, members, stringBody_flatMap_escape]
  simp only [skipBlanks_cons (by decide : Visible ':'), (v.solid_chars hf).skipBlanks_append, hvalue, withinLevels]
  by_cases hle : v.nesting ≤ levels
  · simp only [if_pos hle, skipBlanks_cons (by decide : Visible '\x7d'), String.ofList_toList]
  · simp only [if_neg hle]

theorem Reads.members_more (h : Reads f v) (hf : f ∈ wireFormats) (hn : 2 * (v.chars f).length ≤ n) (k : String)
    (hblank : skipBlanks s = s) {fields : List (String × Value)} {nesting : Nat}
    (hs : members .finite n levels s = withinLevels nesting levels (fields, rest)) :
    members .finite (n + 1) levels (stringChars k ++ ':' :: (v.chars f ++ ',' :: s)) =
      withinLevels (max v.nesting nesting) levels ((k, v) :: fields, rest) := by
  have hvalue := h.value_eq n levels (',' :: s) hn (.cons (by simp) s)
  rw [stringChars, List.cons_append, List.append_assoc, List.singleton_append, members, stringBody_flatMap_escape]
  simp only [skipBlanks_cons (by decide : Visible ':'), (v.solid_chars hf).skipBlanks_append, hvalue]
  simp only [withinLevels, Nat.max_le] at hs ⊢
  by_cases hle : v.nesting ≤ levels
  · by_cases hrest : nesting ≤ levels <;>
      simp only [hle, hrest, hs, if_true, if_false, true_and, skipBlanks_cons (by decide : Visible ','), hblank,
        String.ofList_toList]
  · simp only [hle, if_false, false_and]

end Values

/-! ### Whole values -/

namespace Value

variable {f : Number.Format}

mutual

/-- **Every faithful value is read where it stands**, if its levels are not too many. -/
theorem reads (hf : f ∈ wireFormats) : ∀ v : Value, v.Faithful → Reads f v
  | .null, _ => .of_succ (List.cons_ne_nil _ _) fun _ _ _ => (if_pos (Nat.zero_le _)).symm
  | .bool true, _ => .of_succ (List.cons_ne_nil _ _) fun _ _ _ => (if_pos (Nat.zero_le _)).symm
  | .bool false, _ => .of_succ (List.cons_ne_nil _ _) fun _ _ _ => (if_pos (Nat.zero_le _)).symm
  | .int n, h => .of_number ((number_intChars n).trans (if_pos h)) rfl
  | .float x, h => .of_number (ReadsBack.number h hf) rfl
  | .str s, _ => .of_succ (List.cons_ne_nil _ _) fun n levels rest => by
    show _ = withinLevels 0 levels _
    rw [chars, stringChars, List.cons_append, List.append_assoc, List.singleton_append, value,
      stringBody_flatMap_escape, withinLevels, if_pos (Nat.zero_le _)]
    simp only [String.ofList_toList]
  | .arr [], _ => .of_succ (List.cons_ne_nil _ _) fun _ levels _ => by cases levels <;> rfl
  | .arr (v :: vs), h => by
    have hv := reads hf v h.1
    refine ⟨fun n levels rest hn _ => ?_⟩
    rw [chars, List.length_cons, List.length_append] at hn
    obtain ⟨n, rfl⟩ : ∃ m, n = m + 1 := ⟨n - 1, by omega⟩
    cases levels with
    | zero => rfl
    | succ levels =>
      rw [chars, List.cons_append, List.append_assoc, value_array ((v.solid_chars hf).skipBlanks_append _)
        (hv.head?_ne hf (.inl rfl) _), elements_tail hf vs h.2 n levels rest hv (by omega)]
      by_cases hle : nestingAll (v :: vs) ≤ levels
      · simp only [withinLevels, nesting, Nat.add_le_add_iff_right, if_pos hle]
      · simp only [withinLevels, nesting, Nat.add_le_add_iff_right, if_neg hle]
  | .obj [], _ => .of_succ (List.cons_ne_nil _ _) fun _ levels _ => by cases levels <;> rfl
  | .obj ((k, v) :: fields), h => by
    have hv := reads hf v h.2.1
    refine ⟨fun n levels rest hn _ => ?_⟩
    rw [chars, List.length_cons, List.length_append, List.length_cons, List.length_append] at hn
    obtain ⟨n, rfl⟩ : ∃ m, n = m + 1 := ⟨n - 1, by omega⟩
    have hquote : (stringChars k ++ ':' :: (v.chars f ++ (fieldsTailChars f fields ++ rest))).head? ≠ some '\x7d' := by
      simp [stringChars]
    cases levels with
    | zero => rfl
    | succ levels =>
      rw [chars, List.cons_append, List.append_assoc, List.cons_append, List.append_assoc,
        value_object ((solid_stringChars k).skipBlanks_append _) hquote,
        members_tail hf fields h.2.2 k n levels rest hv (by omega)]
      by_cases hle : nestingFields ((k, v) :: fields) ≤ levels
      · simp only [withinLevels, nesting, Nat.add_le_add_iff_right, if_pos hle, Assoc.ofList_of_distinct h.1]
      · simp only [withinLevels, nesting, Nat.add_le_add_iff_right, if_neg hle]

theorem elements_tail (hf : f ∈ wireFormats) : ∀ vs : List Value, AllFaithful vs →
    ∀ {v : Value} (n levels : Nat) (rest : List Char), Reads f v →
      2 * ((v.chars f).length + (tailChars f vs).length) ≤ n →
        elements .finite n levels (v.chars f ++ (tailChars f vs ++ rest)) =
          withinLevels (nestingAll (v :: vs)) levels (v :: vs, rest)
  | [], _, v, n, levels, rest, hv, hn => by
    rw [tailChars, List.length_singleton] at hn
    obtain ⟨n, rfl⟩ : ∃ m, n = m + 1 := ⟨n - 1, by omega⟩
    rw [nestingAll, nestingAll, Nat.max_zero]
    exact hv.elements_last (by omega) rest
  | w :: ws, h, v, n, levels, rest, hv, hn => by
    rw [tailChars, List.length_cons, List.length_append] at hn
    obtain ⟨n, rfl⟩ : ∃ m, n = m + 1 := ⟨n - 1, by omega⟩
    rw [tailChars, List.cons_append, List.append_assoc]
    exact hv.elements_more (by omega) ((w.solid_chars hf).skipBlanks_append _)
      (elements_tail hf ws h.2 n levels rest (reads hf w h.1) (by omega))

theorem members_tail (hf : f ∈ wireFormats) : ∀ fields : List (String × Value), FieldsFaithful fields →
    ∀ (k : String) {v : Value} (n levels : Nat) (rest : List Char), Reads f v →
      2 * ((stringChars k).length + (v.chars f).length + (fieldsTailChars f fields).length) ≤ n →
        members .finite n levels (stringChars k ++ ':' :: (v.chars f ++ (fieldsTailChars f fields ++ rest))) =
          withinLevels (nestingFields ((k, v) :: fields)) levels ((k, v) :: fields, rest)
  | [], _, k, v, n, levels, rest, hv, hn => by
    rw [fieldsTailChars, List.length_singleton] at hn
    obtain ⟨n, rfl⟩ : ∃ m, n = m + 1 := ⟨n - 1, by omega⟩
    rw [nestingFields, nestingFields, Nat.max_zero]
    exact hv.members_last hf (by omega) k rest
  | (l, w) :: ws, h, k, v, n, levels, rest, hv, hn => by
    rw [fieldsTailChars, List.length_cons, List.length_append, List.length_cons, List.length_append] at hn
    obtain ⟨n, rfl⟩ : ∃ m, n = m + 1 := ⟨n - 1, by omega⟩
    rw [fieldsTailChars, List.cons_append, List.append_assoc, List.cons_append, List.append_assoc]
    exact hv.members_more hf (by omega) k ((solid_stringChars l).skipBlanks_append _)
      (members_tail hf ws h.2 l n levels rest (reads hf w h.1) (by omega))

end

/-- **The text of a faithful value is read as that value if its levels are not too many**, in either number format, and
given up on otherwise. -/
theorem readWithin_chars (hf : f ∈ wireFormats) (v : Value) (h : v.Faithful) (levels : Nat) :
    readWithin levels (v.chars f) = withinLevels v.nesting levels v := by
  have hvalue := (reads hf v h).value_eq (budget (v.chars f)) levels [] (Nat.le_add_right _ 2) (by simp [Ends])
  rw [List.append_nil] at hvalue
  have hblank : skipBlanks (v.chars f) = v.chars f := by simpa using (v.solid_chars hf).skipBlanks_append []
  rw [readWithin, readTo, hblank, hvalue, withinLevels, withinLevels]
  by_cases hle : v.nesting ≤ levels
  · rw [if_pos hle, if_pos hle]
    rfl
  · rw [if_neg hle, if_neg hle]

theorem read_chars (hf : f ∈ wireFormats) (v : Value) (h : v.Faithful) : read (v.chars f) = some v := by
  refine read_eq_some_iff.mpr ?_
  have hread : readTo .finite (budget (v.chars f)) (v.chars f) = _ := readWithin_chars hf v h (budget (v.chars f))
  have hne := readTo_budget_ne_tooDeep .finite (v.chars f)
  rw [hread] at hne ⊢
  rw [withinLevels] at hne ⊢
  split
  · rfl
  · next hdeep => exact absurd (if_neg hdeep) hne

theorem read_compact (v : Value) (h : v.Faithful) : read v.compact = some v := read_chars v.format_mem v h

end Value

/-- The text of a whole number that is too long is refused. -/
theorem readWithin_intChars_of_long {n : Int} (h : maxLength < (intChars n).length) (levels : Nat) :
    readWithin levels (intChars n) = .error .malformed := by
  have hblank : skipBlanks (intChars n) = intChars n := by simpa using (solid_intChars n).skipBlanks_append []
  have hnumber : number .finite (intChars n) = none := by rw [number_intChars, if_neg (Nat.not_le.mpr h)]
  obtain ⟨c, cs, hcs, hc⟩ := isDigit_of_intChars n
  rw [hcs] at hblank hnumber ⊢
  rw [readWithin, readTo, hblank, budget, value_of_isDigit hc, anyNumber, hnumber]
  rfl

theorem length_toDigits_pow (k : Nat) : (Nat.toDigits 10 (10 ^ k)).length = k + 1 := by
  have hle := Nat.length_toDigits_le_iff (b := 10) (n := 10 ^ k) (k := k + 1) (by decide) (by omega)
  have hlt : 10 ^ k < 10 ^ (k + 1) := Nat.pow_lt_pow_right (by decide) (by omega)
  cases k with
  | zero => rfl
  | succ k =>
    have hgt := Nat.length_toDigits_le_iff (b := 10) (n := 10 ^ (k + 1)) (k := k + 1) (by decide) (by omega)
    omega

theorem length_toDigits_natAbs_neg_pow (k : Nat) : (Nat.toDigits 10 (-10 ^ k : Int).natAbs).length = k + 1 := by
  have habs : (-10 ^ k : Int).natAbs = 10 ^ k := by rw [Int.natAbs_neg, Int.natAbs_pow]; rfl
  rw [habs, length_toDigits_pow]

theorem length_intChars_neg_pow (k : Nat) : (intChars (-10 ^ k)).length = k + 2 := by
  have hneg : (-10 ^ k : Int) < 0 := Int.neg_neg_of_pos (Int.pow_pos (by decide))
  rw [intChars, if_pos hneg, List.length_cons, length_toDigits_natAbs_neg_pow]

/-- One and a half is read back from its text. -/
theorem readsBack_oneAndHalf : ReadsBack 1.5 := by
  have hread : read ['1', '.', '5'] = some (.float (Number.ofDecimal false 15 (-1))) := rfl
  have hvalue : Number.ofDecimal false 15 (-1) = 1.5 := by decide +kernel
  intro f hf
  have hcases : f = usualFormat ∨ f = wideFormat := by simpa [wireFormats] using hf
  have hwrite : f.write 1.5 = ['1', '.', '5'] := by rcases hcases with rfl | rfl <;> decide +kernel
  rw [hwrite, hread, hvalue]

end ComponentStream.Json
