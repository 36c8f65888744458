import ComponentStream.Json.Reader

/-!
# Levels that a reader may open

A reader that may open more levels reads what it read before.  So there is a single question to ask about a text and a
number of levels, whether the reader gives up; if it does not, it comes to what it would come to without any bound.

* `Outlasts`, `value_outlasts` — what is read with fewer levels is read with more;
* `Suffices`, `value_suffices` — as many levels as steps are always enough;
* `readWithin_cases` — reading within a bound and without;
* `readWithin_brackets` — a text that opens one array after the other is given up on.
-/

namespace ComponentStream.Json

variable {range : Range} {α : Type} {n : Nat}

/-- What is read with fewer levels is read with more, unless the reader gave up. -/
def Outlasts (reader : Nat → List Char → Except Refusal α) : Prop :=
  ∀ {levels levels' s}, levels ≤ levels' → reader levels s ≠ .error .tooDeep → reader levels' s = reader levels s

theorem value_succ_outlasts (helements : Outlasts (elements range n)) (hmembers : Outlasts (members range n)) :
    Outlasts (value range (n + 1)) := by
  intro levels levels' s hle hne
  rw [value.eq_def] at hne
  rw [value.eq_def range _ levels', value.eq_def range _ levels]
  simp only at hne ⊢
  split at hne
  · rfl
  · rfl
  · rfl
  · rfl
  · -- an array
    cases levels with
    | zero => exact absurd rfl hne
    | succ levels =>
      obtain ⟨levels', rfl⟩ : ∃ more, levels' = more + 1 := ⟨levels' - 1, by omega⟩
      dsimp only at hne ⊢
      split at hne
      · rfl
      · rw [helements (Nat.le_of_succ_le_succ hle) fun heq => hne (by rw [heq])]
  · -- an object
    cases levels with
    | zero => exact absurd rfl hne
    | succ levels =>
      obtain ⟨levels', rfl⟩ : ∃ more, levels' = more + 1 := ⟨levels' - 1, by omega⟩
      dsimp only at hne ⊢
      split at hne
      · rfl
      · rw [hmembers (Nat.le_of_succ_le_succ hle) fun heq => hne (by rw [heq])]
  · rfl

theorem elements_succ_outlasts (hvalue : Outlasts (value range n)) (helements : Outlasts (elements range n)) :
    Outlasts (elements range (n + 1)) := by
  intro levels levels' s hle hne
  rw [elements] at hne
  rw [elements, elements, hvalue hle fun heq => hne (by rw [heq])]
  split at hne
  · rfl
  · split at hne
    · rfl
    · rw [helements hle fun heq => hne (by rw [heq])]
    · rfl

theorem members_succ_outlasts (hvalue : Outlasts (value range n)) (hmembers : Outlasts (members range n)) :
    Outlasts (members range (n + 1)) := by
  intro levels levels' s hle hne
  rw [members.eq_def] at hne
  rw [members.eq_def range _ levels', members.eq_def range _ levels]
  simp only at hne ⊢
  split at hne
  · split at hne
    · rfl
    · split at hne
      · rw [hvalue hle fun heq => hne (by rw [heq])]
        split at hne
        · rfl
        · -- behind the value of a member there is a brace or a comma
          split at hne
          · rfl
          · rw [hmembers hle fun heq => hne (by rw [heq])]
          · rfl
      · rfl
  · rfl

/-- **More levels change nothing**, unless the reader gave up, by induction on its fuel. -/
theorem value_outlasts (range : Range) (n : Nat) :
    Outlasts (value range n) ∧ Outlasts (elements range n) ∧ Outlasts (members range n) := by
  induction n with
  | zero => exact ⟨fun _ _ => by rw [value, value], fun _ _ => by rw [elements, elements], fun _ _ => by rw [members, members]⟩
  | succ n ih =>
    obtain ⟨hvalue, helements, hmembers⟩ := ih
    exact ⟨value_succ_outlasts helements hmembers, elements_succ_outlasts hvalue helements,
      members_succ_outlasts hvalue hmembers⟩

/-! ### Levels enough -/

/-- A reader that does not give up with so many levels, or more. -/
def Suffices (n : Nat) (reader : Nat → List Char → Except Refusal α) : Prop :=
  ∀ {levels s}, n ≤ levels → reader levels s ≠ .error .tooDeep

theorem value_succ_suffices (helements : Suffices n (elements range n)) (hmembers : Suffices n (members range n)) :
    Suffices (n + 1) (value range (n + 1)) := by
  intro levels s hle h
  obtain ⟨levels, rfl⟩ : ∃ fewer, levels = fewer + 1 := ⟨levels - 1, by omega⟩
  rw [value.eq_def] at h
  simp only at h
  split at h
  · cases h
  · cases h
  · cases h
  · split at h <;> cases h
  · -- an array
    split at h
    · cases h
    · split at h
      · cases h
      · next hrest =>
        cases h
        exact helements (Nat.le_of_succ_le_succ hle) hrest
  · -- an object
    split at h
    · cases h
    · split at h
      · cases h
      · next hrest =>
        cases h
        exact hmembers (Nat.le_of_succ_le_succ hle) hrest
  · rw [orMalformed.eq_def] at h
    split at h <;> cases h

theorem elements_succ_suffices (hvalue : Suffices n (value range n)) (helements : Suffices n (elements range n)) :
    Suffices (n + 1) (elements range (n + 1)) := by
  intro levels s hle h
  rw [elements] at h
  split at h
  · next hv =>
    cases h
    exact hvalue (Nat.le_of_succ_le hle) hv
  · split at h
    · cases h
    · split at h
      · cases h
      · next hrest =>
        cases h
        exact helements (Nat.le_of_succ_le hle) hrest
    · cases h

theorem members_succ_suffices (hvalue : Suffices n (value range n)) (hmembers : Suffices n (members range n)) :
    Suffices (n + 1) (members range (n + 1)) := by
  intro levels s hle h
  rw [members.eq_def] at h
  simp only at h
  split at h
  · split at h
    · cases h
    · split at h
      · split at h
        · next hv =>
          cases h
          exact hvalue (Nat.le_of_succ_le hle) hv
        · -- behind the value of a member there is a brace or a comma
          split at h
          · cases h
          · split at h
            · cases h
            · next hrest =>
              cases h
              exact hmembers (Nat.le_of_succ_le hle) hrest
          · cases h
      · cases h
  · cases h

/-- **As many levels as steps are enough**, as every level takes a step. -/
theorem value_suffices (range : Range) (n : Nat) :
    Suffices n (value range n) ∧ Suffices n (elements range n) ∧ Suffices n (members range n) := by
  induction n with
  | zero => exact ⟨fun _ => by simp [value], fun _ => by simp [elements], fun _ => by simp [members]⟩
  | succ n ih =>
    obtain ⟨hvalue, helements, hmembers⟩ := ih
    exact ⟨value_succ_suffices helements hmembers, elements_succ_suffices hvalue helements,
      members_succ_suffices hvalue hmembers⟩

/-! ### Whole texts -/

theorem readTo_outlasts (range : Range) : Outlasts (readTo range) := by
  intro levels levels' s hle hne
  rw [readTo] at hne
  rw [readTo, readTo, (value_outlasts range (budget s)).1 hle fun heq => hne (by rw [heq])]

theorem readTo_budget_ne_tooDeep (range : Range) (s : List Char) : readTo range (budget s) s ≠ .error .tooDeep := by
  intro h
  rw [readTo] at h
  split at h
  · split at h <;> cases h
  · next hvalue =>
    cases h
    exact (value_suffices range (budget s)).1 (Nat.le_refl _) hvalue

/-- **A reader within a bound gives up, or it comes to what it would come to without a bound.** -/
theorem readWithin_cases (levels : Nat) (s : List Char) :
    readWithin levels s = .error .tooDeep ∨ readWithin levels s = orMalformed (read s) := by
  have hread : orMalformed (read s) = readTo .finite (budget s) s := by
    have hne := readTo_budget_ne_tooDeep .finite s
    rw [read, readIn]
    revert hne
    generalize readTo .finite (budget s) s = outcome
    intro hne
    match outcome with
    | .ok v => rfl
    | .error .malformed => rfl
    | .error .tooDeep => exact absurd rfl hne
  rw [hread]
  by_cases hdeep : readWithin levels s = .error .tooDeep
  · exact .inl hdeep
  · rcases Nat.le_total levels (budget s) with hle | hle
    · exact .inr (readTo_outlasts .finite hle hdeep).symm
    · exact .inr (readTo_outlasts .finite hle (readTo_budget_ne_tooDeep .finite s))

/-! ### Texts that only open arrays -/

/-- The reader gives up on brackets as soon as there is one too many. -/
theorem value_brackets (range : Range) : ∀ {levels n steps : Nat}, levels < n → 2 * levels < steps →
    value range steps levels (List.replicate n '[') = .error .tooDeep
  | 0, n + 1, steps + 1, _, _ => by
    rw [List.replicate_succ, value.eq_def]
    rfl
  | levels + 1, n + 2, steps + 2, hn, hsteps => by
    have hinner : value range steps levels (List.replicate (n + 1) '[') = .error .tooDeep :=
      value_brackets range (by omega) (by omega)
    rw [List.replicate_succ] at hinner
    rw [List.replicate_succ, List.replicate_succ, value.eq_def]
    simp only [skipBlanks, List.dropWhile_cons, isBlank]
    simp [elements, hinner]
  | _ + 1, _, 1, _, hsteps => absurd hsteps (by omega)

theorem readWithin_brackets {levels n : Nat} (h : levels < n) :
    readWithin levels (List.replicate n '[') = .error .tooDeep := by
  have hblank : skipBlanks (List.replicate n '[') = List.replicate n '[' := by
    obtain ⟨n, rfl⟩ : ∃ m, n = m + 1 := ⟨n - 1, by omega⟩
    rfl
  have hsteps : 2 * levels < budget (List.replicate n '[') := by
    rw [budget, List.length_replicate]
    omega
  rw [readWithin, readTo, hblank, value_brackets .finite h hsteps]

end ComponentStream.Json
