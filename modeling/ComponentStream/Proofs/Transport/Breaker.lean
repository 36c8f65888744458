import Mathlib.Data.List.DropRight
import Mathlib.Data.List.Infix
import ComponentStream.Transport.Breaker

/-!
# Outcomes and the breaker

A breaker counts by one number and one gate, while what it is to do is said of the whole history of outcomes: it trips
when some number of failures have come with no accepted response between them.

* `Outcome.failed` — whether an outcome is a failure;
* `streak` — the failures since the last accepted response;
* `Tripped`, `tripped_concat` — a history with so many failures in a row, and what one more outcome adds;
* `Breaker.Judged`, `Breaker.judged` — everything that can become of an outcome;
* `Breaker.Judged.failure_told`, `Breaker.Judged.raised_told` — what a caller is told is a failure, and of every failure
  a caller is told.
-/

namespace ComponentStream.Transport

/-- Whether an outcome is a failure. -/
def Outcome.failed (o : Outcome) : Bool := o.failure?.isSome

theorem Outcome.failed_iff {o : Outcome} : o.failed = true ↔ ∃ f, o.failure? = some f := Option.isSome_iff_exists

theorem Outcome.failed_eq_false_iff {o : Outcome} : o.failed = false ↔ o.failure? = none := by
  rw [failed, Option.isSome_eq_false_iff, Option.isNone_iff_eq_none]

/-! ### Failures in a row -/

/-- The number of failures since the last accepted response. -/
def streak (os : List Outcome) : Nat := (os.rtakeWhile Outcome.failed).length

theorem streak_concat (os : List Outcome) (o : Outcome) :
    streak (os ++ [o]) = if o.failed then streak os + 1 else 0 := by
  rw [streak, List.rtakeWhile_concat]
  by_cases ho : o.failed = true
  · rw [if_pos ho, if_pos ho, List.length_append, List.length_singleton, streak]
  · rw [if_neg ho, if_neg ho, List.length_nil]

theorem streak_concat_of_failure (os : List Outcome) {o : Outcome} {f : Failure} (hf : o.failure? = some f) :
    streak (os ++ [o]) = streak os + 1 := by
  rw [streak_concat, if_pos (Outcome.failed_iff.mpr ⟨f, hf⟩)]

theorem streak_concat_of_accepted (os : List Outcome) {o : Outcome} (hnone : o.failure? = none) :
    streak (os ++ [o]) = 0 := by
  rw [streak_concat, Outcome.failed_eq_false_iff.mpr hnone]
  rfl

/-- The last outcomes are failures, `n` of them at least. -/
theorem le_streak_iff {n : Nat} {os : List Outcome} :
    n ≤ streak os ↔ ∃ mid, mid <:+ os ∧ mid.length = n ∧ ∀ o ∈ mid, o.failed = true := by
  constructor
  · intro hle
    refine ⟨(os.rtakeWhile Outcome.failed).drop (streak os - n), ?_, ?_, ?_⟩
    · exact (List.drop_suffix _ _).trans (List.rtakeWhile_suffix _ _)
    · rw [List.length_drop, ← streak]
      omega
    · exact fun o ho => List.mem_rtakeWhile_imp (List.mem_of_mem_drop ho)
  · rintro ⟨mid, ⟨before, rfl⟩, rfl, hall⟩
    have hlast : (before ++ mid).rtakeWhile Outcome.failed = before.rtakeWhile Outcome.failed ++ mid := by
      rw [List.rtakeWhile, List.reverse_append,
        List.takeWhile_append_of_pos fun o ho => hall o (List.mem_reverse.mp ho), List.reverse_append,
        List.reverse_reverse, List.rtakeWhile]
    rw [streak, hlast, List.length_append]
    omega

/-- Somewhere in a history, `n` failures have come with no accepted response between them. -/
def Tripped (n : Nat) (os : List Outcome) : Prop := ∃ mid, mid <:+: os ∧ mid.length = n ∧ ∀ o ∈ mid, o.failed = true

theorem tripped_concat {n : Nat} {os : List Outcome} {o : Outcome} :
    Tripped n (os ++ [o]) ↔ n ≤ streak (os ++ [o]) ∨ Tripped n os := by
  rw [le_streak_iff, Tripped, Tripped, ← exists_or]
  refine exists_congr fun mid => ?_
  rw [List.infix_concat_iff, or_and_right]

theorem not_tripped_nil {n : Nat} (hn : 1 ≤ n) : ¬ Tripped n [] := by
  rintro ⟨mid, hmid, rfl, -⟩
  rw [List.infix_nil.mp hmid] at hn
  exact absurd hn (by decide)

/-! ### What becomes of an outcome -/

theorem Gate.exists_opened_of_ne_closed {g : Gate} (h : g ≠ .closed) : ∃ since, g = .opened since := by
  cases g with
  | closed => exact absurd rfl h
  | opened since => exact ⟨since, rfl⟩

namespace Breaker

/-- The reset timeout of a breaker, if it is open, has not elapsed. -/
def Cooling (b : Breaker) (now : Nat) : Prop := ∀ since, b.gate = .opened since → now < since + b.resetTimeout

theorem permits_opened_iff {b : Breaker} {now since : Nat} (hopen : b.gate = .opened since) :
    b.permits now = true ↔ since + b.resetTimeout ≤ now := by
  simp only [permits, hopen, decide_eq_true_eq]

theorem permits_eq_false {b : Breaker} {now since : Nat} (hopen : b.gate = .opened since) (hcool : b.Cooling now) :
    b.permits now = false := by
  have hlt := hcool since hopen
  rw [← Bool.not_eq_true, permits_opened_iff hopen]
  omega

theorem cooling_iff {b : Breaker} {now : Nat} : b.Cooling now ↔ b.gate = .closed ∨ b.permits now = false := by
  cases hgate : b.gate with
  | closed => exact iff_of_true (fun since hopen => absurd (hgate.symm.trans hopen) (by simp)) (Or.inl rfl)
  | opened since =>
    refine ⟨fun hcool => Or.inr (permits_eq_false hgate hcool), fun hshut since' hopen => ?_⟩
    rw [← Bool.not_eq_true, permits_opened_iff hopen, Nat.not_le] at hshut
    exact hshut.resolve_left (by simp)

instance (b : Breaker) (now : Nat) : Decidable (b.Cooling now) := decidable_of_iff _ cooling_iff.symm

/-- Everything that can become of an outcome: the breaker after it, and what is raised for the caller. -/
inductive Judged (b : Breaker) (now : Nat) (o : Outcome) : Breaker → Option Raised → Prop where
  | accepted : b.gate = .closed → o.failure? = none → Judged b now o { b with failures := 0 } none
  | counted {f : Failure} : b.gate = .closed → o.failure? = some f → b.failures + 1 < b.failMax →
      Judged b now o { b with failures := b.failures + 1 } (some (.failed f))
  | tripped {f : Failure} : b.gate = .closed → o.failure? = some f → b.failMax ≤ b.failures + 1 →
      Judged b now o { b with failures := b.failures + 1, gate := .opened now } (some (.failed .breakerOpen))
  | stopped {since : Nat} : b.gate = .opened since → b.permits now = false →
      Judged b now o b (some (.failed .breakerOpen))
  | recovered {since : Nat} : b.gate = .opened since → b.permits now = true → o.failure? = none →
      Judged b now o { b with failures := 0, gate := .closed } none
  | relapsed {since : Nat} {f : Failure} : b.gate = .opened since → b.permits now = true → o.failure? = some f →
      Judged b now o { b with failures := b.failures + 1, gate := .opened now } (some (.failed .breakerOpen))

/-- **What becomes of an outcome.** -/
theorem judged (b : Breaker) (now : Nat) (o : Outcome) : Judged b now o (b.judge now o).1 (b.judge now o).2.2 := by
  obtain ⟨failMax, resetTimeout, failures, gate⟩ := b
  cases gate with
  | closed =>
    cases hf : o.failure? with
    | none =>
      simp only [judge, call, Outcome.raised?, hf, Option.map_none]
      exact .accepted rfl hf
    | some f =>
      simp only [judge, call, Outcome.raised?, hf, Option.map_some, countFailure]
      by_cases hmax : failMax ≤ failures + 1
      · simp only [if_pos hmax]
        exact .tripped rfl hf hmax
      · simp only [if_neg hmax]
        exact .counted rfl hf (Nat.lt_of_not_le hmax)
  | opened since =>
    simp only [judge, call]
    cases hpermits : permits ⟨failMax, resetTimeout, failures, .opened since⟩ now with
    | false => exact .stopped rfl hpermits
    | true =>
      cases hf : o.failure? with
      | none =>
        simp only [if_pos, Outcome.raised?, hf, Option.map_none, takeTrial]
        exact .recovered rfl hpermits hf
      | some f =>
        simp only [if_pos, Outcome.raised?, hf, Option.map_some, takeTrial]
        exact .relapsed rfl hpermits hf

namespace Judged

variable {b b' : Breaker} {now : Nat} {o : Outcome} {raised : Option Raised}

/-- Neither bound of a breaker ever changes. -/
theorem settings (h : Judged b now o b' raised) : b'.failMax = b.failMax ∧ b'.resetTimeout = b.resetTimeout := by
  cases h <;> exact ⟨rfl, rfl⟩

/-- Of every failure the caller is told, if only that the breaker is open. -/
theorem failure_told (h : Judged b now o b' raised) {f : Failure} (hf : o.failure? = some f) :
    raised = some (.failed f) ∨ raised = some (.failed .breakerOpen) := by
  cases h with
  | accepted _ hnone => exact absurd (hnone.symm.trans hf) (by simp)
  | counted _ hf' _ => exact Or.inl (by rw [Option.some.inj (hf'.symm.trans hf)])
  | tripped => exact Or.inr rfl
  | stopped => exact Or.inr rfl
  | recovered _ _ hnone => exact absurd (hnone.symm.trans hf) (by simp)
  | relapsed => exact Or.inr rfl

/-- Whatever is raised for the caller is a failure. -/
theorem raised_told (h : Judged b now o b' raised) {r : Raised} (hr : raised = some r) : ∃ f, r = .failed f := by
  cases h <;> cases hr <;> exact ⟨_, rfl⟩

/-- An open breaker that has not cooled down stays as it is, whatever the outcome. -/
theorem of_cooling (h : Judged b now o b' raised) {since : Nat} (hopen : b.gate = .opened since)
    (hcool : b.Cooling now) : b' = b ∧ raised = some (.failed .breakerOpen) := by
  have hshut := permits_eq_false hopen hcool
  cases h with
  | accepted hgate => exact absurd (hgate.symm.trans hopen) (by simp)
  | counted hgate => exact absurd (hgate.symm.trans hopen) (by simp)
  | tripped hgate => exact absurd (hgate.symm.trans hopen) (by simp)
  | stopped => exact ⟨rfl, rfl⟩
  | recovered _ hpermits => exact absurd (hshut.symm.trans hpermits) (by simp)
  | relapsed _ hpermits => exact absurd (hshut.symm.trans hpermits) (by simp)

end Judged

end Breaker

end ComponentStream.Transport
