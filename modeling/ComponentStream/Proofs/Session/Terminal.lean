import ComponentStream.Proofs.Session.Step

/-!
# Faults that end a session

The message source may report a fault that it does not recover from.  The session remembers that one *stands*, up to the
next connect; whatever records follow, of whatever stream, do not take it back.

* `Verdict.isTerminal`, `endsSession` — records that report such a fault, whatever the tree holds;
* `Gain.records`, `Session.brought`, `Passive.tree_step` — the records that a step finishes, and with them the tree;
* `Mute.terminal_step` — such a fault stands after a step if it did before, or if the step has brought one.
-/

namespace ComponentStream

open Protocol (Limits Message)

/-! ### Records -/

/-- Whether a message reports a fault that its source does not recover from. -/
def Protocol.Message.isTerminal : Message → Bool
  | .error _ recoverable => recoverable ≠ some true
  | _ => false

namespace Stream

/-- Whether a verdict accepts a message of that kind. -/
def Verdict.isTerminal : Verdict → Bool
  | .accepted m => m.isTerminal
  | _ => false

/-- Whether a record reports a fault that its source does not recover from. -/
def endsSession (limits : Limits) (record : List UInt8) : Bool := (processRecord limits .empty record).2.isTerminal

theorem isTerminal_applyComponent (limits : Limits) (t : Tree) (node : Protocol.Node) (complete : Option Bool) :
    (applyComponent limits t node complete).2.isTerminal = false := by
  rw [applyComponent]
  by_cases hfull : limits.maxComponents ≤ t.size ∨ limits.maxComponents < t.size + t.newIds node
  · rw [if_pos hfull]
    rfl
  · rw [if_neg hfull]
    cases t.placementDepth node with
    | error e => rfl
    | ok depth =>
      by_cases hdeep : limits.maxDepth < depth
      · simp only [if_pos hdeep]
        rfl
      · simp only [if_neg hdeep]
        cases t.insert node with
        | error e => rfl
        | ok t' => rfl

theorem isTerminal_applyMessage (limits : Limits) (t : Tree) (m : Message) :
    (applyMessage limits t m).2.isTerminal = m.isTerminal := by
  cases m with
  | component node complete => exact isTerminal_applyComponent limits t node complete
  | update id props =>
    rw [applyMessage]
    cases t.mergeProps id props with
    | none => rfl
    | some t' => rfl
  | remove id =>
    rw [applyMessage]
    cases t.remove? id with
    | none => rfl
    | some t' => rfl
  | action data => rfl
  | error message recoverable => rfl

/-- What the tree holds does not matter. -/
theorem isTerminal_processRecord (limits : Limits) (t : Tree) (record : List UInt8) :
    (processRecord limits t record).2.isTerminal = endsSession limits record := by
  rw [endsSession]
  rcases processRecord_uniform limits record with ⟨v, _, hv⟩ | ⟨m, hm⟩
  · rw [hv, hv]
  · rw [hm, hm, isTerminal_applyMessage, isTerminal_applyMessage]

end Stream

namespace Session

open ComponentStream.Stream (Intake Verdict endsSession isTerminal_processRecord processAll processRecord splitRecords)

variable {s : Session} {tell : Teller} {id : Nat} {t : Task}

/-- The records that a gain finishes. -/
def Gain.records (g : Gain) (i : Intake) (n : Nat) : List (List UInt8) :=
  match g with
  | .nothing => []
  | .chunk bytes => (splitRecords (i.buffer n ++ bytes)).1
  | .rest => [i.buffer n]

theorem Gain.tree_enter (g : Gain) (i : Intake) (n : Nat) :
    (g.enter i n).tree = (processAll i.limits i.tree (g.records i n)).1 := by
  cases g with
  | nothing => rfl
  | chunk bytes => rfl
  | rest => rfl

/-- The records that a step finishes. -/
def brought (s : Session) (id : Nat) (a : Arrival) : List (List UInt8) :=
  match s.tasks[id]? with
  | some ⟨work, _, .reading n, _⟩ => (work.gain s a).records s.intake n
  | _ => []

theorem brought_of_reading (ht : s.tasks[id]? = some t) {n : Nat} (hphase : t.phase = .reading n) (a : Arrival) :
    s.brought id a = (t.work.gain s a).records s.intake n := by
  obtain ⟨work, body, phase, requested⟩ := t
  subst hphase
  rw [brought, ht]

theorem brought_of_not_reading (ht : s.tasks[id]? = some t) (hphase : ∀ n, t.phase ≠ .reading n) (a : Arrival) :
    s.brought id a = [] := by
  obtain ⟨work, body, phase, requested⟩ := t
  rw [brought, ht]
  cases phase with
  | reading n => exact absurd rfl (hphase n)
  | _ => rfl

/-- Nothing gained is nothing finished. -/
theorem brought_of_gain_eq_nothing {a : Arrival} (hgain : s.gain id a = .nothing) : s.brought id a = [] := by
  cases ht : s.tasks[id]? with
  | none => rw [brought, ht]
  | some t =>
    by_cases hread : ∃ n, t.phase = .reading n
    · obtain ⟨n, hphase⟩ := hread
      rw [gain_of_reading ht hphase] at hgain
      rw [brought_of_reading ht hphase, hgain]
      rfl
    · exact brought_of_not_reading ht (fun n hn => hread ⟨n, hn⟩) a

/-- A step does to the tree what the records do that it finishes. -/
theorem Passive.tree_step (hp : Passive tell) (id : Nat) (a : Arrival) (s : Session) :
    (step tell id a s).intake.tree = (processAll s.intake.limits s.intake.tree (s.brought id a)).1 := by
  cases ht : s.tasks[id]? with
  | none =>
    rw [step, brought, ht]
    rfl
  | some t =>
    have hstepped := hp.stepped ht a
    show (step tell id a s).core.intake.tree = _
    generalize (step tell id a s).core = c' at hstepped
    generalize hgain : s.gain id a = g at hstepped
    cases hstepped with
    | stream n g u hphase hwork hnext =>
      have hbrought : s.brought id a = g.records s.intake n := by
        rcases hphase with hopen | hread
        · have hnot : ∀ m, t.phase ≠ .reading m := by simp [hopen]
          rw [← hgain, brought_of_not_reading ht hnot, gain_of_not_reading ht hnot]
          rfl
        · rw [brought_of_reading ht hread, ← gain_of_reading ht hread, hgain]
      rw [hbrought]
      exact g.tree_enter s.intake n
    | _ =>
      rw [brought_of_gain_eq_nothing hgain]
      rfl

/-! ### The flag -/

/-- Whether a fault that ends the session stands once a gain is in. -/
def standsAfter (s : Session) (g : Gain) (n : Nat) : Bool :=
  s.terminal || (g.records s.intake n).any (endsSession s.intake.limits)

theorem standsAfter_nothing (s : Session) (n : Nat) : s.standsAfter .nothing n = s.terminal := Bool.or_false _

namespace Mute

variable (h : Mute tell)

include h

theorem terminal_tell (c : Call) : (tell c).Keeps Session.terminal := h.keeps (fun _ _ => rfl) c

theorem terminal_report (fault : Fault) : (report tell fault).Keeps Session.terminal :=
  Act.Keeps.report (fun _ _ => rfl) (h.terminal_tell _)

theorem terminal_publish : (publish tell).Keeps Session.terminal :=
  Act.Keeps.publish (fun _ _ _ => rfl) h.terminal_tell

theorem terminal_deliver (v : Verdict) (s : Session) :
    (deliver tell v.report? s).1.terminal = (s.terminal || v.isTerminal) := by
  have hkept : ∀ m : Act Unit, m.Keeps Session.terminal → (m s).1.terminal = (s.terminal || false) :=
    fun m hm => (hm s).trans (Bool.or_false _).symm
  cases v with
  | blank => exact hkept _ (Act.Keeps.pure ())
  | dropped warning => exact hkept _ (h.terminal_tell _)
  | refused error node => exact hkept _ (h.terminal_report _)
  | accepted m =>
    cases m with
    | error message recoverable =>
      refine (Act.Keeps.read_bind (f := Session.terminal) _ (fun _ => h.terminal_report _) s).trans ?_
      simp [Act.change, Verdict.isTerminal, Message.isTerminal]
    | _ => exact hkept _ (Act.Keeps.pure ())

theorem terminal_takeRecord (bytes : List UInt8) (s : Session) :
    (takeRecord tell bytes s).1.terminal = (s.terminal || endsSession s.intake.limits bytes) := by
  rw [← isTerminal_processRecord s.intake.limits s.intake.tree bytes]
  exact (read_takeRecord (f := Session.terminal) (fun _ _ => rfl) tell bytes s).trans (h.terminal_deliver _ _)

theorem terminal_takeRecords (records : List (List UInt8)) (accepted : Bool) (s : Session) :
    (takeRecords tell accepted records s).1.terminal = (s.terminal || records.any (endsSession s.intake.limits)) := by
  induction records generalizing accepted s with
  | nil => exact (Act.Keeps.ite h.terminal_publish (Act.Keeps.pure ()) s).trans (Bool.or_false _).symm
  | cons r records ih =>
    obtain ⟨s', htake, hcore⟩ := h.passive.takeRecord r s
    have hterm : s'.terminal = (s.terminal || endsSession s.intake.limits r) := by
      rw [← h.terminal_takeRecord r s, htake]
    have hlimits : s'.intake.limits = s.intake.limits := congrArg (fun c => c.intake.limits) hcore
    rw [takeRecords, Act.bind_apply, htake]
    show (takeRecords tell _ records s').1.terminal = _
    rw [ih, hterm, hlimits, List.any_cons, Bool.or_assoc]

/-- The flag follows the gains: it is set by a record that reports a fault of this kind, and by nothing else. -/
theorem follows : Follows tell Session.terminal standsAfter where
  status := fun _ _ => rfl
  lastError := fun _ _ => rfl
  metrics := fun _ _ => rfl
  calls := h.terminal_tell
  nothing := standsAfter_nothing
  chunk := by
    intro n chunk s
    refine (h.terminal_takeRecords _ false (receive n chunk s)).trans ?_
    rw [receive]
    cases chunk.raw with
    | true => rfl
    | false => rfl
  rest := fun n s => h.terminal_takeRecords _ false (setBuffer n [] s)

theorem terminal_stepMain (id : Nat) (stint : Stint) (n : Nat) (a : Arrival) (s : Session) :
    (stepMain tell id stint n a s).terminal = s.standsAfter ((Work.main stint).gain s a) n := by
  have hread := h.follows.readMain stint n a s
  rw [stepMain]
  cases hr : readMain tell stint n a s with
  | mk s' r =>
    rw [hr] at hread
    cases r with
    | ok o =>
      cases o with
      | none => exact hread
      | some o => exact hread
    | error fault => exact (h.follows.rescueMain stint fault s').trans hread

theorem terminal_stepReply (id : Nat) (stint : Stint) (n : Nat) (a : Arrival) (s : Session) :
    (stepReply tell id stint n a s).terminal = s.standsAfter ((Work.reply stint).gain s a) n := by
  have hread := h.follows.readReply stint n a s
  rw [stepReply]
  cases hr : readReply tell stint n a s with
  | mk s' r =>
    rw [hr] at hread
    cases r with
    | ok finished =>
      cases finished with
      | false => exact hread
      | true => exact hread
    | error fault => exact (h.follows.rescueReply stint fault s').trans hread

theorem terminal_stepStream {w : Work} {n : Nat} {fits : Bool} {a : Arrival} {g : Gain}
    (hfits : fits = true → w.gain s a = g) (hno : fits = false → g = .nothing)
    (hcancel : a = .cancelled → fits = false) :
    (stepStream tell id w n fits a s).terminal = s.standsAfter g n := by
  refine stepStream_cases (P := fun s' => s'.terminal = s.standsAfter g n) ?_ ?_ ?_ ?_ ?_
  · intro hidle
    rw [Gain.eq_nothing_of_idle hfits hno hidle, standsAfter_nothing]
  · intro stint _ ha
    obtain ⟨o, f, _, hstop⟩ := exists_stopMain id stint (s.clearRequest id)
    rw [hno (hcancel ha), hstop, standsAfter_nothing]
    rfl
  · intro stint _ ha
    obtain ⟨f, _, hstop⟩ := exists_stopReply id stint (s.clearRequest id)
    rw [hno (hcancel ha), hstop, standsAfter_nothing]
    rfl
  · intro stint hw hfit
    rw [← hfits hfit, hw]
    exact h.terminal_stepMain id stint n a s
  · intro stint hw hfit
    rw [← hfits hfit, hw]
    exact h.terminal_stepReply id stint n a s

theorem terminal_stepPost (id : Nat) (a : Arrival) : ∀ s, (stepPost tell id a s).terminal = s.terminal := by
  intro s
  cases a with
  | failed fault =>
    cases fault with
    | connection f => exact h.terminal_report (notSent f) (s.count (postCounter "failed") 1)
    | _ => rfl
  | _ => rfl

/-- **A fault that ends the session stands after a step if it stood before, or if the step has finished a record that
reports one.** -/
theorem terminal_step (id : Nat) (a : Arrival) (s : Session) :
    (step tell id a s).terminal = (s.terminal || (s.brought id a).any (endsSession s.intake.limits)) := by
  cases ht : s.tasks[id]? with
  | none =>
    rw [step, brought, ht]
    exact (Bool.or_false _).symm
  | some t =>
    have hnothing : (∀ n, t.phase ≠ .reading n) →
        s.terminal = (s.terminal || (s.brought id a).any (endsSession s.intake.limits)) := by
      intro hphase
      rw [brought_of_not_reading ht hphase]
      exact (Bool.or_false _).symm
    rw [step, ht]
    dsimp only
    cases hphase : t.phase with
    | fresh =>
      rw [← hnothing (by simp [hphase])]
      cases a with
      | start =>
        show (begin id t s).terminal = _
        rw [begin]
        cases t.work with
        | _ => rfl
      | _ => rfl
    | opening n =>
      rw [← hnothing (by simp [hphase]), ← standsAfter_nothing s n]
      refine h.terminal_stepStream (fun hearly => t.work.gain_of_isEarly hearly) (fun _ => rfl) ?_
      rintro rfl
      rfl
    | reading n =>
      rw [brought_of_reading ht hphase]
      refine h.terminal_stepStream (fun _ => rfl) (fun hlate => t.work.gain_of_not_isLate hlate) ?_
      rintro rfl
      rfl
    | posting =>
      rw [← hnothing (by simp [hphase])]
      exact h.terminal_stepPost id a s
    | _ => exact hnothing (by simp [hphase])

end Mute

end Session

end ComponentStream
