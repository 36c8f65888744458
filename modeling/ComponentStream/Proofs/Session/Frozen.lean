import ComponentStream.Proofs.Session.Lasting
import ComponentStream.Proofs.Session.Terminal

/-!
# After a fault that ends the session

Once the message source has reported a fault that it does not recover from, the tree should stay as it is.  A main stream
asks for such a fault after every chunk, and ends; a reply asks only at its own end, and goes on up to there.

* `Later`, `Mute.later_after` — what stands, and what has ended, up to the next connect;
* `Mute.isOver_of_gain` — while such a fault stands, what comes in for a main stream ends it;
* `terminal_freezes_main` — main streams leave the tree alone from then on, but for one chunk that ends them.
-/

namespace ComponentStream.Session

open Protocol (Limits)
open ComponentStream.Stream (endsSession)

variable {s s' : Session} {tell : Teller} {id : Nat} {t : Task}

/-! ### What stands until the next connect -/

/-- Whether a task has ended. -/
def isOver (s : Session) (id : Nat) : Bool := (s.tasks[id]?).any Task.isOver

/-- Whether a move begins a generation. -/
def Move.connects : Move → Bool
  | .connect _ _ => true
  | _ => false

/-- What a later session of the same generation has in common with an earlier one. -/
structure Later (s s' : Session) : Prop where
  terminal : s.terminal = true → s'.terminal = true
  tasks : ∀ (i : Nat) (t : Task), s.tasks[i]? = some t →
    ∃ u, s'.tasks[i]? = some u ∧ u.work = t.work ∧ (t.isOver = true → u.isOver = true)

namespace Later

theorem of_tasks (hterm : s.terminal = true → s'.terminal = true) (htasks : s'.tasks = s.tasks) : Later s s' :=
  ⟨hterm, fun _ t ht => ⟨t, htasks ▸ ht, rfl, id⟩⟩

theorem trans {s'' : Session} (h : Later s s') (h' : Later s' s'') : Later s s'' where
  terminal := fun hterm => h'.terminal (h.terminal hterm)
  tasks := by
    intro i t ht
    obtain ⟨u, hu, hwork, hover⟩ := h.tasks i t ht
    obtain ⟨v, hv, hwork', hover'⟩ := h'.tasks i u hu
    exact ⟨v, hv, hwork'.trans hwork, fun ho => hover' (hover ho)⟩

theorem isOver (h : Later s s') {i : Nat} (hi : s.isOver i = true) : s'.isOver i = true := by
  obtain ⟨t, ht, hover⟩ := (Option.any_eq_true _ _).mp hi
  obtain ⟨u, hu, _, hstays⟩ := h.tasks i t ht
  exact (Option.any_eq_true _ _).mpr ⟨u, hu, hstays hover⟩

theorem isMain (h : Later s s') {i : Nat} (hi : s.isMain i = true) : s'.isMain i = true := by
  obtain ⟨t, ht, hmain⟩ := (Option.any_eq_true _ _).mp hi
  obtain ⟨u, hu, hwork, _⟩ := h.tasks i t ht
  refine (Option.any_eq_true _ _).mpr ⟨u, hu, ?_⟩
  rw [hwork]
  exact hmain

end Later

namespace Mute

variable (h : Mute tell)

include h

theorem later_step (id : Nat) (a : Arrival) (s : Session) : Later s (step tell id a s) := by
  have hterm : s.terminal = true → (step tell id a s).terminal = true := by
    intro hterm
    rw [h.terminal_step, hterm, Bool.true_or]
  cases ht : s.tasks[id]? with
  | none =>
    refine Later.of_tasks hterm ?_
    rw [step, ht]
  | some t =>
    obtain ⟨u, hschedule, hturned⟩ := h.steady.turns_step ht a
    have htasks : (step tell id a s).tasks = s.tasks.set id u := congrArg Schedule.tasks hschedule
    refine ⟨hterm, fun i v hv => ?_⟩
    rw [htasks]
    by_cases hi : i = id
    · subst hi
      obtain rfl : t = v := Option.some.inj (ht.symm.trans hv)
      refine ⟨u, List.getElem?_set_self (List.getElem?_eq_some_iff.mp ht).1, hturned.work, fun hover => ?_⟩
      rw [hturned.stays hover]
      exact hover
    · exact ⟨v, (List.getElem?_set_ne (Ne.symm hi)).trans hv, rfl, fun hover => hover⟩

theorem later_act {m : Move} (hm : m.connects = false) (s : Session) : Later s (m.act tell s) := by
  cases m with
  | connect message extra => exact absurd hm (by simp [Move.connects])
  | disconnect =>
    have hterm : (disconnect tell s).1.terminal = s.terminal :=
      Act.Keeps.bind (f := Session.terminal) (fun _ => rfl) (fun _ => h.follows.setStatus .idle) s
    refine ⟨fun ht => hterm.trans ht, fun i t ht => ?_⟩
    have hu := Linked.getElem?_requestCancel s.mainTask 0 s.tasks i
    rw [ht, Option.map_some] at hu
    refine ⟨_, (congrArg (fun x => x.tasks[i]?) (h.steady.schedule_disconnect s)).trans hu, ?_, ?_⟩
    · split
      · rfl
      · rfl
    · intro hover
      split
      · exact hover
      · exact hover
  | reset =>
    have hterm : (reset tell s).1.terminal = s.terminal :=
      Act.Keeps.bind (f := Session.terminal) (fun _ => rfl) (fun _ => h.terminal_publish) s
    exact Later.of_tasks (fun ht => hterm.trans ht) (congrArg Schedule.tasks (h.steady.schedule_reset s))
  | action sent stream extra =>
    refine ⟨id, fun i t ht => ⟨t, ?_, rfl, id⟩⟩
    exact (List.getElem?_append_left (List.getElem?_eq_some_iff.mp ht).1).trans ht
  | step id a => exact h.later_step id a s

theorem later_after {moves : List Move} (hmoves : ∀ m ∈ moves, m.connects = false) (s : Session) :
    Later s (after tell s moves) := by
  induction moves generalizing s with
  | nil => exact Later.of_tasks id rfl
  | cons m moves ih =>
    exact (h.later_act (hmoves m List.mem_cons_self) s).trans
      (ih (fun m' hm' => hmoves m' (List.mem_cons_of_mem _ hm')) _)

end Mute

/-! ### Main streams -/

/-- A main stream goes on after a chunk only if it has asked for such a fault and found none. -/
theorem readMain_goesOn {stint : Stint} {n : Nat} {a : Arrival} (ha : a = .ended ∨ ∃ chunk, a = .chunk chunk)
    (hr : readMain tell stint n a s = (s', .ok none)) : s'.terminal = false := by
  have hsome : ∀ {m : Act Outcome} {s₁ : Session},
      (m >>= fun o => (pure (some o) : Act (Option Outcome))) s₁ ≠ (s', .ok none) := by
    intro m s₁ hm
    rw [Act.bind_apply] at hm
    split at hm
    · exact absurd (congrArg Prod.snd hm) (by simp [pure])
    · exact absurd (congrArg Prod.snd hm) (by simp)
  rcases ha with rfl | ⟨chunk, rfl⟩
  · exact absurd hr hsome
  · rw [readMain, Act.unlessStale] at hr
    split at hr
    · rw [Act.bind_apply] at hr
      split at hr
      · rename_i s₁ a hfeed
        rw [Act.bind_apply] at hr
        by_cases hterm : s₁.terminal = true
        · simp only [Act.get, hterm, if_true] at hr
          exact absurd hr hsome
        · simp only [Act.get, hterm] at hr
          obtain rfl : s₁ = s' := congrArg Prod.fst hr
          simpa using hterm
      · exact absurd (congrArg Prod.snd hr) (by simp)
    · exact absurd (congrArg Prod.snd hr) (by simp [pure])

/-- Only a task that reads gains anything, and only from a chunk or at the end of its stream. -/
theorem exists_reading_of_gain {a : Arrival} (h : s.gain id a ≠ .nothing) :
    ∃ t n, s.tasks[id]? = some t ∧ t.phase = .reading n ∧ (a = .ended ∨ ∃ chunk, a = .chunk chunk) := by
  cases ht : s.tasks[id]? with
  | none => exact absurd (by rw [gain, ht]) h
  | some t =>
    by_cases hread : ∃ n, t.phase = .reading n
    · obtain ⟨n, hphase⟩ := hread
      refine ⟨t, n, rfl, hphase, ?_⟩
      rw [gain_of_reading ht hphase] at h
      cases a with
      | chunk chunk => exact Or.inr ⟨chunk, rfl⟩
      | ended => exact Or.inl rfl
      | failed fault => exact absurd (t.work.gain_of_isEarly rfl) h
      | _ => exact absurd (t.work.gain_of_not_isLate rfl) h
    · exact absurd (gain_of_not_reading ht (fun n hn => hread ⟨n, hn⟩) a) h

theorem isOver_endTask (ht : s.tasks[id]? = some t) (fault : Option Fault) : (s.endTask id fault).isOver id = true := by
  rw [isOver, endTask, tasks_changeTask ht, List.getElem?_set_self (List.getElem?_eq_some_iff.mp ht).1]
  rfl

/-- While such a fault stands, what comes in for a main stream ends it. -/
theorem Steady.isOver_stepMain (h : Steady tell) (ht : s.tasks[id]? = some t) {stint : Stint} {n : Nat} {a : Arrival}
    (ha : a = .ended ∨ ∃ chunk, a = .chunk chunk) (hterm : (stepMain tell id stint n a s).terminal = true) :
    (stepMain tell id stint n a s).isOver id = true := by
  have hsched := h.follows.readMain stint n a s
  rw [stepMain] at hterm ⊢
  cases hr : readMain tell stint n a s with
  | mk s' r =>
    rw [hr] at hterm hsched
    have ht' : s'.tasks[id]? = some t := (congrArg (fun x => x.tasks[id]?) hsched).trans ht
    cases r with
    | ok o =>
      cases o with
      | none => exact absurd ((readMain_goesOn ha hr).symm.trans hterm) (by simp)
      | some o => exact isOver_endTask (s := closeMain o s') ht' none
    | error fault =>
      have hrescue := h.follows.rescueMain stint fault s'
      have ht'' : (rescueMain tell stint fault s').1.tasks[id]? = some t :=
        (congrArg (fun x => x.tasks[id]?) hrescue).trans ht'
      exact isOver_endTask (s := closeMain _ (rescueMain tell stint fault s').1) ht'' _

theorem step_eq_stepMain (ht : s.tasks[id]? = some t) {stint : Stint} (hwork : t.work = .main stint) {n : Nat}
    (hphase : t.phase = .reading n) {a : Arrival} (ha : a = .ended ∨ ∃ chunk, a = .chunk chunk) :
    step tell id a s = stepMain tell id stint n a s := by
  rw [step, ht]
  dsimp only
  rw [hphase, hwork]
  rcases ha with rfl | ⟨chunk, rfl⟩
  · rfl
  · rfl

theorem exists_main (h : s.isMain id = true) : ∃ t stint, s.tasks[id]? = some t ∧ t.work = .main stint := by
  obtain ⟨t, ht, hmain⟩ := (Option.any_eq_true _ _).mp h
  cases hwork : t.work with
  | main stint => exact ⟨t, stint, ht, hwork⟩
  | _ => exact absurd hmain (by simp [hwork, Work.isAction])

namespace Mute

variable (h : Mute tell)

include h

/-- A main stream that brings a fault of this kind, or comes upon one, has ended. -/
theorem isOver_of_gain {a : Arrival} (hmain : s.isMain id = true) (hgain : s.gain id a ≠ .nothing)
    (hterm : (step tell id a s).terminal = true) : (step tell id a s).isOver id = true := by
  obtain ⟨t, stint, ht, hwork⟩ := exists_main hmain
  obtain ⟨t', n, ht', hphase, ha⟩ := exists_reading_of_gain hgain
  obtain rfl : t = t' := Option.some.inj (ht.symm.trans ht')
  rw [step_eq_stepMain ht hwork hphase ha] at hterm ⊢
  exact h.steady.isOver_stepMain ht ha hterm

/-- While a fault of this kind stands, a main stream leaves the tree alone, but for a chunk that ends it. -/
theorem step_of_terminal (hterm : s.terminal = true) (hmain : s.isMain id = true) (a : Arrival) :
    (step tell id a s).intake.tree = s.intake.tree ∨
      (∃ chunk, a = .chunk chunk) ∧ s.isOver id = false ∧ (step tell id a s).isOver id = true := by
  by_cases hgain : s.gain id a = .nothing
  · refine Or.inl ?_
    rw [h.passive.tree_step, brought_of_gain_eq_nothing hgain]
    rfl
  · obtain ⟨t, stint, ht, hwork⟩ := exists_main hmain
    obtain ⟨t', n, ht', hphase, ha⟩ := exists_reading_of_gain hgain
    obtain rfl : t = t' := Option.some.inj (ht.symm.trans ht')
    refine Or.inr ⟨?_, ?_, h.isOver_of_gain hmain hgain ((h.later_step id a s).terminal hterm)⟩
    · rcases ha with rfl | hchunk
      · -- the end of a main stream takes its rest in only if no such fault stands
        have hnone : (Work.main stint).gain s .ended = .nothing := by
          rw [Work.gain, hterm, Bool.not_true, Bool.and_false]
          rfl
        rw [gain_of_reading ht hphase, hwork] at hgain
        exact absurd hnone hgain
      · exact hchunk
    · rw [isOver, ht]
      exact Task.isOver_eq_false (Or.inr hphase)

end Mute

/-- **A fault that ends the session keeps main streams from the tree.**  From the step that finishes the record on, up
to the next connect, the stream that brought it never touches the tree again if it is a main stream; any other main
stream does so at most by one more chunk, and that chunk ends it.  The host neither raises faults nor calls back. -/
theorem terminal_freezes_main (h : Host) (hquiet : ∀ calls, h.reactions calls = []) (s : Session) (id₀ : Nat)
    (a₀ : Arrival) (hfault : (s.brought id₀ a₀).any (endsSession s.intake.limits) = true) (moves : List Move)
    (hmoves : ∀ m ∈ moves, m.connects = false) (id : Nat) (hmain : s.isMain id = true) (a : Arrival) :
    (after h.tell (step h.tell id₀ a₀ s) moves).terminal = true ∧
      ((step h.tell id a (after h.tell (step h.tell id₀ a₀ s) moves)).intake.tree =
          (after h.tell (step h.tell id₀ a₀ s) moves).intake.tree ∨
        id ≠ id₀ ∧ (∃ chunk, a = .chunk chunk) ∧
          (after h.tell (step h.tell id₀ a₀ s) moves).isOver id = false ∧
          (step h.tell id a (after h.tell (step h.tell id₀ a₀ s) moves)).isOver id = true) := by
  have hmute : Mute h.tell := Host.mute_tell hquiet
  have hfirst : (step h.tell id₀ a₀ s).terminal = true := by
    rw [hmute.terminal_step, hfault, Bool.or_true]
  have hlater := hmute.later_after hmoves (step h.tell id₀ a₀ s)
  have hterm := hlater.terminal hfirst
  refine ⟨hterm, ?_⟩
  rcases hmute.step_of_terminal hterm (hlater.isMain ((hmute.later_step id₀ a₀ s).isMain hmain)) a with
    hsame | ⟨hchunk, hgoing, hover⟩
  · exact Or.inl hsame
  · refine Or.inr ⟨?_, hchunk, hgoing, hover⟩
    -- the stream that brought the fault has ended with it
    rintro rfl
    have hgain : s.gain id a₀ ≠ .nothing := by
      intro hnone
      rw [brought_of_gain_eq_nothing hnone] at hfault
      exact absurd hfault (by simp)
    have hdone := hlater.isOver (hmute.isOver_of_gain hmain hgain hfirst)
    exact absurd (hdone.symm.trans hgoing) (by simp)

/-- The bytes of a text, with the newline that ends a record. -/
def line (text : String) : List UInt8 := Text.Utf8.encode text.toList ++ [Stream.newline]

/-- The message source crashes. -/
def crash : Chunk := ⟨line "\x7b\"type\":\"error\",\"message\":\"model crashed\"\x7d", true⟩

/-- A component arrives. -/
def addition : Chunk :=
  ⟨line "\x7b\"type\":\"component\",\"data\":\x7b\"id\":\"a\",\"type\":\"Text\",\"props\":\x7b\x7d\x7d\x7d", true⟩

/-- The main stream and a reply have got their responses. -/
def twoStreams : Session :=
  after Host.quiet.tell (Session.start [] Limits.standard Options.standard ⟨0⟩)
    [.connect none [], .action ⟨.click, "btn", none, 1⟩ none [], .step 0 .start, .step 0 (.opened true),
      .step 1 .start, .step 1 (.opened true)]

/-- A reply brings the fault; the main stream has its last chunk after that, and one more comes too late. -/
theorem terminal_freezes_main_of_late_chunk :
    (step Host.quiet.tell 0 (.chunk addition)
        (after Host.quiet.tell (step Host.quiet.tell 1 (.chunk crash) twoStreams)
          [.step 0 (.chunk addition)])).intake.tree =
      (after Host.quiet.tell (step Host.quiet.tell 1 (.chunk crash) twoStreams)
        [.step 0 (.chunk addition)]).intake.tree := by
  have hover : (after Host.quiet.tell (step Host.quiet.tell 1 (.chunk crash) twoStreams)
      [.step 0 (.chunk addition)]).isOver 0 = true := by decide +kernel
  rcases (terminal_freezes_main Host.quiet (fun _ => rfl) twoStreams 1 (.chunk crash) (by decide +kernel)
    [.step 0 (.chunk addition)] (by simp [Move.connects]) 0 (by decide +kernel) (.chunk addition)).2 with
    hsame | ⟨_, _, hgoing, _⟩
  · exact hsame
  · exact absurd (hover.symm.trans hgoing) (by simp)

/-- A reply goes on after the fault that it brought, and so does the main stream for one chunk. -/
theorem tree_changes_after_crash :
    (twoStreams.brought 1 (.chunk crash)).any (endsSession twoStreams.intake.limits) = true ∧
      (step Host.quiet.tell 1 (.chunk crash) twoStreams).intake.tree.version = 0 ∧
      (step Host.quiet.tell 1 (.chunk addition)
        (step Host.quiet.tell 1 (.chunk crash) twoStreams)).intake.tree.version = 1 ∧
      (step Host.quiet.tell 0 (.chunk addition)
        (step Host.quiet.tell 1 (.chunk crash) twoStreams)).intake.tree.version = 1 := by
  decide +kernel

end ComponentStream.Session
