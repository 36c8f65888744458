import ComponentStream.Proofs.Session.Gain

/-!
# What a step does to the core

With a passive host, a step moves its own task on and takes into the tree what its arrival brings, and does nothing
else to the core.

* `Stepped` — all that a step can do;
* `Passive.stepped` — a step does no more than that.
-/

namespace ComponentStream.Session

open ComponentStream.Stream (Intake)

variable {s : Session} {id : Nat} {t : Task}

/-! ### Tasks in the core -/

/-- The core with a task in the place of another one. -/
def Core.setTask (c : Core) (id : Nat) (t : Task) : Core := { c with tasks := c.tasks.set id t }

/-- A task in a list of which one has been replaced. -/
theorem getElem?_set_cases {tasks : List Task} (ht : tasks[id]? = some t) {u v : Task} {i : Nat}
    (hv : (tasks.set id u)[i]? = some v) : (i = id ∧ v = u) ∨ (i ≠ id ∧ tasks[i]? = some v) := by
  have hlt : id < tasks.length := (List.getElem?_eq_some_iff.mp ht).1
  by_cases hi : i = id
  · subst hi
    rw [List.getElem?_set_self hlt] at hv
    exact Or.inl ⟨rfl, (Option.some.inj hv).symm⟩
  · rw [List.getElem?_set_ne fun he => hi he.symm] at hv
    exact Or.inr ⟨hi, hv⟩

/-- A task in a list with one more at its end. -/
theorem getElem?_concat_cases {tasks : List Task} {u : Task} {i : Nat} (hu : (tasks ++ [t])[i]? = some u) :
    tasks[i]? = some u ∨ (i = tasks.length ∧ u = t) := by
  rcases Nat.lt_or_ge i tasks.length with hlt | hge
  · exact Or.inl (List.getElem?_append_left hlt ▸ hu)
  · rw [List.getElem?_append_right hge, List.getElem?_singleton] at hu
    split at hu
    · exact Or.inr ⟨by omega, (Option.some.inj hu).symm⟩
    · exact absurd hu (by simp)

theorem tasks_changeTask (ht : s.tasks[id]? = some t) (f : Task → Task) :
    (s.changeTask id f).tasks = s.tasks.set id (f t) := by
  rw [changeTask, List.modify_eq_set_getElem?, ht]
  rfl

theorem core_changeTask (ht : s.tasks[id]? = some t) (f : Task → Task) :
    (s.changeTask id f).core = s.core.setTask id (f t) :=
  congrArg (fun tasks => { s.core with tasks := tasks }) (tasks_changeTask ht f)

/-- All that a step can do to the core, `t` being the task whose step it is. -/
inductive Stepped (c : Core) (id : Nat) (t : Task) : Gain → Core → Prop where
  | idle : Stepped c id t .nothing c
  | ended (ending : Ending) (requested : Bool) :
      Stepped c id t .nothing (c.setTask id { t with phase := .over ending, cancelRequested := requested })
  | beginMain (stint : Stint) : t.phase = .fresh → t.work = .main stint →
      Stepped c id t .nothing (c.setTask id { t with phase := .opening 0 })
  | beginReply (stint : Stint) : t.phase = .fresh → t.work = .reply stint →
      Stepped c id t .nothing
        ((c.withIntake c.intake.fork).setTask id { t with phase := .opening c.intake.buffers.length })
  | beginPost : t.phase = .fresh → t.work = .post → Stepped c id t .nothing (c.setTask id { t with phase := .posting })
  | stream (n : Nat) (g : Gain) (u : Task) : t.phase = .opening n ∨ t.phase = .reading n → u.work = t.work →
      (u.phase = .reading n ∨ ∃ ending, u.phase = .over ending) →
      Stepped c id t g ((c.withIntake (g.enter c.intake n)).setTask id u)

/-- A step of a stream that goes on, `s'` being the session once the gain is in. -/
theorem Stepped.goOn (ht : s.tasks[id]? = some t) {n : Nat} (hphase : t.phase = .opening n ∨ t.phase = .reading n)
    {g : Gain} {s' : Session} (h : s'.core = s.core.withIntake (g.enter s.intake n)) :
    Stepped s.core id t g (s'.setPhase id (.reading n)).core := by
  have ht' : s'.tasks[id]? = some t := by
    rw [show s'.tasks = s.tasks from congrArg Core.tasks h]
    exact ht
  rw [show (s'.setPhase id (.reading n)).core = _ from core_changeTask ht' _, h]
  exact Stepped.stream n g _ hphase rfl (Or.inl rfl)

/-- A step that ends a stream, `s'` being the session once the gain is in. -/
theorem Stepped.endTask (s' : Session) (ht : s.tasks[id]? = some t) {n : Nat}
    (hphase : t.phase = .opening n ∨ t.phase = .reading n) {g : Gain}
    (h : s'.core = s.core.withIntake (g.enter s.intake n)) (fault : Option Fault) :
    Stepped s.core id t g (s'.endTask id fault).core := by
  have ht' : s'.tasks[id]? = some t := by
    rw [show s'.tasks = s.tasks from congrArg Core.tasks h]
    exact ht
  rw [show (s'.endTask id fault).core = _ from core_changeTask ht' _, h]
  exact Stepped.stream n g _ hphase rfl (Or.inr ⟨_, rfl⟩)

theorem core_setTask_self (ht : s.tasks[id]? = some t) : s.core.setTask id t = s.core := by
  obtain ⟨hlt, rfl⟩ := List.getElem?_eq_some_iff.mp ht
  rw [Core.setTask, show s.core.tasks.set id s.tasks[id] = s.tasks from List.set_getElem_self hlt]
  rfl

/-- A step that ends its task and takes nothing in, `s'` being the session before; the task may just have been told
that its order to stop is carried out. -/
theorem Stepped.stop (s' : Session) (requested : Bool) (ht : s.tasks[id]? = some t)
    (h : s'.core = s.core.setTask id { t with cancelRequested := requested }) {f : Task → Task}
    (hf : ∀ u, ∃ ending, f u = { u with phase := .over ending }) :
    Stepped s.core id t .nothing (s'.changeTask id f).core := by
  have hlt : id < s.tasks.length := (List.getElem?_eq_some_iff.mp ht).1
  have ht' : s'.tasks[id]? = some { t with cancelRequested := requested } := by
    rw [show s'.tasks = s.tasks.set id _ from congrArg Core.tasks h, List.getElem?_set_self hlt]
  obtain ⟨ending, hend⟩ := hf { t with cancelRequested := requested }
  rw [core_changeTask ht', h, hend, Core.setTask, Core.setTask, List.set_set]
  exact Stepped.ended ending requested

theorem Stepped.stop_at_once (s' : Session) (ht : s.tasks[id]? = some t) (h : s'.core = s.core) {f : Task → Task}
    (hf : ∀ u, ∃ ending, f u = { u with phase := .over ending }) :
    Stepped s.core id t .nothing (s'.changeTask id f).core :=
  Stepped.stop s' t.cancelRequested ht (h.trans (core_setTask_self ht).symm) hf

/-- The first step of a task takes nothing in. -/
theorem Stepped.begin (ht : s.tasks[id]? = some t) (hphase : t.phase = .fresh) :
    Stepped s.core id t .nothing (begin id t s).core := by
  rw [Session.begin]
  cases hw : t.work with
  | main stint =>
    have hset : ({ s with metrics := s.metrics.enterSession }.setPhase id (.opening 0)).core =
        s.core.setTask id { t with phase := .opening 0 } :=
      core_changeTask (s := { s with metrics := s.metrics.enterSession }) ht _
    rw [hset]
    exact Stepped.beginMain stint hphase hw
  | reply stint =>
    have hset : ({ s with intake := s.intake.fork }.setPhase id (.opening s.intake.buffers.length)).core =
        (s.core.withIntake s.intake.fork).setTask id { t with phase := .opening s.intake.buffers.length } :=
      core_changeTask (s := { s with intake := s.intake.fork }) ht _
    rw [hset]
    exact Stepped.beginReply stint hphase hw
  | post =>
    have hset : (s.setPhase id .posting).core = s.core.setTask id { t with phase := .posting } := core_changeTask ht _
    rw [hset]
    exact Stepped.beginPost hphase hw

namespace Passive

variable {tell : Teller} (hp : Passive tell)

include hp

/-- With a passive host, the core follows the gains. -/
theorem follows : Follows tell core fun s g n => s.core.withIntake (g.enter s.intake n) where
  status := fun _ _ => rfl
  lastError := fun _ _ => rfl
  metrics := fun _ _ => rfl
  calls := hp.outward
  nothing := fun _ _ => rfl
  chunk := hp.core_feed
  rest := hp.core_finish

theorem stepMain (ht : s.tasks[id]? = some t) {n : Nat} (hphase : t.phase = .opening n ∨ t.phase = .reading n)
    (stint : Stint) (a : Arrival) :
    Stepped s.core id t ((Work.main stint).gain s a) (stepMain tell id stint n a s).core := by
  have hread := hp.follows.readMain stint n a s
  rw [Session.stepMain]
  cases hr : readMain tell stint n a s with
  | mk s' r =>
    rw [hr] at hread
    cases r with
    | ok o =>
      cases o with
      | none => exact Stepped.goOn ht hphase hread
      | some o => exact Stepped.endTask (closeMain o s') ht hphase hread none
    | error fault =>
      have hrescue := hp.follows.rescueMain stint fault s'
      exact Stepped.endTask (closeMain _ (Session.rescueMain tell stint fault s').1) ht hphase
        (hrescue.trans hread) _

theorem stepReply (ht : s.tasks[id]? = some t) {n : Nat} (hphase : t.phase = .opening n ∨ t.phase = .reading n)
    (stint : Stint) (a : Arrival) :
    Stepped s.core id t ((Work.reply stint).gain s a) (stepReply tell id stint n a s).core := by
  have hread := hp.follows.readReply stint n a s
  rw [Session.stepReply]
  cases hr : readReply tell stint n a s with
  | mk s' r =>
    rw [hr] at hread
    cases r with
    | ok finished =>
      cases finished with
      | false => exact Stepped.goOn ht hphase hread
      | true => exact Stepped.endTask s' ht hphase hread none
    | error fault =>
      have hrescue := hp.follows.rescueReply stint fault s'
      exact Stepped.endTask (Session.rescueReply tell stint fault s').1 ht hphase (hrescue.trans hread) _

/-! ### All tasks -/

theorem stepPost (ht : s.tasks[id]? = some t) (a : Arrival) :
    Stepped s.core id t .nothing (stepPost tell id a s).core := by
  cases a with
  | posted => exact Stepped.stop_at_once (s.count (postCounter "sent") 1) ht rfl fun u => ⟨_, rfl⟩
  | failed fault =>
    cases fault with
    | connection f =>
      have hreport := hp.report (notSent f) (s.count (postCounter "failed") 1)
      exact Stepped.stop_at_once _ ht hreport fun u => ⟨_, rfl⟩
    | backend message recoverable => exact Stepped.stop_at_once s ht rfl fun u => ⟨_, rfl⟩
    | invariant e => exact Stepped.stop_at_once s ht rfl fun u => ⟨_, rfl⟩
    | other message => exact Stepped.stop_at_once s ht rfl fun u => ⟨_, rfl⟩
  | cancelled => exact Stepped.stop_at_once s ht rfl fun u => ⟨_, rfl⟩
  | start => exact Stepped.idle
  | opened records => exact Stepped.idle
  | chunk chunk => exact Stepped.idle
  | ended => exact Stepped.idle

/-- A step of a stream; what does not fit brings nothing. -/
theorem stepStream (ht : s.tasks[id]? = some t) {n : Nat} (hphase : t.phase = .opening n ∨ t.phase = .reading n)
    {fits : Bool} {a : Arrival} {g : Gain} (hfits : fits = true → t.work.gain s a = g)
    (hno : fits = false → g = .nothing) (hcancel : a = .cancelled → fits = false) :
    Stepped s.core id t g (stepStream tell id t.work n fits a s).core := by
  have hclear : (s.clearRequest id).core = s.core.setTask id { t with cancelRequested := false } :=
    core_changeTask ht _
  refine stepStream_cases (P := fun s' => Stepped s.core id t g s'.core) ?_ ?_ ?_ ?_ ?_
  · intro hidle
    rw [Gain.eq_nothing_of_idle hfits hno hidle]
    exact Stepped.idle
  · intro stint _ ha
    obtain ⟨o, f, hf, hstop⟩ := exists_stopMain id stint (s.clearRequest id)
    rw [hno (hcancel ha), hstop]
    exact Stepped.stop (closeMain o (s.clearRequest id)) false ht hclear hf
  · intro stint _ ha
    obtain ⟨f, hf, hstop⟩ := exists_stopReply id stint (s.clearRequest id)
    rw [hno (hcancel ha), hstop]
    exact Stepped.stop (s.clearRequest id) false ht hclear hf
  · intro stint hw hfit
    rw [← hfits hfit, hw]
    exact hp.stepMain ht hphase stint a
  · intro stint hw hfit
    rw [← hfits hfit, hw]
    exact hp.stepReply ht hphase stint a

/-- **A step moves its own task on and takes its gain in, and does nothing else to the core.** -/
theorem stepped (ht : s.tasks[id]? = some t) (a : Arrival) :
    Stepped s.core id t (s.gain id a) (step tell id a s).core := by
  rw [step, ht]
  dsimp only
  cases hphase : t.phase with
  | fresh =>
    rw [gain_of_not_reading ht (by simp [hphase])]
    cases a with
    | start => exact Stepped.begin ht hphase
    | cancelled => exact Stepped.stop_at_once s ht rfl fun u => ⟨_, rfl⟩
    | _ => exact Stepped.idle
  | opening n =>
    rw [gain_of_not_reading ht (by simp [hphase])]
    refine hp.stepStream ht (Or.inl hphase) (fun hearly => t.work.gain_of_isEarly hearly) (fun _ => rfl) ?_
    rintro rfl
    rfl
  | reading n =>
    rw [gain_of_reading ht hphase]
    refine hp.stepStream ht (Or.inr hphase) (fun _ => rfl) (fun hlate => t.work.gain_of_not_isLate hlate) ?_
    rintro rfl
    rfl
  | posting =>
    rw [gain_of_not_reading ht (by simp [hphase])]
    exact hp.stepPost ht a
  | _ =>
    rw [gain_of_not_reading ht (by simp [hphase])]
    exact Stepped.idle

end Passive

end ComponentStream.Session
