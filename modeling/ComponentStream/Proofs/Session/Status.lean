import ComponentStream.Proofs.Session.Standing
import ComponentStream.Proofs.Session.Step

/-!
# What a step does to the state

The host may raise a fault at any call, and a fault that it raises while another one is being dealt with ends the task
at once.  All the same a step has few ways to change the state of its session, and whichever of them it takes, it moves
no task but its own.

* `Act.Worsens` — acts that leave the state as it is or make it an error, as all acts of replies do;
* `MainRead`, `Steady.mainRead` — how reading the main stream may turn out;
* `RaisesOnFailure`, `Settled` — whether a state fits a main stream that has ended in some way;
* `Task.Advances` — the two steps of a main stream that make a state other than an error;
* `Turned`, `Steady.turns_step` — all that a step can do to the state and to its task.
-/

namespace ComponentStream.Session

variable {α β : Type} {s s' : Session} {tell : Teller} {id : Nat} {t u : Task} {a : Arrival}

/-! ### Acts that at most fail -/

/-- An act that leaves the state as it is or makes it an error. -/
def Act.Worsens (m : Act α) : Prop := ∀ s, (m s).1.status = s.status ∨ (m s).1.status = .error

namespace Act.Worsens

theorem of_keeps {m : Act α} (h : m.Keeps standing) : m.Worsens := fun s => Or.inl (congrArg Prod.fst (h s))

end Act.Worsens

/-! ### What a step comes to -/

/-- The host raises a certain fault on hearing of some failed request. -/
def RaisesOnFailure (tell : Teller) (fault : Fault) : Prop :=
  ∃ failure s, (tell (.error (.connection failure)) s).2 = .error fault

/-- A state that fits a main stream which has ended: it tells how, unless the stream was cancelled or the host raised
a fault when it was told of the failed request. -/
def Settled (tell : Teller) (status : Status) (ending : Ending) : Prop :=
  status = .connected ∨ status = .error ∨ ending = .cancelled ∨
    ∃ fault, ending = .raised fault ∧ RaisesOnFailure tell fault

/-- The current main stream gets its response, or it comes to its end without a fault that ends the session. -/
def Task.Advances (s : Session) (t : Task) (a : Arrival) : Prop :=
  t.work = .main s.stint ∧
    (((∃ n, t.phase = .opening n) ∧ ∃ records, a = .opened records) ∨
      ((∃ n, t.phase = .reading n) ∧ a = .ended ∧ s.terminal = false))

/-- All that a step can do: `state` is the state and `u` the task afterwards. -/
structure Turned (tell : Teller) (s : Session) (t : Task) (a : Arrival) (state : Status) (u : Task) : Prop where
  work : u.work = t.work
  /-- A task that has ended stays as it is. -/
  stays : t.isOver = true → u = t
  /-- No step posts for a stream. -/
  posting : u.phase = .posting → t.phase = .posting ∨ t.work = .post
  status : state = s.status ∨ state = .error ∨ t.Advances s a
  settled : t.work = .main s.stint → t.isOver = false → t.phase ≠ .posting → ∀ ending, u.phase = .over ending →
    Settled tell state ending

/-- A step turns one session into another and moves no task but its own. -/
def Turns (tell : Teller) (s : Session) (id : Nat) (t : Task) (a : Arrival) (s' : Session) : Prop :=
  ∃ u, s'.schedule = ⟨s.stint, s.tasks.set id u⟩ ∧ Turned tell s t a s'.status u

theorem Turned.idle (tell : Teller) (s : Session) (t : Task) (a : Arrival) : Turned tell s t a s.status t where
  work := rfl
  stays := fun _ => rfl
  posting := Or.inl
  status := Or.inl rfl
  settled := by
    intro _ hgoing _ ending hphase
    rw [Task.isOver, hphase] at hgoing
    exact absurd hgoing (by simp)

/-- A stream that has a response, or waits for it, has not ended. -/
theorem Task.isOver_eq_false {n : Nat} (h : t.phase = .opening n ∨ t.phase = .reading n) : t.isOver = false := by
  rcases h with hp | hp
  · rw [Task.isOver, hp]
  · rw [Task.isOver, hp]

theorem schedule_eq_set (ht : s.tasks[id]? = some t) : s.schedule = ⟨s.stint, s.tasks.set id t⟩ := by
  obtain ⟨hlt, rfl⟩ := List.getElem?_eq_some_iff.mp ht
  rw [List.set_getElem_self hlt]
  rfl

theorem Turns.idle (tell : Teller) (ht : s.tasks[id]? = some t) (a : Arrival) : Turns tell s id t a s :=
  ⟨t, schedule_eq_set ht, Turned.idle tell s t a⟩

/-- What a step has done once its task, which is `u` by then, has moved on as well. -/
theorem Turns.changeTask_of_set (s' : Session) (ht : s.tasks[id]? = some t)
    (hschedule : s'.schedule = ⟨s.stint, s.tasks.set id u⟩) (f : Task → Task) (h : Turned tell s t a s'.status (f u)) :
    Turns tell s id t a (s'.changeTask id f) := by
  have hlt : id < s.tasks.length := (List.getElem?_eq_some_iff.mp ht).1
  have htasks : s'.tasks = s.tasks.set id u := congrArg Schedule.tasks hschedule
  have hstint : s'.stint = s.stint := congrArg Schedule.stint hschedule
  have hu : s'.tasks[id]? = some u := by rw [htasks, List.getElem?_set_self hlt]
  refine ⟨f u, ?_, h⟩
  rw [schedule, tasks_changeTask hu, htasks, List.set_set]
  exact congrArg (Schedule.mk · _) hstint

theorem Turns.changeTask (s' : Session) (ht : s.tasks[id]? = some t) (hschedule : s'.schedule = s.schedule)
    (f : Task → Task) (h : Turned tell s t a s'.status (f t)) : Turns tell s id t a (s'.changeTask id f) :=
  Turns.changeTask_of_set s' ht (hschedule.trans (schedule_eq_set ht)) f h

/-- A task ends, and the state is one that fits. -/
theorem Turned.ended {state : Status} {ending : Ending} {requested : Bool} (hgoing : t.isOver = false)
    (hstatus : state = s.status ∨ state = .error ∨ t.Advances s a)
    (hsettled : t.work = .main s.stint → t.phase ≠ .posting → Settled tell state ending) :
    Turned tell s t a state { t with phase := .over ending, cancelRequested := requested } where
  work := rfl
  stays := fun hover => absurd hover (by simp [hgoing])
  posting := fun hphase => absurd hphase (by simp)
  status := hstatus
  settled := by
    intro hmain _ hpost e he
    obtain rfl : ending = e := Phase.over.inj he
    exact hsettled hmain hpost

/-- A stream goes on. -/
theorem Turned.goesOn {state : Status} {n : Nat} (hgoing : t.isOver = false)
    (hstatus : state = s.status ∨ state = .error ∨ t.Advances s a) :
    Turned tell s t a state { t with phase := .reading n } where
  work := rfl
  stays := fun hover => absurd hover (by simp [hgoing])
  posting := fun hphase => absurd hphase (by simp)
  status := hstatus
  settled := fun _ _ _ ending hphase => absurd hphase (by simp)

/-! ### The main stream -/

/-- How reading the current main stream may turn out: the state afterwards, and the result. -/
inductive MainRead (s : Session) (a : Arrival) : Status → Except Fault (Option Outcome) → Prop where
  | goesOn : MainRead s a s.status (.ok none)
  /-- A fault came before the state could be set. -/
  | cutShort (fault : Fault) : MainRead s a s.status (.error fault)
  | opened (records : Bool) (r : Except Fault (Option Outcome)) :
      a = .opened records → (∀ o, r ≠ .ok (some o)) → MainRead s a .streaming r
  | failed (r : Except Fault (Option Outcome)) : MainRead s a .error r
  | ended (r : Except Fault (Option Outcome)) : a = .ended → s.terminal = false → MainRead s a .connected r

namespace Steady

variable (h : Steady tell)

include h

theorem status_feed (n : Nat) (chunk : Chunk) (s : Session) : (Session.feed tell n chunk s).1.status = s.status :=
  congrArg Prod.fst (h.feed n chunk s)

theorem status_finish (n : Nat) (s : Session) : (Session.finish tell n s).1.status = s.status :=
  congrArg Prod.fst (h.finish n s)

theorem status_report (fault : Fault) (s : Session) : (Session.report tell fault s).1.status = s.status :=
  congrArg Prod.fst (h.report fault s)

/-- The schedule changes with nothing that comes in. -/
theorem follows : Follows tell schedule fun s _ _ => s.schedule where
  status := fun _ _ => rfl
  lastError := fun _ _ => rfl
  metrics := fun _ _ => rfl
  calls := fun c => (h c).map Prod.snd
  nothing := fun _ _ => rfl
  chunk := fun n chunk s => congrArg Prod.snd (h.feed n chunk s)
  rest := fun n s => congrArg Prod.snd (h.finish n s)

/-- Once a state is set, whatever follows without touching it leaves it so. -/
theorem status_setStatus_bind (status : Status) {k : Unit → Act α} (hk : ∀ a, (k a).Keeps Session.status)
    (s : Session) : ((setStatus tell status >>= k) s).1.status = status :=
  (Act.Keeps.read_bind _ hk s).trans (h.status_setStatus status s)

/-- A fault that ends the session makes the end of the body an error. -/
theorem status_concludeMain_of_terminal {stint : Stint} (hc : s.isCurrent stint = true) (hterm : s.terminal = true)
    (n : Nat) : (concludeMain tell stint n s).1.status = .error := by
  rw [concludeMain, Act.unlessStale, if_pos hc, Act.bind_apply]
  simp only [Act.get, hterm, if_true]
  exact h.status_setStatus_bind .error (fun _ => Act.Keeps.pure _) s

/-- Without one the session stays connected, unless the host raises a fault over the last record. -/
theorem concludeMain_of_not_terminal {stint : Stint} (hc : s.isCurrent stint = true) (hterm : s.terminal = false)
    (n : Nat) :
    (concludeMain tell stint n s).1.status = .connected ∨
      ((concludeMain tell stint n s).1.status = s.status ∧
        ∃ fault, (concludeMain tell stint n s).2 = .error fault) := by
  rw [concludeMain, Act.unlessStale, if_pos hc, Act.bind_apply]
  simp only [Act.get, hterm]
  have hkept := h.status_finish n s
  cases hfinish : Session.finish tell n s with
  | mk s' r =>
    rw [hfinish] at hkept
    rw [if_neg Bool.false_ne_true, Act.bind_apply, hfinish]
    cases r with
    | ok a => exact Or.inl (h.status_setStatus_bind .connected (fun _ => Act.Keeps.pure _) s')
    | error fault => exact Or.inr ⟨hkept, fault, rfl⟩

theorem mainRead_opened {stint : Stint} (hc : s.isCurrent stint = true) (n : Nat) (records : Bool) :
    MainRead s (.opened records) (readMain tell stint n (.opened records) s).1.status
      (readMain tell stint n (.opened records) s).2 := by
  rw [readMain, Act.unlessStale, if_pos hc, Act.bind_apply]
  have hset := h.status_setStatus .streaming s
  cases hs' : setStatus tell .streaming s with
  | mk s' r =>
    rw [hs'] at hset
    change s'.status = .streaming at hset
    cases r with
    | ok a =>
      show MainRead s _ s'.status (.ok none)
      rw [hset]
      exact MainRead.opened records _ rfl (by simp)
    | error fault =>
      show MainRead s _ s'.status (.error fault)
      rw [hset]
      exact MainRead.opened records _ rfl (by simp)

theorem mainRead_chunk {stint : Stint} (hc : s.isCurrent stint = true) (n : Nat) (chunk : Chunk) :
    MainRead s (.chunk chunk) (readMain tell stint n (.chunk chunk) s).1.status
      (readMain tell stint n (.chunk chunk) s).2 := by
  rw [readMain, Act.unlessStale, if_pos hc, Act.bind_apply]
  have hkept := h.status_feed n chunk s
  have hstint : (Session.feed tell n chunk s).1.stint = s.stint :=
    congrArg Schedule.stint (h.follows.chunk n chunk s)
  cases hfeed : Session.feed tell n chunk s with
  | mk s' r =>
    rw [hfeed] at hkept hstint
    change s'.status = s.status at hkept
    cases r with
    | error fault =>
      show MainRead s _ s'.status (.error fault)
      rw [hkept]
      exact MainRead.cutShort fault
    | ok a =>
      dsimp only
      rw [Act.bind_apply]
      by_cases hterm : s'.terminal = true
      · have hc' : s'.isCurrent stint = true := by
          rw [isCurrent, hstint]
          exact hc
        have herror : ((concludeMain tell stint n >>= fun o => pure (some o)) s').1.status = .error :=
          (Act.Keeps.read_bind (f := Session.status) _ (fun _ => Act.Keeps.pure _) s').trans
            (h.status_concludeMain_of_terminal hc' hterm n)
        simp only [Act.get, hterm, if_true]
        rw [herror]
        exact MainRead.failed _
      · simp only [Act.get, hterm]
        show MainRead s _ s'.status (.ok none)
        rw [hkept]
        exact MainRead.goesOn

theorem mainRead_ended {stint : Stint} (hc : s.isCurrent stint = true) (n : Nat) :
    MainRead s .ended (readMain tell stint n .ended s).1.status (readMain tell stint n .ended s).2 := by
  have hsame : (readMain tell stint n .ended s).1.status = (concludeMain tell stint n s).1.status :=
    Act.Keeps.read_bind (f := Session.status) _ (fun _ => Act.Keeps.pure _) s
  rw [hsame]
  by_cases hterm : s.terminal = true
  · rw [h.status_concludeMain_of_terminal hc hterm]
    exact MainRead.failed _
  · have hfalse : s.terminal = false := by simpa using hterm
    rcases h.concludeMain_of_not_terminal hc hfalse n with hconnected | ⟨hkept, fault, hfault⟩
    · rw [hconnected]
      exact MainRead.ended _ rfl hfalse
    · have hresult : (readMain tell stint n .ended s).2 = .error fault := by
        rw [readMain, Act.bind_apply]
        cases hconclude : concludeMain tell stint n s with
        | mk s' r =>
          rw [hconclude] at hfault
          change r = .error fault at hfault
          subst hfault
          rfl
      rw [hkept, hresult]
      exact MainRead.cutShort fault

theorem mainRead {stint : Stint} (hc : s.isCurrent stint = true) (n : Nat) (a : Arrival) :
    MainRead s a (readMain tell stint n a s).1.status (readMain tell stint n a s).2 := by
  cases a with
  | opened records => exact h.mainRead_opened hc n records
  | chunk chunk => exact h.mainRead_chunk hc n chunk
  | ended => exact h.mainRead_ended hc n
  | failed fault => exact MainRead.cutShort fault
  | start => exact MainRead.goesOn
  | posted => exact MainRead.goesOn
  | cancelled => exact MainRead.goesOn

/-- A fault makes the state an error, unless it is that of a failed request and the host raises another one on hearing
of it. -/
theorem rescueMain_cases {stint : Stint} (hc : s.isCurrent stint = true) (fault : Fault) :
    (rescueMain tell stint fault s).1.status = .error ∨
      ((rescueMain tell stint fault s).1.status = s.status ∧
        ∃ raised, (rescueMain tell stint fault s).2 = .error raised ∧ RaisesOnFailure tell raised) := by
  rw [rescueMain, Act.unlessStale, if_pos hc]
  cases hf : fault.isConnection with
  | false =>
    refine Or.inl ?_
    rw [if_neg Bool.false_ne_true, Act.bind_apply]
    exact h.status_setStatus_bind .error (fun _ s => h.status_report fault s) _
  | true =>
    rw [if_pos rfl, Act.bind_apply]
    have hkept := h.status_report fault s
    cases hreport : Session.report tell fault s with
    | mk s' r =>
      rw [hreport] at hkept
      cases r with
      | ok a => exact Or.inl (h.status_setStatus .error s')
      | error raised =>
        refine Or.inr ⟨hkept, raised, rfl, ?_⟩
        cases fault with
        | connection failure =>
          exact ⟨failure, { s with lastError := some (.connection failure) }, congrArg Prod.snd hreport⟩
        | _ => exact absurd hf (by simp [Fault.isConnection])

theorem turns_stepMain (ht : s.tasks[id]? = some t) {stint : Stint} (hwork : t.work = .main stint) {n : Nat}
    (hfit : t.phase = .opening n ∧ a.isEarly = true ∨ t.phase = .reading n ∧ a.isLate = true) :
    Turns tell s id t a (stepMain tell id stint n a s) := by
  have hgoing : t.isOver = false := Task.isOver_eq_false (hfit.imp And.left And.left)
  have hsched : (readMain tell stint n a s).1.schedule = s.schedule := h.follows.readMain stint n a s
  by_cases hc : s.isCurrent stint = true
  · have hmain : t.work = .main s.stint := by rw [hwork, isCurrent_iff.mp hc]
    have hadvances : ∀ {state : Status} {r}, MainRead s a state r →
        state = s.status ∨ state = .error ∨ t.Advances s a := by
      intro state r hread
      cases hread with
      | goesOn => exact Or.inl rfl
      | cutShort fault => exact Or.inl rfl
      | failed r => exact Or.inr (Or.inl rfl)
      | opened records r ha hr =>
        refine Or.inr (Or.inr ⟨hmain, Or.inl ⟨?_, records, ha⟩⟩)
        rcases hfit with ⟨hp, _⟩ | ⟨_, hlate⟩
        · exact ⟨n, hp⟩
        · exact absurd hlate (by simp [ha, Arrival.isLate])
      | ended r ha hterm =>
        refine Or.inr (Or.inr ⟨hmain, Or.inr ⟨?_, ha, hterm⟩⟩)
        rcases hfit with ⟨_, hearly⟩ | ⟨hp, _⟩
        · exact absurd hearly (by simp [ha, Arrival.isEarly])
        · exact ⟨n, hp⟩
    have hread := h.mainRead hc n a
    rw [stepMain]
    cases hr : readMain tell stint n a s with
    | mk s' r =>
      rw [hr] at hread hsched
      change MainRead s a s'.status r at hread
      change s'.schedule = s.schedule at hsched
      cases r with
      | ok o =>
        cases o with
        | none => exact Turns.changeTask _ ht hsched _ (Turned.goesOn hgoing (hadvances hread))
        | some o =>
          refine Turns.changeTask (closeMain o s') ht hsched _ (Turned.ended hgoing (hadvances hread) ?_)
          intro _ _
          show Settled tell s'.status _
          generalize hstate : s'.status = state at hread
          generalize hresult : (.ok (some o) : Except Fault (Option Outcome)) = r at hread
          cases hread with
          | goesOn => exact absurd hresult (by simp)
          | cutShort fault => exact absurd hresult (by simp)
          | opened records r ha hr => exact absurd hresult.symm (hr o)
          | failed r => exact Or.inr (Or.inl rfl)
          | ended r ha hterm => exact Or.inl rfl
      | error fault =>
        dsimp only
        have hc' : s'.isCurrent stint = true := by
          rw [isCurrent, show s'.stint = s.stint from congrArg Schedule.stint hsched]
          exact hc
        have hsched' := (h.follows.rescueMain stint fault s').trans hsched
        refine Turns.changeTask (closeMain _ (rescueMain tell stint fault s').1) ht hsched' _ ?_
        rcases h.rescueMain_cases hc' fault with herror | ⟨hkept, raised, hraised, hhost⟩
        · refine Turned.ended hgoing (Or.inr (Or.inl herror)) fun _ _ => Or.inr (Or.inl herror)
        · have hstatus : s'.status = s.status ∨ s'.status = .error ∨ t.Advances s a := hadvances hread
          have hfault : Act.fault? (rescueMain tell stint fault s') = some raised := by
            rw [← Prod.mk.eta (p := rescueMain tell stint fault s'), hraised]
            rfl
          rw [hfault]
          refine Turned.ended hgoing ?_ fun _ _ => Or.inr (Or.inr (Or.inr ⟨raised, rfl, hhost⟩))
          exact hkept ▸ hstatus
  · -- a stale stream leaves the session as it is
    have hstale : t.work ≠ .main s.stint := fun hmain => hc (isCurrent_iff.mpr (Work.main.inj (hwork.symm.trans hmain)))
    obtain ⟨r, hr⟩ := readMain_of_stale tell hc n a
    rw [stepMain, hr]
    cases r with
    | ok o =>
      cases o with
      | none => exact Turns.changeTask _ ht rfl _ (Turned.goesOn hgoing (Or.inl rfl))
      | some o =>
        exact Turns.changeTask (closeMain o s) ht rfl _
          (Turned.ended hgoing (Or.inl rfl) fun hmain => absurd hmain hstale)
    | error fault =>
      have hrescue : rescueMain tell stint fault s = (s, .ok ()) := unlessStale_of_not_isCurrent hc _ _
      dsimp only
      rw [hrescue]
      exact Turns.changeTask (closeMain _ s) ht rfl _
        (Turned.ended hgoing (Or.inl rfl) fun hmain => absurd hmain hstale)

/-! ### Replies -/

theorem worsens_setStatus_error : (setStatus tell .error).Worsens := fun s => Or.inr (h.status_setStatus .error s)

/-- Whatever a fault brings about, at worst the state becomes an error. -/
theorem worsening : Spans tell fun s s' => s'.status = s.status ∨ s'.status = .error where
  refl := fun _ => Or.inl rfl
  trans := by
    rintro _ _ _ hfirst (hsame | herror)
    · exact hfirst.imp hsame.trans hsame.trans
    · exact Or.inr herror
  lastError := fun _ _ => Or.inl rfl
  metrics := fun _ _ => Or.inl rfl
  error := h.worsens_setStatus_error
  report := fun fault => Act.Worsens.of_keeps (h.report fault)

theorem worsens_readReply (stint : Stint) (n : Nat) (a : Arrival) : (readReply tell stint n a).Worsens :=
  h.worsening.readReply (fun n chunk => Act.Worsens.of_keeps (h.feed n chunk))
    (fun n => Act.Worsens.of_keeps (h.finish n)) stint n a

theorem worsens_rescueReply (stint : Stint) (fault : Fault) : (rescueReply tell stint fault).Worsens :=
  h.worsening.rescueReply stint fault

theorem turns_stepReply (ht : s.tasks[id]? = some t) {stint : Stint} (hwork : t.work = .reply stint)
    (hgoing : t.isOver = false) (n : Nat) (a : Arrival) : Turns tell s id t a (stepReply tell id stint n a s) := by
  have hreply : t.work ≠ .main s.stint := by simp [hwork]
  have hsched := h.follows.readReply stint n a s
  have hread := h.worsens_readReply stint n a s
  rw [stepReply]
  cases hr : readReply tell stint n a s with
  | mk s' r =>
    rw [hr] at hsched hread
    have hstatus : s'.status = s.status ∨ s'.status = .error ∨ t.Advances s a := hread.imp_right Or.inl
    cases r with
    | ok finished =>
      cases finished with
      | false => exact Turns.changeTask _ ht hsched _ (Turned.goesOn hgoing hstatus)
      | true => exact Turns.changeTask _ ht hsched _ (Turned.ended hgoing hstatus fun hmain => absurd hmain hreply)
    | error fault =>
      have hsched' := (h.follows.rescueReply stint fault s').trans hsched
      have hstatus' : (rescueReply tell stint fault s').1.status = s.status ∨
          (rescueReply tell stint fault s').1.status = .error ∨ t.Advances s a := by
        rcases h.worsens_rescueReply stint fault s' with hsame | herror
        · rw [hsame]
          exact hstatus
        · exact Or.inr (Or.inl herror)
      exact Turns.changeTask _ ht hsched' _ (Turned.ended hgoing hstatus' fun hmain => absurd hmain hreply)

end Steady

/-! ### All tasks -/

/-- The first step of a task does not touch the state. -/
theorem turns_begin (tell : Teller) (ht : s.tasks[id]? = some t) (hphase : t.phase = .fresh) (a : Arrival) :
    Turns tell s id t a (begin id t s) := by
  have hgoing : ∀ {p : Phase}, (∀ ending, p ≠ .over ending) → (p = .posting → t.work = .post) →
      Turned tell s t a s.status { t with phase := p } := by
    intro p hp hpost
    refine ⟨rfl, fun hover => absurd hover (by simp [Task.isOver, hphase]), fun he => Or.inr (hpost he), Or.inl rfl, ?_⟩
    exact fun _ _ _ ending he => absurd he (hp ending)
  rw [begin]
  cases hwork : t.work with
  | main stint =>
    exact Turns.changeTask { s with metrics := s.metrics.enterSession } ht rfl _ (hgoing (by simp) (by simp))
  | reply stint =>
    exact Turns.changeTask { s with intake := s.intake.fork } ht rfl _ (hgoing (by simp) (by simp))
  | post => exact Turns.changeTask _ ht rfl _ (hgoing (by simp) fun _ => hwork)

theorem schedule_clearRequest (ht : s.tasks[id]? = some t) :
    (s.clearRequest id).schedule = ⟨s.stint, s.tasks.set id { t with cancelRequested := false }⟩ :=
  congrArg (Schedule.mk s.stint) (tasks_changeTask ht _)

/-- An order to stop ends the main stream; if the session did not give it, the stream ends as cancelled. -/
theorem turns_stopMain (tell : Teller) (ht : s.tasks[id]? = some t) (hgoing : t.isOver = false) {stint : Stint}
    (hwork : t.work = .main stint) (a : Arrival) :
    Turns tell s id t a (stopMain id stint (s.clearRequest id)) := by
  have hclear := schedule_clearRequest ht
  rw [stopMain]
  split
  · rename_i hcancelled
    have hstale : t.work ≠ .main s.stint := by
      intro hmain
      rw [isCancelled, show stint = s.stint from Work.main.inj (hwork.symm.trans hmain)] at hcancelled
      exact absurd hcancelled (by simp [clearRequest, changeTask, Session.stint])
    exact Turns.changeTask_of_set (closeMain .cancelled (s.clearRequest id)) ht hclear _
      (Turned.ended hgoing (Or.inl rfl) fun hmain => absurd hmain hstale)
  · exact Turns.changeTask_of_set (closeMain .completed (s.clearRequest id)) ht hclear _
      (Turned.ended hgoing (Or.inl rfl) fun _ _ => Or.inr (Or.inr (Or.inl rfl)))

theorem turns_stopReply (tell : Teller) (ht : s.tasks[id]? = some t) (hgoing : t.isOver = false) {stint : Stint}
    (hwork : t.work = .reply stint) (a : Arrival) :
    Turns tell s id t a (stopReply id stint (s.clearRequest id)) := by
  have hclear := schedule_clearRequest ht
  have hreply : t.work ≠ .main s.stint := by simp [hwork]
  rw [stopReply]
  split
  · exact Turns.changeTask_of_set _ ht hclear _
      (Turned.ended hgoing (Or.inl rfl) fun hmain => absurd hmain hreply)
  · exact Turns.changeTask_of_set _ ht hclear _
      (Turned.ended hgoing (Or.inl rfl) fun hmain => absurd hmain hreply)

namespace Steady

variable (h : Steady tell)

include h

theorem turns_stepStream (ht : s.tasks[id]? = some t) {n : Nat} {fits : Bool}
    (hfit : t.phase = .opening n ∧ fits = a.isEarly ∨ t.phase = .reading n ∧ fits = a.isLate) :
    Turns tell s id t a (stepStream tell id t.work n fits a s) := by
  have hgoing : t.isOver = false := Task.isOver_eq_false (hfit.imp And.left And.left)
  refine stepStream_cases ?_ ?_ ?_ ?_ ?_
  · exact fun _ => Turns.idle tell ht a
  · exact fun stint hwork _ => turns_stopMain tell ht hgoing hwork a
  · exact fun stint hwork _ => turns_stopReply tell ht hgoing hwork a
  · intro stint hwork hfits
    refine h.turns_stepMain ht hwork (hfit.imp ?_ ?_)
    · exact fun hp => ⟨hp.1, hp.2 ▸ hfits⟩
    · exact fun hp => ⟨hp.1, hp.2 ▸ hfits⟩
  · exact fun stint hwork _ => h.turns_stepReply ht hwork hgoing n a

theorem turns_stepPost (ht : s.tasks[id]? = some t) (hphase : t.phase = .posting) (a : Arrival) :
    Turns tell s id t a (stepPost tell id a s) := by
  have hgoing : t.isOver = false := by rw [Task.isOver, hphase]
  have hend : ∀ {ending : Ending}, Turned tell s t a s.status
      { t with phase := .over ending, cancelRequested := t.cancelRequested } :=
    Turned.ended hgoing (Or.inl rfl) fun _ hpost => absurd hphase hpost
  cases a with
  | posted => exact Turns.changeTask (s.count (postCounter "sent") 1) ht rfl _ hend
  | failed fault =>
    cases fault with
    | connection f =>
      have hkept := h.report (notSent f) (s.count (postCounter "failed") 1)
      refine Turns.changeTask _ ht (congrArg Prod.snd hkept) _ ?_
      rw [show (Session.report tell (notSent f) _).1.status = s.status from congrArg Prod.fst hkept]
      exact hend
    | _ => exact Turns.changeTask _ ht rfl _ hend
  | cancelled => exact Turns.changeTask _ ht rfl _ hend
  | _ => exact Turns.idle tell ht _

/-- **A step has few ways to change the state of a session**, even if the host raises faults: it leaves the state as it
is or makes it an error, unless it is one of the two by which the current main stream advances; and if it ends the
current main stream, the state afterwards is one that fits. -/
theorem turns_step (ht : s.tasks[id]? = some t) (a : Arrival) : Turns tell s id t a (step tell id a s) := by
  rw [step, ht]
  dsimp only
  cases hphase : t.phase with
  | fresh =>
    cases a with
    | start => exact turns_begin tell ht hphase .start
    | cancelled =>
      refine Turns.changeTask _ ht rfl _ (Turned.ended (by rw [Task.isOver, hphase]) (Or.inl rfl) fun _ _ => ?_)
      exact Or.inr (Or.inr (Or.inl rfl))
    | _ => exact Turns.idle tell ht _
  | opening n => exact h.turns_stepStream ht (Or.inl ⟨hphase, rfl⟩)
  | reading n => exact h.turns_stepStream ht (Or.inr ⟨hphase, rfl⟩)
  | posting => exact h.turns_stepPost ht hphase a
  | _ => exact Turns.idle tell ht a

end Steady

end ComponentStream.Session
