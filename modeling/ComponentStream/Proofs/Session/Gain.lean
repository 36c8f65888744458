import ComponentStream.Proofs.Session.Stale

/-!
# What a step gains

A step takes nothing in, or a chunk, or the unfinished record that waits in the buffer of its task.  Whatever is read
off a session and not meant for the host changes with these gains alone.

* `Gain`, `Work.gain`, `Session.gain` — only a task that reads a stream of its own time gains anything;
* `Spans` — relations that span what streams do about faults, and what replies do;
* `Follows` — things that only records change;
* `Follows.readMain`, `Follows.readReply` — what a stream does to them;
* `Follows.rescueMain`, `Follows.rescueReply` — a fault does nothing to them.
-/

namespace ComponentStream.Session

open ComponentStream.Stream (Intake)

variable {γ : Type} {s : Session} {id : Nat} {t : Task}

/-! ### Gains -/

/-- What a step takes into the tree through the buffer of its task. -/
inductive Gain where
  | nothing
  | chunk (bytes : List UInt8)
  /-- What waits in the buffer, as the stream has ended. -/
  | rest

/-- Takes a gain in through a buffer. -/
def Gain.enter (g : Gain) (i : Intake) (n : Nat) : Intake :=
  match g with
  | .nothing => i
  | .chunk bytes => (i.feed n bytes).1
  | .rest => (i.flush n).1

theorem Gain.limits_enter (g : Gain) (i : Intake) (n : Nat) : (g.enter i n).limits = i.limits := by
  cases g <;> rfl

theorem Gain.length_buffers_enter (g : Gain) (i : Intake) (n : Nat) :
    (g.enter i n).buffers.length = i.buffers.length := by
  cases g with
  | nothing => rfl
  | chunk bytes => exact List.length_set
  | rest => exact List.length_set

theorem Gain.buffer_enter_of_ne (g : Gain) {i : Intake} {m n : Nat} (hm : m ≠ n) :
    (g.enter i n).buffer m = i.buffer m := by
  cases g with
  | nothing => rfl
  | chunk bytes => exact Intake.buffer_set_of_ne hm _ _
  | rest => exact Intake.buffer_set_of_ne hm _ _

/-- What an arrival brings to a task that reads.  A stream from another time brings nothing, and the main stream keeps
its unfinished record to itself when it ends in a fault. -/
def Work.gain (s : Session) : Work → Arrival → Gain
  | .main stint, .chunk chunk => if s.isCurrent stint then .chunk chunk.bytes else .nothing
  | .main stint, .ended => if s.isCurrent stint && !s.terminal then .rest else .nothing
  | .reply stint, .chunk chunk => if s.isCurrent stint then .chunk chunk.bytes else .nothing
  | .reply stint, .ended => if s.isCurrent stint then .rest else .nothing
  | _, _ => .nothing

/-- What an arrival brings to a task of a session. -/
def gain (s : Session) (id : Nat) (a : Arrival) : Gain :=
  match s.tasks[id]? with
  | some ⟨work, _, .reading _, _⟩ => work.gain s a
  | _ => .nothing

theorem gain_of_reading (ht : s.tasks[id]? = some t) {n : Nat} (hphase : t.phase = .reading n) (a : Arrival) :
    s.gain id a = t.work.gain s a := by
  obtain ⟨work, body, phase, requested⟩ := t
  subst hphase
  rw [gain, ht]

theorem gain_of_not_reading (ht : s.tasks[id]? = some t) (hphase : ∀ n, t.phase ≠ .reading n) (a : Arrival) :
    s.gain id a = .nothing := by
  obtain ⟨work, body, phase, requested⟩ := t
  rw [gain, ht]
  cases phase with
  | reading n => exact absurd rfl (hphase n)
  | _ => rfl

/-- A stream that does not count gains nothing. -/
theorem Work.gain_eq_nothing {w : Work} (h : ∀ stint, w.stint? = some stint → ¬ s.isCurrent stint = true)
    (a : Arrival) : w.gain s a = .nothing := by
  cases w with
  | main stint =>
    have hold : ¬ s.isCurrent stint = true := h stint rfl
    cases a <;> simp [Work.gain, hold]
  | reply stint =>
    have hold : ¬ s.isCurrent stint = true := h stint rfl
    cases a <;> simp [Work.gain, hold]
  | post => cases a <;> rfl

theorem Work.gain_of_isEarly (w : Work) {a : Arrival} (ha : a.isEarly = true) : w.gain s a = .nothing := by
  cases a with
  | opened records => cases w <;> rfl
  | failed fault => cases w <;> rfl
  | _ => exact absurd ha (by simp [Arrival.isEarly])

theorem Work.gain_of_not_isLate (w : Work) {a : Arrival} (ha : a.isLate = false) : w.gain s a = .nothing := by
  cases a with
  | chunk chunk => exact absurd ha (by simp [Arrival.isLate])
  | ended => exact absurd ha (by simp [Arrival.isLate])
  | _ => cases w <;> rfl

/-- A step of a stream that is idle, because its arrival does not fit or its task reads nothing, brings nothing. -/
theorem Gain.eq_nothing_of_idle {w : Work} {fits : Bool} {a : Arrival} {g : Gain} (hfits : fits = true → w.gain s a = g)
    (hno : fits = false → g = .nothing) (hidle : fits = false ∨ w = .post) : g = .nothing := by
  cases fits with
  | false => exact hno rfl
  | true =>
    obtain rfl : w = .post := hidle.resolve_left (by simp)
    rw [← hfits rfl]
    exact Work.gain_eq_nothing (fun stint hst => absurd hst (by simp [Work.stint?])) a

/-! ### What streams do about faults -/

/-- A relation between sessions that spans all a stream does when a fault ends it. -/
structure Spans (tell : Teller) (R : Session → Session → Prop) : Prop where
  refl : ∀ s, R s s
  trans : ∀ s s' s'', R s s' → R s' s'' → R s s''
  lastError : ∀ s fault, R s { s with lastError := some fault }
  metrics : ∀ s metrics, R s { s with metrics := metrics }
  error : (setStatus tell .error).Leads R
  report : ∀ fault, (report tell fault).Leads R

namespace Spans

variable {tell : Teller} {R : Session → Session → Prop} (h : Spans tell R)

include h

theorem tally (c : Counter) : (tally c).Leads R := fun s => h.metrics s _

/-- A fault is kept, and the host hears of the state and then of the fault. -/
theorem fail (fault : Fault) :
    (do
      Act.change fun s => { s with lastError := some fault }
      setStatus tell .error
      Session.report tell fault : Act Unit).Leads R :=
  .bind h.trans (fun s => h.lastError s fault) fun _ => .bind h.trans h.error fun _ => h.report fault

theorem rescueMain (stint : Stint) (fault : Fault) : (rescueMain tell stint fault).Leads R := by
  refine .unlessStale stint (.pure h.refl _) (.ite ?_ (h.fail fault))
  exact .bind h.trans (h.report fault) fun _ => h.error

theorem rescueReply (stint : Stint) (fault : Fault) : (rescueReply tell stint fault).Leads R := by
  refine .bind h.trans (h.tally _) fun _ => .unlessStale stint (.pure h.refl _) (.ite ?_ (h.fail fault))
  exact h.report fault

theorem concludeReply (hfinish : ∀ n, (finish tell n).Leads R) (stint : Stint) (n : Nat) :
    (concludeReply tell stint n).Leads R := by
  refine .unlessStale stint (.pure h.refl _) (.bind h.trans (hfinish n) fun _ => .bind h.trans (h.tally _) fun _ => ?_)
  exact .bind h.trans (fun s => h.refl s) fun _ => .ite h.error (.pure h.refl _)

theorem readReply (hfeed : ∀ n chunk, (feed tell n chunk).Leads R) (hfinish : ∀ n, (finish tell n).Leads R)
    (stint : Stint) (n : Nat) (a : Arrival) : (readReply tell stint n a).Leads R := by
  cases a with
  | opened records => exact .ite (.pure h.refl _) (.bind h.trans (h.tally _) fun _ => .pure h.refl _)
  | chunk chunk =>
    exact .unlessStale stint (.pure h.refl _) (.bind h.trans (hfeed n chunk) fun _ => .pure h.refl _)
  | ended => exact .bind h.trans (h.concludeReply hfinish stint n) fun _ => .pure h.refl _
  | failed fault => exact fun s => h.refl s
  | _ => exact .pure h.refl _

end Spans

/-! ### What only gains change -/

/-- What is read off a session changes only with records; `take` tells what it is once a gain has come in through a
buffer. -/
structure Follows (tell : Teller) (f : Session → γ) (take : Session → Gain → Nat → γ) : Prop where
  status : ∀ s status, f { s with status := status } = f s
  lastError : ∀ s fault, f { s with lastError := fault } = f s
  metrics : ∀ s metrics, f { s with metrics := metrics } = f s
  calls : ∀ c, (tell c).Keeps f
  nothing : ∀ s n, take s .nothing n = f s
  chunk : ∀ n (chunk : Chunk) s, f (feed tell n chunk s).1 = take s (.chunk chunk.bytes) n
  rest : ∀ n s, f (finish tell n s).1 = take s .rest n

namespace Follows

variable {tell : Teller} {f : Session → γ} {take : Session → Gain → Nat → γ} (h : Follows tell f take)

include h

theorem setStatus (status : Status) : (setStatus tell status).Keeps f := Act.Keeps.setStatus h.status h.calls status

theorem report (fault : Fault) : (report tell fault).Keeps f := Act.Keeps.report h.lastError (h.calls _)

theorem tally (c : Counter) : (tally c).Keeps f := fun s => h.metrics s _

/-! ### The main stream -/

theorem concludeMain_of_terminal (stint : Stint) (n : Nat) (hterm : s.terminal = true) :
    f (concludeMain tell stint n s).1 = f s := by
  rw [concludeMain, Act.unlessStale]
  by_cases hc : s.isCurrent stint = true
  · rw [if_pos hc, Act.bind_apply]
    simp only [Act.get, hterm, if_true]
    exact Act.Keeps.bind (h.setStatus .error) (fun _ => Act.Keeps.pure _) s
  · rw [if_neg hc]
    rfl

theorem concludeMain (stint : Stint) (n : Nat) (s : Session) :
    f (concludeMain tell stint n s).1 = take s ((Work.main stint).gain s .ended) n := by
  by_cases hterm : s.terminal = true
  · rw [h.concludeMain_of_terminal stint n hterm, Work.gain, hterm, Bool.not_true, Bool.and_false]
    exact (h.nothing s n).symm
  · have hfalse : s.terminal = false := by simpa using hterm
    rw [Session.concludeMain, Act.unlessStale, Work.gain, hfalse, Bool.not_false, Bool.and_true]
    by_cases hc : s.isCurrent stint = true
    · rw [if_pos hc, if_pos hc, Act.bind_apply]
      simp only [Act.get, hfalse]
      refine (Act.Keeps.read_bind (f := f) _ (fun _ => ?_) s).trans (h.rest n s)
      exact Act.Keeps.bind (h.setStatus .connected) fun _ => Act.Keeps.pure _
    · rw [if_neg hc, if_neg hc]
      exact (h.nothing s n).symm

/-- The main stream takes its gain in, and a fault that ends the session takes nothing more in. -/
theorem readMain (stint : Stint) (n : Nat) (a : Arrival) (s : Session) :
    f (readMain tell stint n a s).1 = take s ((Work.main stint).gain s a) n := by
  cases a with
  | opened records =>
    refine Eq.trans ?_ (h.nothing s n).symm
    exact Act.Keeps.unlessStale stint (Act.Keeps.pure _)
      (Act.Keeps.bind (h.setStatus .streaming) fun _ => Act.Keeps.pure _) s
  | chunk chunk =>
    rw [Session.readMain, Act.unlessStale, Work.gain]
    by_cases hc : s.isCurrent stint = true
    · rw [if_pos hc, if_pos hc]
      refine (Act.Keeps.read_bind (f := f) _ (fun _ s' => ?_) s).trans (h.chunk n chunk s)
      rw [Act.bind_apply]
      by_cases hterm : s'.terminal = true
      · simp only [Act.get, hterm, if_true]
        exact (Act.Keeps.read_bind _ (fun _ => Act.Keeps.pure _) s').trans (h.concludeMain_of_terminal stint n hterm)
      · simp only [Act.get, hterm]
        rfl
    · rw [if_neg hc, if_neg hc]
      exact (h.nothing s n).symm
  | ended => exact (Act.Keeps.read_bind _ (fun _ => Act.Keeps.pure _) s).trans (h.concludeMain stint n s)
  | _ => exact (h.nothing s n).symm

/-- Whatever a fault brings about, it takes no records in. -/
theorem spans : Spans tell fun s s' => f s' = f s where
  refl := fun _ => rfl
  trans := fun _ _ _ h h' => h'.trans h
  lastError := fun s fault => h.lastError s (some fault)
  metrics := h.metrics
  error := h.setStatus .error
  report := h.report

theorem rescueMain (stint : Stint) (fault : Fault) : (rescueMain tell stint fault).Keeps f :=
  h.spans.rescueMain stint fault

/-! ### Streamed replies -/

theorem concludeReply (stint : Stint) (n : Nat) (s : Session) :
    f (concludeReply tell stint n s).1 = take s ((Work.reply stint).gain s .ended) n := by
  rw [Session.concludeReply, Act.unlessStale, Work.gain]
  by_cases hc : s.isCurrent stint = true
  · rw [if_pos hc, if_pos hc]
    refine (Act.Keeps.read_bind (f := f) _ (fun _ => ?_) s).trans (h.rest n s)
    refine Act.Keeps.bind (h.tally _) fun _ => Act.Keeps.bind (fun _ => rfl) fun terminal => ?_
    exact Act.Keeps.ite (h.setStatus .error) (Act.Keeps.pure ())
  · rw [if_neg hc, if_neg hc]
    exact (h.nothing s n).symm

theorem readReply (stint : Stint) (n : Nat) (a : Arrival) (s : Session) :
    f (readReply tell stint n a s).1 = take s ((Work.reply stint).gain s a) n := by
  cases a with
  | opened records =>
    refine Eq.trans ?_ (h.nothing s n).symm
    exact Act.Keeps.ite (Act.Keeps.pure _) (Act.Keeps.bind (h.tally _) fun _ => Act.Keeps.pure _) s
  | chunk chunk =>
    rw [Session.readReply, Act.unlessStale, Work.gain]
    by_cases hc : s.isCurrent stint = true
    · rw [if_pos hc, if_pos hc]
      exact (Act.Keeps.read_bind _ (fun _ => Act.Keeps.pure _) s).trans (h.chunk n chunk s)
    · rw [if_neg hc, if_neg hc]
      exact (h.nothing s n).symm
  | ended => exact (Act.Keeps.read_bind _ (fun _ => Act.Keeps.pure _) s).trans (h.concludeReply stint n s)
  | _ => exact (h.nothing s n).symm

theorem rescueReply (stint : Stint) (fault : Fault) : (rescueReply tell stint fault).Keeps f :=
  h.spans.rescueReply stint fault

end Follows

end ComponentStream.Session
