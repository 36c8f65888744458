import ComponentStream.Proofs.Session.Core

/-!
# Steps of stale tasks

A task that was started before the last connect or disconnect may still take steps: its response may come, chunks may
follow, its stream may end or fail, and it may be told to stop.  Whatever the step is, nothing that counts changes.

* `Task.Stale` — a stream from an epoch that has ended, or a plain request that has been asked to stop;
* `Untouched` — the tree, what waits in the buffers, all that is published, and the host itself;
* `Task.Orderly` — a plain request that has been asked to stop lets itself be stopped;
* `step_untouched` — a stale task touches none of it.
-/

namespace ComponentStream.Session

variable {s : Session} {tell : Teller} {id n : Nat} {t u : Task} {stint : Stint}

/-- When the stream of a task was started; a plain request has none. -/
def Work.stint? : Work → Option Stint
  | .main stint => some stint
  | .reply stint => some stint
  | .post => none

/-- A task that does not count any more in an epoch: its own has ended, or it has been asked to stop. -/
def Task.Stale (epoch : Nat) (t : Task) : Prop :=
  match t.work.stint? with
  | some stint => stint.epoch < epoch
  | none => t.cancelRequested = true ∨ t.isOver = true

theorem Work.stint?_eq_none_iff {w : Work} : w.stint? = none ↔ w = .post := by
  cases w <;> simp [Work.stint?]

theorem Task.stale_iff_of_stint {epoch : Nat} (hst : t.work.stint? = some stint) :
    t.Stale epoch ↔ stint.epoch < epoch := by
  rw [Task.Stale, hst]

theorem Task.stale_iff_of_no_stint {epoch : Nat} (hst : t.work.stint? = none) :
    t.Stale epoch ↔ t.cancelRequested = true ∨ t.isOver = true := by
  rw [Task.Stale, hst]

/-- Whatever becomes of a stale stream, it stays stale. -/
theorem Task.Stale.of_work {epoch : Nat} (h : t.Stale epoch) (hwork : u.work = t.work) (hstream : t.work ≠ .post) :
    u.Stale epoch := by
  cases hst : t.work.stint? with
  | some stint =>
    have hst' : u.work.stint? = some stint := by rw [hwork, hst]
    exact (stale_iff_of_stint hst').mpr ((stale_iff_of_stint hst).mp h)
  | none => exact absurd (Work.stint?_eq_none_iff.mp hst) hstream

/-- An order to stop reaches a plain request as the next thing that arrives for it.  A stream may come to hear of it
late or never. -/
def Task.Orderly (t : Task) (a : Arrival) : Prop := t.work = .post → t.cancelRequested = true → a = .cancelled

/-- A task is in no phase that is foreign to its work. -/
structure Task.Proper (t : Task) : Prop where
  posting : t.phase = .posting → t.work = .post
  streaming : ∀ n, t.phase = .opening n ∨ t.phase = .reading n → t.work ≠ .post

/-! ### Nothing that counts -/

/-- Neither the tree, nor what waits in a buffer, nor anything published is touched, and the host has heard of
nothing. -/
structure Untouched (s s' : Session) : Prop where
  tree : s'.intake.tree = s.intake.tree
  buffers : s.intake.buffers <+: s'.intake.buffers
  snapshot : s'.snapshot = s.snapshot
  terminal : s'.terminal = s.terminal
  calls : s'.calls = s.calls

namespace Untouched

theorem refl (s : Session) : Untouched s s := ⟨rfl, List.prefix_rfl, rfl, rfl, rfl⟩

theorem trans {s₁ s₂ : Session} (h : Untouched s s₁) (h' : Untouched s₁ s₂) : Untouched s s₂ :=
  ⟨h'.tree.trans h.tree, h.buffers.trans h'.buffers, h'.snapshot.trans h.snapshot, h'.terminal.trans h.terminal,
    h'.calls.trans h.calls⟩

theorem changeTask (s : Session) (id : Nat) (f : Task → Task) : Untouched s (s.changeTask id f) :=
  ⟨rfl, List.prefix_rfl, rfl, rfl, rfl⟩

theorem endTask (s : Session) (id : Nat) (fault : Option Fault) : Untouched s (s.endTask id fault) := changeTask s id _

theorem count (s : Session) (c : Counter) (n : Nat) : Untouched s (s.count c n) := ⟨rfl, List.prefix_rfl, rfl, rfl, rfl⟩

theorem closeMain (o : Outcome) (s : Session) : Untouched s (closeMain o s) := ⟨rfl, List.prefix_rfl, rfl, rfl, rfl⟩

end Untouched

/-! ### Stale streams -/

theorem isCurrent_iff : s.isCurrent stint = true ↔ stint = s.stint := decide_eq_true_iff

theorem not_isCurrent_of_epoch_lt (h : stint.epoch < s.epoch) : ¬ s.isCurrent stint = true := by
  intro hc
  rw [isCurrent_iff.mp hc] at h
  exact Nat.lt_irrefl _ h

theorem unlessStale_of_not_isCurrent {α : Type} (h : ¬ s.isCurrent stint = true) (m m' : Act α) :
    Act.unlessStale stint m m' s = m s := by
  rw [Act.unlessStale, if_neg h]

/-- A stale main stream leaves the session as it is, whatever it reads. -/
theorem readMain_of_stale (tell : Teller) (h : ¬ s.isCurrent stint = true) (n : Nat) (a : Arrival) :
    ∃ r, readMain tell stint n a s = (s, r) := by
  cases a with
  | opened records => exact ⟨_, unlessStale_of_not_isCurrent h _ _⟩
  | chunk chunk => exact ⟨_, unlessStale_of_not_isCurrent h _ _⟩
  | ended =>
    have hend : concludeMain tell stint n s = (s, .ok .superseded) := unlessStale_of_not_isCurrent h _ _
    refine ⟨.ok (some .superseded), ?_⟩
    rw [readMain, Act.bind_apply, hend]
    rfl
  | failed fault => exact ⟨_, rfl⟩
  | start => exact ⟨_, rfl⟩
  | posted => exact ⟨_, rfl⟩
  | cancelled => exact ⟨_, rfl⟩

theorem stepMain_untouched (h : ¬ s.isCurrent stint = true) (id n : Nat) (a : Arrival) :
    Untouched s (stepMain tell id stint n a s) := by
  obtain ⟨r, hr⟩ := readMain_of_stale tell h n a
  rw [stepMain, hr]
  cases r with
  | ok o =>
    cases o with
    | none => exact Untouched.changeTask s id _
    | some o => exact (Untouched.closeMain o s).trans (Untouched.endTask _ id none)
  | error fault =>
    have hrescue : rescueMain tell stint fault s = (s, .ok ()) := unlessStale_of_not_isCurrent h _ _
    dsimp only
    rw [hrescue]
    exact (Untouched.closeMain _ s).trans (Untouched.endTask _ id _)

/-- A stale reply at most counts that it brought no records. -/
theorem readReply_of_stale (tell : Teller) (h : ¬ s.isCurrent stint = true) (n : Nat) (a : Arrival) :
    ∃ s' r, readReply tell stint n a s = (s', r) ∧ Untouched s s' ∧ s'.stint = s.stint := by
  cases a with
  | opened records =>
    cases records with
    | true => exact ⟨s, _, rfl, Untouched.refl s, rfl⟩
    | false => exact ⟨_, _, rfl, Untouched.count s _ 1, rfl⟩
  | chunk chunk => exact ⟨s, _, unlessStale_of_not_isCurrent h _ _, Untouched.refl s, rfl⟩
  | ended =>
    have hend : concludeReply tell stint n s = (s, .ok ()) := unlessStale_of_not_isCurrent h _ _
    refine ⟨s, .ok true, ?_, Untouched.refl s, rfl⟩
    rw [readReply, Act.bind_apply, hend]
    rfl
  | failed fault => exact ⟨s, _, rfl, Untouched.refl s, rfl⟩
  | start => exact ⟨s, _, rfl, Untouched.refl s, rfl⟩
  | posted => exact ⟨s, _, rfl, Untouched.refl s, rfl⟩
  | cancelled => exact ⟨s, _, rfl, Untouched.refl s, rfl⟩

theorem rescueReply_of_stale (h : ¬ s.isCurrent stint = true) (fault : Fault) :
    rescueReply tell stint fault s = (s.count (replyCounter "failed") 1, .ok ()) :=
  unlessStale_of_not_isCurrent (s := s.count (replyCounter "failed") 1) h _ _

theorem stepReply_untouched (h : ¬ s.isCurrent stint = true) (id n : Nat) (a : Arrival) :
    Untouched s (stepReply tell id stint n a s) := by
  obtain ⟨s', r, hr, huntouched, hstint⟩ := readReply_of_stale tell h n a
  have h' : ¬ s'.isCurrent stint = true := by
    rw [isCurrent, hstint]
    exact h
  rw [stepReply, hr]
  cases r with
  | ok finished =>
    cases finished with
    | false => exact huntouched.trans (Untouched.changeTask s' id _)
    | true => exact huntouched.trans (Untouched.endTask s' id none)
  | error fault =>
    dsimp only
    rw [rescueReply_of_stale h']
    exact huntouched.trans ((Untouched.count s' _ 1).trans (Untouched.endTask _ id _))

/-! ### Stale tasks -/

/-- The first step of any task only registers it. -/
theorem begin_untouched (id : Nat) (t : Task) (s : Session) : Untouched s (begin id t s) := by
  rw [begin]
  cases t.work with
  | main stint => exact ⟨rfl, List.prefix_rfl, rfl, rfl, rfl⟩
  | reply stint => exact ⟨rfl, List.prefix_append _ _, rfl, rfl, rfl⟩
  | post => exact Untouched.changeTask s id _

/-- An order to stop ends a main stream and notes the outcome. -/
theorem exists_stopMain (id : Nat) (stint : Stint) (s : Session) :
    ∃ o f, (∀ u : Task, ∃ ending, f u = { u with phase := .over ending }) ∧
      stopMain id stint s = (closeMain o s).changeTask id f := by
  rw [stopMain]
  split
  · exact ⟨_, _, fun u => ⟨_, rfl⟩, rfl⟩
  · exact ⟨_, _, fun u => ⟨_, rfl⟩, rfl⟩

theorem exists_stopReply (id : Nat) (stint : Stint) (s : Session) :
    ∃ f, (∀ u : Task, ∃ ending, f u = { u with phase := .over ending }) ∧ stopReply id stint s = s.changeTask id f := by
  rw [stopReply]
  split
  · exact ⟨_, fun u => ⟨_, rfl⟩, rfl⟩
  · exact ⟨_, fun u => ⟨_, rfl⟩, rfl⟩

/-- All that a step of a stream may be: an order to stop is carried out in any phase, anything else must fit it. -/
theorem stepStream_cases {P : Session → Prop} {w : Work} {fits : Bool} {a : Arrival}
    (hidle : fits = false ∨ w = .post → P s)
    (hstopMain : ∀ stint, w = .main stint → a = .cancelled → P (stopMain id stint (s.clearRequest id)))
    (hstopReply : ∀ stint, w = .reply stint → a = .cancelled → P (stopReply id stint (s.clearRequest id)))
    (hmain : ∀ stint, w = .main stint → fits = true → P (stepMain tell id stint n a s))
    (hreply : ∀ stint, w = .reply stint → fits = true → P (stepReply tell id stint n a s)) :
    P (stepStream tell id w n fits a s) := by
  unfold stepStream
  split
  · exact hstopMain _ rfl rfl
  · exact hstopReply _ rfl rfl
  · split
    · rename_i hfits
      exact hmain _ rfl hfits
    · rename_i hfits
      exact hidle (Or.inl (by simpa using hfits))
  · split
    · rename_i hfits
      exact hreply _ rfl hfits
    · rename_i hfits
      exact hidle (Or.inl (by simpa using hfits))
  · exact hidle (Or.inr rfl)

theorem stepStream_untouched (hstale : t.Stale s.epoch) (id n : Nat) (fits : Bool) (a : Arrival) :
    Untouched s (stepStream tell id t.work n fits a s) := by
  have hold : ∀ stint, t.work.stint? = some stint → ¬ s.isCurrent stint = true :=
    fun stint hst => not_isCurrent_of_epoch_lt ((Task.stale_iff_of_stint hst).mp hstale)
  refine stepStream_cases (fun _ => Untouched.refl s) ?_ ?_ ?_ ?_
  · intro stint _ _
    obtain ⟨o, f, _, hstop⟩ := exists_stopMain id stint (s.clearRequest id)
    rw [hstop]
    exact (Untouched.changeTask s id _).trans ((Untouched.closeMain o _).trans (Untouched.changeTask _ id f))
  · intro stint _ _
    obtain ⟨f, _, hstop⟩ := exists_stopReply id stint (s.clearRequest id)
    rw [hstop]
    exact (Untouched.changeTask s id _).trans (Untouched.changeTask _ id f)
  · exact fun stint hw _ => stepMain_untouched (hold stint (congrArg Work.stint? hw)) id n a
  · exact fun stint hw _ => stepReply_untouched (hold stint (congrArg Work.stint? hw)) id n a

/-- **A step of a stale task touches nothing that counts.** -/
theorem step_untouched (ht : s.tasks[id]? = some t) (hstale : t.Stale s.epoch) (hproper : t.Proper) {a : Arrival}
    (horder : t.Orderly a) : Untouched s (step tell id a s) := by
  rw [step, ht]
  dsimp only
  cases hphase : t.phase with
  | fresh =>
    cases a with
    | start => exact begin_untouched id t s
    | cancelled => exact Untouched.changeTask s id _
    | _ => exact Untouched.refl s
  | opening n => exact stepStream_untouched hstale id n _ a
  | reading n => exact stepStream_untouched hstale id n _ a
  | posting =>
    -- a request that has not ended is stale only if it has been asked to stop, and then nothing else arrives
    have hpost : t.work = .post := hproper.posting hphase
    have hasked : t.cancelRequested = true := by
      rcases (Task.stale_iff_of_no_stint (Work.stint?_eq_none_iff.mpr hpost)).mp hstale with hasked | hover
      · exact hasked
      · exact absurd hover (by simp [Task.isOver, hphase])
    rw [horder hpost hasked]
    exact Untouched.changeTask s id _
  | _ => exact Untouched.refl s

end ComponentStream.Session
