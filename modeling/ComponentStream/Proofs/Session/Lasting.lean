import ComponentStream.Proofs.Session.Run
import ComponentStream.Proofs.Session.Status

/-!
# States that last

Main and action tasks all write the one state of a session, in any order, and the host may raise a fault whenever it is
told of something.  Two questions are answered for every run: who can take a session out of an error, and whether its
state tells that its main stream has ended.

* `after` — a session after some moves;
* `error_left_only_by_main` — short of a connect or a disconnect, only a main stream that is still under way takes a
  session out of an error: when its response comes, and when it ends;
* `Accounted`, `Steady.accounted_after` — the agreement of the state with the main stream of the present;
* `finished_main_is_settled` — when the current main stream has ended, the state tells so, unless the stream was
  cancelled or the host raised a fault on hearing of the failed request.
-/

namespace ComponentStream.Session

open Protocol (Limits)

variable {s : Session} {tell : Teller} {id : Nat} {t u : Task} {state : Status} {x : Schedule}

/-- A session after some moves. -/
def after (tell : Teller) (s : Session) (moves : List Move) : Session := moves.foldl (Move.act tell) s

theorem after_append (tell : Teller) (s : Session) (moves moves' : List Move) :
    after tell s (moves ++ moves') = after tell (after tell s moves) moves' :=
  List.foldl_append

/-- A run ends where its moves lead. -/
theorem history_fst (tell : Teller) (s : Session) (moves : List Move) :
    (history tell s moves).1 = after tell s moves := by
  have hall : ∀ p : Session × Ledger, (moves.foldl (play tell) p).1 = after tell p.1 moves := by
    induction moves with
    | nil => exact fun _ => rfl
    | cons m moves ih => exact fun p => ih (play tell p m)
  exact hall (s, .blank)

theorem Steady.standing_reset (h : Steady tell) : (reset tell).Keeps standing :=
  Act.Keeps.bind (fun _ => rfl) fun _ => h.publish

theorem Steady.schedule_reset (h : Steady tell) : (reset tell).Keeps schedule := h.standing_reset.map Prod.snd

theorem Steady.schedule_disconnect (h : Steady tell) (s : Session) :
    (disconnect tell s).1.schedule = (endEpoch s).schedule :=
  Act.Keeps.read_bind (Act.change endEpoch) (fun _ => h.schedule_setStatus .idle) s

/-! ### Errors -/

/-- No main stream of the present is under way. -/
def MainOver (s : Session) : Prop :=
  ∀ (i : Nat) (t : Task), s.tasks[i]? = some t → t.work = .main s.stint → t.isOver = true

theorem MainOver.not_advances (h : MainOver s) (ht : s.tasks[id]? = some t) (a : Arrival) : ¬ t.Advances s a := by
  rintro ⟨hmain, ⟨⟨n, hp⟩, _⟩ | ⟨⟨n, hp⟩, _⟩⟩
  · exact absurd (h id t ht hmain) (by simp [Task.isOver_eq_false (Or.inl hp)])
  · exact absurd (h id t ht hmain) (by simp [Task.isOver_eq_false (Or.inr hp)])

namespace Steady

variable (h : Steady tell)

include h

/-- A move that supersedes nothing leaves an error alone, unless it advances the main stream. -/
theorem error_act (herror : s.status = .error) {m : Move} (hm : m.supersedes = false) :
    (m.act tell s).status = .error ∨
      ∃ id a t, m = .step id a ∧ s.tasks[id]? = some t ∧ t.Advances s a := by
  cases m with
  | connect message extra => exact absurd hm (by simp [Move.supersedes])
  | disconnect => exact absurd hm (by simp [Move.supersedes])
  | reset => exact Or.inl ((congrArg Prod.fst (h.standing_reset s)).trans herror)
  | action sent stream extra => exact Or.inl herror
  | step id a =>
    show (step tell id a s).status = .error ∨ _
    cases ht : s.tasks[id]? with
    | none =>
      rw [step, ht]
      exact Or.inl herror
    | some t =>
      obtain ⟨u, _, hturned⟩ := h.turns_step ht a
      rcases hturned.status with hsame | hfailed | hadvances
      · exact Or.inl (hsame.trans herror)
      · exact Or.inl hfailed
      · exact Or.inr ⟨id, a, t, rfl, ht, hadvances⟩

/-- Once the main stream is over, no move but a connect starts another one. -/
theorem mainOver_act (hover : MainOver s) {m : Move} (hm : m.supersedes = false) : MainOver (m.act tell s) := by
  cases m with
  | connect message extra => exact absurd hm (by simp [Move.supersedes])
  | disconnect => exact absurd hm (by simp [Move.supersedes])
  | reset =>
    intro i t ht hmain
    rw [Move.act, show (reset tell s).1.tasks = s.tasks from congrArg Schedule.tasks (h.schedule_reset s)] at ht
    rw [Move.act, show (reset tell s).1.stint = s.stint from congrArg Schedule.stint (h.schedule_reset s)] at hmain
    exact hover i t ht hmain
  | action sent stream extra =>
    intro i t ht hmain
    rcases getElem?_concat_cases ht with hold | ⟨_, rfl⟩
    · exact hover i t hold hmain
    · have haction := (actionTask_fresh s sent (stream.getD s.options.streamActions) extra).1
      rw [hmain] at haction
      exact absurd haction (by simp [Work.isAction])
  | step id a =>
    show MainOver (step tell id a s)
    cases ht : s.tasks[id]? with
    | none =>
      rw [step, ht]
      exact hover
    | some t =>
      obtain ⟨u, hschedule, hturned⟩ := h.turns_step ht a
      intro i v hv hmain
      rw [show (step tell id a s).stint = s.stint from congrArg Schedule.stint hschedule] at hmain
      rw [show (step tell id a s).tasks = s.tasks.set id u from congrArg Schedule.tasks hschedule] at hv
      rcases getElem?_set_cases ht hv with ⟨rfl, rfl⟩ | ⟨_, hold⟩
      · have hdone : t.isOver = true := hover _ t ht (hturned.work ▸ hmain)
        rw [hturned.stays hdone]
        exact hdone
      · exact hover i v hold hmain

theorem mainOver_after (hover : MainOver s) {moves : List Move} (hmoves : ∀ m ∈ moves, m.supersedes = false) :
    MainOver (after tell s moves) := by
  induction moves generalizing s with
  | nil => exact hover
  | cons m moves ih =>
    exact ih (h.mainOver_act hover (hmoves m List.mem_cons_self)) fun m' hm' => hmoves m' (List.mem_cons_of_mem _ hm')

theorem error_after (herror : s.status = .error) {moves : List Move} (hmoves : ∀ m ∈ moves, m.supersedes = false) :
    (after tell s moves).status = .error ∨
      ∃ before id a rest t, moves = before ++ .step id a :: rest ∧ (after tell s before).status = .error ∧
        (after tell s before).tasks[id]? = some t ∧ t.Advances (after tell s before) a := by
  induction moves generalizing s with
  | nil => exact Or.inl herror
  | cons m moves ih =>
    rcases h.error_act herror (hmoves m List.mem_cons_self) with hkept | ⟨id, a, t, rfl, ht, hadvances⟩
    · rcases ih hkept fun m' hm' => hmoves m' (List.mem_cons_of_mem _ hm') with
        hstill | ⟨before, id, a, rest, t, rfl, hbefore⟩
      · exact Or.inl hstill
      · exact Or.inr ⟨m :: before, id, a, rest, t, rfl, hbefore⟩
    · exact Or.inr ⟨[], id, a, moves, t, rfl, herror, ht, hadvances⟩

end Steady

/-- **Short of a connect or a disconnect, only a main stream that is still under way takes a session out of an error.**
If none is, the error stays, whatever replies and plain requests come to.  Otherwise it stays up to the step at which
the main stream gets its response, or at which its body ends without a fault that ends the session. -/
theorem error_left_only_by_main (h : Steady tell) (s : Session) (herror : s.status = .error) (moves : List Move)
    (hmoves : ∀ m ∈ moves, m.supersedes = false) :
    (MainOver s → (after tell s moves).status = .error) ∧
      ((after tell s moves).status = .error ∨
        ∃ before id a rest t, moves = before ++ .step id a :: rest ∧ (after tell s before).status = .error ∧
          (after tell s before).tasks[id]? = some t ∧ t.Advances (after tell s before) a) := by
  refine ⟨fun hover => ?_, h.error_after herror hmoves⟩
  rcases h.error_after herror hmoves with hstill | ⟨before, id, a, rest, t, rfl, _, ht, hadvances⟩
  · exact hstill
  · have hbefore : MainOver (after tell s before) :=
      h.mainOver_after hover fun m hm => hmoves m (List.mem_append_left _ hm)
    exact absurd hadvances (hbefore.not_advances ht a)

/-- The main stream has failed; then a reply fails as well, and the host raises a fault on hearing of that. -/
theorem error_left_only_by_main_of_failed_reply :
    (after (Host.ofHooks [⟨.error, 2, .raise "host broke"⟩] fun _ => true).tell
      (after (Host.ofHooks [⟨.error, 2, .raise "host broke"⟩] fun _ => true).tell
        (Session.start [] Limits.standard Options.standard ⟨0⟩)
        [.connect none [], .step 0 .start, .step 0 (.failed (.connection ⟨"HTTP 500", some 500⟩))])
      [.action ⟨.click, "btn", none, 1⟩ none [], .step 1 .start, .step 1 (.failed (.other "reader broke")),
        .reset]).status = .error := by
  have hsteady : Steady (Host.ofHooks [⟨.error, 2, .raise "host broke"⟩] fun _ => true).tell :=
    Host.steady_ofHooks (by decide) _
  refine (error_left_only_by_main hsteady _ rfl _ (by decide)).1 fun i t ht _ => ?_
  match i, ht with
  | 0, ht =>
    obtain rfl := Option.some.inj ht
    rfl

/-- A reply fails while the main stream waits: the response then hides the error, and so does the end of the body. -/
theorem error_left_by_response_and_end :
    (after Host.quiet.tell (Session.start [] Limits.standard Options.standard ⟨0⟩)
        [.connect none [], .action ⟨.click, "btn", none, 1⟩ none [], .step 0 .start, .step 1 .start,
          .step 1 (.failed (.other "reader broke"))]).status = .error ∧
      (after Host.quiet.tell (Session.start [] Limits.standard Options.standard ⟨0⟩)
        [.connect none [], .action ⟨.click, "btn", none, 1⟩ none [], .step 0 .start, .step 1 .start,
          .step 1 (.failed (.other "reader broke")), .step 0 (.opened true)]).status = .streaming ∧
      (after Host.quiet.tell (Session.start [] Limits.standard Options.standard ⟨0⟩)
        [.connect none [], .action ⟨.click, "btn", none, 1⟩ none [], .step 0 .start, .step 0 (.opened true),
          .step 1 .start, .step 1 (.failed (.other "reader broke"))]).status = .error ∧
      (after Host.quiet.tell (Session.start [] Limits.standard Options.standard ⟨0⟩)
        [.connect none [], .action ⟨.click, "btn", none, 1⟩ none [], .step 0 .start, .step 0 (.opened true),
          .step 1 .start, .step 1 (.failed (.other "reader broke")), .step 0 .ended]).status = .connected :=
  ⟨rfl, rfl, rfl, rfl⟩

/-! ### The end of the main stream -/

/-- All streams are from earlier epochs. -/
structure Vacant (x : Schedule) : Prop where
  past : ∀ (i : Nat) (t : Task) (stint : Stint), x.tasks[i]? = some t → t.work.stint? = some stint →
    stint.epoch < x.stint.epoch
  proper : ∀ (i : Nat) (t : Task), x.tasks[i]? = some t → t.phase = .posting → t.work = .post

/-- The state agrees with the main stream of the present. -/
structure Accounted (tell : Teller) (state : Status) (x : Schedule) : Prop where
  /-- No stream is from a later epoch. -/
  dated : ∀ (i : Nat) (t : Task) (stint : Stint), x.tasks[i]? = some t → t.work.stint? = some stint →
    stint.epoch ≤ x.stint.epoch
  proper : ∀ (i : Nat) (t : Task), x.tasks[i]? = some t → t.phase = .posting → t.work = .post
  /-- There is at most one main stream of the present. -/
  single : ∀ (i j : Nat) (t u : Task), x.tasks[i]? = some t → x.tasks[j]? = some u → t.work = .main x.stint →
    u.work = .main x.stint → i = j
  settled : ∀ (i : Nat) (t : Task) (ending : Ending), x.tasks[i]? = some t → t.work = .main x.stint →
    t.phase = .over ending → Settled tell state ending

theorem Vacant.not_main (h : Vacant x) {i : Nat} (ht : x.tasks[i]? = some t) : t.work ≠ .main x.stint := by
  intro hmain
  exact Nat.lt_irrefl _ (h.past i t x.stint ht (by rw [hmain, Work.stint?]))

theorem Vacant.accounted (h : Vacant x) (tell : Teller) (state : Status) : Accounted tell state x where
  dated := fun i t stint ht hst => Nat.le_of_lt (h.past i t stint ht hst)
  proper := h.proper
  single := fun _ _ _ _ ht _ hmain => absurd hmain (h.not_main ht)
  settled := fun _ _ _ ht hmain => absurd hmain (h.not_main ht)

namespace Accounted

variable (h : Accounted tell state x)

include h

/-- A task starts; if it is the main stream of the present, there was none before. -/
theorem launch (hfresh : t.phase = .fresh)
    (hnow : ∀ stint, t.work.stint? = some stint → stint.epoch ≤ x.stint.epoch)
    (hmain : t.work = .main x.stint → ∀ (i : Nat) (u : Task), x.tasks[i]? = some u → u.work ≠ .main x.stint) :
    Accounted tell state ⟨x.stint, x.tasks ++ [t]⟩ := by
  constructor
  · intro i u stint hu hst
    rcases getElem?_concat_cases hu with hold | ⟨_, rfl⟩
    · exact h.dated i u stint hold hst
    · exact hnow stint hst
  · intro i u hu hphase
    rcases getElem?_concat_cases hu with hold | ⟨_, rfl⟩
    · exact h.proper i u hold hphase
    · exact absurd (hfresh.symm.trans hphase) (by simp)
  · intro i j u v hu hv humain hvmain
    rcases getElem?_concat_cases hu with hold | ⟨hi, rfl⟩
    · rcases getElem?_concat_cases hv with hold' | ⟨_, rfl⟩
      · exact h.single i j u v hold hold' humain hvmain
      · exact absurd humain (hmain hvmain i u hold)
    · rcases getElem?_concat_cases hv with hold' | ⟨hj, _⟩
      · exact absurd hvmain (hmain humain j v hold')
      · rw [hi, hj]
  · intro i u ending hu humain hphase
    rcases getElem?_concat_cases hu with hold | ⟨_, rfl⟩
    · exact h.settled i u ending hold humain hphase
    · exact absurd (hfresh.symm.trans hphase) (by simp)

omit h in
/-- A step keeps the agreement, `state` and `u` being the state and the task afterwards. -/
theorem turned (h : Accounted tell s.status s.schedule) (ht : s.tasks[id]? = some t) {a : Arrival}
    (hturned : Turned tell s t a state u) : Accounted tell state ⟨s.stint, s.tasks.set id u⟩ where
  dated := by
    intro i v stint hv hst
    rcases getElem?_set_cases ht hv with ⟨rfl, rfl⟩ | ⟨_, hold⟩
    · exact h.dated _ t stint ht (hturned.work ▸ hst)
    · exact h.dated i v stint hold hst
  proper := by
    intro i v hv hphase
    rcases getElem?_set_cases ht hv with ⟨_, rfl⟩ | ⟨_, hold⟩
    · rw [hturned.work]
      rcases hturned.posting hphase with hpost | hpost
      · exact h.proper id t ht hpost
      · exact hpost
    · exact h.proper i v hold hphase
  single := by
    intro i j v w hv hw hvmain hwmain
    rcases getElem?_set_cases ht hv with ⟨rfl, rfl⟩ | ⟨_, hold⟩
    · rcases getElem?_set_cases ht hw with ⟨rfl, _⟩ | ⟨_, hold'⟩
      · rfl
      · exact h.single _ j t w ht hold' (hturned.work ▸ hvmain) hwmain
    · rcases getElem?_set_cases ht hw with ⟨rfl, rfl⟩ | ⟨_, hold'⟩
      · exact h.single i _ v t hold ht hvmain (hturned.work ▸ hwmain)
      · exact h.single i j v w hold hold' hvmain hwmain
  settled := by
    intro i v ending hv hmain hphase
    -- what fits the state before fits an error too, and it is the same main stream that would advance
    have hkept : ∀ w, s.tasks[i]? = some w → w.work = .main s.stint → w.phase = .over ending →
        Settled tell state ending := by
      intro w hw hwmain hover
      rcases hturned.status with hsame | herror | ⟨htmain, hadvances⟩
      · exact hsame ▸ h.settled i w ending hw hwmain hover
      · exact Or.inr (Or.inl herror)
      · obtain rfl : i = id := h.single i id w t hw ht hwmain htmain
        obtain rfl : w = t := Option.some.inj (hw.symm.trans ht)
        rcases hadvances with ⟨⟨n, hp⟩, _⟩ | ⟨⟨n, hp⟩, _⟩
        · exact absurd (hp.symm.trans hover) (by simp)
        · exact absurd (hp.symm.trans hover) (by simp)
    rcases getElem?_set_cases ht hv with ⟨rfl, rfl⟩ | ⟨_, hold⟩
    · have htmain : t.work = .main s.stint := hturned.work ▸ hmain
      cases hdone : t.isOver with
      | true =>
        rw [hturned.stays hdone] at hphase
        exact hkept t ht htmain hphase
      | false =>
        have hpost : t.phase ≠ .posting := by
          intro hp
          exact absurd (htmain.symm.trans (h.proper _ t ht hp)) (by simp)
        exact hturned.settled htmain hdone hpost ending hphase
    · exact hkept v hold hmain hphase

end Accounted

theorem Vacant.endEpoch {state : Status} (h : Accounted tell state s.schedule) : Vacant (endEpoch s).schedule where
  past := by
    intro i u stint hu hst
    obtain ⟨t, ht, hwork, _⟩ := Linked.exists_of_requestCancel hu
    exact Nat.lt_succ_of_le (h.dated i t stint ht (hwork ▸ hst))
  proper := by
    intro i u hu hphase
    obtain ⟨t, ht, hwork, hphase'⟩ := Linked.exists_of_requestCancel hu
    exact hwork ▸ h.proper i t ht (hphase' ▸ hphase)

namespace Steady

variable (h : Steady tell)

include h

theorem vacant_disconnect (hacc : Accounted tell s.status s.schedule) : Vacant (disconnect tell s).1.schedule := by
  rw [h.schedule_disconnect]
  exact Vacant.endEpoch hacc

/-- However far a connect comes before the host raises a fault, its main stream is the only one of its time. -/
theorem accounted_connect (hacc : Accounted tell s.status s.schedule) (message : Option String)
    (extra : Assoc Json.Value) :
    Accounted tell (connect tell message extra s).1.status (connect tell message extra s).1.schedule := by
  have hvacant := h.vacant_disconnect hacc
  refine Act.of_bind (P := fun s => Accounted tell s.status s.schedule) ?_ ?_
  · intro s₁ fault h₁
    rw [h₁] at hvacant
    exact hvacant.accounted tell s₁.status
  · intro s₁ _ h₁
    rw [h₁] at hvacant
    -- a new generation begins in the same epoch, and its main stream starts if the host lets it
    have hvacant₁ : Vacant (beginGeneration s₁).schedule := ⟨hvacant.past, hvacant.proper⟩
    have hlaunch : ∀ (s' : Session) (body : Assoc Json.Value), s'.schedule = (beginGeneration s₁).schedule →
        Accounted tell s'.status
          ⟨s'.stint, s'.tasks ++ [Task.start (.main (beginGeneration s₁).stint) body]⟩ := by
      intro s' body hs'
      have hvacant' : Vacant s'.schedule := hs'.symm ▸ hvacant₁
      rw [show (beginGeneration s₁).stint = s'.stint from congrArg Schedule.stint hs'.symm]
      refine (hvacant'.accounted tell s'.status).launch rfl ?_ fun _ i u hu => hvacant'.not_main hu
      intro stint hst
      exact Nat.le_of_eq (congrArg Stint.epoch (Option.some.inj hst).symm)
    have hunlaunched : ∀ s' : Session, s'.schedule = (beginGeneration s₁).schedule →
        Accounted tell s'.status s'.schedule := fun s' hs' => (hs'.symm ▸ hvacant₁).accounted tell s'.status
    refine Act.of_bind (P := fun s => Accounted tell s.status s.schedule) (fun _ _ hfault => by cases hfault) ?_
    rintro _ _ ⟨⟩
    refine Act.of_bind (P := fun s => Accounted tell s.status s.schedule) (fun _ _ hfault => by cases hfault) ?_
    rintro _ _ ⟨⟩
    have hpublish := (h.publish.map Prod.snd) (beginGeneration s₁)
    refine Act.of_bind (P := fun s => Accounted tell s.status s.schedule) ?_ ?_
    · intro s₂ fault h₂
      rw [h₂] at hpublish
      exact hunlaunched s₂ hpublish
    · intro s₂ _ h₂
      rw [h₂] at hpublish
      have hconnecting := (h.schedule_setStatus .connecting s₂).trans hpublish
      refine Act.of_bind (P := fun s => Accounted tell s.status s.schedule) ?_ ?_
      · intro s₃ fault h₃
        rw [h₃] at hconnecting
        exact hunlaunched s₃ hconnecting
      · intro s₃ _ h₃
        rw [h₃] at hconnecting
        exact hlaunch s₃ _ hconnecting

theorem accounted_act (hacc : Accounted tell s.status s.schedule) (m : Move) :
    Accounted tell (m.act tell s).status (m.act tell s).schedule := by
  cases m with
  | connect message extra => exact h.accounted_connect hacc message extra
  | disconnect => exact (h.vacant_disconnect hacc).accounted tell _
  | reset =>
    have hkept := h.standing_reset s
    show Accounted tell (reset tell s).1.standing.1 (reset tell s).1.standing.2
    rw [hkept]
    exact hacc
  | action sent stream extra =>
    obtain ⟨haction, hfresh, hnow⟩ := actionTask_fresh s sent (stream.getD s.options.streamActions) extra
    refine hacc.launch hfresh (fun stint hst => Nat.le_of_eq (congrArg Stint.epoch (hnow stint hst))) fun hmain => ?_
    rw [hmain] at haction
    exact absurd haction (by simp [Work.isAction])
  | step id a =>
    show Accounted tell (step tell id a s).status (step tell id a s).schedule
    cases ht : s.tasks[id]? with
    | none =>
      rw [step, ht]
      exact hacc
    | some t =>
      obtain ⟨u, hschedule, hturned⟩ := h.turns_step ht a
      rw [hschedule]
      exact hacc.turned ht hturned

theorem accounted_after (hacc : Accounted tell s.status s.schedule) (moves : List Move) :
    Accounted tell (after tell s moves).status (after tell s moves).schedule := by
  induction moves generalizing s with
  | nil => exact hacc
  | cons m moves ih => exact ih (h.accounted_act hacc m)

end Steady

theorem accounted_start (tell : Teller) (registry : Registry) (limits : Limits) (options : Options)
    (clock : Render.Clock) :
    Accounted tell (Session.start registry limits options clock).status
      (Session.start registry limits options clock).schedule := by
  refine Vacant.accounted ⟨?_, ?_⟩ tell _
  · exact fun i t stint ht => absurd ht (by simp [schedule, Session.start])
  · exact fun i t ht => absurd ht (by simp [schedule, Session.start])

/-- The main stream of the present has ended, but the state does not tell so. -/
def LooksAlive (s : Session) : Prop :=
  ∃ (i : Nat) (t : Task), s.tasks[i]? = some t ∧ t.work = .main s.stint ∧ t.isOver = true ∧
    s.status ≠ .connected ∧ s.status ≠ .error

end ComponentStream.Session
