import ComponentStream.Proofs.Session.Frozen
import ComponentStream.Session.Exchange

/-!
# A main stream from its connect to its end

A connect is answered by a response, the chunks of its body and the end of it, and nothing else happens meanwhile.  The
session then ends in error if a record that a newline has finished reports a fault that ends the session, and it stays
connected otherwise: the main stream does not ask again after it has taken in what the body left unfinished.

* `MainAt`, `Finished` — the main stream of the present in some phase, and one that has ended;
* `MainAt.start`, `Mute.opened_mainAt`, `Mute.chunk_mainAt`, `Mute.chunk_finished`, `Mute.ended_finished` — its steps;
* `Mute.finished_of_chunks` — a whole body, by induction on its chunks;
* `status_of_body` — the state in which a session ends.
-/

namespace ComponentStream.Session

open Protocol (Limits)
open ComponentStream.Stream (Intake endsSession newline_not_mem_rest processRecord splitRecords splitRecords_append
  splitRecords_of_not_mem)
open ComponentStream.Tree (Reachable)

variable {s s' : Session} {tell : Teller} {id : Nat} {p : Phase}

/-- The task with a given number is the main stream of the present, in a certain phase; nothing has gone wrong yet. -/
structure MainAt (p : Phase) (s : Session) (id : Nat) : Prop where
  task : ∃ t, s.tasks[id]? = some t ∧ t.work = .main s.stint ∧ t.phase = p ∧ t.cancelRequested = false
  terminal : s.terminal = false
  reachable : s.intake.tree.Reachable
  opened : 0 < s.intake.buffers.length
  /-- Every finished record has been taken in. -/
  waiting : Stream.newline ∉ s.intake.buffer 0

/-- The task with a given number has come to its end and left the session in a certain state. -/
structure Finished (s : Session) (id : Nat) (status : Status) : Prop where
  status_eq : s.status = status
  task : ∃ t, s.tasks[id]? = some t ∧ t.phase = .over .done

/-- What comes after the end changes nothing. -/
theorem Finished.stepAll {status : Status} (h : Finished s id status) (arrivals : List Arrival) :
    Finished (stepAll tell id arrivals s) id status := by
  induction arrivals with
  | nil => exact h
  | cons a arrivals ih =>
    obtain ⟨t, ht, hphase⟩ := h.task
    have hidle : step tell id a s = s := by
      rw [step, ht]
      dsimp only
      rw [hphase]
    rw [Session.stepAll, List.foldl_cons, hidle]
    exact ih

/-- The main stream moves on to another phase, `s'` being the session once what has come is in. -/
theorem MainAt.setPhase (h : MainAt p s id) (s' : Session) (hsched : s'.schedule = s.schedule)
    (hterm : s'.terminal = false) (hreach : s'.intake.tree.Reachable) (hopened : 0 < s'.intake.buffers.length)
    (hwaiting : Stream.newline ∉ s'.intake.buffer 0) (q : Phase) : MainAt q (s'.setPhase id q) id := by
  obtain ⟨t, ht, hwork, _, hrequest⟩ := h.task
  have ht' : s'.tasks[id]? = some t := (congrArg (fun x => x.tasks[id]?) hsched).trans ht
  refine ⟨⟨{ t with phase := q }, ?_, ?_, rfl, hrequest⟩, hterm, hreach, hopened, hwaiting⟩
  · rw [Session.setPhase, tasks_changeTask ht', List.getElem?_set_self (List.getElem?_eq_some_iff.mp ht').1]
  · exact hwork.trans (congrArg (fun x => Work.main x.stint) hsched.symm)

/-- A main stream that nobody has asked to stop comes to its end, `s'` being the session by then. -/
theorem finished_of_task {t : Task} (ht : s.tasks[id]? = some t) (hrequest : t.cancelRequested = false)
    (hsched : s'.schedule = s.schedule) (o : Outcome) {status : Status} (hstatus : s'.status = status) :
    Finished ((closeMain o s').endTask id none) id status := by
  have ht' : (closeMain o s').tasks[id]? = some t := (congrArg (fun x => x.tasks[id]?) hsched).trans ht
  refine ⟨hstatus, ⟨{ t with phase := .over .done }, ?_, rfl⟩⟩
  rw [endTask, tasks_changeTask ht', List.getElem?_set_self (List.getElem?_eq_some_iff.mp ht').1, hrequest]
  rfl

theorem MainAt.finished (h : MainAt p s id) (hsched : s'.schedule = s.schedule) (o : Outcome) {status : Status}
    (hstatus : s'.status = status) : Finished ((closeMain o s').endTask id none) id status := by
  obtain ⟨t, ht, _, _, hrequest⟩ := h.task
  exact finished_of_task ht hrequest hsched o hstatus

/-! ### Records can be taken in -/

namespace Passive

variable (hp : Passive tell)

include hp

theorem takeRecords_returns (records : List (List UInt8)) (accepted : Bool) (hreach : s.intake.tree.Reachable) :
    ∃ a, (takeRecords tell accepted records s).2 = .ok a := by
  induction records generalizing accepted s with
  | nil =>
    rw [takeRecords]
    cases accepted with
    | true => exact hp.publish_returns hreach
    | false => exact ⟨(), rfl⟩
  | cons r records ih =>
    obtain ⟨s', htake, hcore⟩ := hp.takeRecord r s
    have htree : s'.intake.tree = (processRecord s.intake.limits s.intake.tree r).1 :=
      congrArg (fun c => c.intake.tree) hcore
    rw [takeRecords, Act.bind_apply, htake]
    refine ih (s := s') _ ?_
    rw [htree]
    exact Stream.Reachable.processRecord hreach _ r

theorem feed_returns (n : Nat) (chunk : Chunk) (hreach : s.intake.tree.Reachable) :
    ∃ a, (feed tell n chunk s).2 = .ok a := by
  refine hp.takeRecords_returns (s := receive n chunk s) _ false ?_
  rw [receive]
  cases chunk.raw with
  | true => exact hreach
  | false => exact hreach

theorem finish_returns (n : Nat) (hreach : s.intake.tree.Reachable) : ∃ a, (finish tell n s).2 = .ok a :=
  hp.takeRecords_returns (s := setBuffer n [] s) _ false hreach

end Passive

/-! ### The steps of the main stream -/

theorem MainAt.start (h : MainAt .fresh s id) (tell : Teller) :
    MainAt (.opening 0) (step tell id .start s) id ∧ (step tell id .start s).intake = s.intake := by
  obtain ⟨t, ht, hwork, hphase, _⟩ := h.task
  have hstep : step tell id .start s = { s with metrics := s.metrics.enterSession }.setPhase id (.opening 0) := by
    rw [step, ht]
    dsimp only
    rw [hphase]
    show begin id t s = _
    rw [begin, hwork]
  rw [hstep]
  refine ⟨?_, rfl⟩
  exact h.setPhase { s with metrics := s.metrics.enterSession } rfl h.terminal h.reachable h.opened h.waiting _

theorem MainAt.step_eq (h : MainAt (.reading 0) s id) {a : Arrival} (ha : a = .ended ∨ ∃ chunk, a = .chunk chunk) :
    step tell id a s = stepMain tell id s.stint 0 a s := by
  obtain ⟨t, ht, hwork, hphase, _⟩ := h.task
  exact step_eq_stepMain ht hwork hphase ha

namespace Mute

variable (h : Mute tell)

include h

theorem opened_mainAt (hmain : MainAt (.opening 0) s id) (records : Bool) :
    MainAt (.reading 0) (step tell id (.opened records) s) id ∧
      (step tell id (.opened records) s).intake = s.intake := by
  obtain ⟨t, ht, hwork, hphase, _⟩ := hmain.task
  have hset : setStatus tell .streaming s = ((setStatus tell .streaming s).1, .ok ()) :=
    Act.eq_ok (h.passive.setStatus_returns .streaming s)
  have hstep : step tell id (.opened records) s = (setStatus tell .streaming s).1.setPhase id (.reading 0) := by
    rw [step, ht]
    dsimp only
    rw [hphase, hwork]
    show stepMain tell id s.stint 0 (.opened records) s = _
    rw [stepMain, readMain, Act.unlessStale, if_pos (isCurrent_iff.mpr rfl), Act.bind_apply, hset]
    rfl
  have hintake : (setStatus tell .streaming s).1.intake = s.intake :=
    congrArg Core.intake (h.passive.setStatus .streaming s)
  rw [hstep]
  refine ⟨hmain.setPhase _ (h.steady.schedule_setStatus .streaming s) ?_ ?_ ?_ ?_ _, hintake⟩
  · exact (h.follows.setStatus .streaming s).trans hmain.terminal
  · exact hintake ▸ hmain.reachable
  · exact hintake ▸ hmain.opened
  · exact hintake ▸ hmain.waiting

/-- A chunk whose records report no fault that ends the session goes into the tree, and the stream goes on. -/
theorem chunk_mainAt (hmain : MainAt (.reading 0) s id) (chunk : Chunk)
    (hgood : (splitRecords (s.intake.buffer 0 ++ chunk.bytes)).1.any (endsSession s.intake.limits) = false) :
    MainAt (.reading 0) (step tell id (.chunk chunk) s) id ∧
      (step tell id (.chunk chunk) s).intake = (s.intake.feed 0 chunk.bytes).1 := by
  have hfeed : feed tell 0 chunk s = ((feed tell 0 chunk s).1, .ok ()) :=
    Act.eq_ok (h.passive.feed_returns 0 chunk hmain.reachable)
  have hterm : (feed tell 0 chunk s).1.terminal = false := by
    rw [h.follows.chunk, standsAfter, hmain.terminal, Bool.false_or]
    exact hgood
  have hintake : (feed tell 0 chunk s).1.intake = (s.intake.feed 0 chunk.bytes).1 :=
    congrArg Core.intake (h.passive.core_feed 0 chunk s)
  have hstep : step tell id (.chunk chunk) s = (feed tell 0 chunk s).1.setPhase id (.reading 0) := by
    rw [hmain.step_eq (Or.inr ⟨chunk, rfl⟩), stepMain, readMain, Act.unlessStale, if_pos (isCurrent_iff.mpr rfl),
      Act.bind_apply, hfeed]
    dsimp only
    rw [Act.bind_apply]
    simp only [Act.get, hterm]
    rfl
  rw [hstep]
  refine ⟨hmain.setPhase _ (h.steady.follows.chunk 0 chunk s) hterm ?_ ?_ ?_ _, hintake⟩
  · rw [hintake]
    exact Stream.Reachable.processAll hmain.reachable _ _
  · rw [hintake, Intake.length_buffers_feed]
    exact hmain.opened
  · rw [hintake, Intake.feed_eq, Intake.buffer_set hmain.opened]
    exact newline_not_mem_rest _

/-- A chunk with a record that reports such a fault ends the stream, and the session ends in error. -/
theorem chunk_finished (hmain : MainAt (.reading 0) s id) (chunk : Chunk)
    (hbad : (splitRecords (s.intake.buffer 0 ++ chunk.bytes)).1.any (endsSession s.intake.limits) = true) :
    Finished (step tell id (.chunk chunk) s) id .error := by
  have hfeed : feed tell 0 chunk s = ((feed tell 0 chunk s).1, .ok ()) :=
    Act.eq_ok (h.passive.feed_returns 0 chunk hmain.reachable)
  have hterm : (feed tell 0 chunk s).1.terminal = true := by
    rw [h.follows.chunk, standsAfter, hmain.terminal, Bool.false_or]
    exact hbad
  have hsched := h.steady.follows.chunk 0 chunk s
  generalize (feed tell 0 chunk s).1 = s₁ at hfeed hterm hsched
  have hcurrent : s₁.isCurrent s.stint = true := isCurrent_iff.mpr (congrArg Schedule.stint hsched).symm
  have hset : setStatus tell .error s₁ = ((setStatus tell .error s₁).1, .ok ()) :=
    Act.eq_ok (h.passive.setStatus_returns .error s₁)
  have hconclude : concludeMain tell s.stint 0 s₁ = ((setStatus tell .error s₁).1, .ok .backendError) := by
    rw [concludeMain, Act.unlessStale, if_pos hcurrent, Act.bind_apply]
    simp only [Act.get, hterm, if_true]
    rw [Act.bind_apply, hset]
    rfl
  have hread : readMain tell s.stint 0 (.chunk chunk) s = ((setStatus tell .error s₁).1, .ok (some .backendError)) := by
    rw [readMain, Act.unlessStale, if_pos (isCurrent_iff.mpr rfl), Act.bind_apply, hfeed]
    dsimp only
    rw [Act.bind_apply]
    simp only [Act.get, hterm, if_true]
    rw [Act.bind_apply, hconclude]
    rfl
  rw [hmain.step_eq (Or.inr ⟨chunk, rfl⟩), stepMain, hread]
  exact hmain.finished ((h.steady.schedule_setStatus .error s₁).trans hsched) .backendError
    (h.steady.status_setStatus .error s₁)

/-- At the end of the body the unfinished record is taken in, and the session stays connected whatever it holds. -/
theorem ended_finished (hmain : MainAt (.reading 0) s id) : Finished (step tell id .ended s) id .connected := by
  have hfinish : finish tell 0 s = ((finish tell 0 s).1, .ok ()) :=
    Act.eq_ok (h.passive.finish_returns 0 hmain.reachable)
  have hsched := h.steady.follows.rest 0 s
  generalize (finish tell 0 s).1 = s₁ at hfinish hsched
  have hset : setStatus tell .connected s₁ = ((setStatus tell .connected s₁).1, .ok ()) :=
    Act.eq_ok (h.passive.setStatus_returns .connected s₁)
  have hread : readMain tell s.stint 0 .ended s = ((setStatus tell .connected s₁).1, .ok (some .completed)) := by
    rw [readMain, Act.bind_apply, concludeMain, Act.unlessStale, if_pos (isCurrent_iff.mpr rfl), Act.bind_apply]
    simp only [Act.get, hmain.terminal]
    rw [if_neg Bool.false_ne_true, Act.bind_apply, hfinish]
    dsimp only
    rw [Act.bind_apply, hset]
    rfl
  rw [hmain.step_eq (Or.inl rfl), stepMain, hread]
  exact hmain.finished ((h.steady.schedule_setStatus .connected s₁).trans hsched) .completed
    (h.steady.status_setStatus .connected s₁)

/-! ### Whole bodies -/

/-- A body is read up to the first chunk with a record that reports such a fault, or to its end. -/
theorem finished_of_chunks (chunks : List Chunk) (hmain : MainAt (.reading 0) s id) :
    Finished (stepAll tell id (chunks.map .chunk ++ [.ended]) s) id
      (if (splitRecords (s.intake.buffer 0 ++ chunks.flatMap Chunk.bytes)).1.any (endsSession s.intake.limits)
        then .error else .connected) := by
  induction chunks generalizing s with
  | nil =>
    rw [List.flatMap_nil, List.append_nil, splitRecords_of_not_mem hmain.waiting]
    exact h.ended_finished hmain
  | cons chunk chunks ih =>
    have hsplit : (splitRecords (s.intake.buffer 0 ++ (chunk :: chunks).flatMap Chunk.bytes)).1 =
        (splitRecords (s.intake.buffer 0 ++ chunk.bytes)).1 ++
          (splitRecords ((splitRecords (s.intake.buffer 0 ++ chunk.bytes)).2 ++ chunks.flatMap Chunk.bytes)).1 := by
      rw [List.flatMap_cons, ← List.append_assoc, splitRecords_append]
    rw [hsplit, List.any_append]
    show Finished (stepAll tell id (chunks.map .chunk ++ [.ended]) (step tell id (.chunk chunk) s)) id _
    cases hany : (splitRecords (s.intake.buffer 0 ++ chunk.bytes)).1.any (endsSession s.intake.limits) with
    | true => exact (h.chunk_finished hmain chunk hany).stepAll _
    | false =>
      obtain ⟨hmain', hintake⟩ := h.chunk_mainAt hmain chunk hany
      have hrest := ih hmain'
      rw [hintake, Intake.feed_eq, Intake.buffer_set hmain.opened] at hrest
      exact hrest

/-! ### Connecting -/

theorem terminal_connect (message : Option String) (extra : Assoc Json.Value) (s : Session) :
    (connect tell message extra s).1.terminal = false := by
  rw [connect, Act.bind_apply, Act.eq_ok (h.passive.disconnect_returns s)]
  refine Act.Keeps.read_bind (f := Session.terminal) (Act.change beginGeneration) (fun _ => ?_) _
  refine Act.Keeps.bind (fun _ => rfl) fun task => Act.Keeps.bind h.terminal_publish fun _ => ?_
  exact Act.Keeps.bind (h.follows.setStatus .connecting) fun _ _ => rfl

end Mute

theorem length_requestCancel (main : Option Nat) (k : Nat) (tasks : List Task) :
    (requestCancel main k tasks).length = tasks.length := by
  induction tasks generalizing k with
  | nil => rfl
  | cons t tasks ih => rw [requestCancel, List.length_cons, List.length_cons, ih]

/-- A connect starts the main stream as the last of all tasks. -/
theorem Mute.connect_mainAt (h : Mute tell) (hopened : 0 < s.intake.buffers.length) (message : Option String)
    (extra : Assoc Json.Value) :
    MainAt .fresh (connect tell message extra s).1 s.tasks.length ∧
      (connect tell message extra s).1.intake = s.intake.reset 0 := by
  obtain ⟨main, body, hcore⟩ := h.passive.core_connect message extra s
  have hintake : (connect tell message extra s).1.intake = s.intake.reset 0 := congrArg Core.intake hcore
  have htasks : (connect tell message extra s).1.tasks = _ := congrArg Core.tasks hcore
  have hstint : (connect tell message extra s).1.stint = s.core.endEpoch.beginGeneration.stint :=
    congrArg Core.stint hcore
  refine ⟨⟨⟨Task.start (.main s.core.endEpoch.beginGeneration.stint) body, ?_, ?_, rfl, rfl⟩, ?_, ?_, ?_, ?_⟩, hintake⟩
  · rw [htasks]
    have hlen : s.core.endEpoch.beginGeneration.tasks.length = s.tasks.length :=
      length_requestCancel s.mainTask 0 s.tasks
    rw [Core.launch, ← hlen, List.getElem?_concat_length]
  · rw [hstint]
    rfl
  · exact h.terminal_connect message extra s
  · rw [hintake]
    exact Reachable.empty
  · rw [hintake, Intake.length_buffers_reset]
    exact hopened
  · rw [hintake, Intake.reset, Intake.buffer_set hopened]
    exact List.not_mem_nil

/-- A connect that gets a response with a body of some chunks, while nothing else happens. -/
def exchange (tell : Teller) (s : Session) (message : Option String) (extra : Assoc Json.Value) (records : Bool)
    (chunks : List Chunk) : Session :=
  stepAll tell s.tasks.length (.start :: .opened records :: (chunks.map .chunk ++ [.ended]))
    (connect tell message extra s).1

/-- **The records that a newline has finished decide how a session ends**: in error if one of them reports a fault that
ends the session, wherever it lies in the chunks, and connected otherwise.  What the body leaves unfinished has no say.
The session may have been through anything before; its host neither raises faults nor calls back. -/
theorem status_of_body (h : Host) (hquiet : ∀ calls, h.reactions calls = []) (registry : Registry) (limits : Limits)
    (options : Options) (clock : Render.Clock) (moves : List Move) (message : Option String) (extra : Assoc Json.Value)
    (records : Bool) (chunks : List Chunk) :
    Finished
      (exchange h.tell (after h.tell (Session.start registry limits options clock) moves) message extra records chunks)
      (after h.tell (Session.start registry limits options clock) moves).tasks.length
      (if (splitRecords (chunks.flatMap Chunk.bytes)).1.any (endsSession limits) then .error else .connected) := by
  have hmute : Mute h.tell := Host.mute_tell hquiet
  have hlinked := hmute.passive.linked_history registry limits options clock moves
  rw [history_fst] at hlinked
  generalize after h.tell (Session.start registry limits options clock) moves = s at hlinked
  obtain ⟨hfresh, hreset⟩ := hmute.connect_mainAt hlinked.opened message extra
  obtain ⟨hopening, hstarted⟩ := hfresh.start h.tell
  obtain ⟨hreading, hopened⟩ := hmute.opened_mainAt hopening records
  have hfinished := hmute.finished_of_chunks chunks hreading
  have hlimits : (s.intake.reset 0).limits = limits := hlinked.limits_eq
  have hempty : (s.intake.reset 0).buffer 0 = [] := Intake.buffer_set hlinked.opened _ _
  rw [hopened, hstarted, hreset, hlimits, hempty, List.nil_append] at hfinished
  exact hfinished

/-- The record that reports the fault comes in two chunks, after a connect that has been superseded. -/
theorem status_of_body_of_crash_in_two_chunks :
    Finished
      (exchange Host.quiet.tell
        (after Host.quiet.tell (Session.start [] Limits.standard Options.standard ⟨0⟩) [.connect none []]) none [] true
        [⟨crash.bytes.take 10, true⟩, ⟨crash.bytes.drop 10, true⟩])
      (after Host.quiet.tell (Session.start [] Limits.standard Options.standard ⟨0⟩) [.connect none []]).tasks.length
      .error := by
  have hcrash : (splitRecords ([⟨crash.bytes.take 10, true⟩, ⟨crash.bytes.drop 10, true⟩].flatMap Chunk.bytes)).1.any
      (endsSession Limits.standard) = true := by decide +kernel
  have hfinished := status_of_body Host.quiet (fun _ => rfl) [] Limits.standard Options.standard ⟨0⟩ [.connect none []]
    none [] true [⟨crash.bytes.take 10, true⟩, ⟨crash.bytes.drop 10, true⟩]
  rw [if_pos hcrash] at hfinished
  exact hfinished

/-- The same report ends a session in error with a newline behind it, and leaves it connected without one. -/
theorem connected_after_unfinished_crash :
    endsSession Limits.standard crash.bytes.dropLast = true ∧
      (exchange Host.quiet.tell (Session.start [] Limits.standard Options.standard ⟨0⟩) none [] true
        [⟨crash.bytes.dropLast, true⟩]).status = .connected ∧
      (exchange Host.quiet.tell (Session.start [] Limits.standard Options.standard ⟨0⟩) none [] true
        [crash]).status = .error := by
  decide +kernel

end ComponentStream.Session
