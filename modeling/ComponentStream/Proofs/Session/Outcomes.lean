import ComponentStream.Proofs.Session.Calm
import ComponentStream.Proofs.Session.Response
import ComponentStream.Proofs.Stream.Trace

/-!
# Outcomes of records

Chunks and ends of streams go through the buffers of a session in any order, and the host listens.  It hears of each
record what the verdict says, and that is what is counted; a host that only listens has no influence on the verdicts.

* `Attentive.takeRecord` — what the host hears of a record and what is counted;
* `Input`, `takeAll` — chunks and ends of streams, and runs of them;
* `recordLog`, `inputLog` — the records of a run with the verdicts on them;
* `Passive.verdicts_inputLog` — runs in front of a host that only listens;
* `Balanced` — records, verdicts, calls and counters agree.
-/

namespace ComponentStream.Session

open Protocol (Limits Tag)
open ComponentStream.Stream (FaultKind Intake Report Resolved Verdict accepted backendOf? faultTotal newline processAll
  processAll_cons processRecord reports splitRecords strip)
open ComponentStream.Tree (Reachable)

variable {s s' : Session} {tell : Teller} {listens : CallKind → Bool}

/-! ### Reports to the host -/

/-- The call by which the host hears of a report. -/
def reportCall : Report → Call
  | .warning w => .warning w
  | .backend message recoverable => .error (.backend message recoverable)
  | .invariant e _ => .error (.invariant e)

/-- The calls by which a host hears of some reports, as far as it listens. -/
def reportCalls (listens : CallKind → Bool) (rs : List Report) : List Call :=
  (rs.map reportCall).filter fun c => listens c.kind

theorem heard_reportCall (listens : CallKind → Bool) (r : Report) :
    heard listens (reportCall r) = reportCalls listens [r] := by
  have hkind : (reportCall r).kind ≠ .update := by cases r <;> simp [reportCall, Call.kind]
  by_cases hl : listens (reportCall r).kind = true <;> simp [heard, reportCalls, hkind, hl]

theorem reportCalls_append (listens : CallKind → Bool) (rs rs' : List Report) :
    reportCalls listens (rs ++ rs') = reportCalls listens rs ++ reportCalls listens rs' := by
  rw [reportCalls, List.map_append, List.filter_append, reportCalls, reportCalls]

namespace Attentive

variable (h : Attentive listens tell)

include h

/-- A report that says nothing of an update reaches the host once. -/
theorem deliver (r : Option Report) (s : Session) (hs : s.intake.tree.Reachable) :
    ∃ s', deliver tell r s = (s', .ok ()) ∧ Told s s' (reportCalls listens r.toList) [] := by
  cases r with
  | none => exact ⟨s, rfl, .of_eq hs rfl rfl rfl⟩
  | some r =>
    rw [Option.toList_some, ← heard_reportCall]
    cases r with
    | warning w => exact h (.warning w) s hs
    | backend message recoverable =>
      -- the fault is kept before the host hears of it
      obtain ⟨s', htell, htold⟩ := h (.error (.backend message recoverable))
        { s with terminal := s.terminal || !recoverable, lastError := some (.backend message recoverable) } hs
      exact ⟨s', htell, ⟨htold.reachable, htold.limits_eq, htold.faults_eq, htold.value_eq⟩⟩
    | invariant e n =>
      obtain ⟨s', htell, htold⟩ := h (.error (.invariant e)) { s with lastError := some (.invariant e) } hs
      exact ⟨s', htell, ⟨htold.reachable, htold.limits_eq, htold.faults_eq, htold.value_eq⟩⟩

/-- **A record gets its verdict**: the host hears of it what the verdict says, and that is what is counted. -/
theorem takeRecord (bytes : List UInt8) (s : Session) (hs : s.intake.tree.Reachable) :
    ∃ s', takeRecord tell bytes s = (s', .ok (processRecord s.intake.limits s.intake.tree bytes).2) ∧
      Told s s' (reportCalls listens (processRecord s.intake.limits s.intake.tree bytes).2.report?.toList)
        (processRecord s.intake.limits s.intake.tree bytes).2.counters := by
  have hreach : (processRecord s.intake.limits s.intake.tree bytes).1.Reachable :=
    Stream.Reachable.processRecord hs s.intake.limits bytes
  generalize hr : processRecord s.intake.limits s.intake.tree bytes = result at hreach
  obtain ⟨tree, verdict⟩ := result
  obtain ⟨s₁, hdeliver, htold⟩ := h.deliver verdict.report?
    { s with intake := { s.intake with tree := tree }, metrics := s.metrics.addAll verdict.faultCounters } hreach
  refine ⟨{ s₁ with metrics := s₁.metrics.addAll verdict.messageCounters }, ?_, ?_⟩
  · rw [Session.takeRecord, hr]
    dsimp only
    rw [hdeliver]
  · refine ⟨htold.reachable, htold.limits_eq, htold.faults_eq, fun c hc => ?_⟩
    have hvalue := htold.value_eq c hc
    rw [List.count_nil, Nat.add_zero] at hvalue
    show (s₁.metrics.addAll verdict.messageCounters).value c = s.metrics.value c + verdict.counters.count c
    rw [Metrics.value_addAll, hvalue, Verdict.counters, List.count_append, ← Nat.add_assoc]
    show (s.metrics.addAll verdict.faultCounters).value c + _ = _
    rw [Metrics.value_addAll]

end Attentive

/-! ### Records of a run -/

/-- Records with the verdicts that they get one after the other. -/
def recordLog (tell : Teller) : List (List UInt8) → Session → List (List UInt8 × Verdict)
  | [], _ => []
  | r :: records, s =>
    (r, (processRecord s.intake.limits s.intake.tree r).2) :: recordLog tell records (takeRecord tell r s).1

/-- Something that comes in through a buffer: a chunk, or the end of a stream with what it left unfinished. -/
inductive Input where
  | chunk (n : Nat) (piece : Chunk)
  | rest (n : Nat)

namespace Input

/-- The records that an input finishes. -/
def records (s : Session) : Input → List (List UInt8)
  | .chunk n piece => (splitRecords (s.intake.buffer n ++ piece.bytes)).1
  | .rest n => [s.intake.buffer n]

/-- The session once the bytes are in its buffer. -/
def enter (s : Session) : Input → Session
  | .chunk n piece => receive n piece s
  | .rest n => setBuffer n [] s

/-- Before the records are taken, at most bytes are counted. -/
theorem told_enter (x : Input) (hs : s.intake.tree.Reachable) : Told s (x.enter s) [] [] := by
  cases x with
  | rest n => exact .of_eq hs rfl rfl rfl
  | chunk n piece =>
    rw [enter, receive]
    cases piece.raw with
    | false => exact .of_eq hs rfl rfl rfl
    | true =>
      refine ⟨hs, rfl, (List.append_nil _).symm, fun c hc => ?_⟩
      show (s.metrics.add byteCounter _).value c = _
      rw [Metrics.value_add, if_neg (Ne.symm hc)]
      rfl

def take (tell : Teller) : Input → Act Unit
  | .chunk n piece => feed tell n piece
  | .rest n => finish tell n

/-- What an input does to the buffers alone. -/
def op : Input → Intake.Op
  | .chunk n piece => .feed n piece.bytes
  | .rest n => .flush n

theorem take_eq (x : Input) (tell : Teller) (s : Session) :
    x.take tell s = takeRecords tell false (x.records s) (x.enter s) := by
  cases x <;> rfl

end Input

/-- Takes several inputs, one after the other. -/
def takeAll (tell : Teller) : List Input → Act Unit
  | [] => pure ()
  | x :: inputs => do
    x.take tell
    takeAll tell inputs

/-- The records of a run, in order, with the verdicts on them. -/
def inputLog (tell : Teller) : List Input → Session → List (List UInt8 × Verdict)
  | [], _ => []
  | x :: inputs, s => recordLog tell (x.records s) (x.enter s) ++ inputLog tell inputs (x.take tell s).1

/-! ### Hosts that only listen -/

namespace Passive

variable (hp : Passive tell)

include hp

theorem verdicts_recordLog (records : List (List UInt8)) (s : Session) :
    (recordLog tell records s).map Prod.snd = (processAll s.intake.limits s.intake.tree records).2 := by
  induction records generalizing s with
  | nil => rfl
  | cons r records ih =>
    obtain ⟨s', htake, hcore⟩ := hp.takeRecord r s
    have hintake : s'.intake = { s.intake with tree := (processRecord s.intake.limits s.intake.tree r).1 } :=
      congrArg Core.intake hcore
    rw [recordLog, htake, List.map_cons, ih, hintake, processAll_cons]

theorem verdicts_take (x : Input) (s : Session) :
    (recordLog tell (x.records s) (x.enter s)).map Prod.snd = s.intake.verdicts x.op ∧
      (x.take tell s).1.intake = s.intake.act x.op := by
  rw [hp.verdicts_recordLog]
  cases x with
  | rest n => exact ⟨rfl, congrArg Core.intake (hp.core_finish n s)⟩
  | chunk n piece =>
    refine ⟨?_, congrArg Core.intake (hp.core_feed n piece s)⟩
    rw [Input.enter, receive]
    cases piece.raw <;> rfl

/-- A host that only listens leaves the records to themselves: a run does what it does to the buffers alone. -/
theorem verdicts_inputLog (inputs : List Input) (s : Session) (hs : s.intake.tree.Reachable) :
    (inputLog tell inputs s).map Prod.snd = s.intake.verdictsAll (inputs.map Input.op) ∧
      (takeAll tell inputs s).1.intake = s.intake.actAll (inputs.map Input.op) := by
  induction inputs generalizing s with
  | nil => exact ⟨rfl, rfl⟩
  | cons x inputs ih =>
    obtain ⟨hverdicts, hintake⟩ := hp.verdicts_take x s
    have hreturn : x.take tell s = ((x.take tell s).1, .ok ()) := by
      refine Act.eq_ok ?_
      cases x with
      | chunk n piece => exact hp.feed_returns n piece hs
      | rest n => exact hp.finish_returns n hs
    have hreach : (x.take tell s).1.intake.tree.Reachable := by
      rw [hintake]
      exact Intake.act_reachable hs x.op
    obtain ⟨hrest, hfinal⟩ := ih (x.take tell s).1 hreach
    rw [inputLog, List.map_append, hverdicts, hrest, takeAll, Act.bind_apply, hreturn, hintake]
    refine ⟨rfl, ?_⟩
    show (takeAll tell inputs (x.take tell s).1).1.intake = _
    rw [hfinal, hintake]
    rfl

end Passive

/-! ### The balance of a run -/

/-- Records, verdicts, calls and counters agree. -/
structure Balanced (listens : CallKind → Bool) (s s' : Session) (log : List (List UInt8 × Verdict)) : Prop where
  /-- A record that is not blank is accepted as the message that it carries, or dropped, or refused. -/
  resolved : ∀ e ∈ log, Resolved s.intake.limits e.1 e.2
  /-- These are its only outcomes, and it has one of them. -/
  outcomes : log.countP (fun e => strip e.1 ≠ []) = (accepted (log.map Prod.snd)).length +
    (reports (log.map Prod.snd)).countP Report.isWarning + (reports (log.map Prod.snd)).countP Report.isInvariant
  /-- Beside them, accepted error messages are reported, and no other messages. -/
  backends : (reports (log.map Prod.snd)).filterMap Report.backend? =
    (accepted (log.map Prod.snd)).filterMap backendOf?
  /-- The host hears of each report once, in order, and of no other fault. -/
  calls : faultCalls s'.calls = faultCalls s.calls ++ reportCalls listens (reports (log.map Prod.snd))
  /-- Accepted messages are counted by their tags. -/
  messages : ∀ tag : Tag, s'.metrics.value ⟨.streamMessages, [tag.name]⟩ =
    s.metrics.value ⟨.streamMessages, [tag.name]⟩ + (accepted (log.map Prod.snd)).countP fun m => m.tag = tag
  /-- Reports are counted by their kinds. -/
  faults : ∀ k : FaultKind, s'.metrics.value (Verdict.faultCounter k) =
    s.metrics.value (Verdict.faultCounter k) + (reports (log.map Prod.snd)).countP fun r => r.kind = k
  /-- All kinds together, they are the warnings, the refusals and the accepted error messages. -/
  total : faultTotal s'.metrics = faultTotal s.metrics +
    ((reports (log.map Prod.snd)).countP Report.isWarning + (reports (log.map Prod.snd)).countP Report.isInvariant +
      (accepted (log.map Prod.snd)).countP fun m => m.tag = .error)

theorem Balanced.of_told {log : List (List UInt8 × Verdict)} (hresolved : ∀ e ∈ log, Resolved s.intake.limits e.1 e.2)
    (htold : Told s s' (reportCalls listens (reports (log.map Prod.snd)))
      ((log.map Prod.snd).flatMap Verdict.counters)) :
    Balanced listens s s' log := by
  have hfaults : ∀ k : FaultKind, s'.metrics.value (Verdict.faultCounter k) =
      s.metrics.value (Verdict.faultCounter k) + (reports (log.map Prod.snd)).countP fun r => r.kind = k := by
    intro k
    rw [htold.value_eq _ (by simp [Verdict.faultCounter, byteCounter]), Stream.count_faultCounter]
  refine ⟨hresolved, Stream.countP_resolved hresolved, Stream.backends_eq _, htold.faults_eq, fun tag => ?_, hfaults, ?_⟩
  · rw [htold.value_eq _ (by simp [byteCounter]), Stream.count_messageCounter]
  · rw [Stream.faultTotal_eq hfaults, Stream.length_reports]

end ComponentStream.Session
