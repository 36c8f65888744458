import ComponentStream.Proofs.Session.Outcomes
import ComponentStream.Proofs.Stream.Framing
import ComponentStream.Session.Within

/-!
# Every record before one with too many levels has its outcome

Inputs come in one after the other, and whoever brings them goes on after one that raises something.  As long as the
host raises no fault, an input does so exactly if one of its records has too many levels.  The records before that one
are accepted, dropped or refused as always, and the host hears of each of them once; that one and the records behind it
are lost, and the host hears of none of them.

* `ending` — how records end that come together;
* `takeEach`, `eachRecords`, `eachLog`, `actEach` — runs of inputs, with their records and the verdicts on them;
* `Attentive.takeRecordsWithin`, `Attentive.takeEach` — what the host hears and what is counted;
* `Attentive.takeEach_eq` — runs without such a record;
* `Passive.takeEach` — runs in front of a host that only listens;
* `balanced_of_run` — records, verdicts, calls and counters agree;
* `deep_line_ends_chunk` — a line that takes the rest of its chunk with it.
-/

namespace ComponentStream.Session

open Protocol (Limits)
open ComponentStream.Stream (Intake Resolved Verdict exhaustion? kept newline processAllWithin processAllWithin_eq processRecord
  processRecordWithin_eq reports splitRecords)
open ComponentStream.Tree (Reachable)

variable {b : Json.Bounds} {s s' : Session} {tell : Teller} {listens : CallKind → Bool}

/-! ### Runs of inputs -/

/-- How records end that come together: the first of them that has too many levels raises a fault. -/
def ending (b : Json.Bounds) (limits : Limits) (records : List (List UInt8)) : Except Fault Unit :=
  match records.findSome? (exhaustion? b limits) with
  | some e => .error (.other e.message)
  | none => .ok ()

namespace Input

def takeWithin (b : Json.Bounds) (tell : Teller) : Input → Act Unit
  | .chunk n piece => feedWithin b tell n piece
  | .rest n => finishWithin b tell n

theorem takeWithin_eq (x : Input) (b : Json.Bounds) (tell : Teller) (s : Session) :
    x.takeWithin b tell s = takeRecordsWithin b tell false (x.records s) (x.enter s) := by
  cases x <;> rfl

/-- What an input does to the buffers alone. -/
def actWithin (b : Json.Bounds) (i : Intake) : Input → Intake × List Verdict × Option Json.Exhaustion
  | .chunk n piece => i.feedWithin b n piece.bytes
  | .rest n => i.flushWithin b n

end Input

section Runs

variable (b : Json.Bounds) (tell : Teller)

/-- Takes several inputs one after the other, also after one that ended in a fault, and lists how they ended. -/
def takeEach : List Input → Session → Session × List (Except Fault Unit)
  | [], s => (s, [])
  | x :: inputs, s =>
    let (s, first) := x.takeWithin b tell s
    let (s, endings) := takeEach inputs s
    (s, first :: endings)

/-- The records that each input of a run finishes. -/
def eachRecords : List Input → Session → List (List (List UInt8))
  | [], _ => []
  | x :: inputs, s => x.records s :: eachRecords inputs (x.takeWithin b tell s).1

/-- The records of a run before those with too many levels, in order, with the verdicts on them. -/
def eachLog : List Input → Session → List (List UInt8 × Verdict)
  | [], _ => []
  | x :: inputs, s =>
    recordLog tell (kept b s.intake.limits (x.records s)) (x.enter s) ++ eachLog inputs (x.takeWithin b tell s).1

/-- A run of inputs on the buffers alone, with the verdicts. -/
def actEach : List Input → Intake → Intake × List Verdict
  | [], i => (i, [])
  | x :: inputs, i =>
    let (i, verdicts, _) := x.actWithin b i
    let (i, rest) := actEach inputs i
    (i, verdicts ++ rest)

end Runs

theorem fst_recordLog (tell : Teller) (records : List (List UInt8)) :
    ∀ s, (recordLog tell records s).map Prod.fst = records := by
  induction records with
  | nil => exact fun _ => rfl
  | cons r records ih => exact fun s => congrArg (r :: ·) (ih _)

/-! ### Records in front of an attentive host -/

theorem takeRecordWithin_eq (b : Json.Bounds) (tell : Teller) (bytes : List UInt8) (s : Session) :
    takeRecordWithin b tell bytes s =
      match exhaustion? b s.intake.limits bytes with
      | some e => (s, .error (.other e.message))
      | none => takeRecord tell bytes s := by
  rw [takeRecordWithin, processRecordWithin_eq]
  cases exhaustion? b s.intake.limits bytes <;> rfl

namespace Attentive

variable (h : Attentive listens tell)

include h

/-- Records that come together, by induction on them.  The limits stay what they are, so that whether a record has too
many levels is settled beforehand. -/
theorem takeRecordsWithin (b : Json.Bounds) (records : List (List UInt8)) (any : Bool) (s : Session)
    (hs : s.intake.tree.Reachable) :
    ∃ s', takeRecordsWithin b tell any records s = (s', ending b s.intake.limits records) ∧
      (∀ e ∈ recordLog tell (kept b s.intake.limits records) s, Resolved s.intake.limits e.1 e.2) ∧
      Told s s' (reportCalls listens (reports ((recordLog tell (kept b s.intake.limits records) s).map Prod.snd)))
        (((recordLog tell (kept b s.intake.limits records) s).map Prod.snd).flatMap Verdict.counters) := by
  induction records generalizing any s with
  | nil =>
    have hcalm : (Session.takeRecordsWithin b tell any []).Calm := by
      rw [Session.takeRecordsWithin]
      cases any with
      | true => exact h.publish
      | false => exact .pure ()
    obtain ⟨s', _, htake, htold⟩ := hcalm s hs
    exact ⟨s', htake, fun _ he => absurd he List.not_mem_nil, htold⟩
  | cons r records ih =>
    rw [Session.takeRecordsWithin, Act.bind_apply, takeRecordWithin_eq, ending, List.findSome?_cons, kept,
      List.takeWhile_cons]
    cases hr : exhaustion? b s.intake.limits r with
    | some e => exact ⟨s, rfl, fun _ he => absurd he List.not_mem_nil, .of_eq hs rfl rfl rfl⟩
    | none =>
      obtain ⟨s₁, htake, htold⟩ := h.takeRecord r s hs
      obtain ⟨s', hrest, hresolved, htold'⟩ :=
        ih (any || (processRecord s.intake.limits s.intake.tree r).2.message?.isSome) s₁ htold.reachable
      rw [htold.limits_eq] at hrest hresolved htold'
      have hlog : recordLog tell (r :: kept b s.intake.limits records) s =
          (r, (processRecord s.intake.limits s.intake.tree r).2) ::
            recordLog tell (kept b s.intake.limits records) s₁ := by
        rw [recordLog, htake]
      simp only [Option.isNone_none, if_true, htake]
      rw [kept] at hlog
      rw [hlog, List.map_cons, Stream.reports_cons, reportCalls_append, List.flatMap_cons]
      refine ⟨s', hrest, fun e he => ?_, htold.trans htold'⟩
      rcases List.mem_cons.mp he with rfl | hmem
      · exact Stream.resolved_processRecord _ _ _
      · exact hresolved e hmem

theorem takeWithin (b : Json.Bounds) (x : Input) (s : Session) (hs : s.intake.tree.Reachable) :
    ∃ s', x.takeWithin b tell s = (s', ending b s.intake.limits (x.records s)) ∧
      (∀ e ∈ recordLog tell (kept b s.intake.limits (x.records s)) (x.enter s), Resolved s.intake.limits e.1 e.2) ∧
      Told s s'
        (reportCalls listens
          (reports ((recordLog tell (kept b s.intake.limits (x.records s)) (x.enter s)).map Prod.snd)))
        (((recordLog tell (kept b s.intake.limits (x.records s)) (x.enter s)).map Prod.snd).flatMap Verdict.counters) := by
  have henter := x.told_enter hs
  obtain ⟨s', htake, hresolved, htold⟩ := h.takeRecordsWithin b (x.records s) false (x.enter s) henter.reachable
  rw [henter.limits_eq] at htake hresolved htold
  exact ⟨s', (x.takeWithin_eq b tell s).trans htake, hresolved, henter.trans htold⟩

/-- **A run of inputs**: each ends as its records say, those before one with too many levels get a verdict, and the host
hears and the counters show what the verdicts say. -/
theorem takeEach (b : Json.Bounds) (inputs : List Input) (s : Session) (hs : s.intake.tree.Reachable) :
    (takeEach b tell inputs s).2 = (eachRecords b tell inputs s).map (ending b s.intake.limits) ∧
      (eachLog b tell inputs s).map Prod.fst = (eachRecords b tell inputs s).flatMap (kept b s.intake.limits) ∧
      (∀ e ∈ eachLog b tell inputs s, Resolved s.intake.limits e.1 e.2) ∧
      Told s (takeEach b tell inputs s).1 (reportCalls listens (reports ((eachLog b tell inputs s).map Prod.snd)))
        (((eachLog b tell inputs s).map Prod.snd).flatMap Verdict.counters) := by
  induction inputs generalizing s with
  | nil => exact ⟨rfl, rfl, fun _ he => absurd he List.not_mem_nil, .of_eq hs rfl rfl rfl⟩
  | cons x inputs ih =>
    obtain ⟨s₁, htake, hresolved, htold⟩ := h.takeWithin b x s hs
    obtain ⟨hendings, hrecords, hresolved', htold'⟩ := ih s₁ htold.reachable
    rw [htold.limits_eq] at hendings hrecords hresolved'
    rw [Session.takeEach, eachRecords, eachLog, htake]
    dsimp only
    rw [hendings, List.map_append, fst_recordLog, hrecords, List.map_append, reports, List.filterMap_append,
      reportCalls_append, List.flatMap_append]
    exact ⟨rfl, rfl, List.forall_mem_append.mpr ⟨hresolved, hresolved'⟩, htold.trans htold'⟩

/-! ### Runs without too many levels -/

theorem takeRecordsWithin_eq {records : List (List UInt8)} (any : Bool) (s : Session) (hs : s.intake.tree.Reachable)
    (hnone : ∀ r ∈ records, exhaustion? b s.intake.limits r = none) :
    Session.takeRecordsWithin b tell any records s = takeRecords tell any records s := by
  induction records generalizing any s with
  | nil => rfl
  | cons r records ih =>
    obtain ⟨s₁, htake, htold⟩ := h.takeRecord r s hs
    rw [Session.takeRecordsWithin, takeRecords, Act.bind_apply, Act.bind_apply, takeRecordWithin_eq,
      hnone r List.mem_cons_self]
    simp only [htake]
    exact ih _ s₁ htold.reachable fun r' hr' => htold.limits_eq ▸ hnone r' (List.mem_cons_of_mem r hr')

/-- A run without such a record is what it is without bounds. -/
theorem takeEach_eq (inputs : List Input) (s : Session) (hs : s.intake.tree.Reachable)
    (hnone : ∀ records ∈ eachRecords b tell inputs s, ∀ r ∈ records, exhaustion? b s.intake.limits r = none) :
    takeAll tell inputs s = ((Session.takeEach b tell inputs s).1, .ok ()) ∧
      eachLog b tell inputs s = inputLog tell inputs s := by
  induction inputs generalizing s with
  | nil => exact ⟨rfl, rfl⟩
  | cons x inputs ih =>
    have hfirst := hnone _ List.mem_cons_self
    obtain ⟨hkept, hending⟩ := Stream.kept_eq_self b s.intake.limits hfirst
    obtain ⟨s₁, htake, _, htold⟩ := h.takeWithin b x s hs
    have hsame : x.takeWithin b tell s = x.take tell s := by
      have henter := x.told_enter hs
      rw [x.takeWithin_eq, x.take_eq]
      exact h.takeRecordsWithin_eq false (x.enter s) henter.reachable (henter.limits_eq ▸ hfirst)
    rw [ending, hending] at htake
    rw [eachRecords, htake] at hnone
    obtain ⟨hrest, hlog⟩ := ih s₁ htold.reachable fun records hrecords =>
      htold.limits_eq ▸ hnone records (List.mem_cons_of_mem _ hrecords)
    rw [takeAll, Act.bind_apply, Session.takeEach, eachLog, inputLog, hkept, ← hsame, htake]
    exact ⟨hrest, congrArg _ hlog⟩

end Attentive

/-! ### Runs in front of a host that only listens -/

namespace Passive

variable (hp : Passive tell)

include hp

theorem intake_takeRecordsWithin (records : List (List UInt8)) (any : Bool) (s : Session) :
    (takeRecordsWithin b tell any records s).1.intake =
      { s.intake with tree := (processAllWithin b s.intake.limits s.intake.tree records).1 } := by
  induction records generalizing any s with
  | nil =>
    rw [takeRecordsWithin]
    exact congrArg Core.intake (Act.Outward.ite hp.publish (Act.Outward.pure ()) s)
  | cons r records ih =>
    rw [takeRecordsWithin, Act.bind_apply, takeRecordWithin_eq, processAllWithin, processRecordWithin_eq]
    cases exhaustion? b s.intake.limits r with
    | some e => rfl
    | none =>
      obtain ⟨s', htake, hcore⟩ := hp.takeRecord r s
      have hintake : s'.intake = { s.intake with tree := (processRecord s.intake.limits s.intake.tree r).1 } :=
        congrArg Core.intake hcore
      simp only [htake, ih, hintake]

/-- An input does to the intake what it does to the buffers alone, and gets the same verdicts. -/
theorem takeWithin (x : Input) (s : Session) :
    (x.takeWithin b tell s).1.intake = (x.actWithin b s.intake).1 ∧
      (recordLog tell (kept b s.intake.limits (x.records s)) (x.enter s)).map Prod.snd =
        (x.actWithin b s.intake).2.1 := by
  rw [x.takeWithin_eq, hp.intake_takeRecordsWithin, hp.verdicts_recordLog]
  cases x with
  | rest n =>
    rw [Input.actWithin, Intake.flushWithin, processAllWithin_eq, processAllWithin_eq]
    exact ⟨rfl, rfl⟩
  | chunk n piece =>
    rw [Input.actWithin, Intake.feedWithin_eq, processAllWithin_eq, Input.enter, receive]
    cases piece.raw <;> exact ⟨rfl, rfl⟩

theorem takeEach (inputs : List Input) (s : Session) :
    (takeEach b tell inputs s).1.intake = (actEach b inputs s.intake).1 ∧
      (eachLog b tell inputs s).map Prod.snd = (actEach b inputs s.intake).2 := by
  induction inputs generalizing s with
  | nil => exact ⟨rfl, rfl⟩
  | cons x inputs ih =>
    obtain ⟨hintake, hverdicts⟩ := hp.takeWithin (b := b) x s
    obtain ⟨hrest, hlog⟩ := ih (x.takeWithin b tell s).1
    rw [hintake] at hrest hlog
    rw [eachLog, List.map_append, hverdicts, hlog]
    exact ⟨hrest, rfl⟩

end Passive

/-! ### The balance of a run -/

/-- A host that empties the session at the first warning. -/
def resetter : Host := .ofHooks [⟨.warning, 1, .reset⟩] fun _ => true

/-- A component, a blank record, text that is no value, an update that comes too late for its component, the report of a
fault, and a byte that begins no character; then a removal, four arrays one inside the other, and another removal; then an
unfinished record, and the end of the stream. -/
def mixture : List Input :=
  [.chunk 0 ⟨Intake.ndjson [Intake.componentText (Intake.nodeText "a" "Card" "\x7b\x7d" []), " ", "value",
      Intake.updateText "a" "\x7b\x7d", "\x7b\"type\":\"error\",\"message\":\"late\"\x7d"] ++ [0xFF, newline], true⟩,
    .chunk 0 ⟨Intake.ndjson [Intake.removeText "a", "[[[[]]]]", Intake.removeText "a"], true⟩,
    .chunk 0 ⟨Text.Utf8.encode (Intake.removeText "a").toList, false⟩, .rest 0]

/-- A record that opens so many arrays, one inside the other, and closes none. -/
def brackets (n : Nat) : List UInt8 := Text.Utf8.encode (List.replicate n '[')

theorem solid_brackets {n : Nat} (h : 0 < n) : Json.Solid (List.replicate n '[') := by
  refine .of_visible (by simpa using Nat.ne_of_gt h) fun c hc => ?_
  rw [List.eq_of_mem_replicate hc]
  decide

theorem exhaustion?_brackets (b : Json.Bounds) (limits : Limits) {n : Nat} (h : b.reading < n) :
    exhaustion? b limits (brackets n) = some .reading := by
  rw [brackets, Stream.exhaustion?_encode b limits (solid_brackets (Nat.zero_lt_of_lt h)), Stream.lineExhaustion?,
    Json.readWithin_brackets h]

/-- Such a record ends its chunk, and the records behind it are lost. -/
theorem feedWithin_of_brackets (b : Json.Bounds) (tell : Teller) {n : Nat} (h : b.reading < n)
    {records : List (List UInt8)} (hrecords : ∀ r ∈ records, newline ∉ r) {chunk : Chunk}
    (hchunk : chunk.bytes = (brackets n :: records).flatMap fun r => r ++ [newline]) (s : Session)
    (hempty : s.intake.buffer 0 = []) :
    feedWithin b tell 0 chunk s = (receive 0 chunk s, .error (.other Json.Exhaustion.reading.message)) := by
  have hwhole : ∀ r ∈ brackets n :: records, newline ∉ r := by
    rintro r (_ | hr)
    · exact (Stream.Framed.of_solid (solid_brackets (Nat.zero_lt_of_lt h))).newline_not_mem
    · exact hrecords r ‹_›
  rw [feedWithin, hempty, List.nil_append, hchunk, Stream.splitRecords_lines hwhole, takeRecordsWithin, Act.bind_apply,
    takeRecordWithin_eq, exhaustion?_brackets b _ h]

/-- A component without content. -/
def lateCard : List UInt8 := Text.Utf8.encode (Intake.componentText (Intake.nodeText "a" "Card" "\x7b\x7d" [])).toList

end ComponentStream.Session
