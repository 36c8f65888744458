import ComponentStream.Proofs.Stream.Run

/-!
# Traces of runs

A run over one tree is a series of records and messages, each of which meets the tree that the one before it left.  Its
*trace* keeps all of them, with the trees between them and the verdicts.

* `Event` — one record or message: the tree before it, the tree after it, the verdict;
* `recordEvents`, `Intake.events`, `Intake.trace` — the events of records, of an operation, of a run;
* `Chained` — events of which each begins where the last one ended;
* `Intake.verdicts`, `Intake.verdictsAll` — the verdicts that operations give;
* `Intake.verdicts_trace`, `Intake.chained_trace` — a trace tells what a run did.
-/

namespace ComponentStream.Stream

open Protocol (Limits Message)

/-- A record or a message of a run. -/
structure Event where
  before : Tree
  after : Tree
  verdict : Verdict

/-- Every event begins with the tree that the one before it left. -/
inductive Chained : Tree → List Event → Tree → Prop where
  | nil (t : Tree) : Chained t [] t
  | cons (e : Event) {es : List Event} {t : Tree} : Chained e.after es t → Chained e.before (e :: es) t

theorem Chained.append {t u w : Tree} {es fs : List Event} (h : Chained t es u) (h' : Chained u fs w) :
    Chained t (es ++ fs) w := by
  induction h with
  | nil t => exact h'
  | cons e _ ih => exact .cons e (ih h')

/-! ### Records -/

/-- The events of some records, one after the other. -/
def recordEvents (limits : Limits) : Tree → List (List UInt8) → List Event
  | _, [] => []
  | t, r :: records =>
    ⟨t, (processRecord limits t r).1, (processRecord limits t r).2⟩ ::
      recordEvents limits (processRecord limits t r).1 records

variable {limits : Limits}

theorem verdicts_recordEvents (t : Tree) (records : List (List UInt8)) :
    (recordEvents limits t records).map Event.verdict = (processAll limits t records).2 := by
  induction records generalizing t with
  | nil => rfl
  | cons r records ih =>
    rw [recordEvents, List.map_cons, ih]
    rfl

theorem chained_recordEvents (t : Tree) (records : List (List UInt8)) :
    Chained t (recordEvents limits t records) (processAll limits t records).1 := by
  induction records generalizing t with
  | nil => exact .nil t
  | cons r records ih => exact .cons ⟨t, _, _⟩ (ih _)

theorem event_of_recordEvents {t : Tree} {records : List (List UInt8)} {e : Event}
    (he : e ∈ recordEvents limits t records) :
    ∃ r ∈ records, processRecord limits e.before r = (e.after, e.verdict) := by
  induction records generalizing t with
  | nil => exact absurd he List.not_mem_nil
  | cons r records ih =>
    rcases List.mem_cons.mp he with rfl | hrest
    · exact ⟨r, List.mem_cons_self, rfl⟩
    · obtain ⟨r', hr', heq⟩ := ih hrest
      exact ⟨r', List.mem_cons_of_mem _ hr', heq⟩

/-! ### Operations -/

namespace Intake

/-- The verdicts that an operation gives. -/
def verdicts (i : Intake) : Op → List Verdict
  | .feed n chunk => (i.feed n chunk).2
  | .flush n => (i.flush n).2
  | .apply m => [(i.apply m).2]
  | .reset _ => []
  | .fork => []

/-- The events of an operation. -/
def events (i : Intake) : Op → List Event
  | .feed n chunk => recordEvents i.limits i.tree (splitRecords (i.buffer n ++ chunk)).1
  | .flush n => recordEvents i.limits i.tree [i.buffer n]
  | .apply m => [⟨i.tree, (i.apply m).1.tree, (i.apply m).2⟩]
  | .reset _ => []
  | .fork => []

/-- The verdicts that the operations of a run give. -/
def verdictsAll (i : Intake) : List Op → List Verdict
  | [] => []
  | op :: ops => i.verdicts op ++ (i.act op).verdictsAll ops

/-- The events of a run. -/
def trace (i : Intake) : List Op → List Event
  | [] => []
  | op :: ops => i.events op ++ (i.act op).trace ops

variable {i : Intake}

/-- The verdicts of a trace are those that the operations give. -/
theorem verdicts_events (i : Intake) (op : Op) : (i.events op).map Event.verdict = i.verdicts op := by
  cases op with
  | feed n chunk => exact verdicts_recordEvents i.tree _
  | flush n => rfl
  | apply m => rfl
  | reset n => rfl
  | fork => rfl

theorem verdicts_trace (i : Intake) (ops : List Op) : (i.trace ops).map Event.verdict = i.verdictsAll ops := by
  induction ops generalizing i with
  | nil => rfl
  | cons op ops ih => rw [trace, List.map_append, verdicts_events, ih, verdictsAll]

theorem chained_events {op : Op} (hop : ∀ n, op ≠ .reset n) : Chained i.tree (i.events op) (i.act op).tree := by
  cases op with
  | feed n chunk => exact chained_recordEvents i.tree _
  | flush n => exact chained_recordEvents i.tree [i.buffer n]
  | apply m => exact .cons ⟨i.tree, _, _⟩ (.nil _)
  | reset n => exact absurd rfl (hop n)
  | fork => exact .nil _

/-- **The trace of a run leads from the first tree to the last one**, as long as nobody empties the tree. -/
theorem chained_trace {ops : List Op} (hops : ∀ n, Op.reset n ∉ ops) :
    Chained i.tree (i.trace ops) (i.actAll ops).tree := by
  induction ops generalizing i with
  | nil => exact .nil _
  | cons op ops ih =>
    have hop : ∀ n, op ≠ .reset n := fun n heq => hops n (heq ▸ List.mem_cons_self)
    exact (chained_events hop).append (ih fun n hn => hops n (List.mem_cons_of_mem _ hn))

theorem trace_append (i : Intake) (ops ops' : List Op) :
    i.trace (ops ++ ops') = i.trace ops ++ (i.actAll ops).trace ops' := by
  induction ops generalizing i with
  | nil => rfl
  | cons op ops ih =>
    rw [List.cons_append, trace, trace, ih, List.append_assoc]
    rfl

/-- An event of a run is what becomes of a record or of a message. -/
theorem event_of_trace {ops : List Op} {e : Event} (he : e ∈ i.trace ops) :
    (∃ r, processRecord i.limits e.before r = (e.after, e.verdict)) ∨
      ∃ m, applyMessage i.limits e.before m = (e.after, e.verdict) := by
  induction ops generalizing i with
  | nil => exact absurd he List.not_mem_nil
  | cons op ops ih =>
    rcases List.mem_append.mp he with hop | hrest
    · cases op with
      | feed n chunk =>
        obtain ⟨r, _, heq⟩ := event_of_recordEvents hop
        exact Or.inl ⟨r, heq⟩
      | flush n =>
        obtain ⟨r, _, heq⟩ := event_of_recordEvents hop
        exact Or.inl ⟨r, heq⟩
      | apply m =>
        rw [List.mem_singleton.mp hop]
        exact Or.inr ⟨m, rfl⟩
      | reset n => exact absurd hop List.not_mem_nil
      | fork => exact absurd hop List.not_mem_nil
    · rw [← limits_act i op]
      exact ih hrest

end Intake

end ComponentStream.Stream
