import Mathlib.Data.List.DropRight
import ComponentStream.Proofs.Stream.Account
import ComponentStream.Proofs.Stream.Trace

/-!
# Several streams over one tree

Streams that feed one tree share the tree and nothing else.  Whatever order their chunks come in, and wherever these are
cut, the tree and all that is told of the records are those of a *single* stream that brings the same records, one after
the other, in the order in which they were completed.

* `Intake.receivedAll` — the bytes that have come to one buffer alone;
* `Intake.completed`, `Intake.serial` — the records that an operation completes, and the single stream of them;
* `Intake.Addressed` — runs that speak of buffers that are there;
* `Intake.Separate`, `Intake.Alongside` — a buffer holds the end of its own bytes, and the tree is that of the single
  stream: each operation keeps both;
* `Intake.serial_of_run` — whole runs.
-/

namespace ComponentStream.Stream

open Protocol (Limits)

/-- What waits is what follows the last newline. -/
theorem rest_eq_rtakeWhile (bs : List UInt8) : (splitRecords bs).2 = bs.rtakeWhile (· ≠ newline) := by
  induction bs using List.reverseRecOn with
  | nil => rfl
  | append_singleton bs b ih =>
    rw [splitRecords_append]
    by_cases hb : b = newline
    · subst hb
      rw [splitRecords_append_newline (newline_not_mem_rest bs), List.rtakeWhile_concat_neg _ _ _ (by simp)]
    · have hmore : newline ∉ (splitRecords bs).2 ++ [b] := by
        intro hmem
        rcases List.mem_append.mp hmem with hold | hnew
        · exact newline_not_mem_rest bs hold
        · exact hb (List.mem_singleton.mp hnew).symm
      rw [splitRecords_of_not_mem hmore, List.rtakeWhile_concat_pos _ _ _ (by simpa using hb), ih]

namespace Intake

variable {i j : Intake} {before : List Op}

/-! ### What comes by one stream -/

/-- What a buffer has received since it was last flushed or emptied, after one more operation. -/
def received (n : Nat) (bytes : List UInt8) : Op → List UInt8
  | .feed k chunk => if k = n then bytes ++ chunk else bytes
  | .flush k => if k = n then [] else bytes
  | .reset k => if k = n then [] else bytes
  | .apply _ => bytes
  | .fork => bytes

/-- The bytes that have come to a buffer alone since it was last flushed or emptied. -/
def receivedAll (n : Nat) (ops : List Op) : List UInt8 := ops.foldl (received n) []

/-- The records that an operation completes, after others: those that have come to its buffer by then and had not come
before; and at the end of a stream, what no newline has completed. -/
def completed (before : List Op) : Op → List (List UInt8)
  | .feed n chunk =>
    (splitRecords (receivedAll n before ++ chunk)).1.drop (splitRecords (receivedAll n before)).1.length
  | .flush n => [(splitRecords (receivedAll n before)).2]
  | _ => []

theorem receivedAll_concat (n : Nat) (before : List Op) (op : Op) :
    receivedAll n (before ++ [op]) = received n (receivedAll n before) op := by
  rw [receivedAll, List.foldl_append]
  rfl

theorem newline_not_mem_of_completed {op : Op} {r : List UInt8} (hr : r ∈ completed before op) : newline ∉ r := by
  cases op with
  | feed n chunk => exact newline_not_mem_of_mem_splitRecords (List.mem_of_mem_drop hr)
  | flush n =>
    rw [List.mem_singleton.mp hr]
    exact newline_not_mem_rest _
  | apply m => exact absurd hr List.not_mem_nil
  | reset n => exact absurd hr List.not_mem_nil
  | fork => exact absurd hr List.not_mem_nil

/-! ### The single stream -/

/-- An operation on one of several streams as operations on a single one: it brings the completed records whole; what
does not come by a stream stays as it is. -/
def serialOp (before : List Op) : Op → List Op
  | .apply m => [.apply m]
  | .reset _ => [.reset 0]
  | op => (completed before op).map fun r => .feed 0 (r ++ [newline])

/-- The operations that follow some others, as operations on a single stream. -/
def serial : List Op → List Op → List Op
  | _, [] => []
  | before, op :: ops => serialOp before op ++ serial (before ++ [op]) ops

/-- What a single stream brings: one whole record, a message from elsewhere, or the order to empty the tree. -/
inductive Whole : Op → Prop where
  | record {r : List UInt8} : newline ∉ r → Whole (.feed 0 (r ++ [newline]))
  | apply (m : Protocol.Message) : Whole (.apply m)
  | reset : Whole (.reset 0)

theorem whole_of_completed {op op' : Op}
    (h : op' ∈ (completed before op).map fun r => Op.feed 0 (r ++ [newline])) : Whole op' := by
  obtain ⟨r, hr, rfl⟩ := List.mem_map.mp h
  exact .record (newline_not_mem_of_completed hr)

theorem whole_of_serial {ops : List Op} {op : Op} (h : op ∈ serial before ops) : Whole op := by
  induction ops generalizing before with
  | nil => exact absurd h List.not_mem_nil
  | cons first ops ih =>
    rcases List.mem_append.mp h with hfirst | hrest
    · cases first with
      | feed n chunk => exact whole_of_completed hfirst
      | flush n => exact whole_of_completed hfirst
      | fork => exact whole_of_completed hfirst
      | apply m =>
        rw [List.mem_singleton.mp hfirst]
        exact .apply m
      | reset n =>
        rw [List.mem_singleton.mp hfirst]
        exact .reset
    · exact ih hrest

/-- Whole records, one after the other, do to an empty buffer what they do to the tree. -/
theorem feed_whole (hj : j.buffers = [[]]) {records : List (List UInt8)} (hrecords : ∀ r ∈ records, newline ∉ r) :
    j.actAll (records.map fun r => .feed 0 (r ++ [newline])) =
        { j with tree := (processAll j.limits j.tree records).1 } ∧
      j.verdictsAll (records.map fun r => .feed 0 (r ++ [newline])) = (processAll j.limits j.tree records).2 := by
  induction records generalizing j with
  | nil => exact ⟨rfl, rfl⟩
  | cons r records ih =>
    have hfeed : j.feed 0 (r ++ [newline]) =
        ({ j with tree := (processRecord j.limits j.tree r).1 }, [(processRecord j.limits j.tree r).2]) := by
      have hbuffer : j.buffer 0 = [] := by rw [buffer, hj, List.getD_cons_zero]
      rw [feed_eq, hbuffer, List.nil_append, splitRecords_append_newline (hrecords r List.mem_cons_self), hj]
      rfl
    have hact : j.act (.feed 0 (r ++ [newline])) = { j with tree := (processRecord j.limits j.tree r).1 } :=
      congrArg Prod.fst hfeed
    obtain ⟨hrest, hverdicts⟩ :=
      ih (j := { j with tree := (processRecord j.limits j.tree r).1 }) hj
        fun r' hr' => hrecords r' (List.mem_cons_of_mem _ hr')
    rw [List.map_cons, processAll_cons]
    refine ⟨?_, ?_⟩
    · show (j.act (.feed 0 (r ++ [newline]))).actAll _ = _
      rw [hact, hrest]
    · rw [verdictsAll, hact, hverdicts, verdicts, hfeed]
      rfl

/-! ### Step by step -/

/-- The buffer that an operation is about. -/
def Op.buffer? : Op → Option Nat
  | .feed n _ => some n
  | .flush n => some n
  | .reset n => some n
  | .apply _ => none
  | .fork => none

/-- Operations on buffers that are there, of which there are `count` at first. -/
def Addressed (count : Nat) : List Op → Prop
  | [] => True
  | .fork :: ops => Addressed (count + 1) ops
  | op :: ops => (∀ n ∈ op.buffer?, n < count) ∧ Addressed count ops

theorem Addressed.head {count : Nat} {op : Op} {ops : List Op} (h : Addressed count (op :: ops)) :
    ∀ n ∈ op.buffer?, n < count := by
  cases op with
  | fork => exact fun n hn => absurd hn (by simp [Op.buffer?])
  | _ => exact h.1

theorem Addressed.tail {op : Op} {ops : List Op} (h : Addressed i.buffers.length (op :: ops)) :
    Addressed (i.act op).buffers.length ops := by
  cases op with
  | fork =>
    have hlength : (i.act .fork).buffers.length = i.buffers.length + 1 := List.length_append
    rw [hlength]
    exact h
  | feed n chunk => exact (length_buffers_feed i n chunk).symm ▸ h.2
  | flush n =>
    have hlength : (i.act (.flush n)).buffers.length = i.buffers.length := List.length_set
    rw [hlength]
    exact h.2
  | reset n => exact (length_buffers_reset i n).symm ▸ h.2
  | apply m => exact h.2

/-- Every buffer holds the unfinished end of its own bytes. -/
def Separate (before : List Op) (i : Intake) : Prop := ∀ n, i.buffer n = (splitRecords (receivedAll n before)).2

/-- A single stream in which nothing waits leads to the same tree. -/
structure Alongside (i j : Intake) : Prop where
  limits : i.limits = j.limits
  tree : i.tree = j.tree
  alone : j.buffers = [[]]

theorem buffer_of_length_le {n : Nat} (hn : i.buffers.length ≤ n) : i.buffer n = [] := by
  rw [buffer, List.getD_eq_getElem?_getD, List.getElem?_eq_none hn]
  rfl

/-- A new buffer is as empty as one that is not there. -/
theorem buffer_fork (i : Intake) (n : Nat) : i.fork.buffer n = i.buffer n := by
  rcases Nat.lt_trichotomy n i.buffers.length with hlt | rfl | hgt
  · exact buffer_fork_of_lt hlt
  · rw [buffer_fork_new, buffer_of_length_le (Nat.le_refl _)]
  · have hfork : i.fork.buffers.length ≤ n := by
      rw [fork, List.length_append]
      exact hgt
    rw [buffer_of_length_le hfork, buffer_of_length_le (Nat.le_of_lt hgt)]

/-- What an operation leaves in the buffer that it is about, and in the others. -/
theorem Separate.set (h : Separate before i) {op : Op} {n : Nat} (hn : n < i.buffers.length) {b : List UInt8}
    (t : Tree) (hb : b = (splitRecords (received n (receivedAll n before) op)).2)
    (hother : ∀ k, k ≠ n → received k (receivedAll k before) op = receivedAll k before) :
    Separate (before ++ [op]) { i with tree := t, buffers := i.buffers.set n b } := by
  intro k
  rw [receivedAll_concat]
  by_cases hk : k = n
  · subst hk
    rw [buffer_set hn, hb]
  · rw [buffer_set_of_ne hk, hother k hk]
    exact h k

theorem Separate.act (h : Separate before i) {op : Op} (hop : ∀ n ∈ op.buffer?, n < i.buffers.length) :
    Separate (before ++ [op]) (i.act op) := by
  cases op with
  | feed n chunk =>
    refine h.set (hop n rfl) _ ?_ fun k hk => if_neg (Ne.symm hk)
    rw [received, if_pos rfl, h n]
    exact (congrArg Prod.snd (splitRecords_append _ chunk)).symm
  | flush n =>
    refine h.set (hop n rfl) _ ?_ fun k hk => if_neg (Ne.symm hk)
    rw [received, if_pos rfl]
    rfl
  | reset n =>
    refine h.set (hop n rfl) _ ?_ fun k hk => if_neg (Ne.symm hk)
    rw [received, if_pos rfl]
    rfl
  | apply m =>
    intro n
    rw [receivedAll_concat]
    exact h n
  | fork =>
    intro n
    rw [receivedAll_concat]
    exact (buffer_fork i n).trans (h n)

/-- An operation applies the records that it completes, and these are told by the bytes of its own stream. -/
theorem Separate.act_eq (h : Separate before i) {op : Op} (hstream : (∀ m, op ≠ .apply m) ∧ ∀ n, op ≠ .reset n) :
    (i.act op).tree = (processAll i.limits i.tree (completed before op)).1 ∧
      i.verdicts op = (processAll i.limits i.tree (completed before op)).2 := by
  cases op with
  | feed n chunk =>
    have hrecords : completed before (.feed n chunk) = (splitRecords (i.buffer n ++ chunk)).1 := by
      rw [completed, splitRecords_append, List.drop_left, h n]
    rw [hrecords]
    exact ⟨rfl, rfl⟩
  | flush n =>
    rw [completed, ← h n]
    exact ⟨rfl, rfl⟩
  | apply m => exact absurd rfl (hstream.1 m)
  | reset n => exact absurd rfl (hstream.2 n)
  | fork => exact ⟨rfl, rfl⟩

/-- **One operation on one of several streams is some operations on the single one.** -/
theorem Alongside.act (hside : Alongside i j) (h : Separate before i) (op : Op) :
    Alongside (i.act op) (j.actAll (serialOp before op)) ∧
      i.verdicts op = j.verdictsAll (serialOp before op) := by
  have hrecords : ((∀ m, op ≠ .apply m) ∧ ∀ n, op ≠ .reset n) →
      Alongside (i.act op) (j.actAll ((completed before op).map fun r => .feed 0 (r ++ [newline]))) ∧
        i.verdicts op = j.verdictsAll ((completed before op).map fun r => .feed 0 (r ++ [newline])) := by
    intro hstream
    obtain ⟨htree, hverdicts⟩ := h.act_eq hstream
    have hwhole : ∀ r ∈ completed before op, newline ∉ r := fun r hr => newline_not_mem_of_completed hr
    obtain ⟨hact, hall⟩ := feed_whole hside.alone hwhole
    rw [hact, hall, ← hside.limits, ← hside.tree, ← htree, ← hverdicts]
    exact ⟨⟨limits_act i op, rfl, hside.alone⟩, rfl⟩
  cases op with
  | feed n chunk => exact hrecords ⟨fun _ => by simp, fun _ => by simp⟩
  | flush n => exact hrecords ⟨fun _ => by simp, fun _ => by simp⟩
  | fork => exact hrecords ⟨fun _ => by simp, fun _ => by simp⟩
  | reset n =>
    refine ⟨⟨hside.limits, rfl, ?_⟩, rfl⟩
    show j.buffers.set 0 [] = [[]]
    rw [hside.alone]
    rfl
  | apply m =>
    have happly : applyMessage i.limits i.tree m = applyMessage j.limits j.tree m := by
      rw [hside.limits, hside.tree]
    refine ⟨⟨hside.limits, congrArg Prod.fst happly, hside.alone⟩, ?_⟩
    exact congrArg (fun r => [r.2]) happly

/-! ### Whole runs -/

theorem verdictsAll_append (i : Intake) (ops ops' : List Op) :
    i.verdictsAll (ops ++ ops') = i.verdictsAll ops ++ (i.actAll ops).verdictsAll ops' := by
  rw [← verdicts_trace, trace_append, List.map_append, verdicts_trace, verdicts_trace]

/-- From a state in which every buffer holds the end of its own bytes, a run is one of the single stream. -/
theorem Alongside.actAll (hside : Alongside i j) (h : Separate before i) {ops : List Op}
    (hops : Addressed i.buffers.length ops) :
    Alongside (i.actAll ops) (j.actAll (serial before ops)) ∧ Separate (before ++ ops) (i.actAll ops) ∧
      i.verdictsAll ops = j.verdictsAll (serial before ops) := by
  induction ops generalizing i j before with
  | nil =>
    rw [List.append_nil]
    exact ⟨hside, h, rfl⟩
  | cons op ops ih =>
    obtain ⟨hstep, hverdicts⟩ := hside.act h op
    obtain ⟨hrest, hseparate, hverdicts'⟩ := ih hstep (h.act hops.head) hops.tail
    rw [List.append_assoc] at hseparate
    refine ⟨?_, hseparate, ?_⟩
    · rw [serial, Intake.actAll, Intake.actAll, List.foldl_append]
      exact hrest
    · rw [serial, verdictsAll_append, verdictsAll, hverdicts, hverdicts']

/-- **Streams over one tree share the tree and nothing else.**  However their chunks are cut and interleaved, the tree
and the verdicts on all records are those of a single stream that brings each record whole when it is completed, by its
newline or by the end of its stream; and what waits in a buffer is what follows the last newline among the bytes that
have come to it alone.  A stream that is reset empties the tree for all, and no other buffer. -/
theorem serial_of_run (limits : Limits) (t : Tree) (ops : List Op) (hops : Addressed 1 ops) :
    ((ofTree limits t).actAll ops).tree = ((ofTree limits t).actAll (serial [] ops)).tree ∧
      (ofTree limits t).verdictsAll ops = (ofTree limits t).verdictsAll (serial [] ops) ∧
      (∀ op ∈ serial [] ops, Whole op) ∧
      (∀ n, ((ofTree limits t).actAll ops).buffer n = (receivedAll n ops).rtakeWhile (· ≠ newline)) ∧
      ∀ n < ((ofTree limits t).actAll ops).buffers.length,
        (((ofTree limits t).actAll ops).reset n).tree = .empty ∧
          (((ofTree limits t).actAll ops).reset n).buffer n = [] ∧
          ∀ k, k ≠ n → (((ofTree limits t).actAll ops).reset n).buffer k = ((ofTree limits t).actAll ops).buffer k := by
  have hside : Alongside (ofTree limits t) (ofTree limits t) := ⟨rfl, rfl, rfl⟩
  have hseparate : Separate [] (ofTree limits t) := by
    intro n
    cases n <;> rfl
  obtain ⟨hrun, hrest, hverdicts⟩ := hside.actAll hseparate hops
  refine ⟨hrun.tree, hverdicts, fun op hop => whole_of_serial hop, fun n => ?_, fun n hn => ⟨rfl, ?_, fun k hk => ?_⟩⟩
  · rw [hrest n, rest_eq_rtakeWhile]
    rfl
  · exact buffer_set hn .empty []
  · exact buffer_set_of_ne hk .empty []

/-- A component and an update of it come by two streams, each in two chunks, the update cut within a character and begun
first; then a removal ends the second stream without a newline. -/
def interleaved : List Op :=
  let component := ndjson [componentText (nodeText "a" "Card" "\x7b\x7d" [])]
  let update := ndjson [updateText "a" "\x7b\"t\":\"é\"\x7d"]
  [.fork, .feed 1 (update.take 41), .feed 0 (component.take 20), .feed 0 (component.drop 20), .feed 1 (update.drop 41),
    .feed 1 (Text.Utf8.encode (removeText "a").toList), .flush 1]

theorem serial_of_run_of_interleaved :
    Addressed 1 interleaved ∧
      ((ofTree Limits.standard .empty).verdictsAll interleaved).map (·.message?.isSome) = [true, true, true] ∧
      (ofTree Limits.standard .empty).verdictsAll interleaved =
        (ofTree Limits.standard .empty).verdictsAll (serial [] interleaved) := by
  have hops : Addressed 1 interleaved := by simp [interleaved, Addressed, Op.buffer?]
  exact ⟨hops, by decide +kernel, (serial_of_run Limits.standard .empty interleaved hops).2.1⟩

end Intake

end ComponentStream.Stream
