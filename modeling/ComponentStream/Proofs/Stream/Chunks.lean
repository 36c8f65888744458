import ComponentStream.Proofs.Stream.Run

/-!
# Chunks do not matter

Where a stream is cut into chunks leaves no trace: neither in the tree, nor in what is told of it, nor in the unfinished
record that waits.  The end of a stream is worth a newline.

* `splitRecords_append` — the records of two byte strings in a row: what the first leaves unfinished goes before the
  second;
* `processAll_append` — records applied in two goes;
* `Intake.Waiting` — no buffer holds a newline, which is so in every run;
* `Intake.feedAll_eq_feed`, `Intake.flush_eq_feed_newline` — chunks one by one and all at once, and the end of them;
* `Intake.drain_eq_feed` — a whole stream.
-/

namespace ComponentStream.Stream

open Protocol (Limits)

/-! ### Splitting in two goes -/

theorem splitRecords_cons_newline (bs : List UInt8) :
    splitRecords (newline :: bs) = ([] :: (splitRecords bs).1, (splitRecords bs).2) := rfl

theorem splitRecords_cons_of_ne {b : UInt8} (hb : ¬ b = newline) (bs : List UInt8) :
    splitRecords (b :: bs) =
      match (splitRecords bs).1 with
      | [] => ([], b :: (splitRecords bs).2)
      | r :: records => ((b :: r) :: records, (splitRecords bs).2) :=
  if_neg hb

/-- What the first of two byte strings leaves unfinished goes before the second. -/
theorem splitRecords_append (as bs : List UInt8) :
    splitRecords (as ++ bs) =
      ((splitRecords as).1 ++ (splitRecords ((splitRecords as).2 ++ bs)).1,
        (splitRecords ((splitRecords as).2 ++ bs)).2) := by
  induction as with
  | nil => rfl
  | cons a as ih =>
    rw [List.cons_append]
    by_cases ha : a = newline
    · subst ha
      rw [splitRecords_cons_newline, ih]
      rfl
    · rw [splitRecords_cons_of_ne ha, ih, splitRecords_cons_of_ne ha]
      cases (splitRecords as).1 with
      | nil => exact (splitRecords_cons_of_ne ha _).symm
      | cons r records => rfl

/-- The unfinished rest holds no newline. -/
theorem newline_not_mem_rest (bs : List UInt8) : newline ∉ (splitRecords bs).2 := by
  induction bs with
  | nil => exact List.not_mem_nil
  | cons b bs ih =>
    by_cases hb : b = newline
    · subst hb
      exact ih
    · rw [splitRecords_cons_of_ne hb]
      cases (splitRecords bs).1 with
      | nil =>
        intro hmem
        rcases List.mem_cons.mp hmem with heq | hrest
        · exact hb heq.symm
        · exact ih hrest
      | cons r records => exact ih

/-- Bytes without a newline are an unfinished record. -/
theorem splitRecords_of_not_mem {bs : List UInt8} (h : newline ∉ bs) : splitRecords bs = ([], bs) := by
  induction bs with
  | nil => rfl
  | cons b bs ih =>
    have hb : ¬ b = newline := fun heq => h (heq ▸ List.mem_cons_self)
    rw [splitRecords_cons_of_ne hb, ih fun hmem => h (List.mem_cons_of_mem _ hmem)]

/-- A newline finishes what waits. -/
theorem splitRecords_append_newline {bs : List UInt8} (h : newline ∉ bs) :
    splitRecords (bs ++ [newline]) = ([bs], []) := by
  induction bs with
  | nil => rfl
  | cons b bs ih =>
    have hb : ¬ b = newline := fun heq => h (heq ▸ List.mem_cons_self)
    rw [List.cons_append, splitRecords_cons_of_ne hb, ih fun hmem => h (List.mem_cons_of_mem _ hmem)]

theorem processAll_cons (limits : Limits) (t : Tree) (r : List UInt8) (rs : List (List UInt8)) :
    processAll limits t (r :: rs) =
      ((processAll limits (processRecord limits t r).1 rs).1,
        (processRecord limits t r).2 :: (processAll limits (processRecord limits t r).1 rs).2) := rfl

/-- Records applied in two goes. -/
theorem processAll_append (limits : Limits) (t : Tree) (rs ss : List (List UInt8)) :
    processAll limits t (rs ++ ss) =
      ((processAll limits (processAll limits t rs).1 ss).1,
        (processAll limits t rs).2 ++ (processAll limits (processAll limits t rs).1 ss).2) := by
  induction rs generalizing t with
  | nil => rfl
  | cons r rs ih =>
    rw [List.cons_append, processAll_cons, ih]
    rfl

namespace Intake

variable {i : Intake} {n : Nat}

/-! ### What waits in the buffers -/

/-- No buffer holds a finished record. -/
def Waiting (i : Intake) : Prop := ∀ b ∈ i.buffers, newline ∉ b

theorem Waiting.ofTree (limits : Limits) (t : Tree) : (ofTree limits t).Waiting := by
  intro b hb
  rw [List.mem_singleton.mp hb]
  exact List.not_mem_nil

/-- A buffer that is replaced by one without a newline. -/
theorem Waiting.set (h : i.Waiting) (t : Tree) {b : List UInt8} (hb : newline ∉ b) :
    ({ i with tree := t, buffers := i.buffers.set n b } : Intake).Waiting := by
  intro c hc
  rcases List.mem_or_eq_of_mem_set hc with hold | hnew
  · exact h c hold
  · rw [hnew]
    exact hb

theorem Waiting.act (h : i.Waiting) (op : Op) : (i.act op).Waiting := by
  cases op with
  | feed n chunk => exact h.set _ (newline_not_mem_rest _)
  | flush n => exact h.set _ List.not_mem_nil
  | apply m => exact h
  | reset n => exact h.set _ List.not_mem_nil
  | fork =>
    intro b hb
    rcases List.mem_append.mp hb with hold | hnew
    · exact h b hold
    · rw [List.mem_singleton.mp hnew]
      exact List.not_mem_nil

theorem Waiting.actAll (h : i.Waiting) (ops : List Op) : (i.actAll ops).Waiting := by
  induction ops generalizing i with
  | nil => exact h
  | cons op ops ih => exact ih (h.act op)

theorem Waiting.buffer (h : i.Waiting) (n : Nat) : newline ∉ i.buffer n := by
  rw [Intake.buffer, List.getD_eq_getElem?_getD]
  cases hb : i.buffers[n]? with
  | none => exact List.not_mem_nil
  | some b => exact h b (List.mem_of_getElem? hb)

/-! ### Feeding -/

theorem buffer_set (hn : n < i.buffers.length) (t : Tree) (b : List UInt8) :
    ({ i with tree := t, buffers := i.buffers.set n b } : Intake).buffer n = b := by
  rw [Intake.buffer, List.getD_eq_getElem?_getD, List.getElem?_set_self hn]
  rfl

theorem buffer_set_of_ne {m : Nat} (hm : m ≠ n) (t : Tree) (b : List UInt8) :
    ({ i with tree := t, buffers := i.buffers.set n b } : Intake).buffer m = i.buffer m := by
  rw [Intake.buffer, Intake.buffer, List.getD_eq_getElem?_getD, List.getD_eq_getElem?_getD,
    List.getElem?_set_ne hm.symm]

theorem buffer_fork_of_lt (hn : n < i.buffers.length) : i.fork.buffer n = i.buffer n := by
  rw [Intake.buffer, Intake.buffer, List.getD_eq_getElem?_getD, List.getD_eq_getElem?_getD, fork,
    List.getElem?_append_left hn]

theorem buffer_fork_new (i : Intake) : i.fork.buffer i.buffers.length = [] := by
  rw [Intake.buffer, List.getD_eq_getElem?_getD, fork, List.getElem?_concat_length]
  rfl

theorem set_buffer (i : Intake) (n : Nat) : i.buffers.set n (i.buffer n) = i.buffers := by
  by_cases hn : n < i.buffers.length
  · rw [Intake.buffer, List.getD_eq_getElem?_getD, List.getElem?_eq_getElem hn]
    exact List.set_getElem_self hn
  · exact List.set_eq_of_length_le (by omega)

theorem length_buffers_feed (i : Intake) (n : Nat) (chunk : List UInt8) :
    (i.feed n chunk).1.buffers.length = i.buffers.length := List.length_set

theorem length_buffers_reset (i : Intake) (n : Nat) : (i.reset n).buffers.length = i.buffers.length := List.length_set

theorem feed_eq (i : Intake) (n : Nat) (chunk : List UInt8) :
    i.feed n chunk =
      ({ i with
          tree := (processAll i.limits i.tree (splitRecords (i.buffer n ++ chunk)).1).1
          buffers := i.buffers.set n (splitRecords (i.buffer n ++ chunk)).2 },
        (processAll i.limits i.tree (splitRecords (i.buffer n ++ chunk)).1).2) := rfl

/-- No bytes change nothing. -/
theorem feed_nil (h : newline ∉ i.buffer n) : i.feed n [] = (i, []) := by
  rw [feed_eq, List.append_nil, splitRecords_of_not_mem h, set_buffer]
  rfl

/-- Two chunks in a row are one. -/
theorem feed_append (hn : n < i.buffers.length) (a b : List UInt8) :
    i.feed n (a ++ b) =
      (((i.feed n a).1.feed n b).1, (i.feed n a).2 ++ ((i.feed n a).1.feed n b).2) := by
  have hbuffer : (i.feed n a).1.buffer n = (splitRecords (i.buffer n ++ a)).2 := buffer_set hn _ _
  rw [feed_eq, ← List.append_assoc, splitRecords_append, processAll_append, feed_eq (i.feed n a).1, hbuffer]
  rw [feed_eq i n a, List.set_set]

theorem feedAll_cons (i : Intake) (n : Nat) (chunk : List UInt8) (chunks : List (List UInt8)) :
    i.feedAll n (chunk :: chunks) =
      (((i.feed n chunk).1.feedAll n chunks).1, (i.feed n chunk).2 ++ ((i.feed n chunk).1.feedAll n chunks).2) := rfl

/-- **Chunks one by one are all the bytes at once**: the same tree, the same buffers and the same verdicts. -/
theorem feedAll_eq_feed_of_not_mem (h : newline ∉ i.buffer n) (hn : n < i.buffers.length) (chunks : List (List UInt8)) :
    i.feedAll n chunks = i.feed n chunks.flatten := by
  induction chunks generalizing i with
  | nil => exact (feed_nil h).symm
  | cons chunk chunks ih =>
    have hbuffer : newline ∉ (i.feed n chunk).1.buffer n := by
      rw [feed_eq, buffer_set hn]
      exact newline_not_mem_rest _
    have hrest : (i.feed n chunk).1.feedAll n chunks = (i.feed n chunk).1.feed n chunks.flatten :=
      ih hbuffer (Nat.lt_of_lt_of_eq hn (length_buffers_feed i n chunk).symm)
    rw [feedAll_cons, hrest, List.flatten_cons, feed_append hn]

theorem feedAll_eq_feed (h : i.Waiting) (hn : n < i.buffers.length) (chunks : List (List UInt8)) :
    i.feedAll n chunks = i.feed n chunks.flatten :=
  feedAll_eq_feed_of_not_mem (h.buffer n) hn chunks

/-- **The end of a stream is worth a newline.** -/
theorem flush_eq_feed_newline (h : i.Waiting) (n : Nat) : i.flush n = i.feed n [newline] := by
  rw [feed_eq, splitRecords_append_newline (h.buffer n)]
  rfl

/-- A whole stream is its bytes and a newline. -/
theorem drain_eq_feed (h : i.Waiting) (hn : n < i.buffers.length) (chunks : List (List UInt8)) :
    i.drain n chunks = i.feed n (chunks.flatten ++ [newline]) := by
  have hflush : (i.feed n chunks.flatten).1.flush n = (i.feed n chunks.flatten).1.feed n [newline] :=
    flush_eq_feed_newline (h.act (.feed n chunks.flatten)) n
  rw [feed_append hn, ← hflush, ← feedAll_eq_feed h hn]
  rfl

/-- What a document makes of a tree is what a stream of its bytes makes of it, however it is cut. -/
theorem drain_tree_eq_documentTree (limits : Limits) (t : Tree) {chunks : List (List UInt8)} {points : List Nat}
    (hbytes : chunks.flatten = Text.Utf8.encodePoints points) :
    ((ofTree limits t).drain 0 chunks).1.tree = documentTree limits t points := by
  have hline : Text.Utf8.encodePoints (points ++ [newline.toNat]) = chunks.flatten ++ [newline] := by
    rw [Text.Utf8.encodePoints, List.flatMap_append, hbytes]
    rfl
  rw [drain_eq_feed (Waiting.ofTree limits t) Nat.zero_lt_one, documentTree, hline]

/-- **Cutting a stream into chunks leaves no trace**, in any state that a run leads to and in any of its buffers: chunks
one by one have the tree, the waiting bytes and the verdicts of all bytes at once, and the end of a stream those of a
newline.  A document therefore makes of a tree what any stream of its bytes does. -/
theorem chunking_invariant (limits : Limits) (t : Tree) (ops : List Op) (n : Nat)
    (hn : n < ((ofTree limits t).actAll ops).buffers.length) (chunks : List (List UInt8)) :
    ((ofTree limits t).actAll ops).feedAll n chunks = ((ofTree limits t).actAll ops).feed n chunks.flatten ∧
      (((ofTree limits t).actAll ops).feedAll n chunks).1.flush n =
        (((ofTree limits t).actAll ops).feedAll n chunks).1.feed n [newline] ∧
      ((ofTree limits t).actAll ops).drain n chunks = ((ofTree limits t).actAll ops).feedAll n (chunks ++ [[newline]]) ∧
      ∀ points, chunks.flatten = Text.Utf8.encodePoints points →
        ((ofTree limits t).drain 0 chunks).1.tree = documentTree limits t points := by
  have h : ((ofTree limits t).actAll ops).Waiting := (Waiting.ofTree limits t).actAll ops
  have hall := feedAll_eq_feed h hn
  refine ⟨hall chunks, ?_, ?_, fun points hbytes => drain_tree_eq_documentTree limits t hbytes⟩
  · rw [hall chunks]
    exact flush_eq_feed_newline (h.act (.feed n chunks.flatten)) n
  · rw [drain_eq_feed h hn, hall, List.flatten_append, List.flatten_singleton]

/-- A second buffer, in which half a character waits, and a cut between carriage return and newline. -/
theorem chunking_invariant_within_character :
    1 < ((ofTree Limits.standard .empty).actAll [.fork, .feed 1 [0xC3]]).buffers.length ∧
      ((ofTree Limits.standard .empty).actAll [.fork, .feed 1 [0xC3]]).feedAll 1 [[0xA9, 0x0D], [], [0x0A]] =
        ((ofTree Limits.standard .empty).actAll [.fork, .feed 1 [0xC3]]).feed 1 [0xA9, 0x0D, 0x0A] := by
  have hn : 1 < ((ofTree Limits.standard .empty).actAll [.fork, .feed 1 [0xC3]]).buffers.length := by decide
  exact ⟨hn, (chunking_invariant Limits.standard .empty [.fork, .feed 1 [0xC3]] 1 hn [[0xA9, 0x0D], [], [0x0A]]).1⟩

end Intake

end ComponentStream.Stream
