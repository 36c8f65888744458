import ComponentStream.Proofs.Stream.Trace
import ComponentStream.Proofs.Tree.Stamp

/-!
# Versions

A message is dropped and leaves the tree exactly as it was, or it is accepted, and then the version tells whether it
changed anything: it grows by one if it did, and otherwise the tree is the same.  So a host that has seen a version of a
run has seen the tree of that version, and there is only one.

* `Tree.editedBy`, `Message.completes` — what an accepted message does to the version and to the mark for the end;
* `applyMessage_atomic` — a single message;
* `Event.edits`, `Chained.version_eq`, `Chained.eq_of_version_eq` — series of messages and records;
* `processAll_advances` — records never take a version back;
* `Intake.versions_of_run` — whole runs.
-/

namespace ComponentStream

open Protocol (Limits Message)

/-- Whether an accepted message makes a change to a tree. -/
def Tree.editedBy (t : Tree) : Message → Bool
  | .component _ _ => true
  | .update _ _ => true
  | .remove id => t.contains id
  | .action _ => false
  | .error _ _ => false

/-- Whether a message announces the end of the tree. -/
def Protocol.Message.completes : Message → Bool
  | .component _ complete => complete = some true
  | _ => false

namespace Stream

variable {limits : Limits}

/-- **A message is dropped without a trace, or accepted as a whole**: the version grows by one if there was something to
change, and the tree is the same if there was not. -/
theorem applyMessage_atomic (limits : Limits) (t : Tree) (m : Message) :
    ((applyMessage limits t m).2.message? = none ∧ (applyMessage limits t m).1 = t) ∨
      ((applyMessage limits t m).2.message? = some m ∧
        (applyMessage limits t m).1.version = t.version + (if t.editedBy m then 1 else 0) ∧
        (t.editedBy m = false → (applyMessage limits t m).1 = t) ∧
        (applyMessage limits t m).1.complete = (t.complete || m.completes)) := by
  have happ := applied limits t m
  generalize (applyMessage limits t m).1 = u, (applyMessage limits t m).2 = v at happ
  cases happ with
  | full _ => exact Or.inl ⟨rfl, rfl⟩
  | unplaced _ => exact Or.inl ⟨rfl, rfl⟩
  | tooDeep _ _ => exact Or.inl ⟨rfl, rfl⟩
  | refused _ => exact Or.inl ⟨rfl, rfl⟩
  | unknown _ => exact Or.inl ⟨rfl, rfl⟩
  | inserted _ _ _ hins =>
    have hstamp := Tree.sameStamp_insert hins
    refine Or.inr ⟨rfl, congrArg (· + 1) hstamp.version, fun h => absurd h (by simp [Tree.editedBy]), ?_⟩
    exact congrArg (· || _) hstamp.complete
  | merged hmerge =>
    have hstamp := Tree.sameStamp_mergeProps hmerge
    refine Or.inr ⟨rfl, congrArg (· + 1) hstamp.version, fun h => absurd h (by simp [Tree.editedBy]), ?_⟩
    exact hstamp.complete.trans (Bool.or_false _).symm
  | @removed id hid =>
    have hstamp := Tree.sameStamp_remove t id
    have hedits : t.editedBy (.remove id) = true := hid
    refine Or.inr ⟨rfl, ?_, fun h => absurd (hedits.symm.trans h) (by simp), ?_⟩
    · rw [hedits]
      exact congrArg (· + 1) hstamp.version
    · exact hstamp.complete.trans (Bool.or_false _).symm
  | @absent id hid =>
    have hedits : t.editedBy (.remove id) = false := by simpa [Tree.editedBy] using hid
    refine Or.inr ⟨rfl, ?_, fun _ => rfl, (Bool.or_false _).symm⟩
    rw [hedits]
    rfl
  | action data => exact Or.inr ⟨rfl, rfl, fun _ => rfl, (Bool.or_false _).symm⟩
  | error message recoverable => exact Or.inr ⟨rfl, rfl, fun _ => rfl, (Bool.or_false _).symm⟩

/-! ### Events -/

/-- Whether an event made a change: its message was accepted and had something to change. -/
def Event.edits (e : Event) : Bool := e.verdict.message?.any e.before.editedBy

/-- The version of an event counts it if it made a change, and the tree is the same if it did not. -/
structure Event.Counted (e : Event) : Prop where
  version : e.after.version = e.before.version + (if e.edits then 1 else 0)
  same : e.edits = false → e.after = e.before

theorem Event.counted_of_dropped {e : Event} (hnone : e.verdict.message? = none) (hsame : e.after = e.before) :
    e.Counted := by
  have hedits : e.edits = false := by rw [edits, hnone, Option.any_none]
  refine ⟨?_, fun _ => hsame⟩
  rw [hedits, hsame]
  rfl

theorem Event.counted_of_applyMessage {e : Event} {m : Message}
    (h : applyMessage limits e.before m = (e.after, e.verdict)) : e.Counted := by
  have hatomic := applyMessage_atomic limits e.before m
  rw [h] at hatomic
  rcases hatomic with ⟨hnone, hsame⟩ | ⟨hsome, hversion, hsame, _⟩
  · exact counted_of_dropped hnone hsame
  · have hedits : e.edits = e.before.editedBy m := by rw [edits, hsome, Option.any_some]
    exact ⟨hedits ▸ hversion, hedits ▸ hsame⟩

theorem Event.counted_of_processRecord {e : Event} {record : List UInt8}
    (h : processRecord limits e.before record = (e.after, e.verdict)) : e.Counted := by
  rcases processRecord_uniform limits record with ⟨v, hnone, hall⟩ | ⟨m, hall⟩
  · rw [hall, Prod.mk.injEq] at h
    exact counted_of_dropped (h.2 ▸ hnone) h.1.symm
  · rw [hall] at h
    exact counted_of_applyMessage h

/-! ### Series of events -/

namespace Chained

variable {t u : Tree} {es : List Event}

theorem version_eq (h : Chained t es u) (hes : ∀ e ∈ es, e.Counted) :
    u.version = t.version + es.countP Event.edits := by
  induction h with
  | nil t => rfl
  | @cons e es u _ ih =>
    have hfirst := (hes e List.mem_cons_self).version
    have hrest := ih fun e' he' => hes e' (List.mem_cons_of_mem _ he')
    rw [List.countP_cons]
    omega

theorem end_mem (h : Chained t es u) : u ∈ t :: es.map Event.after := by
  induction h with
  | nil t => exact List.mem_cons_self
  | cons e _ ih => exact List.mem_cons_of_mem _ ih

/-- A later state has a later version, or it is the same. -/
theorem eq_of_version_le (h : Chained t es u) (hes : ∀ e ∈ es, e.Counted) {s : Tree}
    (hs : s ∈ t :: es.map Event.after) : t.version ≤ s.version ∧ (s.version = t.version → s = t) := by
  induction h with
  | nil t =>
    obtain rfl := List.mem_singleton.mp hs
    exact ⟨Nat.le_refl _, fun _ => rfl⟩
  | @cons e es u _ ih =>
    rcases List.mem_cons.mp hs with rfl | hlater
    · exact ⟨Nat.le_refl _, fun _ => rfl⟩
    · have hfirst := hes e List.mem_cons_self
      obtain ⟨hle, heq⟩ := ih (fun e' he' => hes e' (List.mem_cons_of_mem _ he')) hlater
      have hstep := hfirst.version
      refine ⟨by omega, fun hsame => ?_⟩
      cases hedits : e.edits with
      | false =>
        have hback := hfirst.same hedits
        rw [hback] at heq
        exact heq hsame
      | true =>
        rw [hedits, if_pos rfl] at hstep
        omega

/-- **States of the same version are the same.** -/
theorem eq_of_version_eq (h : Chained t es u) (hes : ∀ e ∈ es, e.Counted) {s s' : Tree}
    (hs : s ∈ t :: es.map Event.after) (hs' : s' ∈ t :: es.map Event.after) (hversion : s.version = s'.version) :
    s = s' := by
  induction h with
  | nil t => rw [List.mem_singleton.mp hs, List.mem_singleton.mp hs']
  | @cons e es u htail ih =>
    have hall := Chained.cons e htail
    rcases List.mem_cons.mp hs with rfl | hlater
    · exact ((hall.eq_of_version_le hes hs').2 hversion.symm).symm
    · rcases List.mem_cons.mp hs' with rfl | hlater'
      · exact (hall.eq_of_version_le hes hs).2 hversion
      · exact ih (fun e' he' => hes e' (List.mem_cons_of_mem _ he')) hlater hlater'

end Chained

/-- **Records move a tree on**: its version never falls, and the tree is the same if its version is, or if none of the
records was accepted. -/
theorem processAll_advances (limits : Limits) (t : Tree) (records : List (List UInt8)) :
    t.version ≤ (processAll limits t records).1.version ∧
      ((processAll limits t records).1.version = t.version → (processAll limits t records).1 = t) ∧
      (accepted (processAll limits t records).2 = [] → (processAll limits t records).1 = t) := by
  have hchain : Chained t (recordEvents limits t records) (processAll limits t records).1 :=
    chained_recordEvents t records
  have hcounted : ∀ e ∈ recordEvents limits t records, e.Counted := by
    intro e he
    obtain ⟨r, _, hr⟩ := event_of_recordEvents he
    exact Event.counted_of_processRecord hr
  obtain ⟨hle, hsame⟩ := hchain.eq_of_version_le hcounted hchain.end_mem
  refine ⟨hle, hsame, fun hnone => hsame ?_⟩
  have hedits : (recordEvents limits t records).countP Event.edits = 0 := by
    refine List.countP_eq_zero.mpr fun e he => ?_
    have hverdict : e.verdict ∈ (processAll limits t records).2 := by
      rw [← verdicts_recordEvents]
      exact List.mem_map_of_mem he
    rw [Event.edits, List.filterMap_eq_nil_iff.mp hnone _ hverdict]
    exact Bool.false_ne_true
  rw [hchain.version_eq hcounted, hedits, Nat.add_zero]

/-! ### Runs -/

namespace Intake

variable {i : Intake} {ops : List Op}

/-- The tree at the start of a run and after every record and message. -/
def states (i : Intake) (ops : List Op) : List Tree := i.tree :: (i.trace ops).map Event.after

theorem counted_of_trace {e : Event} (he : e ∈ i.trace ops) : e.Counted := by
  rcases event_of_trace he with ⟨r, hr⟩ | ⟨m, hm⟩
  · exact Event.counted_of_processRecord hr
  · exact Event.counted_of_applyMessage hm

/-- Between two operations, the tree is one of the states. -/
theorem tree_mem_states (hops : ∀ n, Op.reset n ∉ ops) (k : Nat) : (i.actAll (ops.take k)).tree ∈ i.states ops := by
  have hchain : Chained i.tree (i.trace (ops.take k)) (i.actAll (ops.take k)).tree :=
    chained_trace fun n hn => hops n (List.mem_of_mem_take hn)
  have hsub : i.states (ops.take k) ⊆ i.states ops := by
    conv => rhs; rw [← List.take_append_drop k ops]
    rw [states, states, trace_append, List.map_append]
    exact List.cons_subset_cons _ (List.subset_append_left _ _)
  exact hsub hchain.end_mem

/-- **Messages are all or nothing, and versions are exact.**  Whatever the tree and the message, the message is dropped
and the tree is as it was, or it is accepted and the version grows by one or the tree is the same; the mark for the end
is set by an accepted component that announces it, and by nothing else.  In a run that never empties the tree, the
version is the number of changes, and any two states of the same version are the same tree. -/
theorem versions_of_run (limits : Limits) (ops : List Op) (hops : ∀ n, Op.reset n ∉ ops) :
    (∀ t m, ((applyMessage limits t m).2.message? = none ∧ (applyMessage limits t m).1 = t) ∨
      ((applyMessage limits t m).2.message? = some m ∧
        (applyMessage limits t m).1.version = t.version + (if t.editedBy m then 1 else 0) ∧
        (t.editedBy m = false → (applyMessage limits t m).1 = t) ∧
        (applyMessage limits t m).1.complete = (t.complete || m.completes))) ∧
      ((start limits).actAll ops).tree.version = ((start limits).trace ops).countP Event.edits ∧
      (∀ k, ((start limits).actAll (ops.take k)).tree ∈ (start limits).states ops) ∧
      ∀ t ∈ (start limits).states ops, ∀ u ∈ (start limits).states ops, t.version = u.version → t = u := by
  have hchain : Chained (start limits).tree ((start limits).trace ops) ((start limits).actAll ops).tree :=
    chained_trace hops
  have hcounted : ∀ e ∈ (start limits).trace ops, e.Counted := fun _ he => counted_of_trace he
  refine ⟨applyMessage_atomic limits, ?_, tree_mem_states hops, fun t ht u hu => hchain.eq_of_version_eq hcounted ht hu⟩
  rw [hchain.version_eq hcounted]
  exact Nat.zero_add _

/-- A component with a child, then changes that come by two streams and from elsewhere: two of them ask for components
that are not there. -/
def revisions : List Op :=
  [.feed 0 (ndjson [componentText (nodeText "a" "Card" "\x7b\x7d" [nodeText "b" "Text" "\x7b\x7d" []]),
      removeText "c", updateText "b" "\x7b\"text\":\"x\"\x7d", updateText "c" "\x7b\x7d"]),
    .fork, .feed 1 (ndjson [removeText "b"]), .apply (.update "a" []), .flush 0]

theorem versions_of_run_of_revisions :
    (∀ n, Op.reset n ∉ revisions) ∧
      ((start Limits.standard).trace revisions).map (fun e => (e.verdict.message?.isSome, e.edits)) =
        [(true, true), (true, false), (true, true), (false, false), (true, true), (true, true), (false, false)] ∧
      ((start Limits.standard).actAll revisions).tree.version =
        ((start Limits.standard).trace revisions).countP Event.edits ∧
      ∀ t ∈ (start Limits.standard).states revisions, ∀ u ∈ (start Limits.standard).states revisions,
        t.version = u.version → t = u := by
  have hops : ∀ n, Op.reset n ∉ revisions := by simp [revisions]
  have hrun : ((start Limits.standard).trace revisions).map (fun e => (e.verdict.message?.isSome, e.edits)) =
      [(true, true), (true, false), (true, true), (false, false), (true, true), (true, true), (false, false)] := by
    decide +kernel
  have hall := versions_of_run Limits.standard revisions hops
  exact ⟨hops, hrun, hall.2.1, hall.2.2.2⟩

end Intake

end Stream

end ComponentStream
