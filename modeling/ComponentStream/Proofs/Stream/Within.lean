import ComponentStream.Proofs.Json.Levels
import ComponentStream.Proofs.Protocol.Parts
import ComponentStream.Proofs.Stream.Chunks
import ComponentStream.Stream.Within

/-!
# Chunks with records that have too many levels

Whether a record has too many levels does not depend on the tree.  So what comes of a chunk within bounds is what comes
without bounds of the records before the first that has too many, and what that one raises.

* `lineExhaustion?`, `exhaustion?` — what a line and a record raise;
* `processRecordWithin_eq`, `processAllWithin_eq` — records within bounds and without;
* `kept` — the records of a chunk that get a verdict;
* `Intake.feedWithin_eq`, `Intake.feedAllWithin_eq_feedAll` — chunks;
* `isMeasurable_of_isWritable` — what can be written can be measured.
-/

namespace ComponentStream.Stream

open Json (Bounds Exhaustion Value)
open Protocol (Limits Message Node)

/-! ### Records -/

section Records

variable (b : Bounds) (limits : Limits)

/-- What a line raises, if it has too many levels: the reader gives up, or what it read cannot be measured. -/
def lineExhaustion? (line : List Char) : Option Exhaustion :=
  match Json.readWithin b.reading line with
  | .error .tooDeep => some .reading
  | .error .malformed => none
  | .ok raw => if isMeasurable b.writing limits raw then none else some .writing

def exhaustion? (bytes : List UInt8) : Option Exhaustion :=
  match Text.Utf8.read (strip bytes) with
  | .error _ => none
  | .ok line => lineExhaustion? b limits line

/-- The records before the first that has too many levels. -/
def kept (records : List (List UInt8)) : List (List UInt8) := records.takeWhile fun r => (exhaustion? b limits r).isNone

theorem processLineWithin_eq (t : Tree) (line : List Char) :
    processLineWithin b limits t line =
      match lineExhaustion? b limits line with
      | some e => .error e
      | none => .ok (processLine limits t line) := by
  rw [processLineWithin, lineExhaustion?, processLine]
  rcases Json.readWithin_cases b.reading line with hdeep | hread
  · rw [hdeep]
  · rw [hread]
    cases Json.read line with
    | none => rfl
    | some raw =>
      dsimp only [Json.orMalformed]
      split <;> rfl

/-- **A record raises something, or it is processed as it would be without bounds.** -/
theorem processRecordWithin_eq (t : Tree) (bytes : List UInt8) :
    processRecordWithin b limits t bytes =
      match exhaustion? b limits bytes with
      | some e => .error e
      | none => .ok (processRecord limits t bytes) := by
  rw [processRecordWithin, exhaustion?, processRecord]
  cases hstrip : strip bytes with
  | nil => rfl
  | cons byte record =>
    simp only [List.isEmpty_cons, Bool.false_eq_true, if_false]
    cases Text.Utf8.read (byte :: record) with
    | error offset => rfl
    | ok line => exact processLineWithin_eq b limits t line

theorem processAllWithin_eq (records : List (List UInt8)) : ∀ t : Tree,
    processAllWithin b limits t records =
      ((processAll limits t (kept b limits records)).1, (processAll limits t (kept b limits records)).2,
        records.findSome? (exhaustion? b limits)) := by
  induction records with
  | nil => exact fun t => rfl
  | cons r records ih =>
    intro t
    rw [processAllWithin, processRecordWithin_eq, List.findSome?_cons, kept, List.takeWhile_cons]
    cases exhaustion? b limits r with
    | some e => rfl
    | none => simp only [ih, Option.isNone_none, if_true, processAll_cons, kept]

theorem kept_eq_self {records : List (List UInt8)} (h : ∀ r ∈ records, exhaustion? b limits r = none) :
    kept b limits records = records ∧ records.findSome? (exhaustion? b limits) = none :=
  ⟨List.takeWhile_eq_self_iff.mpr fun r hr => by rw [h r hr]; rfl, List.findSome?_eq_none_iff.mpr h⟩

end Records

/-! ### Chunks -/

namespace Intake

variable {b : Bounds} {i : Intake} {n : Nat}

theorem feedWithin_eq (b : Bounds) (i : Intake) (n : Nat) (chunk : List UInt8) :
    i.feedWithin b n chunk =
      ({ i with
          tree := (processAll i.limits i.tree (kept b i.limits (splitRecords (i.buffer n ++ chunk)).1)).1
          buffers := i.buffers.set n (splitRecords (i.buffer n ++ chunk)).2 },
        (processAll i.limits i.tree (kept b i.limits (splitRecords (i.buffer n ++ chunk)).1)).2,
        (splitRecords (i.buffer n ++ chunk)).1.findSome? (exhaustion? b i.limits)) := by
  simp only [feedWithin, processAllWithin_eq]

/-- Where no record raises anything, a chunk comes to what it comes to without bounds. -/
theorem feedWithin_eq_feed {chunk : List UInt8}
    (h : ∀ r ∈ (splitRecords (i.buffer n ++ chunk)).1, exhaustion? b i.limits r = none) :
    i.feedWithin b n chunk = ((i.feed n chunk).1, (i.feed n chunk).2, none) := by
  obtain ⟨hkept, hnone⟩ := kept_eq_self b i.limits h
  rw [feedWithin_eq, hkept, hnone]
  rfl

theorem feedAllWithin_eq_feedAll (hn : n < i.buffers.length) {chunks : List (List UInt8)}
    (h : ∀ r ∈ (splitRecords (i.buffer n ++ chunks.flatten)).1, exhaustion? b i.limits r = none) :
    i.feedAllWithin b n chunks = ((i.feedAll n chunks).1, (i.feedAll n chunks).2, none) := by
  induction chunks generalizing i with
  | nil => rfl
  | cons chunk chunks ih =>
    rw [List.flatten_cons, ← List.append_assoc, splitRecords_append] at h
    have hfirst := feedWithin_eq_feed (b := b) fun r hr => h r (List.mem_append_left _ hr)
    have hbuffer : (i.feed n chunk).1.buffer n = (splitRecords (i.buffer n ++ chunk)).2 := by
      simp [feed, buffer, hn]
    have hrest := @ih (i.feed n chunk).1 (by simpa [feed] using hn) fun r hr =>
      h r (List.mem_append_right _ (by rwa [hbuffer] at hr))
    rw [feedAllWithin, hfirst]
    dsimp only
    rw [hrest]
    rfl

end Intake

/-! ### Written values -/

/-- The properties in a described message stand in the value that describes it. -/
theorem exists_follow_of_measured {limits : Limits} {raw : Value} {m : Message} (h : described? limits raw = some m)
    {props : Assoc Value} (hprops : props ∈ measured m) : ∃ path, raw.follow path = some (.obj props) := by
  cases raw with
  | obj fields =>
    rw [described?] at h
    split at h
    · have hcheck : Message.check fields = .ok m := by
        cases hcheck : Message.check fields with
        | ok m' => rw [hcheck] at h; exact congrArg _ (Option.some.inj h)
        | error faults => rw [hcheck] at h; cases h
      have hwritten := (Protocol.Message.check_eq_ok_iff.mp hcheck).1.body
      cases m with
      | component data complete =>
        obtain ⟨v, hdata, hv⟩ := hwritten.1
        obtain ⟨⟨n, way⟩, ho, rfl⟩ := List.mem_map.mp hprops
        obtain ⟨w, hat, _⟩ := Node.mem_occurrences_iff.mp ho
        refine ⟨.key "data" :: (Protocol.stepsTo w ++ [.key "props"]), ?_⟩
        rw [Value.follow, hdata]
        exact hv.follow_props hat
      | update id props' =>
        rw [List.mem_singleton.mp hprops]
        exact ⟨[.key "props"], by rw [Value.follow, hwritten.2]; rfl⟩
      | _ => cases hprops
    · cases h
  | _ => cases h

theorem isMeasurable_of_isWritable {levels : Nat} (limits : Limits) {raw : Value} (h : raw.isWritable levels = true) :
    isMeasurable levels limits raw = true := by
  rw [isMeasurable]
  split
  · next m hm =>
    refine List.all_eq_true.mpr fun props hprops => ?_
    obtain ⟨path, hpath⟩ := exists_follow_of_measured hm hprops
    exact Value.isWritable_of_follow h hpath
  · rfl

end ComponentStream.Stream
