import ComponentStream.Proofs.Metrics
import ComponentStream.Proofs.Stream.Chunks

/-!
# What becomes of every record

No byte of a stream is lost when it is cut into records, and no record is lost when it is processed: a blank one is
passed over, and any other one is accepted as the message that it carries, or dropped with a warning, or refused.
Reports and counters say the same as the verdicts.

* `splitRecords_join`, `newline_not_mem_of_mem_splitRecords` — records and their bytes;
* `Resolved`, `resolved_processRecord` — the verdict on a record;
* `reports`, `Report.kind` — what is told of verdicts, and the kind under which it is counted;
* `countP_resolved`, `backends_eq`, `length_reports` — every record that is not blank has one outcome;
* `count_faultCounter`, `sum_countP_kind`, `count_messageCounter` — the counters of verdicts.
-/

namespace ComponentStream.Stream

open Protocol (Limits Message Node Tag)

/-! ### Records and their bytes -/

/-- The records with their newlines, and the rest behind them, are all the bytes. -/
theorem splitRecords_join (bs : List UInt8) :
    ((splitRecords bs).1.flatMap fun r => r ++ [newline]) ++ (splitRecords bs).2 = bs := by
  induction bs with
  | nil => rfl
  | cons b bs ih =>
    by_cases hb : b = newline
    · subst hb
      rw [splitRecords_cons_newline, List.flatMap_cons, List.append_assoc, ih]
      rfl
    · rw [splitRecords_cons_of_ne hb]
      cases hsplit : (splitRecords bs).1 with
      | nil =>
        rw [hsplit] at ih
        exact congrArg (b :: ·) ih
      | cons r records =>
        rw [hsplit] at ih
        exact congrArg (b :: ·) ih

theorem newline_not_mem_of_mem_splitRecords {bs r : List UInt8} (h : r ∈ (splitRecords bs).1) : newline ∉ r := by
  induction bs generalizing r with
  | nil => exact absurd h List.not_mem_nil
  | cons b bs ih =>
    by_cases hb : b = newline
    · subst hb
      rw [splitRecords_cons_newline] at h
      rcases List.mem_cons.mp h with rfl | hrest
      · exact List.not_mem_nil
      · exact ih hrest
    · rw [splitRecords_cons_of_ne hb] at h
      cases hsplit : (splitRecords bs).1 with
      | nil =>
        rw [hsplit] at h
        exact absurd h List.not_mem_nil
      | cons r' records =>
        rw [hsplit] at h ih
        rcases List.mem_cons.mp h with rfl | hrest
        · intro hmem
          rcases List.mem_cons.mp hmem with heq | hold
          · exact hb heq.symm
          · exact ih List.mem_cons_self hold
        · exact ih (List.mem_cons_of_mem _ hrest)

/-! ### Verdicts on records -/

/-- What can become of a record. -/
inductive Resolved (limits : Limits) (record : List UInt8) : Verdict → Prop where
  | blank : strip record = [] → Resolved limits record .blank
  | accepted {m : Message} : strip record ≠ [] → Carries limits record m → Resolved limits record (.accepted m)
  | dropped {w : Warning} : strip record ≠ [] → Resolved limits record (.dropped w)
  | refused {e : Tree.Error} {n : Node} {complete : Option Bool} : strip record ≠ [] →
      Carries limits record (.component n complete) → Resolved limits record (.refused e n)

/-- **A record gets one of these verdicts, whatever its bytes and whatever the tree.** -/
theorem resolved_processRecord (limits : Limits) (t : Tree) (record : List UInt8) :
    Resolved limits record (processRecord limits t record).2 := by
  rcases processRecord_cases limits record with ⟨hblank, hall⟩ | ⟨hfull, w, hall⟩ | ⟨hfull, m, hm, hall⟩
  · rw [hall]
    exact .blank hblank
  · rw [hall]
    exact .dropped hfull
  · rw [hall]
    have happ := applied limits t m
    generalize (applyMessage limits t m).1 = u, (applyMessage limits t m).2 = v at happ
    cases happ with
    | full _ => exact .dropped hfull
    | unplaced _ => exact .refused hfull hm
    | tooDeep _ _ => exact .dropped hfull
    | refused _ => exact .refused hfull hm
    | inserted _ _ _ _ => exact .accepted hfull hm
    | merged _ => exact .accepted hfull hm
    | unknown _ => exact .dropped hfull
    | removed _ => exact .accepted hfull hm
    | absent _ => exact .accepted hfull hm
    | action data => exact .accepted hfull hm
    | error message recoverable => exact .accepted hfull hm

/-! ### Reports -/

/-- The reports on some verdicts, in order. -/
def reports (vs : List Verdict) : List Report := vs.filterMap Verdict.report?

namespace Report

/-- The kind of fault under which a report is counted. -/
def kind : Report → FaultKind
  | .warning w => w.kind
  | .backend _ _ => .backend
  | .invariant _ _ => .invariant

def isWarning : Report → Bool
  | .warning _ => true
  | _ => false

def isInvariant : Report → Bool
  | .invariant _ _ => true
  | _ => false

/-- The fault that the message source has reported, and whether it can recover. -/
def backend? : Report → Option (String × Bool)
  | .backend message recoverable => some (message, recoverable)
  | _ => none

end Report

/-- The fault that a message reports. -/
def backendOf? : Message → Option (String × Bool)
  | .error message recoverable => some (message, recoverable = some true)
  | _ => none

theorem accepted_cons (v : Verdict) (vs : List Verdict) :
    accepted (v :: vs) = v.message?.toList ++ accepted vs := by
  rw [accepted, List.filterMap_cons]
  cases v.message? <;> rfl

theorem reports_cons (v : Verdict) (vs : List Verdict) : reports (v :: vs) = v.report?.toList ++ reports vs := by
  rw [reports, List.filterMap_cons]
  cases v.report? <;> rfl

/-- What a record comes to: an accepted message, a warning or a refusal, unless it is blank. -/
theorem Resolved.outcomes_eq {limits : Limits} {record : List UInt8} {v : Verdict} (h : Resolved limits record v) :
    v.message?.toList.length + v.report?.toList.countP Report.isWarning +
      v.report?.toList.countP Report.isInvariant = if strip record ≠ [] then 1 else 0 := by
  cases h with
  | blank hblank =>
    rw [if_neg (not_not_intro hblank)]
    rfl
  | @accepted m hfull _ =>
    rw [if_pos hfull]
    cases m <;> rfl
  | dropped hfull =>
    rw [if_pos hfull]
    rfl
  | refused hfull _ =>
    rw [if_pos hfull]
    rfl

/-- **Every record that is not blank has one outcome**: a message is accepted, or a warning is given, or a component is
refused. -/
theorem countP_resolved {limits : Limits} {log : List (List UInt8 × Verdict)}
    (h : ∀ e ∈ log, Resolved limits e.1 e.2) :
    log.countP (fun e => strip e.1 ≠ []) =
      (accepted (log.map Prod.snd)).length + (reports (log.map Prod.snd)).countP Report.isWarning +
        (reports (log.map Prod.snd)).countP Report.isInvariant := by
  induction log with
  | nil => rfl
  | cons e log ih =>
    have hfirst := (h e List.mem_cons_self).outcomes_eq
    have hrest := ih fun e' he' => h e' (List.mem_cons_of_mem _ he')
    rw [List.countP_cons, List.map_cons, accepted_cons, reports_cons, List.length_append, List.countP_append,
      List.countP_append]
    simp only [decide_eq_true_eq]
    omega

/-- The faults of the message source that are reported are those of the accepted messages. -/
theorem backends_eq (vs : List Verdict) :
    (reports vs).filterMap Report.backend? = (accepted vs).filterMap backendOf? := by
  rw [reports, accepted, List.filterMap_filterMap, List.filterMap_filterMap]
  refine List.filterMap_congr fun v _ => ?_
  cases v with
  | accepted m => cases m <;> rfl
  | _ => rfl

/-- A report is a warning, a refusal, or the report of an accepted error message. -/
theorem length_reports (vs : List Verdict) :
    (reports vs).length = (reports vs).countP Report.isWarning + (reports vs).countP Report.isInvariant +
      (accepted vs).countP fun m => m.tag = .error := by
  have hone : ∀ v : Verdict, v.report?.toList.length = v.report?.toList.countP Report.isWarning +
      v.report?.toList.countP Report.isInvariant + v.message?.toList.countP fun m => m.tag = .error := by
    intro v
    cases v with
    | accepted m => cases m <;> rfl
    | _ => rfl
  induction vs with
  | nil => rfl
  | cons v vs ih =>
    have hfirst := hone v
    rw [reports_cons, accepted_cons, List.length_append, List.countP_append, List.countP_append, List.countP_append]
    omega

/-! ### Counters -/

def FaultKind.all : List FaultKind := [.decode, .schema, .limit, .missingTarget, .backend, .invariant]

/-- Every report is counted under one kind. -/
theorem sum_countP_kind (rs : List Report) :
    FaultKind.all.foldr (fun k n => rs.countP (fun r => r.kind = k) + n) 0 = rs.length := by
  induction rs with
  | nil => rfl
  | cons r rs ih =>
    simp only [FaultKind.all, List.foldr, List.countP_cons, List.length_cons, decide_eq_true_eq] at ih ⊢
    rw [← ih]
    cases r.kind <;> simp <;> omega

theorem FaultKind.name_injective : Function.Injective FaultKind.name := by
  intro k k' h
  cases k <;> cases k' <;> first | rfl | exact absurd h (by decide)

theorem tagName_injective : Function.Injective Tag.name := by
  intro tag tag' h
  cases tag <;> cases tag' <;> first | rfl | exact absurd h (by decide)

/-- A verdict counts its report under its kind, and its message under its tag. -/
theorem counters_eq (v : Verdict) :
    v.counters = v.report?.toList.map (fun r => Verdict.faultCounter r.kind) ++
      v.message?.toList.map Verdict.messageCounter := by
  cases v with
  | accepted m => cases m <;> rfl
  | _ => rfl

/-- What is counted of several verdicts can be counted off their reports and messages. -/
theorem count_counters (vs : List Verdict) (c : Counter) :
    (vs.flatMap Verdict.counters).count c =
      (reports vs).countP (fun r => Verdict.faultCounter r.kind = c) +
        (accepted vs).countP (fun m => Verdict.messageCounter m = c) := by
  have hmap : ∀ {α : Type} (f : α → Counter) (l : List α), (l.map f).count c = l.countP fun a => f a = c := by
    intro α f l
    rw [List.count, List.countP_map]
    exact List.countP_congr fun a _ => by simp
  induction vs with
  | nil => rfl
  | cons v vs ih =>
    rw [List.flatMap_cons, List.count_append, ih, counters_eq, List.count_append, hmap, hmap, reports_cons,
      accepted_cons, List.countP_append, List.countP_append]
    omega

/-- Under the kind of a fault, its reports are counted. -/
theorem count_faultCounter (vs : List Verdict) (k : FaultKind) :
    (vs.flatMap Verdict.counters).count (Verdict.faultCounter k) = (reports vs).countP fun r => r.kind = k := by
  have hreports : ∀ r : Report, Verdict.faultCounter r.kind = Verdict.faultCounter k ↔ r.kind = k := fun r =>
    ⟨fun h => FaultKind.name_injective (by simpa [Verdict.faultCounter] using h), fun h => h ▸ rfl⟩
  have hmessages : ∀ m : Message, Verdict.messageCounter m ≠ Verdict.faultCounter k := fun m h =>
    absurd (congrArg Counter.family h) (by simp [Verdict.messageCounter, Verdict.faultCounter])
  rw [count_counters]
  simp [hreports, hmessages]

/-- Under the tag of a message, the accepted messages with this tag are counted. -/
theorem count_messageCounter (vs : List Verdict) (tag : Tag) :
    (vs.flatMap Verdict.counters).count ⟨.streamMessages, [tag.name]⟩ = (accepted vs).countP fun m => m.tag = tag := by
  have hmessages : ∀ m : Message, Verdict.messageCounter m = ⟨.streamMessages, [tag.name]⟩ ↔ m.tag = tag := fun m =>
    ⟨fun h => tagName_injective (by simpa [Verdict.messageCounter] using h), fun h => h ▸ rfl⟩
  rw [count_counters]
  simp [hmessages, Verdict.faultCounter]

/-- What the counters of all kinds of fault show together. -/
def faultTotal (m : Metrics) : Nat := FaultKind.all.foldr (fun k n => m.value (Verdict.faultCounter k) + n) 0

/-- Where each kind of fault has gained its reports, all of them together have gained all reports. -/
theorem faultTotal_eq {m m' : Metrics} {rs : List Report}
    (h : ∀ k, m'.value (Verdict.faultCounter k) =
      m.value (Verdict.faultCounter k) + rs.countP fun r => r.kind = k) :
    faultTotal m' = faultTotal m + rs.length := by
  rw [← sum_countP_kind rs]
  simp only [faultTotal, FaultKind.all, List.foldr, h]
  omega

end ComponentStream.Stream
