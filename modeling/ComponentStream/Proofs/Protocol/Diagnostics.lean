import ComponentStream.Proofs.Protocol.Positions
import ComponentStream.Stream.Record

/-!
# What is told of nodes beyond the limits

A well-formed node that is not too deep is turned away for three reasons: the types of its components, the sizes of their
properties, and identifiers that occur again.  There is an issue for each of them and for nothing else, and its path leads
to the member that it is about.  Where a component arrives in a record, a broken limit outweighs repeated identifiers.

* `issuePaths_sublist`, `exists_of_mem_occurrenceIssues`, `count_occurrenceIssues` — the issues of occurrences, whatever
  identifiers have been seen before;
* `memberAt`, `joined_memberAt` — the place of a member of an occurrence, and its wording;
* `Node.Diagnosed`, `Node.diagnosed` — the issues of a node;
* `Node.Violates`, `processLine_component` — the record of a component;
* `checkNode_diagnoses` — both together.
-/

namespace ComponentStream

open Json (Value)
open Shape (Path Segment)

namespace Protocol

variable {limits : Limits}

/-! ### The issues of occurrences -/

theorem mem_typeIssues_iff {o : Occurrence} {issue : Issue} :
    issue ∈ typeIssues limits o ↔ limits.allows o.1.component.type = false ∧
      issue = ⟨o.2 ++ [.key "type"], .typeNotAllowed o.1.component.type⟩ := by
  rw [typeIssues]
  cases limits.allows o.1.component.type <;> simp

theorem mem_sizeIssues_iff {props : Assoc Value} {path : Path} {issue : Issue} :
    issue ∈ sizeIssues limits props path ↔ limits.maxPropsSize < (Value.obj props).size ∧
      issue = ⟨path ++ [.key "props"], .propsTooLarge (Value.obj props).size limits.maxPropsSize⟩ := by
  rw [sizeIssues]
  by_cases h : limits.maxPropsSize < (Value.obj props).size <;> simp [h]

theorem mem_idIssues_iff {seen : List String} {o : Occurrence} {issue : Issue} :
    issue ∈ idIssues seen o ↔ o.1.id ∈ seen ∧ issue = ⟨o.2 ++ [.key "id"], .duplicateId o.1.id⟩ := by
  rw [idIssues]
  by_cases h : o.1.id ∈ seen <;> simp [h]

/-- The members of an occurrence that an issue may be about. -/
def memberPaths (o : Occurrence) : List Path := [o.2 ++ [.key "id"], o.2 ++ [.key "type"], o.2 ++ [.key "props"]]

/-- The issues are in different places, in the order of the occurrences. -/
theorem issuePaths_sublist (os : List Occurrence) : ∀ seen : List String,
    ((occurrenceIssues limits seen os).map Issue.path).Sublist (os.flatMap memberPaths) := by
  induction os with
  | nil => exact fun _ => .slnil
  | cons o os ih =>
    intro seen
    have hid : ((idIssues seen o).map Issue.path).Sublist [o.2 ++ [.key "id"]] := by
      rw [idIssues]
      split <;> simp
    have htype : ((typeIssues limits o).map Issue.path).Sublist [o.2 ++ [.key "type"]] := by
      rw [typeIssues]
      split <;> simp
    have hsize : ((sizeIssues limits o.1.component.props o.2).map Issue.path).Sublist [o.2 ++ [.key "props"]] := by
      rw [sizeIssues]
      split <;> simp
    rw [occurrenceIssues, List.map_append, List.map_append, List.map_append, List.flatMap_cons]
    exact ((hid.append htype).append hsize).append (ih _)

theorem nodup_memberPaths {os : List Occurrence} (h : (os.map Prod.snd).Nodup) : (os.flatMap memberPaths).Nodup := by
  have hway : ∀ o : Occurrence, ∀ p ∈ memberPaths o, p.dropLast = o.2 := by
    intro o p hp
    simp only [memberPaths, List.mem_cons, List.not_mem_nil, or_false] at hp
    rcases hp with rfl | rfl | rfl <;> exact List.dropLast_concat
  refine List.nodup_flatMap.mpr ⟨fun o _ => by simp [memberPaths], ?_⟩
  refine (List.pairwise_map.mp h).imp fun hne p hp hp' => hne ?_
  exact (hway _ p hp).symm.trans (hway _ p hp')

/-- An issue is about the identifier, the type or the properties of an occurrence. -/
theorem exists_of_mem_occurrenceIssues {issue : Issue} {os : List Occurrence} : ∀ {seen : List String},
    issue ∈ occurrenceIssues limits seen os → ∃ o ∈ os, issue = ⟨o.2 ++ [.key "id"], .duplicateId o.1.id⟩ ∨
      issue ∈ typeIssues limits o ∨ issue ∈ sizeIssues limits o.1.component.props o.2 := by
  induction os with
  | nil => exact fun h => absurd h List.not_mem_nil
  | cons o os ih =>
    intro seen h
    rw [occurrenceIssues, List.mem_append, List.mem_append, List.mem_append] at h
    rcases h with ((hid | htype) | hsize) | hrest
    · exact ⟨o, List.mem_cons_self, .inl (mem_idIssues_iff.mp hid).2⟩
    · exact ⟨o, List.mem_cons_self, .inr (.inl htype)⟩
    · exact ⟨o, List.mem_cons_self, .inr (.inr hsize)⟩
    · obtain ⟨o', ho', hissue⟩ := ih hrest
      exact ⟨o', List.mem_cons_of_mem _ ho', hissue⟩

/-- Whatever was seen before, no occurrence beyond a limit is passed over. -/
theorem mem_occurrenceIssues_of_mem {issue : Issue} {o : Occurrence} {os : List Occurrence} (ho : o ∈ os)
    (h : issue ∈ typeIssues limits o ∨ issue ∈ sizeIssues limits o.1.component.props o.2) :
    ∀ {seen : List String}, issue ∈ occurrenceIssues limits seen os := by
  induction os with
  | nil => exact absurd ho List.not_mem_nil
  | cons o' os ih =>
    intro seen
    rw [occurrenceIssues, List.mem_append, List.mem_append, List.mem_append]
    rcases List.mem_cons.mp ho with rfl | hrest
    · exact h.elim (fun htype => .inl (.inl (.inr htype))) fun hsize => .inl (.inr hsize)
    · exact .inr (ih hrest)

/-- **An identifier is told once less than it occurs**, or as often if it was seen before. -/
theorem count_occurrenceIssues (id : String) (os : List Occurrence) : ∀ seen : List String,
    (occurrenceIssues limits seen os).countP (fun issue => issue.problem = .duplicateId id) =
      (os.map fun o => o.1.id).count id - if id ∈ seen then 0 else 1 := by
  induction os with
  | nil => exact fun seen => (Nat.zero_sub _).symm
  | cons o os ih =>
    intro seen
    have htype : (typeIssues limits o).countP (fun issue => issue.problem = .duplicateId id) = 0 := by
      refine List.countP_eq_zero.mpr fun issue h => ?_
      rw [(mem_typeIssues_iff.mp h).2]
      simp
    have hsize : (sizeIssues limits o.1.component.props o.2).countP (fun issue => issue.problem = .duplicateId id) = 0 := by
      refine List.countP_eq_zero.mpr fun issue h => ?_
      rw [(mem_sizeIssues_iff.mp h).2]
      simp
    rw [occurrenceIssues, List.countP_append, List.countP_append, List.countP_append, htype, hsize, ih, List.map_cons,
      List.count_cons, idIssues]
    by_cases hid : o.1.id = id
    · subst hid
      by_cases hseen : o.1.id ∈ seen
      · simp [hseen, Nat.add_comm]
      · simp [hseen]
    · have hne : id ≠ o.1.id := fun heq => hid heq.symm
      by_cases hseen : o.1.id ∈ seen <;> simp [hseen, hid, hne]

/-! ### The issues of a node -/

/-- The place of a member of the occurrence at a position. -/
def memberAt (path : Path) (w : List Nat) (name : String) : Path := path ++ stepsTo w ++ [.key name]

theorem intercalate_append {l r : List String} (hl : l ≠ []) :
    ".".intercalate (l ++ r) = ".".intercalate l ++ String.join (r.map fun s => "." ++ s) := by
  induction l with
  | nil => exact absurd rfl hl
  | cons a l ih =>
    cases l with
    | nil =>
      clear ih hl
      induction r generalizing a with
      | nil => simp
      | cons b r ih =>
        have hrest : ".".intercalate (b :: r) = b ++ String.join (r.map fun s => "." ++ s) := by simpa using ih b
        simp only [List.singleton_append, String.intercalate_cons_cons, hrest, List.map_cons, String.join_cons,
          String.intercalate_singleton, String.append_assoc]
    | cons b l =>
      rw [List.cons_append, List.cons_append, String.intercalate_cons_cons, String.intercalate_cons_cons,
        ← List.cons_append, ih (List.cons_ne_nil _ _)]
      simp only [String.append_assoc]

theorem joined_append {path : Path} (hpath : path ≠ []) (rest : Path) :
    (path ++ rest).joined = path.joined ++ String.join (rest.map fun s => "." ++ s.text) := by
  have hne : path.map Segment.text ≠ [] := fun h => hpath (List.map_eq_nil_iff.mp h)
  have hrest : (rest.map Segment.text).map (fun s => "." ++ s) = rest.map fun s => "." ++ s.text := List.map_map ..
  rw [Path.joined, List.map_append, intercalate_append hne, hrest]
  rfl

/-- In words, the place is told as the path to the node, then the indices of children, then the name. -/
theorem joined_memberAt {path : Path} (hpath : path ≠ []) (w : List Nat) (name : String) :
    (memberAt path w name).joined =
      path.joined ++ String.join (w.map fun i => ".children." ++ natText i) ++ ("." ++ name) := by
  have hsteps : String.join ((stepsTo w).map fun s => "." ++ s.text) =
      String.join (w.map fun i => ".children." ++ natText i) := by
    induction w with
    | nil => rfl
    | cons i w ih =>
      have hone : ".children" ++ ("." ++ natText i) = ".children." ++ natText i := by
        rw [← String.append_assoc]
        rfl
      have hcons : (stepsTo (i :: w)).map (fun s => "." ++ s.text) =
          ".children" :: ("." ++ natText i) :: (stepsTo w).map fun s => "." ++ s.text := rfl
      rw [hcons, String.join_cons, String.join_cons, ih, List.map_cons, String.join_cons, ← String.append_assoc, hone]
  have hlast : String.join ([Segment.key name].map fun s => "." ++ s.text) = "." ++ name := by simp [Segment.text]
  rw [memberAt, List.append_assoc, joined_append hpath, List.map_append, String.join_append, hsteps, hlast,
    String.append_assoc]

/-- What is told of a node that was found at the end of a path, and is written in `raw`. -/
structure Node.Diagnosed (limits : Limits) (raw : Value) (n : Node) (path : Path) (issues : List Issue) : Prop where
  /-- No two issues are in one place. -/
  places_nodup : (issues.map Issue.path).Nodup
  /-- There is one for the type of each occurrence that is not allowed. -/
  type_iff : ∀ issue, issue ∈ issues ∧ issue.problem.limit? = some .allowedTypes ↔
    ∃ w m, n.at? w = some m ∧ limits.allows m.component.type = false ∧
      issue = ⟨memberAt path w "type", .typeNotAllowed m.component.type⟩
  /-- There is one for the properties of each occurrence that are too large. -/
  size_iff : ∀ issue, issue ∈ issues ∧ issue.problem.limit? = some .maxPropsSize ↔
    ∃ w m, n.at? w = some m ∧ limits.maxPropsSize < (Value.obj m.component.props).size ∧
      issue = ⟨memberAt path w "props", .propsTooLarge (Value.obj m.component.props).size limits.maxPropsSize⟩
  /-- The others break no limit, and each of them is about the identifier of an occurrence. -/
  repeated : ∀ issue ∈ issues, issue.problem.limit? ≠ some .allowedTypes → issue.problem.limit? ≠ some .maxPropsSize →
    issue.problem.limit? = none ∧
      ∃ w m, n.at? w = some m ∧ issue = ⟨memberAt path w "id", .duplicateId m.id⟩
  /-- Of an identifier that occurs so many times, all but one are told. -/
  count_repeated : ∀ id, issues.countP (fun issue => issue.problem = .duplicateId id) = n.ids.count id - 1
  /-- A place is told as the path to the node, the indices of children and the name of a member. -/
  place_eq : path ≠ [] → ∀ issue ∈ issues, ∃ w name, issue.path = memberAt path w name ∧
    issue.place = path.joined ++ String.join (w.map fun i => ".children." ++ natText i) ++ ("." ++ name)
  /-- At the end of the path, without the part that leads to the node, stands the member that the issue is about. -/
  resolves : ∀ w m, n.at? w = some m →
    raw.follow (stepsTo w ++ [.key "type"]) = some (.str m.component.type) ∧
      raw.follow (stepsTo w ++ [.key "props"]) = some (.obj m.component.props) ∧
        raw.follow (stepsTo w ++ [.key "id"]) = some (.str m.id)

/-- An issue of a node is about an occurrence in it, which is beyond a limit unless it is about an identifier. -/
theorem Node.exists_of_mem_nodeIssues {n : Node} {path : Path} {issue : Issue} (h : issue ∈ nodeIssues limits n path) :
    ∃ w m, n.at? w = some m ∧
      (issue = ⟨memberAt path w "id", .duplicateId m.id⟩ ∨
        limits.allows m.component.type = false ∧ issue = ⟨memberAt path w "type", .typeNotAllowed m.component.type⟩ ∨
        limits.maxPropsSize < (Value.obj m.component.props).size ∧
          issue = ⟨memberAt path w "props", .propsTooLarge (Value.obj m.component.props).size limits.maxPropsSize⟩) := by
  obtain ⟨⟨m, way⟩, ho, hissue⟩ := exists_of_mem_occurrenceIssues h
  obtain ⟨w, hat, rfl⟩ := Node.mem_occurrences_iff.mp ho
  exact ⟨w, m, hat, hissue.imp_right (.imp mem_typeIssues_iff.mp mem_sizeIssues_iff.mp)⟩

theorem Node.mem_nodeIssues_of_at? {n m : Node} {path : Path} {w : List Nat} {issue : Issue} (hat : n.at? w = some m)
    (h : issue ∈ typeIssues limits (m, path ++ stepsTo w) ∨
      issue ∈ sizeIssues limits m.component.props (path ++ stepsTo w)) : issue ∈ nodeIssues limits n path :=
  mem_occurrenceIssues_of_mem (Node.mem_occurrences_iff.mpr ⟨w, hat, rfl⟩) h

/-- **The issues of a node are those of its occurrences**, each in its place. -/
theorem Node.diagnosed {n : Node} {raw : Value} (h : n.WrittenAs raw) (limits : Limits) (path : Path) :
    n.Diagnosed limits raw path (nodeIssues limits n path) where
  places_nodup := (nodup_memberPaths (n.nodup_ways path)).sublist (issuePaths_sublist _ [])
  type_iff issue := by
    constructor
    · rintro ⟨hmem, hlimit⟩
      obtain ⟨w, m, hat, rfl | htype | ⟨_, rfl⟩⟩ := Node.exists_of_mem_nodeIssues hmem
      · exact absurd hlimit (by simp [Problem.limit?])
      · exact ⟨w, m, hat, htype⟩
      · exact absurd hlimit (by simp [Problem.limit?])
    · rintro ⟨w, m, hat, hallow, rfl⟩
      exact ⟨Node.mem_nodeIssues_of_at? hat (.inl (mem_typeIssues_iff.mpr ⟨hallow, rfl⟩)), rfl⟩
  size_iff issue := by
    constructor
    · rintro ⟨hmem, hlimit⟩
      obtain ⟨w, m, hat, rfl | ⟨_, rfl⟩ | hsize⟩ := Node.exists_of_mem_nodeIssues hmem
      · exact absurd hlimit (by simp [Problem.limit?])
      · exact absurd hlimit (by simp [Problem.limit?])
      · exact ⟨w, m, hat, hsize⟩
    · rintro ⟨w, m, hat, hsize, rfl⟩
      exact ⟨Node.mem_nodeIssues_of_at? hat (.inr (mem_sizeIssues_iff.mpr ⟨hsize, rfl⟩)), rfl⟩
  repeated issue hmem hnotType hnotSize := by
    obtain ⟨w, m, hat, rfl | ⟨_, rfl⟩ | ⟨_, rfl⟩⟩ := Node.exists_of_mem_nodeIssues hmem
    · exact ⟨rfl, w, m, hat, rfl⟩
    · exact absurd rfl hnotType
    · exact absurd rfl hnotSize
  count_repeated id := by
    rw [nodeIssues, count_occurrenceIssues, if_neg List.not_mem_nil, (n.ids_occurrences_perm path).count_eq]
  place_eq hpath issue hmem := by
    obtain ⟨w, m, _, rfl | ⟨_, rfl⟩ | ⟨_, rfl⟩⟩ := Node.exists_of_mem_nodeIssues hmem
    · exact ⟨w, "id", rfl, joined_memberAt hpath w "id"⟩
    · exact ⟨w, "type", rfl, joined_memberAt hpath w "type"⟩
    · exact ⟨w, "props", rfl, joined_memberAt hpath w "props"⟩
  resolves w m hat := by
    obtain ⟨fields, hwritten, hmember⟩ := h.follow_member hat
    simp only [hmember]
    exact ⟨hwritten.type, hwritten.props, hwritten.id⟩

/-! ### Nodes beyond the limits -/

/-- Some component of a node is of a type that is not allowed, or has properties that are too large. -/
def Node.Violates (limits : Limits) (n : Node) : Prop :=
  ∃ w m, n.at? w = some m ∧
    (limits.allows m.component.type = false ∨ limits.maxPropsSize < (Value.obj m.component.props).size)

theorem Node.not_violates_iff {n : Node} :
    ¬ n.Violates limits ↔ ∀ each ∈ n.preorder, each.component.Within limits := by
  have hone : ∀ c : Component, ¬ (limits.allows c.type = false ∨ limits.maxPropsSize < (Value.obj c.props).size) ↔
      c.Within limits := fun c => by
    rw [not_or, Bool.not_eq_false, Nat.not_lt]
    exact ⟨fun h => ⟨h.1, h.2⟩, fun h => ⟨h.allowed, h.size_le⟩⟩
  constructor
  · intro h each hmem
    obtain ⟨w, hat⟩ := Node.mem_preorder_iff.mp hmem
    exact (hone _).mp fun hbad => h ⟨w, each, hat, hbad⟩
  · rintro h ⟨w, m, hat, hbad⟩
    exact (hone _).mpr (h m (Node.mem_preorder_iff.mpr ⟨w, hat⟩)) hbad

/-- Issues with a broken limit among them tell of a component that breaks it. -/
theorem Node.Diagnosed.brokenLimit?_isSome_iff {raw : Value} {n : Node} {path : Path} {issues : List Issue}
    (h : n.Diagnosed limits raw path issues) :
    (Stream.Warning.brokenLimit? issues).isSome = true ↔ n.Violates limits := by
  rw [Stream.Warning.brokenLimit?, List.findSome?_isSome_iff]
  constructor
  · rintro ⟨issue, hmem, hsome⟩
    by_cases htype : issue.problem.limit? = some .allowedTypes
    · obtain ⟨w, m, hat, hbad, _⟩ := (h.type_iff issue).mp ⟨hmem, htype⟩
      exact ⟨w, m, hat, .inl hbad⟩
    by_cases hsize : issue.problem.limit? = some .maxPropsSize
    · obtain ⟨w, m, hat, hbad, _⟩ := (h.size_iff issue).mp ⟨hmem, hsize⟩
      exact ⟨w, m, hat, .inr hbad⟩
    · rw [(h.repeated issue hmem htype hsize).1] at hsome
      exact absurd hsome (by simp)
  · rintro ⟨w, m, hat, hbad | hbad⟩
    · obtain ⟨hmem, hlimit⟩ := (h.type_iff _).mpr ⟨w, m, hat, hbad, rfl⟩
      exact ⟨_, hmem, hlimit ▸ rfl⟩
    · obtain ⟨hmem, hlimit⟩ := (h.size_iff _).mpr ⟨w, m, hat, hbad, rfl⟩
      exact ⟨_, hmem, hlimit ▸ rfl⟩

theorem checkNode_eq_whenClear {raw : Value} {n : Node} (path : Path) (h : Node.check raw = .ok n)
    (hdepth : n.depth ≤ limits.maxDepth) : checkNode limits path raw = whenClear (nodeIssues limits n path) n := by
  have hwritten : n.WrittenAs raw := ((Node.check_eq_ok_iff raw n).mp h).1
  have hclear : depthIssues limits raw path = [] := by
    rw [depthIssues_eq_nil_iff, hwritten.rawDepth_eq, ← n.depth_eq_height]
    exact hdepth
  rw [checkNode, hclear]
  simp only [h]

section Carried

variable {fields : Assoc Value} {n : Node} {complete : Option Bool}

theorem messageDepthIssues_component (h : (Message.component n complete).WrittenIn fields)
    (hdepth : n.depth ≤ limits.maxDepth) : messageDepthIssues limits fields = [] :=
  h.depthIssues_eq_nil_iff.mpr fun data _ heq => by
    obtain ⟨rfl, _⟩ := Message.component.inj heq
    exact n.depth_eq_height ▸ hdepth

theorem checkMessage_component (h : (Message.component n complete).WrittenIn fields)
    (hdepth : n.depth ≤ limits.maxDepth) (hfollowed : n.depth ≤ Message.maxLevels) :
    checkMessage limits (.obj fields) =
      whenClear (nodeIssues limits n [.key "data"]) (.component n complete) := by
  have hcheck : Message.check fields = .ok (.component n complete) :=
    Message.check_eq_ok_iff.mpr ⟨h, fun data _ heq => by
      obtain ⟨rfl, _⟩ := Message.component.inj heq
      exact n.depth_eq_height ▸ hfollowed⟩
  rw [checkMessage, messageDepthIssues_component h hdepth]
  simp only [hcheck]
  rfl

/-- Of a component with more levels than are followed, only faults of its shape are told. -/
theorem checkMessage_unfollowed (h : (Message.component n complete).WrittenIn fields)
    (hdepth : n.depth ≤ limits.maxDepth) (hdeep : Message.maxLevels < n.depth) :
    ∃ faults : List Shape.Fault, checkMessage limits (.obj fields) = .error (faults.map Issue.ofFault) := by
  rw [checkMessage, messageDepthIssues_component h hdepth]
  cases hcheck : Message.check fields with
  | error faults => exact ⟨faults, rfl⟩
  | ok m => exact absurd hcheck (h.check_ne_ok (n.depth_eq_height ▸ hdeep) m)

end Carried

end Protocol

namespace Stream

open Protocol (BooleanWritten Limits Message Node OptionalMember checkNode nodeIssues whenClear)

section Records

variable {limits : Limits} {line : List Char} {fields : Assoc Value} {n : Node} {complete : Option Bool}

/-- The record of a component that is not too deep is applied when there are no issues, and dropped with them otherwise. -/
theorem processLine_component (t : Tree) (hread : Json.read line = some (.obj fields))
    (h : (Message.component n complete).WrittenIn fields) (hdepth : n.depth ≤ limits.maxDepth)
    (hfollowed : n.depth ≤ Message.maxLevels) :
    processLine limits t line =
      if nodeIssues limits n [.key "data"] = [] then applyMessage limits t (.component n complete)
      else (t, .dropped (.rejected (nodeIssues limits n [.key "data"]) (String.ofList line))) := by
  rw [processLine, hread]
  simp only [processValue, Protocol.checkMessage_component h hdepth hfollowed, whenClear, List.isEmpty_iff]
  by_cases hclear : nodeIssues limits n [.key "data"] = []
  · simp only [if_pos hclear]
  · simp only [if_neg hclear]

theorem brokenLimit?_ofFault (faults : List Shape.Fault) :
    Warning.brokenLimit? (faults.map Protocol.Issue.ofFault) = none := by
  rw [Warning.brokenLimit?, List.findSome?_eq_none_iff]
  intro issue hmem
  obtain ⟨f, _, rfl⟩ := List.mem_map.mp hmem
  rfl

/-- The record of a component with more levels than are followed is dropped as one without the right shape. -/
theorem processValue_unfollowed (t : Tree) (text : String) (h : (Message.component n complete).WrittenIn fields)
    (hdepth : n.depth ≤ limits.maxDepth) (hdeep : Message.maxLevels < n.depth) :
    ∃ issues, processValue limits t text (.obj fields) = (t, .dropped (.rejected issues text)) ∧
      (Warning.rejected issues text).kind = .schema := by
  obtain ⟨faults, hcheck⟩ := Protocol.checkMessage_unfollowed h hdepth hdeep
  refine ⟨_, by rw [processValue, hcheck], ?_⟩
  rw [Warning.kind, brokenLimit?_ofFault]
  rfl

end Records

/-- A card with a text and a second card in it, which has the identifier of the first one. -/
def cardInCard : Value :=
  .obj [("id", .str "a"), ("type", .str "Card"), ("props", .obj []), ("children", .arr [
    .obj [("id", .str "b"), ("type", .str "Text"), ("props", .obj [])],
    .obj [("id", .str "a"), ("type", .str "Card"), ("props", .obj [("x", .int 1)])]])]

def nodeOfCardInCard : Node :=
  ⟨⟨"a", "Card", [], none, none⟩,
    some [⟨⟨"b", "Text", [], none, none⟩, none⟩, ⟨⟨"a", "Card", [("x", .int 1)], none, none⟩, none⟩]⟩

end Stream

end ComponentStream
