import ComponentStream.Proofs.Protocol.Levels
import ComponentStream.Proofs.Tree.Placement

/-!
# Messages within limits

A message that is accepted by a check has no issue left, and so keeps every limit that can be told from the message
alone.

* `Message.Within` — the limits on a message by itself;
* `nodeIssues_eq_nil_iff`, `messageIssues_eq_nil_iff` — no issue is left exactly when they are kept;
* `within_of_checkMessage` — what is known of an accepted message.
-/

namespace ComponentStream.Protocol

open Json (Value)

variable {limits : Limits}

/-! ### The limits on a message -/

/-- A component of a type that may enter the tree, with properties of a permitted size. -/
structure Component.Within (limits : Limits) (c : Component) : Prop where
  allowed : limits.allows c.type = true
  size_le : (Value.obj c.props).size ≤ limits.maxPropsSize

/-- A message keeps the limits that can be told from it alone: no identifier occurs twice in a component, all its nodes
are within the limits, and so is the patch of an update. -/
def Message.Within (limits : Limits) : Message → Prop
  | .component data _ => data.ids.Nodup ∧ ∀ each ∈ data.preorder, each.component.Within limits
  | .update _ props => (Value.obj props).size ≤ limits.maxPropsSize
  | _ => True

/-! ### Issues and limits -/

theorem idIssues_eq_nil_iff {seen : List String} {o : Occurrence} : idIssues seen o = [] ↔ o.1.id ∉ seen := by
  rw [idIssues]
  by_cases h : o.1.id ∈ seen <;> simp [h]

theorem typeIssues_eq_nil_iff {o : Occurrence} :
    typeIssues limits o = [] ↔ limits.allows o.1.component.type = true := by
  rw [typeIssues]
  by_cases h : limits.allows o.1.component.type = true <;> simp [h]

theorem sizeIssues_eq_nil_iff {props : Assoc Value} {path : Shape.Path} :
    sizeIssues limits props path = [] ↔ (Value.obj props).size ≤ limits.maxPropsSize := by
  rw [sizeIssues]
  by_cases h : limits.maxPropsSize < (Value.obj props).size
  · simp [h]
  · simpa [h] using Nat.le_of_not_lt h

/-- A walk past occurrences leaves no issue when it meets no identifier again and every node keeps the limits. -/
theorem occurrenceIssues_eq_nil_iff {os : List Occurrence} : ∀ {seen : List String},
    occurrenceIssues limits seen os = [] ↔
      (os.map fun o => o.1.id).Nodup ∧ (∀ o ∈ os, o.1.id ∉ seen) ∧ ∀ o ∈ os, o.1.component.Within limits := by
  induction os with
  | nil => simp [occurrenceIssues]
  | cons o os ih =>
    intro seen
    have hwithin : typeIssues limits o = [] ∧ sizeIssues limits o.1.component.props o.2 = [] ↔
        o.1.component.Within limits := by
      rw [typeIssues_eq_nil_iff, sizeIssues_eq_nil_iff]
      exact ⟨fun h => ⟨h.1, h.2⟩, fun h => ⟨h.allowed, h.size_le⟩⟩
    rw [occurrenceIssues, List.append_eq_nil_iff, List.append_eq_nil_iff, List.append_eq_nil_iff, ih, and_assoc,
      and_assoc, ← and_assoc (a := typeIssues limits o = []), hwithin, idIssues_eq_nil_iff, List.map_cons,
      List.nodup_cons, List.forall_mem_cons, List.forall_mem_cons]
    constructor
    · rintro ⟨hseen, ho, hnd, hrest, hall⟩
      have hnew : ∀ p ∈ os, p.1.id ≠ o.1.id ∧ p.1.id ∉ seen := fun p hp => by simpa using hrest p hp
      refine ⟨⟨fun hmem => ?_, hnd⟩, ⟨hseen, fun p hp => (hnew p hp).2⟩, ho, hall⟩
      obtain ⟨p, hp, heq⟩ := List.mem_map.mp hmem
      exact (hnew p hp).1 heq
    · rintro ⟨⟨hnot, hnd⟩, ⟨hseen, hrest⟩, ho, hall⟩
      refine ⟨hseen, ho, hnd, fun p hp hmem => ?_, hall⟩
      rcases List.mem_cons.mp hmem with heq | hold
      · exact hnot (List.mem_map.mpr ⟨p, hp, heq⟩)
      · exact hrest p hp hold

theorem Node.ids_occurrences_perm (n : Node) (path : Shape.Path) :
    ((occurrences n path).map fun o => o.1.id).Perm n.ids := by
  have := (n.occurrences_perm path).map Node.id
  rwa [List.map_map] at this

/-- **A well-formed node has no issue exactly when it repeats no identifier and all its nodes keep the limits.** -/
theorem nodeIssues_eq_nil_iff {n : Node} {path : Shape.Path} :
    nodeIssues limits n path = [] ↔ n.ids.Nodup ∧ ∀ each ∈ n.preorder, each.component.Within limits := by
  have hall : (∀ o ∈ occurrences n path, o.1.component.Within limits) ↔
      ∀ each ∈ n.preorder, each.component.Within limits := by
    rw [← List.forall_mem_map (f := Prod.fst) (P := fun each : Node => each.component.Within limits)]
    exact forall_congr' fun each => imp_congr_left (n.occurrences_perm path).mem_iff
  rw [nodeIssues, occurrenceIssues_eq_nil_iff, (n.ids_occurrences_perm path).nodup_iff, hall]
  simp

theorem messageIssues_eq_nil_iff {m : Message} : messageIssues limits m = [] ↔ m.Within limits := by
  cases m with
  | component data complete => exact nodeIssues_eq_nil_iff
  | update id props => exact sizeIssues_eq_nil_iff
  | remove id => exact ⟨fun _ => trivial, fun _ => rfl⟩
  | action data => exact ⟨fun _ => trivial, fun _ => rfl⟩
  | error message recoverable => exact ⟨fun _ => trivial, fun _ => rfl⟩

/-! ### Checked messages -/

theorem whenClear_eq_ok_iff {α : Type} {issues : List Issue} {a b : α} :
    whenClear issues a = .ok b ↔ issues = [] ∧ a = b := by
  rw [whenClear]
  cases issues <;> simp

/-- **An accepted message keeps the limits.** -/
theorem within_of_checkMessage {raw : Value} {m : Message} (h : checkMessage limits raw = .ok m) : m.Within limits := by
  cases raw with
  | obj fields =>
    rw [checkMessage] at h
    cases hdepth : messageDepthIssues limits fields with
    | cons issue issues =>
      rw [hdepth] at h
      exact absurd h (by simp)
    | nil =>
      rw [hdepth] at h
      cases hshape : Message.check fields with
      | error faults =>
        simp only [hshape] at h
        exact absurd h (by simp)
      | ok message =>
        simp only [hshape] at h
        obtain ⟨hclear, rfl⟩ := whenClear_eq_ok_iff.mp h
        exact messageIssues_eq_nil_iff.mp hclear
  | _ => exact absurd h (by simp [checkMessage])

end ComponentStream.Protocol
