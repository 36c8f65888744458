import ComponentStream.Proofs.Tree.Adopt
import ComponentStream.Proofs.Tree.Placing

/-!
# One placement

A placement drops the undeclared children, stores the component and gives it its place.  Carried out on a tree in
the middle of an insertion, it leaves a tree in the middle of the insertion, one placement further.

* `Tree.PlacingStep` — one placement at work;
* `Tree.PlacingStep.put` — the state after it;
* `Tree.Placing.foldl_put` — the state after a series of them.
-/

namespace ComponentStream.Tree

variable {t₀ t : Tree} {top : String} {done : List Placement} {p : Placement} {gone : List String}

/-! ### The entries after a placement -/

theorem put_eq_adopt (hdrop : t.dropUndeclared p.id p.declared = t.without gone) :
    t.put p = ((t.without gone).store p.component p.declared).adopt p.id p.parent := by
  rw [← hdrop]
  rfl

theorem get?_components_put (hdrop : t.dropUndeclared p.id p.declared = t.without gone) (k : String) :
    Assoc.get? k (t.put p).components =
      if k = p.id then some p.component else if k ∈ gone then none else Assoc.get? k t.components := by
  rw [put_eq_adopt hdrop, adopt_components, get?_components_store, get?_components_without]
  rfl

theorem contains_put (hdrop : t.dropUndeclared p.id p.declared = t.without gone) {k : String} :
    (t.put p).contains k = true ↔ k = p.id ∨ (k ∉ gone ∧ t.contains k = true) := by
  rw [contains, Assoc.contains, get?_components_put hdrop]
  by_cases hk : k = p.id
  · simp [hk]
  · by_cases hg : k ∈ gone
    · simp [hk, hg]
    · simp [hk, hg, contains, Assoc.contains]

theorem parent?_put (hdrop : t.dropUndeclared p.id p.declared = t.without gone) (k : String) :
    (t.put p).parent? k =
      if k = p.id then p.parent.or ((t.without gone).parent? k) else (t.without gone).parent? k := by
  rw [put_eq_adopt hdrop, parent?_adopt]
  rfl

theorem owns_put_of_ne (hdrop : t.dropUndeclared p.id p.declared = t.without gone) {q c : String} (hc : c ≠ p.id) :
    (t.put p).Owns q c ↔ c ∉ gone ∧ t.Owns q c := by
  rw [Owns, parent?_put hdrop, if_neg hc]
  exact owns_without

/-- A list of children stays as it is, unless the component that is placed leaves it. -/
theorem get?_childIds_put (hdrop : t.dropUndeclared p.id p.declared = t.without gone) {k : String}
    (h : (t.without gone).Owns k p.id → p.parent = none ∨ p.parent = some k) :
    Assoc.get? k (t.put p).childIds =
      if k = p.id then some p.declared else if k ∈ gone then none else Assoc.get? k t.childIds := by
  have hadopt : Assoc.get? k (((t.without gone).store p.component p.declared).adopt p.id p.parent).childIds =
      Assoc.get? k ((t.without gone).store p.component p.declared).childIds := get?_childIds_adopt_of_ne h
  rw [put_eq_adopt hdrop, hadopt, get?_childIds_store, get?_childIds_without]
  rfl

theorem get?_childIds_put_former (hdrop : t.dropUndeclared p.id p.declared = t.without gone) {q k : String}
    (hparent : p.parent = some q) (ho : (t.without gone).Owns k p.id) (hq : k ≠ q) (hk : k ≠ p.id) :
    Assoc.get? k (t.put p).childIds = (Assoc.get? k (t.without gone).childIds).map (·.erase p.id) := by
  have hadopt : Assoc.get? k (((t.without gone).store p.component p.declared).adopt p.id (some q)).childIds =
      (Assoc.get? k ((t.without gone).store p.component p.declared).childIds).map (·.erase p.id) :=
    get?_childIds_adopt_former ho hq
  rw [put_eq_adopt hdrop, hparent, hadopt, get?_childIds_store]
  exact congrArg _ (if_neg hk)

theorem Keyed.put (h : t.Keyed) (p : Placement) : (t.put p).Keyed := by
  obtain ⟨gone, hdrop, _⟩ := dropUndeclared_eq_without h p.id p.declared
  rw [put_eq_adopt hdrop]
  exact ((h.without gone).store _ _).adopt _ _

/-! ### One placement -/

/-- One placement at work: what it finds, and what it has dropped. -/
structure PlacingStep (t₀ : Tree) (top : String) (done : List Placement) (t : Tree) (p : Placement)
    (gone : List String) : Prop where
  sound : t₀.Sound
  placing : Placing t₀ top done t
  next : Next top done p
  /-- The component is no ancestor of the top. -/
  free : ¬ t₀.Ancestor p.id top
  drop : t.dropUndeclared p.id p.declared = t.without gone
  cut : t.Cut (t.undeclared p.id p.declared (t.children p.id)) gone

namespace PlacingStep

theorem not_mem_gone (s : PlacingStep t₀ top done t p gone) : p.id ∉ gone := fun hg =>
  s.sound.acyclic p.id (s.placing.not_placed_of_gone s.next s.free s.cut hg).2

theorem placed_not_mem_gone (s : PlacingStep t₀ top done t p gone) {d : Placement} (hd : d ∈ done) : d.id ∉ gone :=
  fun hg => (s.placing.not_placed_of_gone s.next s.free s.cut hg).1 (List.mem_map_of_mem hd)

/-- With a component goes everything it owns. -/
theorem gone_of_owner_gone (s : PlacingStep t₀ top done t p gone) {q c : String} (ho : t.Owns q c) (hq : q ∈ gone) :
    c ∈ gone := by
  obtain ⟨_, hc, hmem⟩ := s.placing.owner q c ho
  exact s.cut.closed q hq c (mem_owned.mpr ⟨hmem, ho⟩) hc

/-- What goes is an undeclared child of the component that is placed, or goes with its owner. -/
theorem owner_of_gone (s : PlacingStep t₀ top done t p gone) {q c : String} (ho : t.Owns q c) (hc : c ∈ gone) :
    q ∈ gone ∨ q = p.id := by
  obtain ⟨r, hr, henc⟩ := s.cut.below c hc
  have hrt : t.Owns p.id r := (mem_undeclared.mp hr).2.2
  have hrg : r ∈ gone := s.cut.tops_gone r hr (s.placing.owner _ _ hrt).2.1
  have hdown : ∀ k, t.Encloses r k → k ∈ gone := by
    intro k hk
    induction hk with
    | refl => exact hrg
    | tail _ ho' ih => exact s.gone_of_owner_gone ho' ih
  rcases henc.cases_parent with rfl | ⟨q', hq', hrq⟩
  · exact Or.inr (Option.some.inj (ho.symm.trans hrt))
  · obtain rfl : q' = q := Option.some.inj (hq'.symm.trans ho)
    exact Or.inl (hdown q' hrq)

/-- A child that stays with the component that is placed is declared. -/
theorem declared_of_not_gone (s : PlacingStep t₀ top done t p gone) {c : String} (ho : t.Owns p.id c)
    (hc : c ∉ gone) : c ∈ p.declared := by
  by_contra hdec
  obtain ⟨_, hstored, hmem⟩ := s.placing.owner _ _ ho
  exact hc (s.cut.tops_gone c (mem_undeclared.mpr ⟨hmem, hdec, ho⟩) hstored)

/-- Nothing owns itself. -/
theorem not_owns_self (s : PlacingStep t₀ top done t p gone) : ¬ t.Owns p.id p.id := fun ho =>
  s.sound.acyclic p.id (s.placing.owns_old s.next.fresh ho).ancestor

/-- No root is dropped. -/
theorem root_not_mem_gone (s : PlacingStep t₀ top done t p gone) {k : String} (hk : k ∈ t.rootIds) : k ∉ gone := by
  intro hg
  obtain ⟨hkd, hanc⟩ := s.placing.not_placed_of_gone s.next s.free s.cut hg
  obtain ⟨q, hq, _⟩ := hanc.cases_parent
  rw [s.placing.roots] at hk
  rcases List.mem_append.mp hk with hold | hnew
  · have hnone := ((s.sound.root_iff k).mp (mem_leftAlone.mp hold).1).2
    exact absurd (hnone.symm.trans hq) (by simp)
  · by_cases hcond : done = [] ∨ t₀.contains top = true
    · rw [if_pos hcond] at hnew
      exact absurd hnew List.not_mem_nil
    · rw [if_neg hcond] at hnew
      obtain rfl := List.mem_singleton.mp hnew
      exact hcond (Or.inr (s.sound.stored_of_owns hq))

theorem rootIds_without (s : PlacingStep t₀ top done t p gone) : (t.without gone).rootIds = t.rootIds := by
  show t.rootIds.filter _ = t.rootIds
  apply List.filter_eq_self.mpr
  intro k hk
  simpa using s.root_not_mem_gone hk

/-! ### Lists of children after a placement -/

theorem childIds_self (s : PlacingStep t₀ top done t p gone) :
    Assoc.get? p.id (t.put p).childIds = some p.declared := by
  rw [get?_childIds_put s.drop, if_pos rfl]
  intro ho
  exact absurd (owns_without.mp ho).2 s.not_owns_self

theorem childIds_placed (s : PlacingStep t₀ top done t p gone) {d : Placement} (hd : d ∈ done) :
    Assoc.get? d.id (t.put p).childIds = some d.declared := by
  rw [get?_childIds_put s.drop, if_neg (s.next.ne hd), if_neg (s.placed_not_mem_gone hd),
    s.placing.placed_children d hd]
  intro ho
  have hmem := (s.placing.owner _ _ (owns_without.mp ho).2).2.2
  rw [s.placing.children_placed hd] at hmem
  exact Or.inr (s.next.only d hd hmem)

/-- A component that has not been placed keeps its children but the one that is placed, if that one moves. -/
theorem childIds_other (s : PlacingStep t₀ top done t p gone) {k : String} (hk : k ∉ done.map Placement.id)
    (hne : k ≠ p.id) (hstored : t.contains k = true) (hg : k ∉ gone) :
    Assoc.get? k (t.put p).childIds = (Assoc.get? k t.childIds).map (leftAlone (movedIds [p])) := by
  have hlist : ∀ cs, Assoc.get? k t.childIds = some cs → t.children k = cs := fun cs hcs => by
    rw [children, hcs]
    rfl
  -- the top leaves no list; any other component leaves that of its former parent, which may be this one
  rcases s.next.origin with ⟨hnone, _, _⟩ | ⟨_, d, hd, hsome, _⟩
  · have hid : leftAlone (movedIds [p]) = id := by
      funext cs
      rw [movedIds_of_none hnone]
      exact leftAlone_nil cs
    rw [get?_childIds_put s.drop (fun _ => Or.inl hnone), if_neg hne, if_neg hg, hid, Option.map_id]
    rfl
  · have hmoved : movedIds [p] = [p.id] := movedIds_of_some hsome
    have hkd : k ≠ d.id := fun he => hk (he ▸ List.mem_map_of_mem hd)
    by_cases ho : t.Owns k p.id
    · have ho' : (t.without gone).Owns k p.id := owns_without.mpr ⟨s.not_mem_gone, ho⟩
      rw [get?_childIds_put_former s.drop hsome ho' hkd hne, get?_childIds_without, if_neg hg, hmoved]
      cases hcs : Assoc.get? k t.childIds with
      | none => rfl
      | some cs =>
        have hnd : cs.Nodup := hlist cs hcs ▸ s.placing.siblings_nodup s.sound hk hstored
        rw [Option.map_some, Option.map_some, erase_eq_leftAlone hnd]
    · have hput := get?_childIds_put s.drop (k := k) (fun ho' => absurd (owns_without.mp ho').2 ho)
      rw [hput, if_neg hne, if_neg hg]
      cases hcs : Assoc.get? k t.childIds with
      | none => rfl
      | some cs =>
        rw [Option.map_some, leftAlone_eq_self]
        intro c hc
        rw [hmoved, List.mem_singleton]
        rintro rfl
        exact ho (s.placing.unmoved k _ hk (hlist cs hcs ▸ hc))

/-! ### The state after a placement -/

theorem not_mem_placed {k : String} : k ∉ (done ++ [p]).map Placement.id ↔ k ∉ done.map Placement.id ∧ k ≠ p.id := by
  rw [List.map_append, List.mem_append, not_or]
  simp

theorem put_kept (s : PlacingStep t₀ top done t p gone) {k : String} (hk : k ∉ (done ++ [p]).map Placement.id)
    (hstored : (t.put p).contains k = true) :
    Assoc.get? k (t.put p).components = Assoc.get? k t₀.components ∧
      Assoc.get? k (t.put p).childIds = (Assoc.get? k t₀.childIds).map (leftAlone (movedIds (done ++ [p]))) ∧
      (t.put p).parent? k = t₀.parent? k := by
  obtain ⟨hkd, hne⟩ := not_mem_placed.mp hk
  obtain ⟨hg, hst⟩ := ((contains_put s.drop).mp hstored).resolve_left hne
  obtain ⟨hcomp, hchild, hpar⟩ := s.placing.kept k hkd hst
  refine ⟨?_, ?_, ?_⟩
  · rw [get?_components_put s.drop, if_neg hne, if_neg hg, hcomp]
  · have hcompose : leftAlone (movedIds [p]) ∘ leftAlone (movedIds done) = leftAlone (movedIds (done ++ [p])) := by
      funext cs
      rw [movedIds_append]
      exact leftAlone_leftAlone _ _ cs
    rw [s.childIds_other hkd hne hst hg, hchild, Option.map_map, hcompose]
  · rw [parent?_put s.drop, if_neg hne, parent?_without, if_neg hg, hpar]

theorem not_contains_put (s : PlacingStep t₀ top done t p gone) {k : String} (hstored : ¬ (t.put p).contains k = true) :
    k ≠ p.id ∧ (k ∈ gone ∨ ¬ t.contains k = true) := by
  rw [contains_put s.drop, not_or, not_and_or, not_not] at hstored
  exact hstored

theorem put_lost (s : PlacingStep t₀ top done t p gone) {k : String} (hstored : ¬ (t.put p).contains k = true) :
    Assoc.get? k (t.put p).childIds = none ∧ (t.put p).parent? k = none := by
  obtain ⟨hne, hnot⟩ := s.not_contains_put hstored
  have hentries : (if k ∈ gone then none else Assoc.get? k t.childIds) = none ∧ (t.without gone).parent? k = none := by
    rw [parent?_without]
    rcases hnot with hg | hst
    · rw [if_pos hg, if_pos hg]
      exact ⟨rfl, rfl⟩
    · obtain ⟨hchild, hpar⟩ := s.placing.lost k hst
      rw [hchild, hpar, ite_self, ite_self]
      exact ⟨rfl, rfl⟩
  have hno : ¬ (t.without gone).Owns k p.id := by
    intro ho
    obtain ⟨_, ho'⟩ := owns_without.mp ho
    obtain ⟨hst, _, _⟩ := s.placing.owner _ _ ho'
    exact hnot.elim (fun hg => s.not_mem_gone (s.gone_of_owner_gone ho' hg)) (fun hn => hn hst)
  rw [get?_childIds_put s.drop (fun ho => absurd ho hno), if_neg hne, parent?_put s.drop, if_neg hne]
  exact hentries

theorem put_below (s : PlacingStep t₀ top done t p gone) {k : String} (hold : t₀.contains k = true)
    (hstored : ¬ (t.put p).contains k = true) : ∃ d ∈ done ++ [p], t₀.Ancestor d.id k := by
  rcases (s.not_contains_put hstored).2 with hg | hst
  · exact ⟨p, List.mem_append_right _ List.mem_cons_self, (s.placing.not_placed_of_gone s.next s.free s.cut hg).2⟩
  · obtain ⟨d, hd, hanc⟩ := s.placing.below k hold hst
    exact ⟨d, List.mem_append_left _ hd, hanc⟩

theorem put_owns_self (s : PlacingStep t₀ top done t p gone) {q : String} (ho : (t.put p).Owns q p.id) :
    (∃ d ∈ done, d.id = q ∧ p.id ∈ d.declared) ∨ (p.parent = none ∧ t.Owns q p.id) := by
  rw [Owns, parent?_put s.drop, if_pos rfl, parent?_without, if_neg s.not_mem_gone] at ho
  rcases s.next.origin with ⟨hnone, _, _⟩ | ⟨_, d, hd, hsome, hdec⟩
  · rw [hnone, Option.none_or] at ho
    exact Or.inr ⟨hnone, ho⟩
  · rw [hsome, Option.some_or] at ho
    exact Or.inl ⟨d, hd, Option.some.inj ho, hdec⟩

/-- A stored component that has not been placed still lists what it owns, but for what moves. -/
theorem mem_children_put (s : PlacingStep t₀ top done t p gone) {q c : String} (ho : t.Owns q c) (hq : q ∉ gone)
    (hc : c ∉ gone) (hmove : c = p.id → p.parent = none) : c ∈ (t.put p).children q := by
  obtain ⟨hqs, _, hmem⟩ := s.placing.owner q c ho
  by_cases hqp : q = p.id
  · subst hqp
    rw [children, s.childIds_self]
    exact s.declared_of_not_gone ho hc
  · by_cases hqd : q ∈ done.map Placement.id
    · obtain ⟨d, hd, rfl⟩ := List.mem_map.mp hqd
      rw [s.placing.children_placed hd] at hmem
      rw [children, s.childIds_placed hd]
      exact hmem
    · rw [children, s.childIds_other hqd hqp hqs hq]
      rw [children] at hmem
      cases hcs : Assoc.get? q t.childIds with
      | none =>
        rw [hcs] at hmem
        exact absurd hmem List.not_mem_nil
      | some cs =>
        rw [hcs] at hmem
        refine mem_leftAlone.mpr ⟨hmem, ?_⟩
        intro hm
        obtain ⟨d, hd, hdc⟩ := List.mem_map.mp hm
        obtain ⟨hdp, hsome⟩ := List.mem_filter.mp hd
        obtain rfl := List.mem_singleton.mp hdp
        rw [hmove hdc.symm] at hsome
        exact absurd hsome (by simp)

theorem put_owner (s : PlacingStep t₀ top done t p gone) {q c : String} (ho : (t.put p).Owns q c) :
    (t.put p).contains q = true ∧ (t.put p).contains c = true ∧ c ∈ (t.put p).children q := by
  have hkeep : ∀ {q c : String}, t.Owns q c → c ∉ gone → (c = p.id → p.parent = none) →
      (t.put p).contains q = true ∧ (t.put p).contains c = true ∧ c ∈ (t.put p).children q := by
    intro q c ho' hc hmove
    obtain ⟨hqs, hcs, _⟩ := s.placing.owner q c ho'
    have hq : q ∉ gone := fun hq => hc (s.gone_of_owner_gone ho' hq)
    exact ⟨(contains_put s.drop).mpr (Or.inr ⟨hq, hqs⟩), (contains_put s.drop).mpr (Or.inr ⟨hc, hcs⟩),
      s.mem_children_put ho' hq hc hmove⟩
  by_cases hcp : c = p.id
  · subst hcp
    rcases s.put_owns_self ho with ⟨d, hd, rfl, hdec⟩ | ⟨hnone, ho'⟩
    · refine ⟨(contains_put s.drop).mpr (Or.inr ⟨s.placed_not_mem_gone hd, s.placing.contains_placed hd⟩),
        (contains_put s.drop).mpr (Or.inl rfl), ?_⟩
      rw [children, s.childIds_placed hd]
      exact hdec
    · exact hkeep ho' s.not_mem_gone fun _ => hnone
  · obtain ⟨hc, ho'⟩ := (owns_put_of_ne s.drop hcp).mp ho
    exact hkeep ho' hc fun he => absurd he hcp

theorem put_unmoved (s : PlacingStep t₀ top done t p gone) {q c : String} (hq : q ∉ (done ++ [p]).map Placement.id)
    (hc : c ∈ (t.put p).children q) : (t.put p).Owns q c := by
  obtain ⟨hqd, hqp⟩ := not_mem_placed.mp hq
  by_cases hstored : (t.put p).contains q = true
  · obtain ⟨hg, hst⟩ := ((contains_put s.drop).mp hstored).resolve_left hqp
    rw [children, s.childIds_other hqd hqp hst hg] at hc
    cases hcs : Assoc.get? q t.childIds with
    | none =>
      rw [hcs] at hc
      exact absurd hc List.not_mem_nil
    | some cs =>
      rw [hcs] at hc
      obtain ⟨hmem, hnm⟩ := mem_leftAlone.mp hc
      have ho : t.Owns q c := s.placing.unmoved q c hqd (by rw [children, hcs]; exact hmem)
      have hcg : c ∉ gone := fun hcg => (s.owner_of_gone ho hcg).elim hg hqp
      by_cases hcp : c = p.id
      · subst hcp
        have hnone : p.parent = none := by
          cases hpar : p.parent with
          | none => rfl
          | some r => exact absurd (by simp [movedIds, hpar]) hnm
        rw [Owns, parent?_put s.drop, if_pos rfl, hnone, Option.none_or, parent?_without, if_neg hcg]
        exact ho
      · exact (owns_put_of_ne s.drop hcp).mpr ⟨hcg, ho⟩
  · rw [children, (s.put_lost hstored).1] at hc
    exact absurd hc List.not_mem_nil

/-- The place of the top among the roots is free if and only if the top was not stored before. -/
theorem top_taken_iff (s : PlacingStep t₀ top [] t p gone) (htop : p.id = top) :
    (Assoc.contains p.id (t.without gone).parentIds = true ∨ t.rootIds.contains p.id = true) ↔
      t₀.contains top = true := by
  have hpar : Assoc.contains p.id (t.without gone).parentIds = true ↔ ∃ q, t.Owns q p.id := by
    rw [Assoc.contains, Option.isSome_iff_exists]
    show (∃ q, (t.without gone).Owns q p.id) ↔ _
    exact exists_congr fun q => owns_without.trans (and_iff_right s.not_mem_gone)
  have hroots : t.rootIds = t₀.rootIds := by
    rw [s.placing.roots, if_pos (Or.inl rfl), List.append_nil]
    exact leftAlone_nil _
  rw [hpar, hroots, htop, List.contains_iff_mem, s.sound.root_iff]
  constructor
  · rintro (⟨q, ho⟩ | ⟨hst, _⟩)
    · exact s.sound.stored_of_owns (s.placing.owns_old List.not_mem_nil ho)
    · exact hst
  · intro hst
    cases hq : t₀.parent? top with
    | none => exact Or.inr ⟨hst, rfl⟩
    | some q => exact Or.inl ⟨q, (s.placing.parent?_of_nil s.sound top).trans hq⟩

theorem put_roots (s : PlacingStep t₀ top done t p gone) :
    (t.put p).rootIds = leftAlone (movedIds (done ++ [p])) t₀.rootIds ++
      if done ++ [p] = [] ∨ t₀.contains top = true then [] else [top] := by
  have hnew : ¬ done ++ [p] = [] := by simp
  have hroots : ((t.without gone).store p.component p.declared).rootIds = t.rootIds := s.rootIds_without
  have hparents : ((t.without gone).store p.component p.declared).parentIds = (t.without gone).parentIds := rfl
  rw [put_eq_adopt s.drop, movedIds_append]
  -- only the first placement can add a root, and only the later ones can take one away
  rcases s.next.origin with ⟨hnone, htop, rfl⟩ | ⟨hne, d, hd, hsome, _⟩
  · have hcond := s.top_taken_iff htop
    rw [hnone, adopt_none, hroots, hparents, s.placing.roots, if_pos (Or.inl rfl), List.append_nil,
      movedIds_of_none hnone, List.append_nil]
    rw [s.placing.roots, if_pos (Or.inl rfl), List.append_nil] at hcond
    by_cases hst : t₀.contains top = true
    · rw [if_pos (hcond.mpr hst), if_pos (Or.inr hst)]
    · rw [if_neg (fun hc => hst (hcond.mp hc)), if_neg (fun hc => hc.elim hnew hst), htop]
  · have hdone : ¬ done = [] := fun he => absurd (he ▸ hd) List.not_mem_nil
    rw [hsome, rootIds_adopt_below, hroots, erase_eq_leftAlone s.placing.keyed.rootIds, s.placing.roots,
      movedIds_of_some hsome]
    show List.filter _ (_ ++ _) = _
    rw [List.filter_append]
    congr 1
    · exact leftAlone_leftAlone _ _ _
    · by_cases hst : t₀.contains top = true
      · rw [if_pos (Or.inr hst), if_pos (Or.inr hst)]
        rfl
      · rw [if_neg (fun hc => hc.elim hdone hst), if_neg (fun hc => hc.elim hnew hst)]
        simpa using fun he : top = p.id => hne he.symm

/-- **One placement takes a tree in the middle of an insertion one placement further.** -/
theorem put (s : PlacingStep t₀ top done t p gone) : Placing t₀ top (done ++ [p]) (t.put p) where
  keyed := s.placing.keyed.put p
  grounded := by
    intro d hd
    rcases List.mem_append.mp hd with hold | hnew
    · rcases s.placing.grounded d hold with htop | ⟨e, he, hpar⟩
      · exact Or.inl htop
      · exact Or.inr ⟨e, List.mem_append_left _ he, hpar⟩
    · obtain rfl := List.mem_singleton.mp hnew
      rcases s.next.origin with ⟨hnone, htop, _⟩ | ⟨_, e, he, hpar, _⟩
      · exact Or.inl ⟨hnone, htop⟩
      · exact Or.inr ⟨e, List.mem_append_left _ he, hpar⟩
  placed_component := by
    intro d hd
    rw [get?_components_put s.drop]
    rcases List.mem_append.mp hd with hold | hnew
    · rw [if_neg (s.next.ne hold), if_neg (s.placed_not_mem_gone hold)]
      exact s.placing.placed_component d hold
    · obtain rfl := List.mem_singleton.mp hnew
      rw [if_pos rfl]
  placed_children := by
    intro d hd
    rcases List.mem_append.mp hd with hold | hnew
    · exact s.childIds_placed hold
    · obtain rfl := List.mem_singleton.mp hnew
      exact s.childIds_self
  placed_parent := by
    intro d hd
    rw [parent?_put s.drop]
    rcases List.mem_append.mp hd with hold | hnew
    · rw [if_neg (s.next.ne hold), parent?_without, if_neg (s.placed_not_mem_gone hold)]
      exact s.placing.placed_parent d hold
    · obtain rfl := List.mem_singleton.mp hnew
      rw [if_pos rfl, parent?_without, if_neg s.not_mem_gone]
      rcases s.next.origin with ⟨hnone, _, rfl⟩ | ⟨_, e, _, hsome, _⟩
      · rw [hnone, Option.none_or, Option.none_or]
        exact s.placing.parent?_of_nil s.sound d.id
      · rw [hsome, Option.some_or, Option.some_or]
  kept := fun _ hk hst => s.put_kept hk hst
  lost := fun _ hst => s.put_lost hst
  below := fun _ hold hst => s.put_below hold hst
  owner := fun _ _ ho => s.put_owner ho
  unmoved := fun _ _ hq hc => s.put_unmoved hq hc
  roots := s.put_roots

end PlacingStep

/-! ### All placements -/

namespace Placing

theorem put (h : Placing t₀ top done t) (h₀ : t₀.Sound) (hn : Next top done p) (hfree : ¬ t₀.Ancestor p.id top) :
    Placing t₀ top (done ++ [p]) (t.put p) := by
  obtain ⟨gone, hdrop, hcut⟩ := dropUndeclared_eq_without h.keyed p.id p.declared
  exact PlacingStep.put ⟨h₀, h, hn, hfree, hdrop, hcut⟩

/-- A series of placements below earlier ones, each component placed once and under the one that declares it. -/
theorem foldl_put (h₀ : t₀.Sound) (rest : List Placement) :
    ∀ (done : List Placement) (t : Tree), Placing t₀ top done t → top ∈ done.map Placement.id →
      Grounded done rest → ((done ++ rest).map Placement.id).Nodup →
      (∀ d ∈ done ++ rest, ∀ c ∈ d.declared, ∃ q ∈ done ++ rest, q.id = c ∧ q.parent = some d.id) →
      (∀ q ∈ rest, ¬ t₀.Ancestor q.id top) → Placing t₀ top (done ++ rest) (rest.foldl Tree.put t) := by
  induction rest with
  | nil =>
    intro done t h _ _ _ _ _
    rw [List.append_nil]
    exact h
  | cons p rest ih =>
    intro done t h htop hground hnd hdecl hfree
    obtain ⟨⟨d, hd, hpar, hdec⟩, hrest⟩ := hground
    have hassoc : done ++ p :: rest = (done ++ [p]) ++ rest := by simp
    have hmem : p ∈ done ++ p :: rest := List.mem_append_right _ List.mem_cons_self
    have hfresh : p.id ∉ done.map Placement.id := by
      rw [List.map_append, List.map_cons] at hnd
      exact fun hm => (List.nodup_append.mp hnd).2.2 p.id hm p.id List.mem_cons_self rfl
    have honly : ∀ e ∈ done, p.id ∈ e.declared → p.parent = some e.id := by
      intro e he hc
      obtain ⟨q, hq, hid, hqpar⟩ := hdecl e (List.mem_append_left _ he) p.id hc
      rw [← List.inj_on_of_nodup_map hnd hq hmem hid]
      exact hqpar
    have hne : p.id ≠ top := fun he => hfresh (he ▸ htop)
    have hstep := h.put h₀ ⟨hfresh, Or.inr ⟨hne, d, hd, hpar, hdec⟩, honly⟩ (hfree p List.mem_cons_self)
    rw [hassoc] at hnd hdecl ⊢
    refine ih (done ++ [p]) (t.put p) hstep ?_ hrest hnd hdecl fun q hq => hfree q (List.mem_cons_of_mem _ hq)
    rw [List.map_append]
    exact List.mem_append_left _ htop

end Placing

end ComponentStream.Tree
