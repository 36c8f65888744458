import ComponentStream.Proofs.Traversal
import ComponentStream.Proofs.Tree.Ancestors
import ComponentStream.Proofs.Tree.PlacingStep

/-!
# Inserting a node

When all placements of a node have been carried out, nothing is left of the disorder in between: the tree is sound,
and every entry can be told from the node and the tree before.

* `Tree.Insertable` — what a node has to satisfy to be inserted;
* `Tree.insert_eq_ok_iff` — the check of an insertion is just that;
* `Tree.Insertable.contains_attach` — which components are stored afterwards;
* `Tree.Sound.attach` — the tree afterwards is sound.
-/

namespace ComponentStream.Tree

open Protocol (Component Node)

variable {t t' : Tree} {n : Node}

/-- A node declares no identifier twice and none of an ancestor of its top. -/
structure Insertable (t : Tree) (n : Node) : Prop where
  ids_nodup : n.ids.Nodup
  free : ∀ id ∈ n.ids, ¬ t.Ancestor id n.id

/-! ### The check -/

theorem hasRepeats_eq_false_iff {ids : List String} : hasRepeats ids = false ↔ ids.Nodup := by
  induction ids with
  | nil => simp [hasRepeats]
  | cons id ids ih => simp [hasRepeats, ih]

theorem insert_eq_ok_iff (h : t.Sound) : t.insert n = .ok t' ↔ t.Insertable n ∧ t' = t.attach none n := by
  obtain ⟨above, habove, hmem⟩ := h.ancestors_eq_ok n.id
  have hids : n.preorder.map Node.id = n.ids := rfl
  simp only [insert, Node.walk_eq_preorder, habove, hids]
  by_cases hrep : hasRepeats n.ids = true
  · rw [if_pos hrep]
    refine ⟨fun he => absurd he (by simp), fun hi => ?_⟩
    rw [hasRepeats_eq_false_iff.mpr hi.1.ids_nodup] at hrep
    exact absurd hrep (by simp)
  · rw [if_neg hrep]
    have hnd : n.ids.Nodup := hasRepeats_eq_false_iff.mp (by simpa using hrep)
    cases hfind : n.ids.find? above.contains with
    | some id =>
      have hid : id ∈ above := by simpa using List.find?_some hfind
      refine ⟨fun he => absurd he (by simp), fun hi => ?_⟩
      exact absurd ((hmem id).mp hid) (hi.1.free id (List.mem_of_find?_eq_some hfind))
    | none =>
      rw [List.find?_eq_none] at hfind
      constructor
      · intro he
        refine ⟨⟨hnd, fun id hid hanc => ?_⟩, (Except.ok.inj he).symm⟩
        exact hfind id hid (by simpa using (hmem id).mpr hanc)
      · rintro ⟨_, rfl⟩
        rfl

/-! ### The tree afterwards -/

theorem Insertable.placements_nodup (hi : t.Insertable n) : ((n.placements none).map Placement.id).Nodup := by
  rw [Node.map_id_placements]
  exact hi.ids_nodup

/-- Entering a node leaves a tree with all its placements carried out. -/
theorem Insertable.placing (hi : t.Insertable n) (h : t.Sound) :
    Placing t n.id (n.placements none) (t.attach none n) := by
  have hmem : ∀ q ∈ n.placements none, q.id ∈ n.ids := fun q hq => Node.id_mem_ids_of_placement hq
  have hdecl := n.exists_placement_of_declared none
  have hnd := hi.placements_nodup
  rw [attach_eq_foldl]
  rw [Node.placements_eq_cons] at hmem hdecl hnd ⊢
  have hnext : Next n.id [] ⟨none, n.component, n.childList.map Node.id⟩ :=
    ⟨List.not_mem_nil, Or.inl ⟨rfl, rfl, rfl⟩, fun d hd => absurd hd List.not_mem_nil⟩
  have hfirst := (Placing.start h n.id).put h hnext (h.acyclic n.id)
  exact hfirst.foldl_put h _ _ _ List.mem_cons_self n.grounded_placements hnd hdecl
    fun q hq => hi.free q.id (hmem q (List.mem_cons_of_mem _ hq))

/-- A component outside the node that is stored afterwards has its old entries, less the children that have moved. -/
theorem Insertable.kept (hi : t.Insertable n) (h : t.Sound) {k : String} (hk : k ∉ n.ids)
    (hstored : (t.attach none n).contains k = true) :
    Assoc.get? k (t.attach none n).components = Assoc.get? k t.components ∧
      Assoc.get? k (t.attach none n).childIds =
        (Assoc.get? k t.childIds).map (leftAlone (movedIds (n.placements none))) ∧
      (t.attach none n).parent? k = t.parent? k :=
  (hi.placing h).kept k (by rwa [Node.map_id_placements]) hstored

/-- What a component of the node lists as children belongs to the node. -/
theorem Insertable.mem_ids_of_owned (hi : t.Insertable n) (h : t.Sound) {q c : String} (hq : q ∈ n.ids)
    (hc : c ∈ (t.attach none n).children q) : c ∈ n.ids ∧ (t.attach none n).Owns q c := by
  have hp := hi.placing h
  obtain ⟨d, hd, rfl⟩ := Node.exists_placement none hq
  rw [hp.children_placed hd] at hc
  obtain ⟨e, he, rfl, hpar⟩ := n.exists_placement_of_declared none d hd c hc
  refine ⟨Node.id_mem_ids_of_placement he, ?_⟩
  rw [Owns, hp.placed_parent e he, hpar, Option.some_or]

/-- What is stored afterwards and does not belong to the node lay below none of its components. -/
theorem Insertable.not_encloses (hi : t.Insertable n) (h : t.Sound) {a k : String} (ha : a ∈ n.ids)
    (henc : t.Encloses a k) : k ∉ n.ids → ¬ (t.attach none n).contains k = true := by
  have hp := hi.placing h
  -- down from `a`: the first component outside the node would still be a child within it
  induction henc with
  | refl => exact fun hk => absurd ha hk
  | @tail z k _ ho ih =>
    intro hk hstored
    have hnew : (t.attach none n).Owns z k := (hi.kept h hk hstored).2.2.trans ho
    obtain ⟨hz, _, hmem⟩ := hp.owner z k hnew
    by_cases hzn : z ∈ n.ids
    · exact hk (hi.mem_ids_of_owned h hzn hmem).1
    · exact ih hzn hz

/-- **Stored afterwards are the components of the node, and of those before the ones that lay below none of
them.** -/
theorem Insertable.contains_attach (hi : t.Insertable n) (h : t.Sound) (k : String) :
    (t.attach none n).contains k = true ↔ k ∈ n.ids ∨ (t.contains k = true ∧ ∀ a ∈ n.ids, ¬ t.Encloses a k) := by
  have hp := hi.placing h
  by_cases hk : k ∈ n.ids
  · obtain ⟨d, hd, rfl⟩ := Node.exists_placement none hk
    exact ⟨fun _ => Or.inl hk, fun _ => hp.contains_placed hd⟩
  · constructor
    · intro hstored
      refine Or.inr ⟨?_, fun a ha henc => hi.not_encloses h ha henc hk hstored⟩
      rw [contains, Assoc.contains, ← (hi.kept h hk hstored).1]
      exact hstored
    · rintro (hmem | ⟨hstored, hno⟩)
      · exact absurd hmem hk
      · by_contra hgone
        obtain ⟨d, hd, hanc⟩ := hp.below k hstored hgone
        exact hno d.id (Node.id_mem_ids_of_placement hd) hanc.encloses

theorem Insertable.parent?_top (hi : t.Insertable n) (h : t.Sound) : (t.attach none n).parent? n.id = t.parent? n.id :=
  (hi.placing h).placed_parent _ (n.first_mem_placements none)

/-- The way up from a component outside the node never enters it. -/
theorem Insertable.owner_not_mem_ids (hi : t.Insertable n) (h : t.Sound) {q c : String} (hc : c ∉ n.ids)
    (ho : (t.attach none n).Owns q c) : q ∉ n.ids ∧ t.Owns q c := by
  have hp := hi.placing h
  obtain ⟨_, _, hmem⟩ := hp.owner q c ho
  exact ⟨fun hq => hc (hi.mem_ids_of_owned h hq hmem).1, hp.owns_old (by rwa [Node.map_id_placements]) ho⟩

/-- Outside the node every way up ends, because it is an old one. -/
theorem Insertable.acc_of_not_mem_ids (hi : t.Insertable n) (h : t.Sound) (c : String) (hc : c ∉ n.ids) :
    Acc (t.attach none n).Owns c := by
  induction c using h.grounded.induction with
  | _ c ih =>
    refine Acc.intro c fun q ho => ?_
    obtain ⟨hq, hold⟩ := hi.owner_not_mem_ids h hc ho
    exact ih q hold hq

/-- Along a series of placements every way up ends, as each goes below one that came before it. -/
theorem acc_of_grounded {u : Tree} (rest : List Placement) :
    ∀ seen : List Placement, Grounded seen rest → (∀ d ∈ rest, ∀ q, d.parent = some q → u.parent? d.id = some q) →
      (∀ d ∈ seen, Acc u.Owns d.id) → ∀ d ∈ rest, Acc u.Owns d.id := by
  induction rest with
  | nil => exact fun _ _ _ _ d hd => absurd hd List.not_mem_nil
  | cons p rest ih =>
    intro seen hground hpar hseen
    obtain ⟨⟨e, he, hpe, _⟩, hrest⟩ := hground
    have hacc : Acc u.Owns p.id := by
      refine Acc.intro p.id fun q ho => ?_
      have heq : some e.id = some q := (hpar p List.mem_cons_self e.id hpe).symm.trans ho
      exact Option.some.inj heq ▸ hseen e he
    have hseen' : ∀ d ∈ seen ++ [p], Acc u.Owns d.id := by
      intro d hd
      rcases List.mem_append.mp hd with hold | hnew
      · exact hseen d hold
      · exact List.mem_singleton.mp hnew ▸ hacc
    intro d hd
    rcases List.mem_cons.mp hd with rfl | hmem
    · exact hacc
    · exact ih (seen ++ [p]) hrest (fun k hk => hpar k (List.mem_cons_of_mem _ hk)) hseen' d hmem

/-- Within the node every way up comes to the top and leads on from there outside the node. -/
theorem Insertable.acc_of_mem_ids (hi : t.Insertable n) (h : t.Sound) (c : String) (hc : c ∈ n.ids) :
    Acc (t.attach none n).Owns c := by
  have hp := hi.placing h
  have htop : Acc (t.attach none n).Owns n.id := by
    refine Acc.intro n.id fun q ho => ?_
    have hold : t.Owns q n.id := (hi.parent?_top h).symm.trans ho
    exact hi.acc_of_not_mem_ids h q fun hq => hi.free q hq hold.ancestor
  have hpar : ∀ d ∈ Node.placementsAll n.id n.childList, ∀ q, d.parent = some q →
      (t.attach none n).parent? d.id = some q := by
    intro d hd q hq
    have hmem : d ∈ n.placements none := by
      rw [Node.placements_eq_cons]
      exact List.mem_cons_of_mem _ hd
    rw [hp.placed_parent d hmem, hq, Option.some_or]
  obtain ⟨d, hd, rfl⟩ := Node.exists_placement none hc
  rw [Node.placements_eq_cons] at hd
  rcases List.mem_cons.mp hd with rfl | hmem
  · exact htop
  · exact acc_of_grounded _ _ n.grounded_placements hpar (fun e he => List.mem_singleton.mp he ▸ htop) d hmem

/-- Every component of the node but its top goes below another one. -/
theorem Insertable.exists_owner (hi : t.Insertable n) (h : t.Sound) {k : String} (hk : k ∈ n.ids) (hne : k ≠ n.id) :
    ∃ q ∈ n.ids, (t.attach none n).Owns q k := by
  have hp := hi.placing h
  obtain ⟨d, hd, rfl⟩ := Node.exists_placement none hk
  rcases hp.grounded d hd with ⟨_, htop⟩ | ⟨e, he, hpar⟩
  · exact absurd htop hne
  · refine ⟨e.id, Node.id_mem_ids_of_placement he, ?_⟩
    rw [Owns, hp.placed_parent d hd, hpar, Option.some_or]

/-- Moved are the components of the node but its top. -/
theorem Insertable.mem_movedIds_iff (hi : t.Insertable n) (h : t.Sound) {k : String} :
    k ∈ movedIds (n.placements none) ↔ k ∈ n.ids ∧ k ≠ n.id := by
  rw [movedIds, List.mem_map]
  constructor
  · rintro ⟨d, hd, rfl⟩
    obtain ⟨hmem, hsome⟩ := List.mem_filter.mp hd
    refine ⟨Node.id_mem_ids_of_placement hmem, fun he => ?_⟩
    have hfirst := n.first_mem_placements none
    rw [List.inj_on_of_nodup_map hi.placements_nodup hmem hfirst he] at hsome
    exact absurd hsome (by simp)
  · rintro ⟨hk, hne⟩
    obtain ⟨d, hd, rfl⟩ := Node.exists_placement none hk
    rcases (hi.placing h).grounded d hd with ⟨_, htop⟩ | ⟨e, _, hpar⟩
    · exact absurd htop hne
    · exact ⟨d, List.mem_filter.mpr ⟨hd, by rw [hpar]; rfl⟩, rfl⟩

/-- The roots afterwards: those before that have not moved, and the top if it is new. -/
theorem Insertable.rootIds_attach (hi : t.Insertable n) (h : t.Sound) :
    (t.attach none n).rootIds =
      leftAlone (movedIds (n.placements none)) t.rootIds ++ if t.contains n.id = true then [] else [n.id] := by
  have hne : ¬ n.placements none = [] := by
    rw [Node.placements_eq_cons]
    simp
  rw [(hi.placing h).roots]
  by_cases hst : t.contains n.id = true
  · rw [if_pos (Or.inr hst), if_pos hst]
  · rw [if_neg (fun hc => hc.elim hne hst), if_neg hst]

theorem Insertable.mem_rootIds_attach (hi : t.Insertable n) (h : t.Sound) {k : String} :
    k ∈ (t.attach none n).rootIds ↔
      (k ∈ t.rootIds ∧ (k ∉ n.ids ∨ k = n.id)) ∨ (k = n.id ∧ ¬ t.contains n.id = true) := by
  rw [hi.rootIds_attach h, List.mem_append, mem_leftAlone, hi.mem_movedIds_iff h, not_and_or, not_not]
  by_cases hst : t.contains n.id = true
  · simp [hst]
  · simp [hst]

theorem Insertable.root_iff (hi : t.Insertable n) (h : t.Sound) (k : String) :
    k ∈ (t.attach none n).rootIds ↔
      (t.attach none n).contains k = true ∧ (t.attach none n).parent? k = none := by
  rw [hi.mem_rootIds_attach h]
  by_cases hk : k ∈ n.ids
  · have hstored : (t.attach none n).contains k = true := (hi.contains_attach h k).mpr (Or.inl hk)
    by_cases htop : k = n.id
    · subst htop
      rw [hi.parent?_top h]
      constructor
      · rintro (⟨hr, _⟩ | ⟨_, hnew⟩)
        · exact ⟨hstored, ((h.root_iff _).mp hr).2⟩
        · exact ⟨hstored, h.parent?_eq_none_of_not_stored hnew⟩
      · rintro ⟨_, hnone⟩
        by_cases hst : t.contains n.id = true
        · exact Or.inl ⟨(h.root_iff _).mpr ⟨hst, hnone⟩, Or.inr rfl⟩
        · exact Or.inr ⟨rfl, hst⟩
    · obtain ⟨q, _, ho⟩ := hi.exists_owner h hk htop
      constructor
      · rintro (⟨_, hno | he⟩ | ⟨he, _⟩)
        · exact absurd hk hno
        · exact absurd he htop
        · exact absurd he htop
      · rintro ⟨_, hnone⟩
        exact absurd (hnone.symm.trans ho) (by simp)
  · have htop : k ≠ n.id := fun he => hk (he ▸ n.id_mem_ids)
    constructor
    · rintro (⟨hr, _⟩ | ⟨he, _⟩)
      · obtain ⟨hst, hnone⟩ := (h.root_iff k).mp hr
        have hstored : (t.attach none n).contains k = true := by
          refine (hi.contains_attach h k).mpr (Or.inr ⟨hst, fun a ha henc => ?_⟩)
          exact hk (h.eq_of_encloses_root hr henc ▸ ha)
        exact ⟨hstored, (hi.kept h hk hstored).2.2.trans hnone⟩
      · exact absurd he htop
    · rintro ⟨hstored, hnone⟩
      have hst : t.contains k = true := by
        rcases (hi.contains_attach h k).mp hstored with hmem | ⟨hst, _⟩
        · exact absurd hmem hk
        · exact hst
      exact Or.inl ⟨(h.root_iff k).mpr ⟨hst, (hi.kept h hk hstored).2.2.symm.trans hnone⟩, Or.inl hk⟩

/-- **Entering a node keeps a tree sound**, whatever the overlap between the node and what is stored. -/
theorem Sound.attach (h : t.Sound) (hi : t.Insertable n) : (t.attach none n).Sound := by
  have hp := hi.placing h
  have hother : ∀ k, k ∉ n.ids → k ∉ (n.placements none).map Placement.id := fun k hk => by
    rwa [Node.map_id_placements]
  refine Sound.ofLinks hp.keyed ?_ ?_ ?_ (fun q c ho => (hp.owner q c ho).2.1) ?_ (hi.root_iff h) ?_
  · intro k c hc
    by_cases hk : k ∈ n.ids
    · obtain ⟨d, hd, rfl⟩ := Node.exists_placement none hk
      rw [hp.placed_component d hd] at hc
      exact Option.some.inj hc ▸ rfl
    · rw [(hi.kept h hk (Assoc.contains_of_get? hc)).1] at hc
      exact h.id_eq k c hc
  · intro k
    by_cases hstored : (t.attach none n).contains k = true
    · refine ⟨fun _ => hstored, fun _ => ?_⟩
      by_cases hk : k ∈ n.ids
      · obtain ⟨d, hd, rfl⟩ := Node.exists_placement none hk
        exact Assoc.contains_of_get? (hp.placed_children d hd)
      · obtain ⟨hcomp, hchild, _⟩ := hi.kept h hk hstored
        have hst : t.contains k = true := by
          rw [contains, Assoc.contains, ← hcomp]
          exact hstored
        rw [Assoc.contains, hchild, Option.isSome_map]
        exact (h.listed_iff k).mpr hst
    · refine ⟨fun hl => ?_, fun hst => absurd hst hstored⟩
      rw [Assoc.contains, (hp.lost k hstored).1] at hl
      exact absurd hl (by simp)
  · intro q c
    refine ⟨fun ho => (hp.owner q c ho).2.2, fun hc => ?_⟩
    by_cases hq : q ∈ n.ids
    · exact (hi.mem_ids_of_owned h hq hc).2
    · exact hp.unmoved q c (hother q hq) hc
  · intro k
    by_cases hk : k ∈ n.ids
    · obtain ⟨d, hd, rfl⟩ := Node.exists_placement none hk
      rw [hp.children_placed hd]
      exact n.declared_nodup none hi.ids_nodup d hd
    · by_cases hstored : (t.attach none n).contains k = true
      · exact hp.siblings_nodup h (hother k hk) hstored
      · rw [children, (hp.lost k hstored).1]
        exact List.nodup_nil
  · refine ⟨fun c => ?_⟩
    by_cases hc : c ∈ n.ids
    · exact hi.acc_of_mem_ids h c hc
    · exact hi.acc_of_not_mem_ids h c hc

/-- An insertion that succeeds keeps a tree sound. -/
theorem Sound.insert (h : t.Sound) (hins : t.insert n = .ok t') : t'.Sound := by
  obtain ⟨hi, rfl⟩ := (insert_eq_ok_iff h).mp hins
  exact h.attach hi

end ComponentStream.Tree
