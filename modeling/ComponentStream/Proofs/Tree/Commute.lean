import ComponentStream.Proofs.Tree.Rebuild
import ComponentStream.Proofs.Tree.Stamp

/-!
# Insertions apart from each other

Two nodes are *apart* in a tree when they share no component and nothing of one lies above or below anything of the other.
They may still have the same parent, take children from the same list, or drop siblings of each other.  Which of them comes
in first makes no difference all the same: whether both can come in is settled by the tree before, and every entry
afterwards can be told from it, one entry at a time.

* `Tree.Apart`, `Tree.Clear` — the two nodes, and what lies below nothing of a node;
* `Tree.Entry`, `Tree.entry` — all that is stored under one identifier;
* `Tree.Insertable.entry_inside`, `Tree.Insertable.entry_clear`, `Tree.Insertable.entry_beneath` — an insertion, entry by
  entry;
* `Tree.Insertable.encloses_attach_iff`, `Tree.Insertable.encloses_inside` — the ways up afterwards;
* `Tree.Apart.insertable_attach_iff`, `Tree.Apart.entry_attach_comm`, `Tree.Apart.rootIds_attach` — both insertions;
* `Tree.insertAll_comm` — the main result.
-/

namespace ComponentStream.Tree

open Protocol (Component Node)

variable {t u : Tree} {n m : Node} {k : String}

/-! ### Entries -/

/-- What is stored under an identifier: the component, the list of its children, its parent. -/
structure Entry where
  component : Option Component
  children : Option (List String)
  parent : Option String

def entry (t : Tree) (id : String) : Entry := ⟨Assoc.get? id t.components, Assoc.get? id t.childIds, t.parent? id⟩

/-- The entry of an identifier under which nothing is stored. -/
def Entry.vacant : Entry := ⟨none, none, none⟩

/-- An entry without some of its children. -/
def Entry.less (gone : List String) (e : Entry) : Entry := { e with children := e.children.map (leftAlone gone) }

theorem Entry.less_comm (gone gone' : List String) (e : Entry) : (e.less gone).less gone' = (e.less gone').less gone := by
  have hswap : ∀ cs, leftAlone gone' (leftAlone gone cs) = leftAlone gone (leftAlone gone' cs) := fun cs => by
    rw [leftAlone, leftAlone, List.filter_comm]
    rfl
  simp only [less, Option.map_map]
  congr 2
  exact funext hswap

theorem Sound.entry_of_not_stored (h : t.Sound) (hk : ¬ t.contains k = true) : t.entry k = .vacant := by
  obtain ⟨hc, hcs⟩ := h.entries_of_not_stored (by simpa using hk)
  rw [entry, hc, hcs, h.parent?_eq_none_of_not_stored hk]
  rfl

/-- Trees with the same entries have the same maps, up to the order of their entries. -/
theorem Keyed.perm_of_entry_eq (h : t.Keyed) (h' : u.Keyed) (hall : ∀ k, t.entry k = u.entry k) :
    t.components.Perm u.components ∧ t.childIds.Perm u.childIds ∧ t.parentIds.Perm u.parentIds :=
  ⟨Assoc.perm_of_get?_eq h.components h'.components fun k => congrArg Entry.component (hall k),
    Assoc.perm_of_get?_eq h.childIds h'.childIds fun k => congrArg Entry.children (hall k),
    Assoc.perm_of_get?_eq h.parentIds h'.parentIds fun k => congrArg Entry.parent (hall k)⟩

/-! ### One insertion -/

/-- An identifier that is none of a node's and lies below none of them. -/
def Clear (t : Tree) (n : Node) (id : String) : Prop := ∀ a ∈ n.ids, ¬ t.Encloses a id

theorem Clear.not_mem_ids (h : t.Clear n k) : k ∉ n.ids := fun hk => h k hk (Encloses.refl k)

theorem Clear.of_owns {z : String} (h : t.Clear n k) (ho : t.Owns z k) : t.Clear n z :=
  fun a ha henc => h a ha (henc.ancestor_of_owns ho).encloses

namespace Insertable

/-- A component of the node has the data and the children that the node declares, and the parent too, except that the top
keeps the one it had. -/
theorem entry_inside (hi : t.Insertable n) (h : t.Sound) {d : Placement} (hd : d ∈ n.placements none) :
    (t.attach none n).entry d.id = ⟨some d.component, some d.declared, d.parent.or (t.parent? d.id)⟩ := by
  have hp := hi.placing h
  rw [entry, hp.placed_component d hd, hp.placed_children d hd, hp.placed_parent d hd]

/-- What lies below none of the node keeps its entry, less the children that the node takes over. -/
theorem entry_clear (hi : t.Insertable n) (h : t.Sound) (hk : t.Clear n k) :
    (t.attach none n).entry k = (t.entry k).less n.idsBelow := by
  by_cases hst : t.contains k = true
  · have hst' : (t.attach none n).contains k = true := (hi.contains_attach h k).mpr (Or.inr ⟨hst, hk⟩)
    obtain ⟨hc, hcs, hpar⟩ := hi.kept h hk.not_mem_ids hst'
    have hsame : leftAlone (movedIds (n.placements none)) = leftAlone n.idsBelow := funext (hi.leftAlone_movedIds h)
    rw [entry, hc, hcs, hpar, hsame]
    rfl
  · have hst' : ¬ (t.attach none n).contains k = true := fun hin =>
      ((hi.contains_attach h k).mp hin).elim hk.not_mem_ids fun hold => hst hold.1
    rw [(h.attach hi).entry_of_not_stored hst', h.entry_of_not_stored hst]
    rfl

/-- What lies below the node and is not declared by it is gone. -/
theorem entry_beneath (hi : t.Insertable n) (h : t.Sound) (hk : k ∉ n.ids) (hbelow : ¬ t.Clear n k) :
    (t.attach none n).entry k = .vacant := by
  refine (h.attach hi).entry_of_not_stored fun hin => ?_
  exact ((hi.contains_attach h k).mp hin).elim hk fun hold => hbelow hold.2

/-- Nothing is stored under an identifier by a node that does not declare it. -/
theorem entry_vacant (hi : t.Insertable n) (h : t.Sound) (hk : k ∉ n.ids) (hnone : t.entry k = .vacant) :
    (t.attach none n).entry k = .vacant := by
  by_cases hclear : t.Clear n k
  · rw [hi.entry_clear h hclear, hnone]
    rfl
  · exact hi.entry_beneath h hk hclear

/-- Outside the node a way up is an old one. -/
theorem encloses_outside (hi : t.Insertable n) (h : t.Sound) {a : String} (hk : k ∉ n.ids)
    (henc : (t.attach none n).Encloses a k) : t.Encloses a k := by
  induction henc with
  | refl => exact Encloses.refl a
  | tail _ ho ih =>
    obtain ⟨hz, hold⟩ := hi.owner_not_mem_ids h hk ho
    exact Relation.ReflTransGen.tail (ih hz) hold

/-- The way up from what lies below none of the node is as it was. -/
theorem encloses_attach_iff (hi : t.Insertable n) (h : t.Sound) {a : String} (hk : t.Clear n k) :
    (t.attach none n).Encloses a k ↔ t.Encloses a k := by
  refine ⟨hi.encloses_outside h hk.not_mem_ids, fun henc => ?_⟩
  induction henc with
  | refl => exact Encloses.refl a
  | tail _ ho ih =>
    have hnew : (t.attach none n).Owns _ _ := (congrArg Entry.parent (hi.entry_clear h hk)).trans ho
    exact Relation.ReflTransGen.tail (ih (hk.of_owns ho)) hnew

theorem ancestor_attach_iff (hi : t.Insertable n) (h : t.Sound) {a : String} (hk : t.Clear n k) :
    (t.attach none n).Ancestor a k ↔ t.Ancestor a k := by
  have hne : ∀ {v : Tree}, v.Sound → (v.Ancestor a k ↔ v.Encloses a k ∧ a ≠ k) := fun hv =>
    ⟨fun ha => ⟨ha.encloses, fun heq => hv.acyclic k (heq ▸ ha)⟩, fun ha => ha.1.eq_or_ancestor.resolve_left ha.2⟩
  rw [hne (h.attach hi), hne h, hi.encloses_attach_iff h hk]

/-- The way up from a component of the node leads through the node to its top, and on from there as it did. -/
theorem encloses_inside (hi : t.Insertable n) (h : t.Sound) {a : String} (hk : k ∈ n.ids)
    (henc : (t.attach none n).Encloses a k) : a ∈ n.ids ∨ t.Ancestor a n.id := by
  induction henc with
  | refl => exact Or.inl hk
  | @tail z k henc ho ih =>
    by_cases htop : k = n.id
    · subst htop
      have hold : t.Owns z n.id := (hi.parent?_top h).symm.trans ho
      have hz : z ∉ n.ids := fun hz => hi.free z hz hold.ancestor
      exact Or.inr ((hi.encloses_outside h hz henc).ancestor_of_owns hold)
    · obtain ⟨q, hq, hqk⟩ := hi.exists_owner h hk htop
      exact ih (Option.some.inj (hqk.symm.trans ho) ▸ hq)

end Insertable

/-! ### Two insertions -/

/-- Two nodes share no component, and no component of one is stored above or below a component of the other. -/
structure Apart (t : Tree) (n m : Node) : Prop where
  distinct : ∀ a ∈ n.ids, a ∉ m.ids
  not_above : ∀ a ∈ n.ids, ∀ b ∈ m.ids, ¬ t.Ancestor a b
  not_below : ∀ a ∈ n.ids, ∀ b ∈ m.ids, ¬ t.Ancestor b a

namespace Apart

theorem symm (ha : t.Apart n m) : t.Apart m n :=
  ⟨fun b hb hmem => ha.distinct b hmem hb, fun b hb a hmem => ha.not_below a hmem b hb,
    fun b hb a hmem => ha.not_above a hmem b hb⟩

/-- The components of one node lie below none of the other. -/
theorem clear (ha : t.Apart n m) (hk : k ∈ m.ids) : t.Clear n k := fun a hmem henc =>
  henc.eq_or_ancestor.elim (fun heq => ha.distinct a hmem (heq ▸ hk)) (ha.not_above a hmem k hk)

/-- They are clear of it after the other node has come in. -/
theorem clear_attach (ha : t.Apart n m) (h : t.Sound) (hn : t.Insertable n) (hk : k ∈ n.ids) :
    (t.attach none n).Clear m k := fun b hb henc =>
  (hn.encloses_inside h hk henc).elim (fun hmem => ha.distinct b hmem hb) (ha.not_below n.id n.id_mem_ids b hb)

/-- **The second node can come in exactly when it could without the first one.** -/
theorem insertable_attach_iff (ha : t.Apart n m) (h : t.Sound) (hn : t.Insertable n) :
    (t.attach none n).Insertable m ↔ t.Insertable m := by
  have hsame : ∀ b, (t.attach none n).Ancestor b m.id ↔ t.Ancestor b m.id := fun b =>
    hn.ancestor_attach_iff h (ha.clear m.id_mem_ids)
  constructor
  · exact fun hm => ⟨hm.ids_nodup, fun b hb hanc => hm.free b hb ((hsame b).mpr hanc)⟩
  · exact fun hm => ⟨hm.ids_nodup, fun b hb hanc => hm.free b hb ((hsame b).mp hanc)⟩

theorem insertAll_eq_ok_iff (ha : t.Apart n m) (h : t.Sound) {u : Tree} :
    t.insertAll [n, m] = .ok u ↔
      t.Insertable n ∧ t.Insertable m ∧ u = (t.attach none n).attach none m := by
  have hrun : t.insertAll [n, m] = .ok u ↔ ∃ v, t.insert n = .ok v ∧ v.insert m = .ok u := by
    rw [insertAll, List.foldlM_cons]
    cases t.insert n with
    | error e =>
      constructor
      · exact fun he => absurd he (by simp [bind, Except.bind])
      · rintro ⟨v, hv, _⟩
        exact absurd hv (by simp)
    | ok v =>
      show v.insertAll [m] = .ok u ↔ _
      rw [insertAll, List.foldlM_cons]
      cases hm : v.insert m with
      | error e => simp [bind, Except.bind, hm]
      | ok w => simp [bind, Except.bind, hm, pure, Except.pure]
  rw [hrun]
  constructor
  · rintro ⟨v, hv, hu⟩
    obtain ⟨hn, rfl⟩ := (insert_eq_ok_iff h).mp hv
    obtain ⟨hm, rfl⟩ := (insert_eq_ok_iff (h.attach hn)).mp hu
    exact ⟨hn, (ha.insertable_attach_iff h hn).mp hm, rfl⟩
  · rintro ⟨hn, hm, rfl⟩
    exact ⟨_, (insert_eq_ok_iff h).mpr ⟨hn, rfl⟩,
      (insert_eq_ok_iff (h.attach hn)).mpr ⟨(ha.insertable_attach_iff h hn).mpr hm, rfl⟩⟩

/-- A component of the node that comes in first ends up with what this node declares for it, whatever the other one does. -/
theorem entry_first (ha : t.Apart n m) (h : t.Sound) (hn : t.Insertable n) (hm : t.Insertable m) {d : Placement}
    (hd : d ∈ n.placements none) :
    ((t.attach none n).attach none m).entry d.id = ⟨some d.component, some d.declared, d.parent.or (t.parent? d.id)⟩ := by
  have hmem : d.id ∈ n.ids := Node.id_mem_ids_of_placement hd
  have hm' := (ha.insertable_attach_iff h hn).mpr hm
  have hdeclared : leftAlone m.idsBelow d.declared = d.declared := by
    refine leftAlone_eq_self fun c hc hbelow => ?_
    obtain ⟨e, he, rfl, _⟩ := n.exists_placement_of_declared none d hd c hc
    exact ha.distinct e.id (Node.id_mem_ids_of_placement he) (m.ids_eq_cons ▸ List.mem_cons_of_mem _ hbelow)
  rw [hm'.entry_clear (h.attach hn) (ha.clear_attach h hn hmem), hn.entry_inside h hd, Entry.less, Option.map_some,
    hdeclared]

/-- So does a component of the node that comes in second. -/
theorem entry_second (ha : t.Apart n m) (h : t.Sound) (hn : t.Insertable n) (hm : t.Insertable m) {d : Placement}
    (hd : d ∈ m.placements none) :
    ((t.attach none n).attach none m).entry d.id = ⟨some d.component, some d.declared, d.parent.or (t.parent? d.id)⟩ := by
  have hclear := ha.clear (Node.id_mem_ids_of_placement hd)
  have hparent : (t.attach none n).parent? d.id = t.parent? d.id :=
    congrArg Entry.parent (hn.entry_clear h hclear)
  rw [((ha.insertable_attach_iff h hn).mpr hm).entry_inside (h.attach hn) hd, hparent]

/-- What lay below a node and is declared by neither is gone, whichever node comes in first. -/
theorem entry_gone (ha : t.Apart n m) (h : t.Sound) (hn : t.Insertable n) (hm : t.Insertable m) (hkn : k ∉ n.ids)
    (hkm : k ∉ m.ids) (hbelow : ¬ t.Clear n k) :
    ((t.attach none n).attach none m).entry k = .vacant ∧ ((t.attach none m).attach none n).entry k = .vacant := by
  have hm' := (ha.insertable_attach_iff h hn).mpr hm
  have hn' := (ha.symm.insertable_attach_iff h hm).mpr hn
  refine ⟨hm'.entry_vacant (h.attach hn) hkm (hn.entry_beneath h hkn hbelow), ?_⟩
  by_cases hclear : t.Clear m k
  · refine hn'.entry_beneath (h.attach hm) hkn fun hnew => hbelow fun a hmem henc => ?_
    exact hnew a hmem ((hm.encloses_attach_iff h hclear).mpr henc)
  · exact hn'.entry_vacant (h.attach hm) hkn (hm.entry_beneath h hkm hclear)

/-- What lies below neither node loses its children to both, the first one first. -/
theorem entry_outside (ha : t.Apart n m) (h : t.Sound) (hn : t.Insertable n) (hm : t.Insertable m)
    (hkn : t.Clear n k) (hkm : t.Clear m k) :
    ((t.attach none n).attach none m).entry k = ((t.entry k).less n.idsBelow).less m.idsBelow := by
  have hkm' : (t.attach none n).Clear m k := fun b hb henc => hkm b hb ((hn.encloses_attach_iff h hkn).mp henc)
  rw [((ha.insertable_attach_iff h hn).mpr hm).entry_clear (h.attach hn) hkm', hn.entry_clear h hkn]

/-- **Every entry is the same whichever node comes in first.** -/
theorem entry_attach_comm (ha : t.Apart n m) (h : t.Sound) (hn : t.Insertable n) (hm : t.Insertable m) (k : String) :
    ((t.attach none n).attach none m).entry k = ((t.attach none m).attach none n).entry k := by
  by_cases hkn : k ∈ n.ids
  · obtain ⟨d, hd, rfl⟩ := Node.exists_placement none hkn
    rw [ha.entry_first h hn hm hd, ha.symm.entry_second h hm hn hd]
  by_cases hkm : k ∈ m.ids
  · obtain ⟨d, hd, rfl⟩ := Node.exists_placement none hkm
    rw [ha.entry_second h hn hm hd, ha.symm.entry_first h hm hn hd]
  by_cases hclear : t.Clear n k
  · by_cases hclear' : t.Clear m k
    · rw [ha.entry_outside h hn hm hclear hclear', ha.symm.entry_outside h hm hn hclear' hclear, Entry.less_comm]
    · obtain ⟨hfirst, hsecond⟩ := ha.symm.entry_gone h hm hn hkm hkn hclear'
      rw [hfirst, hsecond]
  · obtain ⟨hfirst, hsecond⟩ := ha.entry_gone h hn hm hkn hkm hclear
    rw [hfirst, hsecond]

/-- The roots after both insertions: those before that neither node takes over, and the tops that are new, in the order in
which they came in. -/
theorem rootIds_attach (ha : t.Apart n m) (h : t.Sound) (hn : t.Insertable n) (hm : t.Insertable m) :
    ((t.attach none n).attach none m).rootIds =
      leftAlone (n.idsBelow ++ m.idsBelow) t.rootIds ++
        ((if t.contains n.id = true then [] else [n.id]) ++ if t.contains m.id = true then [] else [m.id]) := by
  have hm' := (ha.insertable_attach_iff h hn).mpr hm
  have hstored : (t.attach none n).contains m.id = t.contains m.id :=
    congrArg (fun e : Entry => e.component.isSome) (hn.entry_clear h (ha.clear m.id_mem_ids))
  have htop : n.id ∉ m.idsBelow := fun hmem =>
    ha.distinct n.id n.id_mem_ids (m.ids_eq_cons ▸ List.mem_cons_of_mem _ hmem)
  have hnew : leftAlone m.idsBelow (if t.contains n.id = true then [] else [n.id]) =
      if t.contains n.id = true then [] else [n.id] := by
    refine leftAlone_eq_self fun c hc => ?_
    split at hc
    · exact absurd hc List.not_mem_nil
    · exact List.mem_singleton.mp hc ▸ htop
  have happend : ∀ cs ds, leftAlone m.idsBelow (cs ++ ds) = leftAlone m.idsBelow cs ++ leftAlone m.idsBelow ds :=
    fun cs ds => List.filter_append ..
  rw [hm'.rootIds_attach (h.attach hn), hm'.leftAlone_movedIds (h.attach hn), hn.rootIds_attach h,
    hn.leftAlone_movedIds h, hstored, happend, hnew, leftAlone_leftAlone, List.append_assoc]

end Apart

/-- **Insertions apart from each other commute.**  In a tree that came about by edits, two nodes that are apart can be
inserted in one order exactly when they can in the other one.  Both orders leave the same components, the same lists of
children, the same parents, version and mark; the roots are the same in the same order too, unless both tops are new, which
then come last in the order of the insertions. -/
theorem insertAll_comm (h : t.Reachable) (ha : t.Apart n m) :
    ((∃ u, t.insertAll [n, m] = .ok u) ↔ ∃ w, t.insertAll [m, n] = .ok w) ∧
      ∀ u w, t.insertAll [n, m] = .ok u → t.insertAll [m, n] = .ok w →
        u.components.Perm w.components ∧ u.childIds.Perm w.childIds ∧ u.parentIds.Perm w.parentIds ∧
          u.version = w.version ∧ u.complete = w.complete ∧
          (t.contains n.id = true ∨ t.contains m.id = true → u.rootIds = w.rootIds) ∧
          (t.contains n.id = false → t.contains m.id = false →
            ∃ rest, u.rootIds = rest ++ [n.id, m.id] ∧ w.rootIds = rest ++ [m.id, n.id]) := by
  have hs : t.Sound := h.sound
  simp only [ha.insertAll_eq_ok_iff hs, ha.symm.insertAll_eq_ok_iff hs]
  refine ⟨⟨fun ⟨_, hi, hj, _⟩ => ⟨_, hj, hi, rfl⟩, fun ⟨_, hj, hi, _⟩ => ⟨_, hi, hj, rfl⟩⟩, ?_⟩
  rintro u w ⟨hi, hj, rfl⟩ ⟨_, _, rfl⟩
  have hfirst := (hs.attach hi).attach ((ha.insertable_attach_iff hs hi).mpr hj)
  have hsecond := (hs.attach hj).attach ((ha.symm.insertable_attach_iff hs hj).mpr hi)
  obtain ⟨hc, hcs, hpar⟩ := hfirst.keyed.perm_of_entry_eq hsecond.keyed (ha.entry_attach_comm hs hi hj)
  have hstamp : t.SameStamp ((t.attach none n).attach none m) :=
    (sameStamp_attach t none n).trans (sameStamp_attach _ none m)
  have hstamp' : t.SameStamp ((t.attach none m).attach none n) :=
    (sameStamp_attach t none m).trans (sameStamp_attach _ none n)
  have hold : leftAlone (m.idsBelow ++ n.idsBelow) t.rootIds = leftAlone (n.idsBelow ++ m.idsBelow) t.rootIds := by
    refine List.filter_congr fun c _ => ?_
    simp [Bool.and_comm]
  refine ⟨hc, hcs, hpar, hstamp.version.trans hstamp'.version.symm, hstamp.complete.trans hstamp'.complete.symm, ?_, ?_⟩
  · rw [ha.rootIds_attach hs hi hj, ha.symm.rootIds_attach hs hj hi, hold]
    rintro (hst | hst) <;> simp [hst]
  · intro hnew hnew'
    refine ⟨leftAlone (n.idsBelow ++ m.idsBelow) t.rootIds, ?_, ?_⟩
    · rw [ha.rootIds_attach hs hi hj, hnew, hnew']
      rfl
    · rw [ha.symm.rootIds_attach hs hj hi, hold, hnew, hnew']
      rfl

/-- A page of a list with one item, a note and two texts. -/
def pageOfTexts : Tree :=
  Tree.empty.attach none
    (.bare "page" [.bare "list" [.bare "item" []], .bare "note" [], .bare "first" [], .bare "second" []])

theorem pageOfTexts_reachable : pageOfTexts.Reachable :=
  Reachable.empty.edited (Edited.inserted
    (.bare "page" [.bare "list" [.bare "item" []], .bare "note" [], .bare "first" [], .bare "second" []]) rfl)

/-- Two children of the page that each take another one of its children over: the list drops its item for it, and both take
from the same list of siblings. -/
theorem apart_of_siblings :
    pageOfTexts.Apart (.bare "list" [.bare "first" []]) (.bare "note" [.bare "second" []]) := by
  have hs : pageOfTexts.Sound := pageOfTexts_reachable.sound
  have habove : ∀ id ∈ ["list", "first", "note", "second"], pageOfTexts.WayUp id ["page"] := by
    simp only [List.forall_mem_cons]
    exact ⟨hs.ancestors_eq_ok_iff.mp rfl, hs.ancestors_eq_ok_iff.mp rfl, hs.ancestors_eq_ok_iff.mp rfl,
      hs.ancestors_eq_ok_iff.mp rfl, fun _ hid => absurd hid List.not_mem_nil⟩
  have hnone : ∀ a ∈ ["list", "first", "note", "second"], ∀ b ∈ ["list", "first", "note", "second"],
      ¬ pageOfTexts.Ancestor a b := by
    intro a ha b hb hanc
    obtain rfl := List.mem_singleton.mp ((habove b hb).mem_iff.mpr hanc)
    exact absurd ha (by decide)
  have hfirst : ∀ a ∈ Node.ids (.bare "list" [.bare "first" []]), a ∈ ["list", "first", "note", "second"] := by decide
  have hsecond : ∀ a ∈ Node.ids (.bare "note" [.bare "second" []]), a ∈ ["list", "first", "note", "second"] := by decide
  exact ⟨by decide, fun a ha b hb => hnone a (hfirst a ha) b (hsecond b hb),
    fun a ha b hb => hnone b (hsecond b hb) a (hfirst a ha)⟩

/-- Either order leaves the page with the list and the note, each with the text that it has taken over. -/
theorem insertAll_comm_of_siblings :
    pageOfTexts.Reachable ∧ pageOfTexts.Apart (.bare "list" [.bare "first" []]) (.bare "note" [.bare "second" []]) ∧
      ∃ u w, pageOfTexts.insertAll [.bare "list" [.bare "first" []], .bare "note" [.bare "second" []]] = .ok u ∧
        pageOfTexts.insertAll [.bare "note" [.bare "second" []], .bare "list" [.bare "first" []]] = .ok w ∧
        u.components.Perm w.components ∧ u.childIds.Perm w.childIds ∧ u.parentIds.Perm w.parentIds ∧
        u.rootIds = w.rootIds ∧ u.children "page" = ["list", "note"] ∧ u.contains "item" = false := by
  obtain ⟨_, hall⟩ := insertAll_comm pageOfTexts_reachable apart_of_siblings
  obtain ⟨hc, hcs, hpar, _, _, hroots, _⟩ := hall _ _ rfl rfl
  exact ⟨pageOfTexts_reachable, apart_of_siblings, _, _, rfl, rfl, hc, hcs, hpar, hroots (Or.inl rfl), rfl, rfl⟩

end ComponentStream.Tree
