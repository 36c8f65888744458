import ComponentStream.Proofs.Traversal
import ComponentStream.Proofs.Tree.Ancestors
import ComponentStream.Proofs.Tree.Placement

/-!
# The forest in a flat index

A sound tree is an ordered forest that has been taken apart.  Reading it back enters every component before its children
and leaves it after them, and never meets a component twice on the way down.

* `Tree.Holds`, `Tree.HoldsAll` — a flat index holds a nested node, or several of them;
* `Tree.Holds.unique` — an index holds at most one node of an identifier;
* `Tree.Assembles`, `Tree.Table`, `Tree.Reads` — visits of a reading, and what is in its table meanwhile;
* `Tree.Sound.reads`, `Tree.Sound.materialize_eq_ok` — reading a component back succeeds and gives a node that is held;
* `Tree.Sound.roots_eq_ok_iff` — the forest of a sound tree is the held one whose tops are the roots;
* `Tree.Sound.mem_idsAll_roots` — every stored component is in it.
-/

namespace ComponentStream

open Protocol (Component Node)

namespace Protocol

/-- The identifiers of several nodes and their descendants. -/
def Node.idsAll (ns : List Node) : List String := (Node.preorderAll ns).map Node.id

theorem Node.ids_mk (c : Component) (ns : List Node) : (⟨c, some ns⟩ : Node).ids = c.id :: Node.idsAll ns := by
  rw [Node.ids, Node.preorder, List.map_cons]
  rfl

theorem Node.idsAll_cons (n : Node) (ns : List Node) : Node.idsAll (n :: ns) = n.ids ++ Node.idsAll ns := by
  rw [Node.idsAll, Node.preorderAll, List.map_append]
  rfl

theorem Node.id_mem_idsAll {n : Node} {ns : List Node} (h : n ∈ ns) : n.id ∈ Node.idsAll ns := by
  induction ns with
  | nil => exact absurd h List.not_mem_nil
  | cons m ns ih =>
    rw [Node.idsAll_cons, List.mem_append]
    rcases List.mem_cons.mp h with rfl | hmem
    · exact Or.inl n.id_mem_ids
    · exact Or.inr (ih hmem)

end Protocol

namespace Tree

variable {t : Tree}

/-! ### Nested nodes in a flat index -/

mutual

/-- A flat index holds a node: the component is stored as it is, and its children are those of the node, each of
which is held in turn.  No node without a list of children is held. -/
def Holds (t : Tree) : Node → Prop
  | ⟨_, none⟩ => False
  | ⟨c, some ns⟩ => Assoc.get? c.id t.components = some c ∧ t.children c.id = ns.map Node.id ∧ HoldsAll t ns

/-- A flat index holds several nodes. -/
def HoldsAll (t : Tree) : List Node → Prop
  | [] => True
  | n :: ns => Holds t n ∧ HoldsAll t ns

end

theorem holdsAll_append (ns ms : List Node) : t.HoldsAll (ns ++ ms) ↔ t.HoldsAll ns ∧ t.HoldsAll ms := by
  induction ns with
  | nil => simp [HoldsAll]
  | cons n ns ih => rw [List.cons_append, HoldsAll, HoldsAll, ih, and_assoc]

mutual

/-- **An index holds at most one node of an identifier.** -/
theorem Holds.unique : ∀ {n m : Node}, t.Holds n → t.Holds m → n.id = m.id → n = m
  | ⟨c, some ns⟩, ⟨d, some ms⟩, ⟨hc, hcs, hns⟩, ⟨hd, hds, hms⟩, heq => by
    have hcd : c.id = d.id := heq
    have hsame : c = d := by
      rw [hcd] at hc
      exact Option.some.inj (hc.symm.trans hd)
    subst hsame
    rw [HoldsAll.unique hns hms (hcs.symm.trans hds)]

theorem HoldsAll.unique : ∀ {ns ms : List Node}, t.HoldsAll ns → t.HoldsAll ms →
    ns.map Node.id = ms.map Node.id → ns = ms
  | [], [], _, _, _ => rfl
  | [], m :: ms, _, _, heq => absurd heq (by simp)
  | n :: ns, [], _, _, heq => absurd heq (by simp)
  | n :: ns, m :: ms, ⟨hn, hns⟩, ⟨hm, hms⟩, heq => by
    rw [List.map_cons, List.map_cons, List.cons.injEq] at heq
    rw [Holds.unique hn hm heq.1, HoldsAll.unique hns hms heq.2]

end

mutual

theorem Holds.contains : ∀ {n : Node}, t.Holds n → ∀ k ∈ n.ids, t.contains k = true
  | ⟨c, some ns⟩, ⟨hc, _, hns⟩, k, hk => by
    rw [Node.ids_mk] at hk
    rcases List.mem_cons.mp hk with rfl | hmem
    · exact Assoc.contains_of_get? hc
    · exact HoldsAll.contains hns k hmem

theorem HoldsAll.contains : ∀ {ns : List Node}, t.HoldsAll ns → ∀ k ∈ Node.idsAll ns, t.contains k = true
  | n :: ns, ⟨hn, hns⟩, k, hk => by
    rw [Node.idsAll_cons] at hk
    rcases List.mem_append.mp hk with hmem | hmem
    · exact Holds.contains hn k hmem
    · exact HoldsAll.contains hns k hmem

end

mutual

/-- A node that is held has the children of each of its components. -/
theorem Holds.mem_ids_of_mem_children :
    ∀ {n : Node}, t.Holds n → ∀ p ∈ n.ids, ∀ c ∈ t.children p, c ∈ n.ids
  | ⟨d, some ns⟩, ⟨_, hcs, hns⟩, p, hp, c, hc => by
    rw [Node.ids_mk] at hp ⊢
    refine List.mem_cons_of_mem _ ?_
    rcases List.mem_cons.mp hp with rfl | hmem
    · rw [hcs] at hc
      obtain ⟨m, hm, rfl⟩ := List.mem_map.mp hc
      exact Node.id_mem_idsAll hm
    · exact HoldsAll.mem_idsAll_of_mem_children hns p hmem c hc

theorem HoldsAll.mem_idsAll_of_mem_children :
    ∀ {ns : List Node}, t.HoldsAll ns → ∀ p ∈ Node.idsAll ns, ∀ c ∈ t.children p, c ∈ Node.idsAll ns
  | n :: ns, ⟨hn, hns⟩, p, hp, c, hc => by
    rw [Node.idsAll_cons] at hp ⊢
    rcases List.mem_append.mp hp with hmem | hmem
    · exact List.mem_append_left _ (Holds.mem_ids_of_mem_children hn p hmem c hc)
    · exact List.mem_append_right _ (HoldsAll.mem_idsAll_of_mem_children hns p hmem c hc)

end

/-! ### The visits of a reading -/

/-- From one state of its work to another, the reading takes `k` visits, however many follow. -/
def Assembles (t : Tree) (k : Nat) (pending : List Visit) (path : List String) (built : Assoc Node)
    (pending' : List Visit) (path' : List String) (built' : Assoc Node) : Prop :=
  ∀ budget, t.assemble (k + budget) pending path built = t.assemble budget pending' path' built'

section Assembles

variable {k k' : Nat} {pending pending' pending'' : List Visit} {path path' path'' : List String}
  {built built' built'' : Assoc Node}

theorem Assembles.refl : t.Assembles 0 pending path built pending path built := by
  intro budget
  rw [Nat.zero_add]

theorem Assembles.trans (h : t.Assembles k pending path built pending' path' built')
    (h' : t.Assembles k' pending' path' built' pending'' path'' built'') :
    t.Assembles (k + k') pending path built pending'' path'' built'' := by
  intro budget
  rw [Nat.add_assoc, h, h']

theorem assembles_enter {id : String} (hid : id ∉ path) (pending : List Visit) (built : Assoc Node) :
    t.Assembles 1 (.enter id :: pending) path built
      (((t.children id).filter t.contains).map .enter ++ .leave id :: pending) (id :: path) built := by
  intro budget
  rw [Nat.add_comm, assemble, if_neg (by simpa using hid)]

theorem assembles_leave (t : Tree) (id : String) (pending : List Visit) (path : List String) (built : Assoc Node) :
    t.Assembles 1 (.leave id :: pending) (id :: path) built pending path
      (Assoc.insert id ⟨(Assoc.get? id t.components).getD default,
        some ((t.children id).filterMap fun child => Assoc.get? child built)⟩ built) := by
  intro budget
  rw [Nat.add_comm, assemble, List.erase_cons_head]

end Assembles

/-- Every entry of a table of nodes is held. -/
def Table (t : Tree) (built : Assoc Node) : Prop := ∀ id n, Assoc.get? id built = some n → n.id = id ∧ t.Holds n

/-- A component with all of its children in the table can be put together. -/
theorem Table.exists_children {built : Assoc Node} (h : t.Table built) {ids : List String}
    (hids : ∀ id ∈ ids, Assoc.contains id built = true) :
    ∃ ns, ids.filterMap (fun id => Assoc.get? id built) = ns ∧ ns.map Node.id = ids ∧ t.HoldsAll ns := by
  induction ids with
  | nil => exact ⟨[], rfl, rfl, trivial⟩
  | cons id ids ih =>
    obtain ⟨n, hn⟩ := Assoc.exists_get?_of_contains (hids id List.mem_cons_self)
    obtain ⟨ns, hns, hmap, hall⟩ := ih fun k hk => hids k (List.mem_cons_of_mem _ hk)
    obtain ⟨hid, hheld⟩ := h id n hn
    refine ⟨n :: ns, ?_, ?_, hheld, hall⟩
    · rw [List.filterMap_cons, hn, hns]
    · rw [List.map_cons, hid, hmap]

theorem Table.insert {built : Assoc Node} (h : t.Table built) {n : Node} (hn : t.Holds n) :
    t.Table (Assoc.insert n.id n built) := by
  intro id m hm
  rw [Assoc.get?_insert] at hm
  by_cases hid : n.id = id
  · rw [if_pos hid] at hm
    obtain rfl := Option.some.inj hm
    exact ⟨hid, hn⟩
  · rw [if_neg hid] at hm
    exact h id m hm

/-- The reading works certain components off within `k` visits: they come into the table, and what is in it stays. -/
def Reads (t : Tree) (k : Nat) (path : List String) (ids : List String) : Prop :=
  ∀ (pending : List Visit) (built : Assoc Node), t.Table built →
    ∃ j built', j ≤ k ∧ t.Assembles j (ids.map .enter ++ pending) path built pending path built' ∧ t.Table built' ∧
      (∀ id ∈ ids, Assoc.contains id built' = true) ∧
      ∀ id, Assoc.contains id built = true → Assoc.contains id built' = true

/-- Several components are worked off one after the other. -/
theorem reads_all {k : Nat} {path ids : List String} (h : ∀ id ∈ ids, t.Reads k path [id]) :
    t.Reads (ids.length * k) path ids := by
  induction ids with
  | nil =>
    intro pending built hb
    exact ⟨0, built, Nat.zero_le _, .refl, hb, fun _ hid => absurd hid List.not_mem_nil, fun _ hid => hid⟩
  | cons id ids ih =>
    intro pending built hb
    obtain ⟨j, built₁, hj, hfirst, hb₁, hin, hkept⟩ := h id List.mem_cons_self (ids.map .enter ++ pending) built hb
    obtain ⟨j', built₂, hj', hrest, hb₂, hin', hkept'⟩ :=
      ih (fun k hk => h k (List.mem_cons_of_mem _ hk)) pending built₁ hb₁
    refine ⟨j + j', built₂, ?_, hfirst.trans hrest, hb₂, ?_, fun c hc => hkept' c (hkept c hc)⟩
    · rw [List.length_cons, Nat.succ_mul]
      omega
    · intro c hc
      rcases List.mem_cons.mp hc with rfl | hmem
      · exact hkept' c (hin c List.mem_cons_self)
      · exact hin' c hmem

/-! ### Reading back -/

/-- Reading several components back, when reading each of them gives a node that is held; `wrap` is what the reading
makes of a node. -/
theorem exists_mapM_eq_ok {α : Type} {f : String → Except Error α} {ids : List String} (wrap : Node → α)
    (hf : ∀ id ∈ ids, ∃ n, f id = .ok (wrap n) ∧ n.id = id ∧ t.Holds n) :
    ∃ ns, ids.mapM f = .ok (ns.map wrap) ∧ ns.map Node.id = ids ∧ t.HoldsAll ns := by
  induction ids with
  | nil => exact ⟨[], rfl, rfl, trivial⟩
  | cons id ids ih =>
    obtain ⟨n, hn, hid, hheld⟩ := hf id List.mem_cons_self
    obtain ⟨ns, hns, hids, hall⟩ := ih fun k hk => hf k (List.mem_cons_of_mem _ hk)
    refine ⟨n :: ns, ?_, ?_, hheld, hall⟩
    · rw [List.mapM_cons, hn, hns]
      rfl
    · rw [List.map_cons, hid, hids]

theorem length_children_le (t : Tree) (id : String) : (t.children id).length ≤ t.linkCount := by
  have hcount := t.linkCount_forget id
  omega

theorem visitBound_succ_ge (t : Tree) (levels : Nat) :
    2 + t.linkCount * t.visitBound levels ≤ t.visitBound (levels + 1) := by
  have hpos : 0 < t.visitBound levels := Nat.pow_pos (by omega)
  calc 2 + t.linkCount * t.visitBound levels
      ≤ t.linkCount * t.visitBound levels + 2 * t.visitBound levels := by omega
    _ = t.visitBound levels * (t.linkCount + 2) := by rw [← Nat.add_mul, Nat.mul_comm]
    _ = t.visitBound (levels + 1) := rfl

namespace Sound

theorem filter_children (h : t.Sound) (id : String) : (t.children id).filter t.contains = t.children id :=
  List.filter_eq_self.mpr fun c hc => h.child_stored id c hc

/-- **A stored component is worked off.**  The path holds ancestors alone, each of them once, so that no way down comes back
to one of them, and a way down has no more than `levels` components to go. -/
theorem reads (h : t.Sound) (levels : Nat) :
    ∀ (path : List String) (id : String), path.Nodup → (∀ a ∈ path, t.Ancestor a id) → t.contains id = true →
      t.size + 1 ≤ levels + path.length → t.Reads (t.visitBound levels) path [id] := by
  induction levels with
  | zero =>
    intro path id hnd hanc _ hb
    have hle : path.length ≤ t.components.length :=
      length_le_of_contains hnd fun a ha => h.ancestor_stored (hanc a ha)
    rw [size] at hb
    omega
  | succ levels ih =>
    intro path id hnd hanc hid hb pending built hbuilt
    have hnew : id ∉ path := fun hmem => h.acyclic id (hanc id hmem)
    have hchild : ∀ c ∈ t.children id, t.Reads (t.visitBound levels) (id :: path) [c] := by
      intro c hc
      have ho : t.Owns id c := h.owns_iff.mpr hc
      refine ih (id :: path) c (List.nodup_cons.mpr ⟨hnew, hnd⟩) ?_ (h.child_stored id c hc) ?_
      · intro a ha
        rcases List.mem_cons.mp ha with rfl | hmem
        · exact ho.ancestor
        · exact (hanc a hmem).encloses.ancestor_of_owns ho
      · rw [List.length_cons]
        omega
    obtain ⟨j, built₁, hj, hall, hb₁, hin, hkept⟩ := reads_all hchild (.leave id :: pending) built hbuilt
    -- with its children in the table, the component is put together
    obtain ⟨ns, hns, hmap, hheld⟩ := hb₁.exists_children hin
    obtain ⟨c, hc⟩ := Assoc.exists_get?_of_contains hid
    have hcid : c.id = id := h.id_eq id c hc
    have hholds : t.Holds ⟨c, some ns⟩ := by
      refine ⟨?_, ?_, hheld⟩
      · rw [hcid]
        exact hc
      · rw [hcid, hmap]
    have henter : t.Assembles 1 (.enter id :: pending) path built
        ((t.children id).map .enter ++ .leave id :: pending) (id :: path) built := by
      have hvisit := assembles_enter (t := t) hnew pending built
      rwa [h.filter_children] at hvisit
    have hleave : t.Assembles 1 (.leave id :: pending) (id :: path) built₁ pending path
        (Assoc.insert id ⟨c, some ns⟩ built₁) := by
      have hvisit := t.assembles_leave id pending path built₁
      rwa [hns, hc, Option.getD_some] at hvisit
    refine ⟨1 + j + 1, _, ?_, (henter.trans hall).trans hleave, ?_, ?_, ?_⟩
    · calc 1 + j + 1 ≤ 2 + (t.children id).length * t.visitBound levels := by omega
        _ ≤ 2 + t.linkCount * t.visitBound levels :=
          Nat.add_le_add_left (Nat.mul_le_mul_right _ (t.length_children_le id)) 2
        _ ≤ t.visitBound (levels + 1) := t.visitBound_succ_ge levels
    · have htable := hb₁.insert hholds
      rwa [show (⟨c, some ns⟩ : Node).id = id from hcid] at htable
    · intro k hk
      rw [List.mem_singleton.mp hk, Assoc.contains_insert]
      simp
    · intro k hk
      rw [Assoc.contains_insert, hkept k hk, Bool.or_true]

/-- **Reading a stored component back succeeds and gives a node that is held.** -/
theorem materialize_eq_ok (h : t.Sound) {id : String} (hid : t.contains id = true) :
    ∃ n, t.materialize id = .ok (some n) ∧ n.id = id ∧ t.Holds n := by
  have hnone : t.Table [] := fun k n hk => absurd hk (by simp [Assoc.get?])
  obtain ⟨j, built, hj, hall, htable, hin, _⟩ := h.reads (t.size + 1) [] id List.nodup_nil
    (fun a ha => absurd ha List.not_mem_nil) hid (Nat.le_refl _) [] [] hnone
  obtain ⟨rest, hrest⟩ := Nat.exists_eq_add_of_le hj
  obtain ⟨n, hn⟩ := Assoc.exists_get?_of_contains (hin id List.mem_cons_self)
  have hdone : t.assemble rest [] [] built = .ok built := by
    cases rest <;> rfl
  have hassemble : t.assemble (t.visitBound (t.size + 1)) [.enter id] [] [] = .ok built := by
    rw [hrest]
    exact (hall rest).trans hdone
  refine ⟨n, ?_, htable id n hn⟩
  rw [materialize, if_pos hid, hassemble]
  exact congrArg Except.ok hn

/-- The roots can always be read back. -/
theorem exists_roots_eq_ok (h : t.Sound) :
    ∃ ns, t.roots = .ok ns ∧ ns.map Node.id = t.rootIds ∧ t.HoldsAll ns := by
  obtain ⟨ns, hns, hmap, hheld⟩ :=
    exists_mapM_eq_ok some fun id hid => h.materialize_eq_ok ((h.root_iff id).mp hid).1
  refine ⟨ns, ?_, hmap, hheld⟩
  rw [roots, hns]
  show Except.ok ((ns.map some).filterMap id) = _
  rw [List.filterMap_map, Function.id_comp, List.filterMap_some]

/-- **The forest of a sound tree is the one that is held and has the roots as its tops.** -/
theorem roots_eq_ok_iff (h : t.Sound) {ns : List Node} :
    t.roots = .ok ns ↔ ns.map Node.id = t.rootIds ∧ t.HoldsAll ns := by
  obtain ⟨ms, hms, hmap, hheld⟩ := h.exists_roots_eq_ok
  rw [hms, Except.ok.injEq]
  constructor
  · rintro rfl
    exact ⟨hmap, hheld⟩
  · rintro ⟨hmap', hheld'⟩
    exact HoldsAll.unique hheld hheld' (hmap.trans hmap'.symm)

/-- The components in the forest are the stored ones. -/
theorem mem_idsAll_roots (h : t.Sound) {ns : List Node} (hroots : t.roots = .ok ns) {k : String} :
    k ∈ Node.idsAll ns ↔ t.contains k = true := by
  obtain ⟨hmap, hheld⟩ := h.roots_eq_ok_iff.mp hroots
  refine ⟨hheld.contains k, fun hk => ?_⟩
  obtain ⟨r, hr, -, hdown⟩ := h.exists_root hk
  induction hdown with
  | refl =>
    rw [← hmap] at hr
    obtain ⟨n, hn, rfl⟩ := List.mem_map.mp hr
    exact Node.id_mem_idsAll hn
  | @tail p k _ hc ih =>
    exact hheld.mem_idsAll_of_mem_children p (ih (h.owner_stored hc)) k hc

end Sound

end Tree

end ComponentStream
