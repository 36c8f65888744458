import ComponentStream.Proofs.Stream.Run
import ComponentStream.Proofs.Tree.Depth

/-!
# Trees within limits

Limits are checked on one message at a time: a count of the identifiers that are new, and the depth at which the top of
a component comes to lie.  As an insertion does no more than it was checked for, the whole tree keeps the limits at all
times, however many streams feed it and however it was built up.

* `Tree.Bounded` — the limits on a tree: its size, the length of its ways up, the types in it;
* `Tree.Bounded.applyMessage` — a checked message keeps them;
* `Intake.bounded_of_streams` — and so does every run of streams.
-/

namespace ComponentStream

open Protocol (Component Limits Message Node)

namespace Tree

variable {t t' : Tree} {n : Node} {limits : Limits}

/-- A tree keeps the limits on its size, its depth and its types. -/
structure Bounded (limits : Limits) (t : Tree) : Prop where
  size_le : t.size ≤ limits.maxComponents
  shallow : t.Shallow limits.maxDepth
  allowed : ∀ id c, Assoc.get? id t.components = some c → limits.allows c.type = true

namespace Bounded

theorem empty (limits : Limits) : Tree.empty.Bounded limits where
  size_le := Nat.zero_le _
  shallow := fun _ hid => absurd hid (by simp [Tree.empty, contains, Assoc.contains, Assoc.get?])
  allowed := fun _ _ hc => absurd hc (by simp [Tree.empty, Assoc.get?])

theorem stamp (hb : t.Bounded limits) (h : t.Sound) (version : Nat) (complete : Bool) :
    ({ t with version := version, complete := complete } : Tree).Bounded limits where
  size_le := hb.size_le
  shallow := hb.shallow.of_kept (h.stamp version complete) fun _ hid => ⟨hid, rfl⟩
  allowed := hb.allowed

theorem attach (hb : t.Bounded limits) (h : t.Sound) (hi : t.Insertable n) {depth : Nat}
    (hsize : t.size + t.newIds n ≤ limits.maxComponents) (hd : t.placementDepth n = .ok depth)
    (hdepth : depth ≤ limits.maxDepth) (htypes : ∀ each ∈ n.preorder, limits.allows each.component.type = true) :
    (t.attach none n).Bounded limits where
  size_le := Nat.le_trans (hi.size_attach_le h) hsize
  shallow := by
    obtain ⟨above, hway, hlen⟩ := h.placementDepth_eq_ok_iff.mp hd
    exact hb.shallow.attach h hi hway (by omega)
  allowed := by
    intro id c hc
    rcases hi.component_attach h hc with ⟨each, heach, rfl⟩ | hold
    · exact htypes each heach
    · exact hb.allowed id c hold

theorem remove (hb : t.Bounded limits) (h : t.Sound) (id : String) : (t.remove id).Bounded limits where
  size_le := Nat.le_trans ((h.remove id).keyed.size_le fun _ hk => (h.kept_of_remove hk).1) hb.size_le
  shallow := hb.shallow.of_kept (h.remove id) fun _ hk => ⟨(h.kept_of_remove hk).1, (h.kept_of_remove hk).2.2⟩
  allowed := by
    intro k c hc
    rw [(h.kept_of_remove (Assoc.contains_of_get? hc)).2.1] at hc
    exact hb.allowed k c hc

theorem mergeProps (hb : t.Bounded limits) (h : t.Sound) {id : String} {patch : Assoc Json.Value}
    (hm : t.mergeProps id patch = some t') : t'.Bounded limits where
  size_le := Nat.le_trans ((h.mergeProps hm).keyed.size_le fun _ hk => (kept_of_mergeProps hm hk).1) hb.size_le
  shallow := hb.shallow.of_kept (h.mergeProps hm) fun _ hk => kept_of_mergeProps hm hk
  allowed := by
    intro k c hc
    rcases component_mergeProps hm hc with ⟨d, hd, rfl⟩ | hold
    · exact hb.allowed k d hd
    · exact hb.allowed k c hold

/-- **A message that keeps the limits by itself keeps the limits on the tree.** -/
theorem applyMessage (hb : t.Bounded limits) (h : t.Sound) {m : Message} (hm : m.Within limits) :
    (Stream.applyMessage limits t m).1.Bounded limits := by
  have happ := Stream.applied limits t m
  generalize (Stream.applyMessage limits t m).1 = u, (Stream.applyMessage limits t m).2 = v at happ
  cases happ with
  | inserted hsize hd hdepth hins =>
    obtain ⟨hi, rfl⟩ := (insert_eq_ok_iff h).mp hins
    exact (hb.attach h hi hsize hd hdepth fun each heach => (hm.2 each heach).allowed).stamp (h.attach hi) _ _
  | merged hmerge => exact (hb.mergeProps h hmerge).stamp (h.mergeProps hmerge) _ _
  | removed => exact (hb.remove h _).stamp (h.remove _) _ _
  | _ => exact hb

end Bounded

end Tree

namespace Stream

open ComponentStream.Tree (Bounded Reachable)

namespace Intake

/-- **Streams never build a tree beyond its limits**, whatever bytes they bring, however they are cut and mixed, and
whenever the tree is emptied: there are no more components than permitted, every component has fewer ancestors than
levels are permitted, so that no root heads more levels than that, and every type in the tree is an allowed one. -/
theorem bounded_of_streams (limits : Limits) (ops : List Op) (hops : ∀ m, Op.apply m ∉ ops) :
    ((start limits).actAll ops).tree.size ≤ limits.maxComponents ∧
      (∀ id, ((start limits).actAll ops).tree.contains id = true →
        ∃ above, ((start limits).actAll ops).tree.ancestors id = .ok above ∧ above.length < limits.maxDepth) ∧
      (∃ forest, ((start limits).actAll ops).tree.roots = .ok forest ∧ ∀ n ∈ forest, n.depth ≤ limits.maxDepth) ∧
      ∀ id c, Assoc.get? id ((start limits).actAll ops).tree.components = some c → limits.allows c.type = true := by
  have hsound := (actAll_reachable (i := start limits) Reachable.empty ops).sound
  have hbounded : ((start limits).actAll ops).tree.Bounded limits :=
    actAll_invariant (i := start limits) (Bounded.empty limits)
      (fun _ _ _ hr hb hm => hb.applyMessage hr.sound hm.within) Reachable.empty (Bounded.empty limits) ops hops
  obtain ⟨forest, hroots, _⟩ := hsound.exists_roots_eq_ok
  refine ⟨hbounded.size_le, fun id hid => ?_, ⟨forest, hroots, fun n hn => ?_⟩, hbounded.allowed⟩
  · obtain ⟨above, hway, hlen⟩ := hbounded.shallow id hid
    exact ⟨above, hsound.ancestors_eq_ok_iff.mpr hway, hlen⟩
  · rw [Protocol.Node.depth_eq_height]
    exact hsound.height_le_of_shallow hbounded.shallow hroots n hn

/-- Room for three cards on two levels. -/
def cramped : Limits := ⟨3, 2, 100, ["Card"]⟩

def card (id : String) (below : List String) : String := nodeText id "Card" "\x7b\x7d" below

/-- Two streams grow a chain: a card below a card, then one below that, which would lie too deep, then a third one
elsewhere and a fourth. -/
def chain : List Op :=
  [.fork,
    .feed 0 (ndjson [componentText (card "a" [card "b" []])]),
    .feed 1 (ndjson [componentText (card "b" [card "c" []])]),
    .feed 0 (ndjson [componentText (card "c" [])]),
    .feed 1 (ndjson [componentText (card "d" [])])]

theorem bounded_of_streams_of_chain :
    (∀ m, Op.apply m ∉ chain) ∧ ((start cramped).actAll chain).tree.size = 3 ∧
      ((start cramped).actAll chain).tree.size ≤ cramped.maxComponents ∧
      ∃ above, ((start cramped).actAll chain).tree.ancestors "b" = .ok above ∧ above.length < cramped.maxDepth := by
  have hops : ∀ m, Op.apply m ∉ chain := by simp [chain]
  have hrun : ((start cramped).actAll chain).tree.size = 3 ∧
      ((start cramped).actAll chain).tree.contains "b" = true := by decide +kernel
  have hall := bounded_of_streams cramped chain hops
  exact ⟨hops, hrun.1, hall.1, hall.2.1 "b" hrun.2⟩

end Intake

end Stream

end ComponentStream
