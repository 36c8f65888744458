import ComponentStream.Proofs.Json.Size
import ComponentStream.Proofs.Stream.Run
import ComponentStream.Proofs.Tree.Stamp

/-!
# Properties under updates

The limit on the size of properties is asked of every component and of every patch as it comes in.  What an update makes
of the properties that are stored is not measured again, so properties can outgrow the limit, by no more than one
limit's worth for each patch — twice that where the number format changes.

* `Patched` — properties that came in within the limit and were overridden by patches within the limit;
* `Tree.Patched` — all properties of a tree are such, with no more patches than the tree has had versions since;
* `Tree.Patched.applyMessage`, `Intake.patched_of_streams` — this is so in every state of every run;
* `Intake.outgrown` — two small messages make properties beyond the limit.
-/

namespace ComponentStream

open Json (Value)
open Protocol (Limits Message Node)

/-- Properties that were within a limit when they came in, and the patches within that limit that they took since, fewer
than there were revisions. -/
def Patched (maximum revisions : Nat) (props : Assoc Value) : Prop :=
  ∃ base patches, props = List.foldl Assoc.merge base patches ∧ (Value.obj base).size ≤ maximum ∧
    (∀ patch ∈ patches, (Value.obj patch).size ≤ maximum) ∧ patches.length < revisions

namespace Patched

variable {maximum revisions : Nat} {props patch : Assoc Value}

theorem fresh (h : (Value.obj props).size ≤ maximum) (revisions : Nat) : Patched maximum (revisions + 1) props :=
  ⟨props, [], rfl, h, fun _ hp => absurd hp List.not_mem_nil, Nat.succ_pos revisions⟩

theorem later (h : Patched maximum revisions props) : Patched maximum (revisions + 1) props := by
  obtain ⟨base, patches, heq, hbase, hpatches, hlen⟩ := h
  exact ⟨base, patches, heq, hbase, hpatches, Nat.lt_succ_of_lt hlen⟩

theorem merge (h : Patched maximum revisions props) (hp : (Value.obj patch).size ≤ maximum) :
    Patched maximum (revisions + 1) (Assoc.merge props patch) := by
  obtain ⟨base, patches, rfl, hbase, hpatches, hlen⟩ := h
  refine ⟨base, patches ++ [patch], ?_, hbase, fun q hq => ?_, ?_⟩
  · rw [List.foldl_append, List.foldl_cons, List.foldl_nil]
  · rcases List.mem_append.mp hq with hold | hnew
    · exact hpatches q hold
    · rw [List.mem_singleton.mp hnew]
      exact hp
  · rw [List.length_append]
    exact Nat.succ_lt_succ hlen

end Patched

namespace Tree

variable {t t' : Tree} {n : Node} {limits : Limits}

/-- The properties of every component came in within the limit and took patches within it, fewer than the version of
the tree. -/
def Patched (limits : Limits) (t : Tree) : Prop :=
  ∀ id c, Assoc.get? id t.components = some c → ComponentStream.Patched limits.maxPropsSize t.version c.props

namespace Patched

theorem empty (limits : Limits) : Tree.empty.Patched limits :=
  fun _ _ hc => absurd hc (by simp [Tree.empty, Assoc.get?])

/-- A message within the limits adds a revision: it brings properties, or a patch, or takes some away. -/
theorem applyMessage (hp : t.Patched limits) (h : t.Sound) {m : Message} (hm : m.Within limits) :
    (Stream.applyMessage limits t m).1.Patched limits := by
  have happ := Stream.applied limits t m
  generalize (Stream.applyMessage limits t m).1 = u, (Stream.applyMessage limits t m).2 = v at happ
  cases happ with
  | inserted _ _ _ hins =>
    have hversion := (sameStamp_insert hins).version
    obtain ⟨hi, rfl⟩ := (insert_eq_ok_iff h).mp hins
    intro id c hc
    show ComponentStream.Patched _ (Tree.version _ + 1) _
    rw [hversion]
    rcases hi.component_attach h hc with ⟨each, heach, rfl⟩ | hold
    · exact .fresh (hm.2 each heach).size_le _
    · exact (hp id c hold).later
  | merged hmerge =>
    intro id c hc
    show ComponentStream.Patched _ (Tree.version _ + 1) _
    rw [(sameStamp_mergeProps hmerge).version]
    rcases component_mergeProps hmerge hc with ⟨d, hd, rfl⟩ | hold
    · exact (hp id d hd).merge hm
    · exact (hp id c hold).later
  | @removed id _ =>
    intro k c hc
    show ComponentStream.Patched _ (Tree.version _ + 1) _
    rw [(sameStamp_remove t id).version]
    have hkept := (h.kept_of_remove (Assoc.contains_of_get? hc)).2.1
    exact (hp k c (hkept ▸ hc)).later
  | _ => exact hp

end Patched

end Tree

namespace Stream

open ComponentStream.Tree (Reachable)

namespace Intake

/-- **Stored properties are the properties of one component and a series of patches, each within the limit.**  A
component that was never updated is within the limit; one that was updated may be larger, but no larger than twice the
limit for each message that went into it, of which there are no more than the tree has versions. -/
theorem patched_of_streams (limits : Limits) (ops : List Op) (hops : ∀ m, Op.apply m ∉ ops) (id : String)
    (c : Protocol.Component) (hc : Assoc.get? id ((start limits).actAll ops).tree.components = some c) :
    ∃ base patches, c.props = List.foldl Assoc.merge base patches ∧ (Value.obj base).size ≤ limits.maxPropsSize ∧
      (∀ patch ∈ patches, (Value.obj patch).size ≤ limits.maxPropsSize) ∧
      patches.length < ((start limits).actAll ops).tree.version ∧
      (Value.obj c.props).size ≤ 2 * (limits.maxPropsSize * (patches.length + 1)) := by
  have hpatched : ((start limits).actAll ops).tree.Patched limits :=
    actAll_invariant (i := start limits) (Tree.Patched.empty limits)
      (fun _ _ _ hr hp hm => hp.applyMessage hr.sound hm.within) Reachable.empty (Tree.Patched.empty limits) ops hops
  obtain ⟨base, patches, heq, hbase, hpatches, hlen⟩ := hpatched id c hc
  refine ⟨base, patches, heq, hbase, hpatches, hlen, ?_⟩
  rw [heq]
  exact Value.size_foldl_merge_le hbase hpatches

/-- Ten bytes of properties. -/
def brief : Limits := ⟨100, 10, 10, []⟩

/-- A component with seven bytes of properties and an update with seven more. -/
def sevenTwice : List UInt8 :=
  ndjson [componentText (nodeText "a" "Card" "\x7b\"a\":1\x7d" []), updateText "a" "\x7b\"b\":2\x7d"]

theorem patched_of_streams_of_sevenTwice :
    (∀ m, Op.apply m ∉ [.feed 0 sevenTwice]) ∧
      ∃ c, Assoc.get? "a" ((start brief).actAll [.feed 0 sevenTwice]).tree.components = some c ∧
        ∃ base patches, c.props = List.foldl Assoc.merge base patches ∧ (Value.obj base).size ≤ brief.maxPropsSize ∧
          (∀ patch ∈ patches, (Value.obj patch).size ≤ brief.maxPropsSize) ∧
          patches.length < ((start brief).actAll [.feed 0 sevenTwice]).tree.version ∧
          (Value.obj c.props).size ≤ 2 * (brief.maxPropsSize * (patches.length + 1)) := by
  have hops : ∀ m, Op.apply m ∉ [.feed 0 sevenTwice] := by simp
  have hstored : ((start brief).actAll [.feed 0 sevenTwice]).tree.contains "a" = true := by decide +kernel
  obtain ⟨c, hc⟩ := Assoc.exists_get?_of_contains hstored
  exact ⟨hops, c, hc, patched_of_streams brief [.feed 0 sevenTwice] hops "a" c hc⟩

/-- Both messages are accepted, and the properties that they make together are beyond the limit. -/
theorem outgrown :
    ((start brief).feed 0 sevenTwice).2.map (fun v => v.message?.isSome) = [true, true] ∧
      (Assoc.get? "a" ((start brief).actAll [.feed 0 sevenTwice]).tree.components).map
        (fun c => (Value.obj c.props).size) = some 13 ∧
      brief.maxPropsSize < 13 := by
  decide +kernel

end Intake

end Stream

end ComponentStream
