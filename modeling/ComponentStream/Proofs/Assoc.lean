import Mathlib.Data.List.Basic
import Mathlib.Data.List.Induction
import Mathlib.Data.List.Nodup
import ComponentStream.Assoc

/-!
# Looking names up in insertion-ordered maps

A map whose names are distinct is determined by what it holds under each name, up to order.  This file says what
each operation does to the value under a name.

* `Assoc.Distinct` — no name has two entries;
* `Assoc.perm_of_get?_eq` — what is found under the names determines the entries, up to order;
* `Assoc.get?_insert`, `Assoc.get?_without` — reading after a change;
* `Assoc.get?_merge`, `Assoc.keys_merge` — the values and the order of names in a merged map, which together determine it;
* `Assoc.merge_ofList`, `Assoc.merge_merge_self` — several patches as one, and one patch twice;
* `Assoc.without` — all entries but those under some names, which is what a series of erasures comes to;
* `Assoc.erase_eq_without` — a single erasure.
-/

namespace ComponentStream.Assoc

variable {α : Type}

/-- No name has two entries. -/
def Distinct (m : Assoc α) : Prop := (keys m).Nodup

/-- The entries of a map but those under some names. -/
def without (gone : List String) (m : Assoc α) : Assoc α := m.filter fun e => !gone.contains e.1

/-! ### Reading -/

theorem get?_eq_none_iff {k : String} {m : Assoc α} : get? k m = none ↔ k ∉ keys m := by
  induction m with
  | nil => simp [get?, keys]
  | cons e m ih =>
    obtain ⟨k', v⟩ := e
    by_cases h : k' = k
    · simp [get?, keys, h]
    · have hne : k ≠ k' := fun he => h he.symm
      simpa [get?, keys, h, hne] using ih

theorem contains_iff {k : String} {m : Assoc α} : contains k m = true ↔ k ∈ keys m := by
  rw [← not_iff_not, Bool.not_eq_true, contains, Option.isSome_eq_false_iff, Option.isNone_iff_eq_none]
  exact get?_eq_none_iff

theorem contains_of_get? {k : String} {m : Assoc α} {v : α} (h : get? k m = some v) : contains k m = true := by
  rw [contains, h]
  rfl

theorem exists_get?_of_contains {k : String} {m : Assoc α} (h : contains k m = true) : ∃ v, get? k m = some v :=
  Option.isSome_iff_exists.mp h

theorem get?_eq_none_of_not_contains {k : String} {m : Assoc α} (h : contains k m = false) : get? k m = none := by
  rwa [contains, Option.isSome_eq_false_iff, Option.isNone_iff_eq_none] at h

theorem mem_of_get? {k : String} {v : α} {m : Assoc α} (h : get? k m = some v) : (k, v) ∈ m := by
  induction m with
  | nil => cases h
  | cons e m ih =>
    obtain ⟨k', v'⟩ := e
    rw [get?] at h
    split at h
    · next hk =>
      rw [hk, Option.some.inj h]
      exact List.mem_cons_self
    · exact List.mem_cons_of_mem _ (ih h)

theorem get?_map {β : Type} (f : String → α → β) (k : String) (m : Assoc α) :
    get? k (m.map fun e => (e.1, f e.1 e.2)) = (get? k m).map (f k) := by
  induction m with
  | nil => rfl
  | cons e m ih =>
    obtain ⟨k', v⟩ := e
    by_cases h : k' = k
    · subst h
      simp [get?]
    · simpa [get?, h] using ih

/-- In a map with distinct names, the entries are what is found under the names. -/
theorem mem_iff_get?_eq_some {m : Assoc α} (h : Distinct m) {k : String} {v : α} :
    (k, v) ∈ m ↔ get? k m = some v := by
  induction m with
  | nil => simp [get?]
  | cons e m ih =>
    obtain ⟨k', v'⟩ := e
    have hk' : k' ∉ keys m := (List.nodup_cons.mp h).1
    rw [List.mem_cons, get?, ih (List.nodup_cons.mp h).2]
    by_cases hk : k' = k
    · subst hk
      have hnone : get? k' m = none := get?_eq_none_iff.mpr hk'
      simp [hnone, eq_comm]
    · have hne : ¬ (k = k' ∧ v = v') := fun he => hk he.1.symm
      simp [hk, hne]

/-- Two maps with distinct names have the same entries, up to order, when the same is found under every name. -/
theorem perm_of_get?_eq {m m' : Assoc α} (h : Distinct m) (h' : Distinct m') (heq : ∀ k, get? k m = get? k m') :
    m.Perm m' := by
  refine (List.perm_ext_iff_of_nodup (List.Nodup.of_map _ h) (List.Nodup.of_map _ h')).mpr fun e => ?_
  rw [mem_iff_get?_eq_some h, mem_iff_get?_eq_some h', heq]

/-! ### Entering -/

theorem get?_insert (k k' : String) (v : α) (m : Assoc α) :
    get? k (insert k' v m) = if k' = k then some v else get? k m := by
  induction m with
  | nil => rfl
  | cons e m ih =>
    obtain ⟨k₀, v₀⟩ := e
    by_cases h₀ : k₀ = k'
    · subst h₀
      by_cases h : k₀ = k <;> simp [insert, get?, h]
    · by_cases h : k₀ = k
      · subst h
        have hne : ¬ k' = k₀ := fun he => h₀ he.symm
        simp [insert, get?, h₀, hne]
      · simp [insert, get?, h₀, h, ih]

/-- In a map with distinct names, entering a value under a known name changes the entry of this name. -/
theorem insert_eq_map {k : String} {m : Assoc α} {v : α} (h : Distinct m) (hk : get? k m = some v) (f : α → α) :
    insert k (f v) m = m.map fun e => if e.1 = k then (e.1, f e.2) else e := by
  induction m with
  | nil => exact absurd hk (by simp [get?])
  | cons e m ih =>
    obtain ⟨k', v'⟩ := e
    obtain ⟨hk', hm⟩ := List.nodup_cons.mp h
    rw [get?] at hk
    by_cases hsame : k' = k
    · subst hsame
      rw [if_pos rfl] at hk
      have hrest : m.map (fun e => if e.1 = k' then (e.1, f e.2) else e) = m.map id :=
        List.map_congr_left fun e he => if_neg fun heq => hk' (List.mem_map.mpr ⟨e, he, heq⟩)
      simp [insert, Option.some.inj hk, hrest]
    · rw [if_neg hsame] at hk
      simp [insert, hsame, ih hm hk]

theorem contains_insert (k k' : String) (v : α) (m : Assoc α) :
    contains k (insert k' v m) = (decide (k' = k) || contains k m) := by
  rw [contains, get?_insert]
  by_cases h : k' = k <;> simp [h, contains]

theorem keys_insert (k : String) (v : α) (m : Assoc α) :
    keys (insert k v m) = if k ∈ keys m then keys m else keys m ++ [k] := by
  induction m with
  | nil => rfl
  | cons e m ih =>
    obtain ⟨k', v'⟩ := e
    by_cases h : k' = k
    · simp [insert, keys, h]
    · have hne : k ≠ k' := fun he => h he.symm
      have hcons : keys (insert k v ((k', v') :: m)) = k' :: keys (insert k v m) := by
        simp [insert, keys, h]
      rw [hcons, ih]
      by_cases hm : k ∈ keys m
      · have hm' : k ∈ keys ((k', v') :: m) := List.mem_cons_of_mem _ hm
        rw [if_pos hm, if_pos hm']
        rfl
      · have hm' : k ∉ keys ((k', v') :: m) := fun hc => (List.mem_cons.mp hc).elim hne hm
        rw [if_neg hm, if_neg hm']
        rfl

theorem Distinct.insert {m : Assoc α} (h : Distinct m) (k : String) (v : α) : Distinct (insert k v m) := by
  rw [Distinct, keys_insert]
  by_cases hk : k ∈ keys m
  · rw [if_pos hk]
    exact h
  · rw [if_neg hk, ← List.concat_eq_append]
    exact List.Nodup.concat hk h

/-- A new name goes to the end. -/
theorem insert_of_not_mem {k : String} {m : Assoc α} (h : k ∉ keys m) (v : α) : insert k v m = m ++ [(k, v)] := by
  induction m with
  | nil => rfl
  | cons e m ih =>
    obtain ⟨k', v'⟩ := e
    have hk : k' ≠ k ∧ k ∉ keys m := by simpa [keys, eq_comm] using h
    rw [insert, if_neg hk.1, ih hk.2, List.cons_append]

theorem merge_of_distinct {m patch : Assoc α} (h : Distinct (m ++ patch)) : merge m patch = m ++ patch := by
  induction patch generalizing m with
  | nil => exact (List.append_nil m).symm
  | cons e patch ih =>
    have hnew : e.1 ∉ keys m := by
      rw [Distinct, keys, List.map_append, List.map_cons, List.nodup_middle] at h
      exact fun hmem => (List.nodup_cons.mp h).1 (List.mem_append_left _ hmem)
    have hinsert : insert e.1 e.2 m = m ++ [e] := insert_of_not_mem hnew e.2
    have hsplit : m ++ e :: patch = m ++ [e] ++ patch := by simp
    have hmerge : merge m (e :: patch) = merge (insert e.1 e.2 m) patch := rfl
    rw [hmerge, hinsert, hsplit, ih (hsplit ▸ h)]

theorem distinct_nil : Distinct ([] : Assoc α) := List.nodup_nil

/-- Entries with distinct names are a map as they are. -/
theorem ofList_of_distinct {es : Assoc α} (h : Distinct es) : ofList es = es := merge_of_distinct h

/-! ### Merging -/

theorem merge_append (m p q : Assoc α) : merge m (p ++ q) = merge (merge m p) q := List.foldl_append ..

theorem Distinct.merge {m : Assoc α} (h : Distinct m) (p : Assoc α) : Distinct (merge m p) := by
  induction p generalizing m with
  | nil => exact h
  | cons e p ih => exact ih (h.insert e.1 e.2)

/-- Of two values that are entered under one name, the later one counts. -/
theorem insert_insert (k : String) (v w : α) (m : Assoc α) : insert k w (insert k v m) = insert k w m := by
  induction m with
  | nil => simp [insert]
  | cons e m ih =>
    obtain ⟨k', v'⟩ := e
    by_cases h : k' = k
    · simp [insert, h]
    · simp [insert, h, ih]

/-- Values under two names can be entered in either order, if one of the names is known. -/
theorem insert_insert_of_ne {k k' : String} {m : Assoc α} (hne : k ≠ k') (hk : k ∈ keys m) (v v' : α) :
    insert k v (insert k' v' m) = insert k' v' (insert k v m) := by
  induction m with
  | nil => exact absurd hk List.not_mem_nil
  | cons e m ih =>
    obtain ⟨k₀, v₀⟩ := e
    by_cases h : k₀ = k
    · have h' : k₀ ≠ k' := fun he => hne (h.symm.trans he)
      simp [insert, h, h.symm.trans_ne h']
    · have hm : k ∈ keys m := (List.mem_cons.mp hk).resolve_left fun he => h he.symm
      by_cases h' : k₀ = k'
      · have hk' : ¬ k' = k := fun he => h (h'.trans he)
        simp [insert, h', hk']
      · simp [insert, h, h', ih hm]

theorem merge_insert_of_not_mem {k : String} {m p : Assoc α} (hk : k ∈ keys m) (hnew : k ∉ keys p) (v : α) :
    merge (insert k v m) p = insert k v (merge m p) := by
  induction p generalizing m with
  | nil => rfl
  | cons e p ih =>
    have hp : k ≠ e.1 ∧ k ∉ keys p := by simpa [keys] using hnew
    have hk' : k ∈ keys (insert e.1 e.2 m) := by
      rw [keys_insert]
      split
      · exact hk
      · exact List.mem_append_left _ hk
    show merge (insert e.1 e.2 (insert k v m)) p = insert k v (merge (insert e.1 e.2 m) p)
    rw [← insert_insert_of_ne hp.1 hk, ih hk' hp.2]

/-- Entering a value into a patch enters it into what the patch is merged into. -/
theorem merge_insert {k : String} {p : Assoc α} (hp : Distinct p) (v : α) (m : Assoc α) :
    merge m (insert k v p) = insert k v (merge m p) := by
  induction p generalizing m with
  | nil => rfl
  | cons e p ih =>
    obtain ⟨k', v'⟩ := e
    obtain ⟨hk', hp⟩ := List.nodup_cons.mp hp
    by_cases h : k' = k
    · subst h
      have hknown : k' ∈ keys (insert k' v' m) := contains_iff.mp (by rw [contains_insert]; simp)
      show merge m (insert k' v ((k', v') :: p)) = insert k' v (merge (insert k' v' m) p)
      rw [← merge_insert_of_not_mem hknown hk', insert_insert, insert, if_pos rfl]
      rfl
    · rw [insert, if_neg h]
      exact ih hp (insert k' v' m)

/-- **Entries are merged in one by one or as the one map that they make.** -/
theorem merge_ofList (m es : Assoc α) : merge m (ofList es) = merge m es := by
  induction es using List.reverseRecOn with
  | nil => rfl
  | append_singleton es e ih =>
    have hmap : ofList (es ++ [e]) = insert e.1 e.2 (ofList es) := merge_append [] es [e]
    have hdistinct : Distinct (ofList es) := distinct_nil.merge es
    rw [hmap, merge_insert hdistinct, ih, merge_append]
    rfl

/-- The last entry of a name counts, and what was there before if there is none. -/
theorem get?_merge (k : String) (m p : Assoc α) : get? k (merge m p) = (get? k p.reverse).or (get? k m) := by
  induction p using List.reverseRecOn with
  | nil => rfl
  | append_singleton p e ih =>
    have hone : merge m (p ++ [e]) = insert e.1 e.2 (merge m p) := merge_append m p [e]
    rw [hone, get?_insert, ih, List.reverse_append, List.reverse_singleton, List.singleton_append, get?]
    split <;> rfl

/-- Known names keep their positions, and new ones come behind them in the order of their first entries. -/
theorem keys_merge (m p : Assoc α) :
    keys (merge m p) = keys m ++ ((keys p).filter fun k => k ∉ keys m).eraseDups := by
  induction p using List.reverseRecOn with
  | nil => exact (List.append_nil _).symm
  | append_singleton p e ih =>
    have hone : merge m (p ++ [e]) = insert e.1 e.2 (merge m p) := merge_append m p [e]
    have hkeys : keys (p ++ [e]) = keys p ++ [e.1] := List.map_append ..
    rw [hone, keys_insert, ih, hkeys, List.filter_append, List.eraseDups_append]
    by_cases hold : e.1 ∈ keys m
    · simp [hold]
    · by_cases hmem : e.1 ∈ keys p <;> simp [hold, hmem, List.removeAll, List.eraseDups_cons]

theorem mem_of_mem_insert {k : String} {v : α} {m : Assoc α} {e : String × α} (h : e ∈ insert k v m) :
    e = (k, v) ∨ e ∈ m := by
  induction m with
  | nil => exact .inl (List.mem_singleton.mp h)
  | cons e' m ih =>
    obtain ⟨k', v'⟩ := e'
    by_cases hk : k' = k
    · subst hk
      rw [insert, if_pos rfl] at h
      exact (List.mem_cons.mp h).imp_right (List.mem_cons_of_mem _)
    · rw [insert, if_neg hk] at h
      rcases List.mem_cons.mp h with rfl | hrest
      · exact .inr List.mem_cons_self
      · exact (ih hrest).imp_right (List.mem_cons_of_mem _)

theorem mem_of_mem_merge {m p : Assoc α} {e : String × α} (h : e ∈ merge m p) : e ∈ m ∨ e ∈ p := by
  induction p generalizing m with
  | nil => exact .inl h
  | cons e' p ih =>
    rcases ih h with hold | hnew
    · exact (mem_of_mem_insert hold).elim (fun heq => .inr (heq ▸ List.mem_cons_self)) .inl
    · exact .inr (List.mem_cons_of_mem _ hnew)

/-- Patches are merged in one by one or as the one map that they make. -/
theorem merge_foldl_merge (m : Assoc α) (ps : List (Assoc α)) : merge m (ps.foldl merge []) = merge m ps.flatten := by
  have hflat : ps.foldl merge [] = ofList ps.flatten := List.foldl_flatten.symm
  rw [hflat, merge_ofList]

/-- Merging in what is there already changes nothing. -/
theorem merge_eq_self {m p : Assoc α} (h : ∀ e ∈ p, get? e.1 m = some e.2) : merge m p = m := by
  have hsame : ∀ (k : String) (v : α) (m : Assoc α), get? k m = some v → insert k v m = m := by
    intro k v m hget
    induction m with
    | nil => exact absurd hget (by simp [get?])
    | cons e m ih =>
      obtain ⟨k', v'⟩ := e
      rw [get?] at hget
      by_cases hk : k' = k
      · rw [if_pos hk] at hget
        rw [insert, if_pos hk, Option.some.inj hget]
      · rw [if_neg hk] at hget
        rw [insert, if_neg hk, ih hget]
  induction p with
  | nil => rfl
  | cons e p ih =>
    show merge (insert e.1 e.2 m) p = m
    rw [hsame e.1 e.2 m (h e List.mem_cons_self), ih fun e' he' => h e' (List.mem_cons_of_mem _ he')]

/-- **A patch that is merged in twice is merged in once.** -/
theorem merge_merge_self (m p : Assoc α) : merge (merge m p) p = merge m p := by
  rw [← merge_ofList (merge m p) p]
  refine merge_eq_self fun e he => ?_
  have hget : get? e.1 (ofList p) = some e.2 := (mem_iff_get?_eq_some (distinct_nil.merge p)).mp he
  rw [ofList, get?_merge, show get? e.1 ([] : Assoc α) = none from rfl, Option.or_none] at hget
  rw [get?_merge, hget, Option.some_or]

/-! ### Leaving out -/

theorem get?_erase_of_ne {k k' : String} (hne : k ≠ k') (m : Assoc α) : get? k (erase k' m) = get? k m := by
  induction m with
  | nil => rfl
  | cons e m ih =>
    obtain ⟨k'', v⟩ := e
    by_cases hk : k'' = k'
    · subst hk
      rw [erase, if_pos rfl, get?, if_neg hne.symm]
    · rw [erase, if_neg hk, get?, get?, ih]

theorem without_nil (m : Assoc α) : without [] m = m := by
  simp [without]

theorem get?_without (gone : List String) (k : String) (m : Assoc α) :
    get? k (without gone m) = if k ∈ gone then none else get? k m := by
  induction m with
  | nil => simp [without, get?]
  | cons e m ih =>
    obtain ⟨k', v⟩ := e
    have hcons : without gone ((k', v) :: m) = if k' ∈ gone then without gone m else (k', v) :: without gone m := by
      by_cases hk : k' ∈ gone <;> simp [without, hk]
    rw [hcons]
    by_cases hk : k' ∈ gone
    · rw [if_pos hk, ih]
      by_cases h : k' = k
      · subst h
        rw [if_pos hk, if_pos hk]
      · simp [get?, h]
    · rw [if_neg hk]
      by_cases h : k' = k
      · subst h
        simp [get?, hk]
      · simp [get?, h, ih]

theorem Distinct.without {m : Assoc α} (h : Distinct m) (gone : List String) : Distinct (without gone m) :=
  List.Nodup.sublist (List.Sublist.map _ List.filter_sublist) h

theorem without_without (gone gone' : List String) (m : Assoc α) :
    without gone' (without gone m) = without (gone ++ gone') m := by
  rw [without, without, List.filter_filter, without]
  apply List.filter_congr
  intro e _
  simp [Bool.and_comm]

/-- In a map with distinct names, erasing one of them leaves out exactly its entry. -/
theorem erase_eq_without {m : Assoc α} (h : Distinct m) (k : String) : erase k m = without [k] m := by
  induction m with
  | nil => rfl
  | cons e m ih =>
    obtain ⟨k', v⟩ := e
    have hk' : k' ∉ keys m := (List.nodup_cons.mp h).1
    have hm : Distinct m := (List.nodup_cons.mp h).2
    by_cases hk : k' = k
    · subst hk
      have hkeep : without [k'] m = m := by
        apply List.filter_eq_self.mpr
        intro e he
        have hne : e.1 ≠ k' := fun heq => hk' (heq ▸ List.mem_map_of_mem he)
        simp [hne]
      have hcons : without [k'] ((k', v) :: m) = without [k'] m := by simp [without]
      rw [hcons, hkeep]
      simp [erase]
    · have hcons : without [k] ((k', v) :: m) = (k', v) :: without [k] m := by simp [without, hk]
      rw [hcons, ← ih hm]
      simp [erase, hk]

end ComponentStream.Assoc
