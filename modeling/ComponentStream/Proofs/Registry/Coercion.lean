import Mathlib.Data.List.Forall2
import ComponentStream.Proofs.Protocol.Grammar
import ComponentStream.Registry.Rendering

/-!
# Properties that are checked twice

What a schema makes of the properties of a component is settled: checked once more it stays as it is, at every level.  It
holds nothing that is not declared and nothing that was not sent.  Properties that are not accepted stay as they were sent,
with something wrong.

* `items_eq_ok_iff`, `entries_eq_forall₂` — checks of lists and mappings, item by item;
* `readFields_cons_eq_ok_iff` — the declared members, one after the other;
* `Kind.Keeps`, `Kind.KeepsFields` — what is kept of a value for good;
* `Kind.keeps`, `Kind.keepsFields` — everything that is read is kept so;
* `Kind.telling_read` — whatever is not read has a fault;
* `validate_settles` — the schemas of the standard vocabulary.
-/

namespace ComponentStream.Registry

open Json (Value)
open Shape (Check Fault)
open Protocol (andThen_eq_ok_iff both_eq_ok_iff faults_both faults_map faults_under map_eq_ok_iff members_eq_ok_iff
  under_eq_ok_iff)

/-! ### Lists and mappings -/

section Parts

variable {α : Type} {read : Value → Check α}

theorem items_eq_ok_iff {vs : List Value} : ∀ {n : Nat} {as : List α},
    Shape.items read n vs = .ok as ↔ List.Forall₂ (fun v a => read v = .ok a) vs as := by
  induction vs with
  | nil =>
    intro n as
    rw [Shape.items, List.forall₂_nil_left_iff]
    exact ⟨fun h => (Except.ok.inj h).symm, fun h => h ▸ rfl⟩
  | cons v vs ih =>
    intro n as
    rw [Shape.items, map_eq_ok_iff, List.forall₂_cons_left_iff]
    simp only [both_eq_ok_iff, under_eq_ok_iff, ih]
    constructor
    · rintro ⟨p, ⟨hv, hvs⟩, rfl⟩
      exact ⟨p.1, p.2, hv, hvs, rfl⟩
    · rintro ⟨a, rest, hv, hvs, rfl⟩
      exact ⟨(a, rest), ⟨hv, hvs⟩, rfl⟩

theorem entries_eq_forall₂ {m : Assoc Value} : ∀ {kept : Assoc α},
    Shape.entries read m = .ok kept ↔ List.Forall₂ (fun e e' => e'.1 = e.1 ∧ read e.2 = .ok e'.2) m kept := by
  induction m with
  | nil =>
    intro kept
    rw [Shape.entries, List.forall₂_nil_left_iff]
    exact ⟨fun h => (Except.ok.inj h).symm, fun h => h ▸ rfl⟩
  | cons e m ih =>
    intro kept
    rw [Shape.entries, map_eq_ok_iff, List.forall₂_cons_left_iff]
    simp only [both_eq_ok_iff, under_eq_ok_iff, ih]
    constructor
    · rintro ⟨p, ⟨hv, hm⟩, rfl⟩
      exact ⟨(e.1, p.1), p.2, ⟨rfl, hv⟩, hm, rfl⟩
    · rintro ⟨⟨k, a⟩, rest, ⟨hk, hv⟩, hm, rfl⟩
      exact ⟨(a, rest), ⟨hv, hm⟩, by simp [← hk]⟩

/-! ### Checks that tell what is wrong -/

/-- A check that has a fault to tell when it fails. -/
def Telling (c : Check α) : Prop := c ≠ .error []

theorem telling_ok (a : α) : Telling (.ok a : Check α) := fun h => nomatch h

theorem telling_fail (m : Shape.Mismatch) : Telling (Check.fail m : Check α) := fun h => nomatch h

variable {β : Type} {c : Check α} {d : Check β}

theorem Telling.map (h : Telling c) (f : α → β) : Telling (c.map f) := by
  cases c with
  | ok a => exact telling_ok (f a)
  | error fs => exact fun heq => h (congrArg _ (Except.error.inj heq))

theorem Telling.under (h : Telling c) (s : Shape.Segment) : Telling (c.under s) := by
  cases c with
  | ok a => exact telling_ok a
  | error fs => exact fun heq => h (congrArg _ (List.map_eq_nil_iff.mp (Except.error.inj heq)))

theorem Telling.both (hc : Telling c) (hd : Telling d) : Telling (c.both d) := by
  cases c with
  | ok a =>
    cases d with
    | ok b => exact telling_ok (a, b)
    | error gs => exact fun heq => hd (congrArg _ (Except.error.inj heq))
  | error fs =>
    cases d with
    | ok b => exact fun heq => hc (congrArg _ (Except.error.inj heq))
    | error gs => exact fun heq => hc (congrArg _ (List.append_eq_nil_iff.mp (Except.error.inj heq)).1)

theorem telling_items (h : ∀ v, Telling (read v)) (vs : List Value) : ∀ n, Telling (Shape.items read n vs) := by
  induction vs with
  | nil => exact fun _ => telling_ok []
  | cons v vs ih => exact fun n => (((h v).under (.index n)).both (ih (n + 1))).map _

theorem telling_entries (h : ∀ v, Telling (read v)) (m : Assoc Value) : Telling (Shape.entries read m) := by
  induction m with
  | nil => exact telling_ok []
  | cons e m ih => exact (((h e.2).under (.key e.1)).both ih).map _

theorem telling_oneOf {choices : List α} {name : α → String} (v : Value) : Telling (Shape.oneOf choices name v) := by
  cases v with
  | str s =>
    rw [Shape.oneOf]
    split
    · exact telling_ok _
    · exact telling_fail _
  | _ => exact telling_fail _

end Parts

/-! ### Single values -/

theorem telling_string (v : Value) : Telling (Shape.Lenient.string v) := by
  cases v with
  | str s => exact telling_ok s
  | _ => exact telling_fail _

theorem telling_booleanOfInt (n : Int) : Telling (Shape.Lenient.booleanOfInt n) := by
  rw [Shape.Lenient.booleanOfInt]
  split
  · exact telling_ok _
  · split
    · exact telling_ok _
    · exact telling_fail _

theorem telling_boolean (v : Value) : Telling (Shape.Lenient.boolean v) := by
  cases v with
  | bool b => exact telling_ok b
  | int n =>
    rw [Shape.Lenient.boolean]
    split
    · exact telling_booleanOfInt n
    · exact telling_fail _
  | float x =>
    rw [Shape.Lenient.boolean]
    split
    · exact telling_booleanOfInt _
    · exact telling_fail _
  | str s =>
    rw [Shape.Lenient.boolean]
    split
    · exact telling_ok _
    · split
      · exact telling_ok _
      · exact telling_fail _
  | _ => exact telling_fail _

theorem telling_number (v : Value) : Telling (Shape.Lenient.number v) := by
  cases v with
  | float x => exact telling_ok x
  | int n =>
    rw [Shape.Lenient.number]
    split
    · exact telling_ok _
    · exact telling_fail _
  | bool b => exact telling_ok _
  | str s =>
    rw [Shape.Lenient.number]
    split
    · exact telling_ok _
    · exact telling_fail _
  | _ => exact telling_fail _

theorem telling_level (v : Value) : Telling (readLevel v) := by
  cases v with
  | int n =>
    rw [readLevel]
    split
    · exact telling_ok _
    · split <;> exact telling_fail _
  | bool b =>
    cases b with
    | true => exact telling_ok _
    | false => exact telling_fail _
  | float x =>
    rw [readLevel]
    split
    · split
      · exact telling_ok _
      · exact telling_fail _
    · exact telling_fail _
  | _ => exact telling_fail _

theorem telling_cell (v : Value) : Telling (readCell v) := by
  cases v with
  | str s => exact telling_ok _
  | int n => exact telling_ok _
  | float x => exact telling_ok _
  | bool b => exact telling_ok _
  | _ => exact fun h => nomatch h

theorem exists_level_of_read {v w : Value} (h : readLevel v = .ok w) : ∃ n, w = .int n ∧ isLevel n = true := by
  cases v with
  | int n =>
    rw [readLevel] at h
    split at h
    · next hn => exact ⟨n, (Except.ok.inj h).symm, hn⟩
    · split at h <;> cases h
  | bool b =>
    cases b with
    | true => exact ⟨1, (Except.ok.inj h).symm, by decide⟩
    | false => cases h
  | float x =>
    rw [readLevel] at h
    split at h
    · split at h
      · next n _ hn => exact ⟨n, (Except.ok.inj h).symm, hn⟩
      · cases h
    · cases h
  | _ => cases h

theorem readLevel_again {v w : Value} (h : readLevel v = .ok w) : readLevel w = .ok w := by
  obtain ⟨n, rfl, hn⟩ := exists_level_of_read h
  rw [readLevel, if_pos hn]

theorem readCell_again {v w : Value} (h : readCell v = .ok w) : readCell w = .ok w := by
  cases v <;> cases h <;> rfl

theorem oneOf_again {names : List String} {v : Value} {s : String} (h : Shape.oneOf names id v = .ok s) :
    Shape.oneOf names id (.str s) = .ok s := by
  cases v with
  | str s' =>
    have hfind := h
    rw [Shape.oneOf] at hfind
    split at hfind
    · next a ha =>
      obtain rfl : a = s := Except.ok.inj hfind
      obtain rfl : a = s' := by simpa using List.find?_some ha
      exact h
    · cases hfind
  | _ => cases h

/-! ### Members -/

section Members

variable {name : String} {isRequired : Bool} {kind : Kind} {fields : List (String × Bool × Kind)}
  {given kept : Assoc Value}

theorem readField_eq_ok_iff {v w : Value} {c : Check Value} : Kind.readField isRequired v c = .ok w ↔
    (isRequired = false ∧ v = .null ∧ w = .null) ∨ (¬ (isRequired = false ∧ v = .null) ∧ c = .ok w) := by
  cases isRequired with
  | true => simp [Kind.readField]
  | false => cases v <;> simp [Kind.readField, eq_comm]

theorem readFields_cons_eq_ok_iff : Kind.readFields ((name, isRequired, kind) :: fields) given = .ok kept ↔
    (Assoc.get? name given = none ∧ isRequired = false ∧ Kind.readFields fields given = .ok kept) ∨
      ∃ v w rest, Assoc.get? name given = some v ∧ Kind.readField isRequired v (kind.read v) = .ok w ∧
        Kind.readFields fields given = .ok rest ∧ kept = (name, w) :: rest := by
  rw [Kind.readFields]
  cases hget : Assoc.get? name given with
  | none =>
    cases isRequired with
    | true => simp [map_eq_ok_iff, both_eq_ok_iff, under_eq_ok_iff, Check.fail]
    | false => simp
  | some v =>
    simp only [map_eq_ok_iff, both_eq_ok_iff, under_eq_ok_iff, reduceCtorEq, false_and, Option.some.injEq, false_or]
    constructor
    · rintro ⟨p, ⟨hv, hrest⟩, rfl⟩
      exact ⟨v, p.1, p.2, rfl, hv, hrest, rfl⟩
    · rintro ⟨_, w, rest, rfl, hv, hrest, rfl⟩
      exact ⟨(w, rest), ⟨hv, hrest⟩, rfl⟩

/-- Only what is declared and was sent is kept. -/
theorem declared_and_sent : ∀ {kept : Assoc Value}, Kind.readFields fields given = .ok kept →
    ∀ name ∈ Assoc.keys kept, name ∈ fields.map Prod.fst ∧ name ∈ Assoc.keys given := by
  induction fields with
  | nil =>
    intro kept h
    cases h
    exact fun _ hmem => absurd hmem List.not_mem_nil
  | cons field fields ih =>
    obtain ⟨declared, isRequired, kind⟩ := field
    intro kept h name hmem
    rcases readFields_cons_eq_ok_iff.mp h with ⟨_, _, hrest⟩ | ⟨v, w, rest, hget, _, hrest, rfl⟩
    · exact (ih hrest name hmem).imp_left (List.mem_cons_of_mem _)
    · rcases List.mem_cons.mp hmem with rfl | hmem
      · have hsent : Assoc.contains name given = true := Assoc.contains_of_get? hget
        exact ⟨List.mem_cons_self, Assoc.contains_iff.mp hsent⟩
      · exact (ih hrest name hmem).imp_left (List.mem_cons_of_mem _)

end Members

/-! ### What is kept -/

mutual

/-- The names of declared members are distinct, at every level. -/
def Kind.isProper : Kind → Bool
  | .list item => item.isProper
  | .record _ fields => areProper fields
  | _ => true

def Kind.areProper : List (String × Bool × Kind) → Bool
  | [] => true
  | (name, _, kind) :: fields => !(fields.map Prod.fst).contains name && kind.isProper && areProper fields

end

/-- What is kept of a member: nothing if it was not sent, and null for null. -/
def KeptMember (keeps : Value → Value → Prop) : Option Value → Option Value → Prop
  | none, none => True
  | some sent, some kept => (sent = .null ∧ kept = .null) ∨ keeps sent kept
  | _, _ => False

mutual

/-- What is kept of a value for good.  Checked once more it stays as it is; an object in it has no other members than were
declared and sent; and what is inside is kept in the same way. -/
def Kind.Keeps : Kind → Value → Value → Prop
  | .list item, sent, kept => (Kind.list item).read kept = .ok kept ∧
      ∃ vs ws, sent = .arr vs ∧ kept = .arr ws ∧ List.Forall₂ item.Keeps vs ws
  | .record model fields, sent, kept => (Kind.record model fields).read kept = .ok kept ∧
      ∃ given members, sent = .obj given ∧ kept = .obj members ∧
        (∀ name ∈ Assoc.keys members, name ∈ fields.map Prod.fst ∧ name ∈ Assoc.keys given) ∧
        KeepsFields fields given members
  | .cells, sent, kept => Kind.cells.read kept = .ok kept ∧
      ∃ given cells, sent = .obj given ∧ kept = .obj cells ∧ Assoc.keys cells = Assoc.keys given
  | kind, _, kept => kind.read kept = .ok kept

/-- What is kept of the declared members of an object. -/
def Kind.KeepsFields : List (String × Bool × Kind) → Assoc Value → Assoc Value → Prop
  | [], _, _ => True
  | (name, _, kind) :: fields, given, kept =>
    KeptMember kind.Keeps (Assoc.get? name given) (Assoc.get? name kept) ∧ KeepsFields fields given kept

end

theorem Kind.Keeps.again {kind : Kind} {sent kept : Value} (h : kind.Keeps sent kept) : kind.read kept = .ok kept := by
  cases kind with
  | list item => exact h.1
  | record model fields => exact h.1
  | cells => exact h.1
  | _ => exact h

section Fields

variable {fields : List (String × Bool × Kind)} {given kept kept' : Assoc Value}

theorem Kind.areProper_cons_iff {name : String} {isRequired : Bool} {kind : Kind} :
    Kind.areProper ((name, isRequired, kind) :: fields) = true ↔
      name ∉ fields.map Prod.fst ∧ kind.isProper = true ∧ Kind.areProper fields = true := by
  simp [Kind.areProper, and_assoc]

/-- A member of another name is not in the way of the declared ones. -/
theorem get?_cons_of_new {name : String} (hnew : name ∉ fields.map Prod.fst) (w : Value) (rest : Assoc Value) :
    ∀ n ∈ fields.map Prod.fst, Assoc.get? n ((name, w) :: rest) = Assoc.get? n rest := fun n hn =>
  if_neg fun hsame : name = n => hnew (hsame ▸ hn)

theorem Kind.KeepsFields.congr (h : Kind.KeepsFields fields given kept)
    (heq : ∀ name ∈ fields.map Prod.fst, Assoc.get? name kept' = Assoc.get? name kept) :
    Kind.KeepsFields fields given kept' := by
  induction fields with
  | nil => exact trivial
  | cons field fields ih =>
    obtain ⟨name, isRequired, kind⟩ := field
    rw [Kind.KeepsFields] at h ⊢
    rw [heq name List.mem_cons_self]
    exact ⟨h.1, ih h.2 fun name hmem => heq name (List.mem_cons_of_mem _ hmem)⟩

/-- Members that have been kept for good are read from any map that holds them. -/
theorem Kind.KeepsFields.again (hproper : Kind.areProper fields = true) : ∀ {kept : Assoc Value},
    Kind.KeepsFields fields given kept → Kind.readFields fields given = .ok kept →
    ∀ m : Assoc Value, (∀ name ∈ fields.map Prod.fst, Assoc.get? name m = Assoc.get? name kept) →
      Kind.readFields fields m = .ok kept := by
  induction fields with
  | nil => exact fun _ h _ _ => h
  | cons field fields ih =>
    obtain ⟨name, isRequired, kind⟩ := field
    obtain ⟨hnew, _, hfields⟩ := Kind.areProper_cons_iff.mp hproper
    intro kept hkeeps hread m heq
    have hname := heq name List.mem_cons_self
    have hothers : ∀ n ∈ fields.map Prod.fst, Assoc.get? n m = Assoc.get? n kept := fun n hn =>
      heq n (List.mem_cons_of_mem _ hn)
    rw [Kind.KeepsFields] at hkeeps
    rcases readFields_cons_eq_ok_iff.mp hread with ⟨_, hoptional, hrest⟩ | ⟨v, w, rest, hget, hv, hrest, rfl⟩
    · -- the member was not sent, and no other has its name
      have hnone : Assoc.get? name kept = none :=
        Assoc.get?_eq_none_iff.mpr fun hmem => hnew (declared_and_sent hrest name hmem).1
      exact readFields_cons_eq_ok_iff.mpr (.inl ⟨hname.trans hnone, hoptional, ih hfields hkeeps.2 hrest m hothers⟩)
    · have hself : Assoc.get? name ((name, w) :: rest) = some w := if_pos rfl
      have hbelow := get?_cons_of_new hnew w rest
      have hagain : Kind.readField isRequired w (kind.read w) = .ok w := by
        have hmember := hkeeps.1
        rw [hget, hself] at hmember
        rw [readField_eq_ok_iff] at hv ⊢
        by_cases hnull : isRequired = false ∧ w = .null
        · exact .inl ⟨hnull.1, hnull.2, hnull.2⟩
        · refine .inr ⟨hnull, ?_⟩
          rcases hv with ⟨hoptional, _, hw⟩ | ⟨_, hv⟩
          · exact absurd ⟨hoptional, hw⟩ hnull
          · rcases hmember with ⟨rfl, rfl⟩ | hkept
            · exact hv
            · exact hkept.again
      refine readFields_cons_eq_ok_iff.mpr (.inr ⟨w, w, rest, hname.trans hself, hagain, ?_, rfl⟩)
      exact ih hfields (hkeeps.2.congr fun n hn => (hbelow n hn).symm) hrest m fun n hn =>
        (hothers n hn).trans (hbelow n hn)

end Fields

theorem forall₂_again {α β : Type} {R : α → β → Prop} {S : β → β → Prop} {as : List α} {bs : List β}
    (h : List.Forall₂ R as bs) (hS : ∀ a b, R a b → S b b) : List.Forall₂ S bs bs := by
  induction h with
  | nil => exact .nil
  | cons hhead _ ih => exact .cons (hS _ _ hhead) ih

mutual

/-- **What is read of a value is kept for good**, by recursion on the kind. -/
theorem Kind.keeps : ∀ kind : Kind, kind.isProper = true → ∀ {v w : Value}, kind.read v = .ok w → kind.Keeps v w
  | .string, _, v, w, h => by
    obtain ⟨s, _, rfl⟩ := map_eq_ok_iff.mp h
    rfl
  | .boolean, _, v, w, h => by
    obtain ⟨b, _, rfl⟩ := map_eq_ok_iff.mp h
    rfl
  | .number, _, v, w, h => by
    obtain ⟨x, _, rfl⟩ := map_eq_ok_iff.mp h
    rfl
  | .level, _, v, w, h => readLevel_again h
  | .choice names, _, v, w, h => by
    obtain ⟨s, hs, rfl⟩ := map_eq_ok_iff.mp h
    exact map_eq_ok_iff.mpr ⟨s, oneOf_again hs, rfl⟩
  | .dictionary, _, v, w, h => by
    obtain ⟨m, _, rfl⟩ := map_eq_ok_iff.mp h
    rfl
  | .cells, _, v, w, h => by
    obtain ⟨cells, hcells, rfl⟩ := map_eq_ok_iff.mp h
    obtain ⟨given, hgiven, hread⟩ := andThen_eq_ok_iff.mp hcells
    obtain rfl := members_eq_ok_iff.mp hgiven
    have hpairs := entries_eq_forall₂.mp hread
    have hagain : Shape.entries readCell cells = .ok cells :=
      entries_eq_forall₂.mpr (forall₂_again hpairs fun _ _ he => ⟨rfl, readCell_again he.2⟩)
    have hkeys : Assoc.keys cells = Assoc.keys given := by
      have hnames : List.Forall₂ (fun e e' => e'.1 = e.1) given cells := hpairs.imp fun _ _ he => he.1
      rw [Assoc.keys, Assoc.keys, ← List.forall₂_eq_eq_eq, List.forall₂_map_left_iff, List.forall₂_map_right_iff]
      exact hnames.flip
    exact ⟨by rw [Kind.read, Shape.members, Check.andThen, hagain, Check.map], given, cells, rfl, rfl, hkeys⟩
  | .list item, hproper, v, w, h => by
    cases v with
    | arr vs =>
      rw [Kind.read] at h
      obtain ⟨ws, hread, rfl⟩ := map_eq_ok_iff.mp h
      have hkept : List.Forall₂ item.Keeps vs ws :=
        (items_eq_ok_iff.mp hread).imp fun _ _ hitem => Kind.keeps item hproper hitem
      have hagain : Shape.items item.read 0 ws = .ok ws :=
        items_eq_ok_iff.mpr (forall₂_again hkept fun _ _ hitem => hitem.again)
      exact ⟨by rw [Kind.read, hagain, Check.map], vs, ws, rfl, rfl, hkept⟩
    | _ => cases h
  | .record model fields, hproper, v, w, h => by
    cases v with
    | obj given =>
      rw [Kind.read] at h
      obtain ⟨kept, hread, rfl⟩ := map_eq_ok_iff.mp h
      have hkept := Kind.keepsFields fields hproper hread
      have hagain := hkept.again hproper hread kept fun _ _ => rfl
      exact ⟨by rw [Kind.read, hagain, Check.map], given, kept, rfl, rfl, declared_and_sent hread, hkept⟩
    | _ => cases h

theorem Kind.keepsFields : ∀ fields : List (String × Bool × Kind), Kind.areProper fields = true →
    ∀ {given kept : Assoc Value}, Kind.readFields fields given = .ok kept → Kind.KeepsFields fields given kept
  | [], _, _, _, _ => trivial
  | (name, isRequired, kind) :: fields, hproper, given, kept, h => by
    obtain ⟨hnew, hkind, hfields⟩ := Kind.areProper_cons_iff.mp hproper
    rcases readFields_cons_eq_ok_iff.mp h with ⟨hget, _, hrest⟩ | ⟨v, w, rest, hget, hv, hrest, rfl⟩
    · have hnone : Assoc.get? name kept = none :=
        Assoc.get?_eq_none_iff.mpr fun hmem => hnew (declared_and_sent hrest name hmem).1
      rw [Kind.KeepsFields, hget, hnone]
      exact ⟨trivial, Kind.keepsFields fields hfields hrest⟩
    · have hself : Assoc.get? name ((name, w) :: rest) = some w := if_pos rfl
      rw [Kind.KeepsFields, hget, hself]
      refine ⟨?_, (Kind.keepsFields fields hfields hrest).congr (get?_cons_of_new hnew w rest)⟩
      exact (readField_eq_ok_iff.mp hv).elim (fun hnull => .inl hnull.2) fun hread => .inr (Kind.keeps kind hkind hread.2)

end

mutual

/-- **A value that is not read has something wrong.** -/
theorem Kind.telling_read : ∀ (kind : Kind) (v : Value), Telling (kind.read v)
  | .string, v => (telling_string v).map _
  | .boolean, v => (telling_boolean v).map _
  | .number, v => (telling_number v).map _
  | .level, v => telling_level v
  | .choice _, v => (telling_oneOf v).map _
  | .dictionary, v => by
    cases v with
    | obj fields => exact telling_ok _
    | _ => exact telling_fail _
  | .cells, v => by
    cases v with
    | obj fields => exact (telling_entries telling_cell fields).map _
    | _ => exact telling_fail _
  | .list item, v => by
    cases v with
    | arr vs => exact (telling_items (Kind.telling_read item) vs 0).map _
    | _ => exact telling_fail _
  | .record _ fields, v => by
    cases v with
    | obj given => exact (Kind.telling_readFields fields given).map _
    | _ => exact telling_fail _

theorem Kind.telling_readFields : ∀ (fields : List (String × Bool × Kind)) (given : Assoc Value),
    Telling (Kind.readFields fields given)
  | [], _ => telling_ok []
  | (name, isRequired, kind) :: fields, given => by
    have hrest := Kind.telling_readFields fields given
    rw [Kind.readFields]
    split
    · split
      · exact (((telling_fail .missing).under (.key name)).both hrest).map _
      · exact hrest
    · next v _ =>
      have hfield : Telling (Kind.readField isRequired v (kind.read v)) := by
        cases isRequired with
        | true => exact Kind.telling_read kind v
        | false =>
          cases v with
          | null => exact telling_ok _
          | _ => exact Kind.telling_read kind _
      exact ((hfield.under (.key name)).both hrest).map _

end

/-! ### Schemas -/

section Schemas

variable {s : Schema} {props kept : Assoc Value}

theorem Schema.check_eq_ok_iff : s.check props = .ok kept ↔ Kind.readFields s.fields props = .ok kept := by
  rw [Schema.check]
  cases Kind.readFields s.fields props <;> simp

/-- What a schema makes of properties: they are kept for good, or there is something wrong with them. -/
theorem Schema.check_cases (hproper : Kind.areProper s.fields = true) (props : Assoc Value) :
    (∃ kept, s.check props = .ok kept ∧ s.check kept = .ok kept ∧
        (∀ name ∈ Assoc.keys kept, name ∈ s.fields.map Prod.fst ∧ name ∈ Assoc.keys props) ∧
        Kind.KeepsFields s.fields props kept) ∨
      ∃ faults, faults ≠ [] ∧ s.check props = .error faults := by
  cases hread : Kind.readFields s.fields props with
  | ok kept =>
    have hkept := Kind.keepsFields s.fields hproper hread
    have hagain := hkept.again hproper hread kept fun _ _ => rfl
    exact .inl ⟨kept, check_eq_ok_iff.mpr hread, check_eq_ok_iff.mpr hagain, declared_and_sent hread, hkept⟩
  | error faults =>
    refine .inr ⟨faults.map Shape.Fault.text, fun hnil => ?_, by rw [Schema.check, hread]⟩
    rw [List.map_eq_nil_iff.mp hnil] at hread
    exact Kind.telling_readFields s.fields props hread

end Schemas

theorem Standard.areProper_schema (s : Standard) : Kind.areProper s.schema.fields = true := by
  cases s <;> decide

theorem Standard.validate_of_check_ok {s : Standard} {props kept : Assoc Value} (h : s.schema.check props = .ok kept) :
    s.entry.validate props = .ok (kept, []) := by
  simp only [Entry.validate, Standard.entry, Standard.checker, h]

theorem Standard.validate_of_check_error {s : Standard} {props : Assoc Value} {faults : List String}
    (h : s.schema.check props = .error faults) : s.entry.validate props = .ok (props, faults) := by
  simp only [Entry.validate, Standard.entry, Standard.checker, h]

/-- **The properties of a standard component are checked once and for all**, and the checker never fails.  Either they are
accepted, and what is kept of them is accepted once more and returned as it is, holds only members that are declared and
were sent, and is of the same kind at every level inside: items, columns, options and rows are kept in the same way.  Or
they are returned as they were sent, and something is wrong with them. -/
theorem Standard.validate_settles (s : Standard) (props : Assoc Value) :
    (∃ kept, s.entry.validate props = .ok (kept, []) ∧ s.entry.validate kept = .ok (kept, []) ∧
        (∀ name ∈ Assoc.keys kept, name ∈ s.schema.fields.map Prod.fst ∧ name ∈ Assoc.keys props) ∧
        Kind.KeepsFields s.schema.fields props kept) ∨
      ∃ faults, faults ≠ [] ∧ s.entry.validate props = .ok (props, faults) := by
  rcases Schema.check_cases s.areProper_schema props with ⟨kept, hchecked, hagain, hnames, hkept⟩ | ⟨faults, hne, hchecked⟩
  · exact .inl ⟨kept, validate_of_check_ok hchecked, validate_of_check_ok hagain, hnames, hkept⟩
  · exact .inr ⟨faults, hne, validate_of_check_error hchecked⟩

/-- What is not declared is dropped at every level, and what is close enough is converted. -/
example : Standard.table.entry.validate
    [("rows", .arr [.obj [("k", .bool true), ("other", .str "x")]]), ("width", .int 7), ("striped", .str "YES"),
      ("columns", .arr [.obj [("key", .str "k"), ("width", .int 3), ("label", .str "K")]])] =
    .ok ([("columns", .arr [.obj [("key", .str "k"), ("label", .str "K")]]),
      ("rows", .arr [.obj [("k", .int 1), ("other", .str "x")]]), ("striped", .bool true)], []) := by
  rfl

end ComponentStream.Registry
