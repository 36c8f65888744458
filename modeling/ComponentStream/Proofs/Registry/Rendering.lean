import ComponentStream.Proofs.Number.Finite
import ComponentStream.Proofs.Protocol.Parts
import ComponentStream.Proofs.Registry.Coercion
import ComponentStream.Proofs.Render.Mirror

/-!
# What the standard renderers make of accepted properties

Properties that a schema of the standard vocabulary has accepted hold everything that its renderer takes apart: required
members are there, members are of their kinds, and what is optional is absent, null or of its kind.  The share of a bar
is finite whatever its value and its maximum are.  So a standard renderer gives up on them in a single case: a table has
to show a whole number of more digits than can be shown.  No text can hold such a number.

* `Kind.short_read` — what is kept of a value with short numbers is such a value;
* `Kind.HeldIn`, `heldIn_of_readFields` — what is found under the name of a declared member;
* `Succeeds` — a renderer that does not give up, step by step;
* `Standard.Legible`, `Standard.succeeds_render_iff` — the thirteen renderers;
* `Standard.legible_of_read` — accepted properties that were read from a text are legible;
* `Standard.registry` — the standard vocabulary alone, as a registry;
* `Standard.accepted_is_shown` — accepted properties, in a registry and in the standard one;
* `Standard.table_of_long_number` — a table that only a host can build.
-/

namespace ComponentStream

open Json (Value)
open Protocol (Node)

namespace Registry

open Protocol (andThen_eq_ok_iff map_eq_ok_iff members_eq_ok_iff)
open Render (Context Failure Output Rendered renderAll)

/-! ### What is read of short values -/

theorem short_readCell {v w : Value} (h : readCell v = .ok w) (hv : v.Short) : w.Short := by
  cases v with
  | bool b =>
    obtain rfl : _ = w := Except.ok.inj h
    cases b <;> exact Value.short_int_iff.mpr (by decide)
  | str s => exact Except.ok.inj h ▸ hv
  | int n => exact Except.ok.inj h ▸ hv
  | float x => exact Except.ok.inj h ▸ hv
  | _ => cases h

theorem short_of_isLevel {n : Int} (h : isLevel n = true) : (Value.int n).Short := by
  rw [isLevel, decide_eq_true_iff] at h
  have hcases : n = 1 ∨ n = 2 ∨ n = 3 ∨ n = 4 ∨ n = 5 ∨ n = 6 := by omega
  rcases hcases with rfl | rfl | rfl | rfl | rfl | rfl <;> exact Value.short_int_iff.mpr (by decide)

theorem forall_of_forall₂ {α β : Type} {P : α → Prop} {Q : β → Prop} {R : α → β → Prop} {as : List α} {bs : List β}
    (h : List.Forall₂ R as bs) (hstep : ∀ a b, R a b → P a → Q b) (ha : ∀ a ∈ as, P a) : ∀ b ∈ bs, Q b := by
  induction h with
  | nil => exact fun b hb => absurd hb List.not_mem_nil
  | cons hhead _ ih =>
    rw [List.forall_mem_cons] at ha ⊢
    exact ⟨hstep _ _ hhead ha.1, ih ha.2⟩

mutual

theorem Kind.short_read : ∀ kind : Kind, ∀ {v w : Value}, kind.read v = .ok w → v.Short → w.Short
  | .string, v, w, h, _ => by
    obtain ⟨s, _, rfl⟩ := map_eq_ok_iff.mp h
    exact Value.short_of_integers_eq_nil rfl
  | .boolean, v, w, h, _ => by
    obtain ⟨b, _, rfl⟩ := map_eq_ok_iff.mp h
    exact Value.short_of_integers_eq_nil rfl
  | .number, v, w, h, _ => by
    obtain ⟨x, _, rfl⟩ := map_eq_ok_iff.mp h
    exact Value.short_of_integers_eq_nil rfl
  | .level, v, w, h, _ => by
    obtain ⟨n, rfl, hn⟩ := exists_level_of_read h
    exact short_of_isLevel hn
  | .choice names, v, w, h, _ => by
    obtain ⟨s, _, rfl⟩ := map_eq_ok_iff.mp h
    exact Value.short_of_integers_eq_nil rfl
  | .dictionary, v, w, h, hv => by
    obtain ⟨m, hm, rfl⟩ := map_eq_ok_iff.mp h
    exact members_eq_ok_iff.mp hm ▸ hv
  | .cells, v, w, h, hv => by
    obtain ⟨cells, hcells, rfl⟩ := map_eq_ok_iff.mp h
    obtain ⟨given, hgiven, hread⟩ := andThen_eq_ok_iff.mp hcells
    obtain rfl := members_eq_ok_iff.mp hgiven
    exact Value.short_obj_iff.mpr (forall_of_forall₂ (entries_eq_forall₂.mp hread)
      (fun _ _ he => short_readCell he.2) (Value.short_obj_iff.mp hv))
  | .list item, v, w, h, hv => by
    cases v with
    | arr vs =>
      rw [Kind.read] at h
      obtain ⟨ws, hread, rfl⟩ := map_eq_ok_iff.mp h
      exact Value.short_arr_iff.mpr (forall_of_forall₂ (items_eq_ok_iff.mp hread)
        (fun _ _ hitem => Kind.short_read item hitem) (Value.short_arr_iff.mp hv))
    | _ => cases h
  | .record model fields, v, w, h, hv => by
    cases v with
    | obj given =>
      rw [Kind.read] at h
      obtain ⟨kept, hread, rfl⟩ := map_eq_ok_iff.mp h
      exact Value.short_obj_iff.mpr (Kind.short_readFields fields hread (Value.short_obj_iff.mp hv))
    | _ => cases h

theorem Kind.short_readFields : ∀ fields : List (String × Bool × Kind), ∀ {given kept : Assoc Value},
    Kind.readFields fields given = .ok kept → (∀ e ∈ given, e.2.Short) → ∀ e ∈ kept, e.2.Short
  | [], _, _, h, _ => by
    cases h
    exact fun e he => absurd he List.not_mem_nil
  | (name, isRequired, kind) :: fields, given, kept, h, hgiven => by
    rcases readFields_cons_eq_ok_iff.mp h with ⟨_, _, hrest⟩ | ⟨v, w, rest, hget, hv, hrest, rfl⟩
    · exact Kind.short_readFields fields hrest hgiven
    · refine List.forall_mem_cons.mpr ⟨?_, Kind.short_readFields fields hrest hgiven⟩
      rcases readField_eq_ok_iff.mp hv with ⟨_, _, rfl⟩ | ⟨_, hread⟩
      · exact Value.short_of_integers_eq_nil rfl
      · exact Kind.short_read kind hread (hgiven _ (Assoc.mem_of_get? hget))

end

/-! ### Declared members -/

/-- What is found under the name of a declared member in properties that were kept. -/
def Kind.HeldIn (kept : Assoc Value) (name : String) (isRequired : Bool) (kind : Kind) : Prop :=
  (isRequired = false ∧ (Assoc.get? name kept = none ∨ Assoc.get? name kept = some .null)) ∨
    ∃ w, Assoc.get? name kept = some w ∧ kind.read w = .ok w

theorem Kind.heldIn_of_readFields {fields : List (String × Bool × Kind)} {given : Assoc Value}
    (hproper : Kind.areProper fields = true) : ∀ {kept : Assoc Value}, Kind.readFields fields given = .ok kept →
    ∀ {name : String} {isRequired : Bool} {kind : Kind}, (name, isRequired, kind) ∈ fields →
      kind.HeldIn kept name isRequired := by
  induction fields with
  | nil => exact fun _ _ _ _ hmem => absurd hmem List.not_mem_nil
  | cons field fields ih =>
    obtain ⟨declared, required, of⟩ := field
    obtain ⟨hnew, hof, hfields⟩ := Kind.areProper_cons_iff.mp hproper
    intro kept hread name isRequired kind hmem
    rcases readFields_cons_eq_ok_iff.mp hread with ⟨_, hoptional, hrest⟩ | ⟨v, w, rest, _, hv, hrest, rfl⟩
    · rcases List.mem_cons.mp hmem with hhead | htail
      · cases hhead
        exact .inl ⟨hoptional, .inl (Assoc.get?_eq_none_iff.mpr fun hkept => hnew (declared_and_sent hrest _ hkept).1)⟩
      · exact ih hfields hrest htail
    · rcases List.mem_cons.mp hmem with hhead | htail
      · cases hhead
        have hself : Assoc.get? declared ((declared, w) :: rest) = some w := if_pos rfl
        rcases readField_eq_ok_iff.mp hv with ⟨hoptional, _, rfl⟩ | ⟨_, hread⟩
        · exact .inl ⟨hoptional, .inr hself⟩
        · exact .inr ⟨w, hself, (Kind.keeps of hof hread).again⟩
      · have hname : name ∈ fields.map Prod.fst := List.mem_map_of_mem htail
        have hother := get?_cons_of_new hnew w rest name hname
        rw [Kind.HeldIn, hother]
        exact ih hfields hrest htail

section Members

variable {kept : Assoc Value} {name : String} {kind : Kind}

theorem Kind.HeldIn.exists_prop (h : kind.HeldIn kept name true) (absent : Value) :
    ∃ w, Standard.prop kept name absent = w ∧ kind.read w = .ok w := by
  rcases h with ⟨hoptional, _⟩ | ⟨w, hget, hread⟩
  · cases hoptional
  · exact ⟨w, by rw [Standard.prop, hget, Option.getD_some], hread⟩

theorem Kind.HeldIn.propOr_cases (h : kind.HeldIn kept name false) (standard : Value) :
    Standard.propOr kept name standard = standard ∨
      ∃ w, Standard.propOr kept name standard = w ∧ kind.read w = .ok w ∧ w.truthy = true := by
  rw [Standard.propOr, Standard.prop]
  split
  · next htruthy =>
    rcases h with ⟨_, hget | hget⟩ | ⟨w, hget, hread⟩
    · rw [hget] at htruthy
      cases htruthy
    · rw [hget] at htruthy
      cases htruthy
    · rw [hget] at htruthy ⊢
      exact .inr ⟨w, rfl, hread, htruthy⟩
  · exact .inl rfl

end Members

theorem Kind.exists_string {w : Value} (h : Kind.string.read w = .ok w) : ∃ s, w = .str s := by
  obtain ⟨s, _, rfl⟩ := map_eq_ok_iff.mp h
  exact ⟨s, rfl⟩

theorem Kind.exists_number {w : Value} (h : Kind.number.read w = .ok w) : ∃ x, w = .float x := by
  obtain ⟨x, _, rfl⟩ := map_eq_ok_iff.mp h
  exact ⟨x, rfl⟩

theorem Kind.exists_list {item : Kind} {w : Value} (h : (Kind.list item).read w = .ok w) :
    ∃ ws, w = .arr ws ∧ ∀ v ∈ ws, item.read v = .ok v := by
  cases w with
  | arr vs =>
    rw [Kind.read] at h
    obtain ⟨ws, hread, heq⟩ := map_eq_ok_iff.mp h
    cases heq
    exact ⟨vs, rfl, List.forall₂_same.mp (items_eq_ok_iff.mp hread)⟩
  | _ => cases h

theorem Kind.exists_record {model : String} {fields : List (String × Bool × Kind)} {w : Value}
    (h : (Kind.record model fields).read w = .ok w) :
    ∃ members, w = .obj members ∧ Kind.readFields fields members = .ok members := by
  cases w with
  | obj given =>
    rw [Kind.read] at h
    obtain ⟨kept, hread, heq⟩ := map_eq_ok_iff.mp h
    cases heq
    exact ⟨given, rfl, hread⟩
  | _ => cases h

theorem Kind.exists_cells {w : Value} (h : Kind.cells.read w = .ok w) : ∃ cells, w = .obj cells := by
  obtain ⟨cells, _, rfl⟩ := map_eq_ok_iff.mp h
  exact ⟨cells, rfl⟩

/-- An entry of cells that were kept is a cell. -/
theorem Kind.readCell_of_cells {entries : Assoc Value} (h : Kind.cells.read (.obj entries) = .ok (.obj entries))
    {key : String} {v : Value} (hget : Assoc.get? key entries = some v) : readCell v = .ok v := by
  obtain ⟨cells, hcells, heq⟩ := map_eq_ok_iff.mp h
  cases heq
  obtain ⟨given, hgiven, hread⟩ := andThen_eq_ok_iff.mp hcells
  cases members_eq_ok_iff.mp hgiven
  exact (List.forall₂_same.mp (entries_eq_forall₂.mp hread) (key, v) (Assoc.mem_of_get? hget)).2

namespace Standard

/-! ### Steps that do not give up -/

/-- A renderer, or a step of one, does not give up. -/
def Succeeds {α : Type} (outcome : Except Failure α) : Prop := ∃ a, outcome = .ok a

section Steps

variable {α β : Type} {outcome : Except Failure α}

theorem succeeds_ok (a : α) : Succeeds (.ok a) := ⟨a, rfl⟩

theorem Succeeds.bind (h : Succeeds outcome) {f : α → Except Failure β} (hf : ∀ a, Succeeds (f a)) :
    Succeeds (outcome >>= f) := by
  obtain ⟨a, rfl⟩ := h
  exact hf a

theorem succeeds_bind_iff {f : α → Except Failure β} (hf : ∀ a, Succeeds (f a)) :
    Succeeds (outcome >>= f) ↔ Succeeds outcome := by
  refine ⟨fun ⟨b, hb⟩ => ?_, fun h => h.bind hf⟩
  cases outcome with
  | ok a => exact succeeds_ok a
  | error failure => cases hb

/-- Two steps, the second of which does not depend on the first. -/
theorem succeeds_both_iff {γ : Type} {other : Except Failure β} (g : α → β → γ) :
    Succeeds (outcome >>= fun a => other >>= fun b => .ok (g a b)) ↔ Succeeds outcome ∧ Succeeds other := by
  have hsecond : ∀ a, Succeeds (other >>= fun b => .ok (g a b)) ↔ Succeeds other := fun a =>
    succeeds_bind_iff fun b => succeeds_ok (g a b)
  cases outcome with
  | ok a => exact (hsecond a).trans (and_iff_right (succeeds_ok a)).symm
  | error failure => exact ⟨fun ⟨_, h⟩ => (nomatch h), fun ⟨⟨_, h⟩, _⟩ => (nomatch h)⟩

theorem succeeds_mapM_iff {f : α → Except Failure β} {as : List α} :
    Succeeds (as.mapM f) ↔ ∀ a ∈ as, Succeeds (f a) := by
  induction as with
  | nil => exact ⟨fun _ a ha => absurd ha List.not_mem_nil, fun _ => succeeds_ok []⟩
  | cons a as ih =>
    rw [List.mapM_cons, List.forall_mem_cons, ← ih]
    exact succeeds_both_iff List.cons

theorem succeeds_shown_iff {v : Value} : Succeeds (shown v) ↔ v.isShowable = true := by
  rw [shown, Value.display?]
  by_cases h : v.isShowable = true
  · rw [if_pos h]
    exact iff_of_true (succeeds_ok _) h
  · rw [if_neg h]
    exact ⟨fun ⟨_, hshown⟩ => (nomatch hshown), fun hshow => absurd hshow h⟩

theorem iterate_arr (vs : List Value) : iterate (.arr vs) = .ok vs := by
  cases vs <;> rfl

/-- What is a record of some fields has every required one. -/
theorem exists_member {fields : List (String × Bool × Kind)} {members : Assoc Value} {name : String} {kind : Kind}
    (hproper : Kind.areProper fields = true) (h : Kind.readFields fields members = .ok members)
    (hmem : needed name kind ∈ fields) : ∃ w, member name (.obj members) = .ok w ∧ kind.read w = .ok w := by
  rcases Kind.heldIn_of_readFields hproper h hmem with ⟨hoptional, _⟩ | ⟨w, hget, hread⟩
  · cases hoptional
  · exact ⟨w, by rw [member, Value.field?, hget], hread⟩

theorem succeeds_member {fields : List (String × Bool × Kind)} {members : Assoc Value} {name : String} {kind : Kind}
    (hproper : Kind.areProper fields = true) (h : Kind.readFields fields members = .ok members)
    (hmem : needed name kind ∈ fields) : Succeeds (member name (.obj members)) := by
  obtain ⟨w, hmember, _⟩ := exists_member hproper h hmem
  exact ⟨w, hmember⟩

end Steps

/-! ### Shares -/

theorem isFinite_withinHundred (share : Float) : Number.isFinite (withinHundred share) = true := by
  have hhundred : Number.isFinite 100 = true := by decide
  have hzero : Number.isFinite 0 = true := by decide
  rw [withinHundred]
  by_cases hlow : 0 < share
  · rw [if_pos hlow]
    by_cases hhigh : share < 100
    · rw [if_pos hhigh]
      exact Number.isFinite_of_lt_of_lt hlow hhigh
    · rw [if_neg hhigh]
      exact hhundred
  · rw [if_neg hlow]
    split
    · exact hzero
    · exact hhundred

theorem succeeds_renderReading (props : Assoc Value) (share : Float) :
    Succeeds (renderReading props (withinHundred share)) := by
  rw [renderReading]
  split
  · obtain ⟨n, hround⟩ := Number.exists_round?_of_isFinite (isFinite_withinHundred share)
    have hrounded : Succeeds (rounded (withinHundred share)) := ⟨n, by rw [rounded, hround]⟩
    exact hrounded.bind fun n => succeeds_ok _
  · exact succeeds_ok _

/-! ### Renderers -/

section Renderers

variable {props : Assoc Value}

theorem succeeds_renderText (htext : Kind.string.HeldIn props "text" true) (ctx : Context) :
    Succeeds (renderText props ctx) := by
  obtain ⟨w, hw, hread⟩ := htext.exists_prop (.str "")
  obtain ⟨s, rfl⟩ := Kind.exists_string hread
  have hshown : Succeeds (shown (prop props "text" (.str ""))) := by rw [hw]; exact succeeds_ok s
  exact hshown.bind fun text => succeeds_ok _

theorem succeeds_renderHeading (htext : Kind.string.HeldIn props "text" true)
    (hlevel : Kind.level.HeldIn props "level" false) : Succeeds (renderHeading props) := by
  obtain ⟨w, hw, hread⟩ := htext.exists_prop (.str "")
  obtain ⟨s, rfl⟩ := Kind.exists_string hread
  have hnumber : Succeeds (shown (propOr props "level" (.int 2))) := by
    rw [succeeds_shown_iff]
    rcases hlevel.propOr_cases (.int 2) with h | ⟨w, h, hread, _⟩
    · rw [h]
      decide
    · obtain ⟨n, rfl, hn⟩ := exists_level_of_read hread
      rw [h, Value.isShowable, decide_eq_true_iff]
      exact Value.length_toDigits_of_length_intChars (Value.short_int_iff.mp (short_of_isLevel hn))
  have hshown : Succeeds (shown (prop props "text" (.str ""))) := by rw [hw]; exact succeeds_ok s
  exact hnumber.bind fun level => hshown.bind fun text => succeeds_ok _

/-- The items of a list that has to be there. -/
theorem exists_items {item : Kind} {name : String} (h : (Kind.list item).HeldIn props name true) :
    ∃ items, Assoc.get? name props = some (.arr items) ∧ iterate (prop props name .null) = .ok items ∧
      ∀ v ∈ items, item.read v = .ok v := by
  rcases h with ⟨hoptional, _⟩ | ⟨w, hget, hread⟩
  · cases hoptional
  · obtain ⟨items, rfl, hitems⟩ := Kind.exists_list hread
    exact ⟨items, hget, by rw [prop, hget, Option.getD_some, iterate_arr], hitems⟩

theorem succeeds_renderKeyValueList
    (hitems : (Kind.list (.record "KeyValueItem" [needed "key" .string, needed "value" .string])).HeldIn props "items" true) :
    Succeeds (renderKeyValueList props) := by
  obtain ⟨items, _, hiterate, hrecords⟩ := exists_items hitems
  have hpairs : Succeeds (items.mapM renderPair) := by
    refine succeeds_mapM_iff.mpr fun item hitem => ?_
    obtain ⟨members, rfl, hmembers⟩ := Kind.exists_record (hrecords item hitem)
    have hkey : Succeeds (member "key" (.obj members)) := succeeds_member (by decide) hmembers (.head _)
    have hvalue : Succeeds (member "value" (.obj members)) := succeeds_member (by decide) hmembers (.tail _ (.head _))
    exact hkey.bind fun key => hvalue.bind fun value => succeeds_ok _
  rw [renderKeyValueList, hiterate]
  exact hpairs.bind fun rows => succeeds_ok _

theorem succeeds_renderSelect
    (hoptions : (Kind.list (.record "SelectOption" [needed "value" .string, needed "label" .string])).HeldIn props
      "options" true) (ctx : Context) : Succeeds (renderSelect props ctx) := by
  obtain ⟨items, _, hiterate, hrecords⟩ := exists_items hoptions
  have hrendered : Succeeds (items.mapM renderOption) := by
    refine succeeds_mapM_iff.mpr fun item hitem => ?_
    obtain ⟨members, rfl, hmembers⟩ := Kind.exists_record (hrecords item hitem)
    have hvalue : Succeeds (member "value" (.obj members)) := succeeds_member (by decide) hmembers (.head _)
    have htext : Succeeds (member "label" (.obj members)) := succeeds_member (by decide) hmembers (.tail _ (.head _))
    exact hvalue.bind fun value => htext.bind fun text => succeeds_ok _
  rw [renderSelect, hiterate]
  exact hrendered.bind fun options => succeeds_ok _

theorem isShowable_of_readCell {v : Value} (h : readCell v = .ok v) :
    v.isShowable = true ∨ ∃ n, v = .int n := by
  cases v with
  | int n => exact .inr ⟨n, rfl⟩
  | str s => exact .inl rfl
  | float x => exact .inl rfl
  | _ => cases h

/-- The key of a column names an entry of a row, or the cell is empty. -/
theorem exists_key_of_cell {entries : Assoc Value} {column : Assoc Value}
    (hentries : Kind.cells.read (.obj entries) = .ok (.obj entries))
    (hcolumn : Kind.readFields [needed "key" .string, needed "label" .string] column = .ok column) :
    ∃ key, (Value.obj column).field? "key" = some (.str key) ∧
      (Succeeds (cell (.obj entries) (.obj column)) ↔
        ∀ n, Assoc.get? key entries = some (.int n) → (Nat.toDigits 10 n.natAbs).length ≤ Json.mostDigits) := by
  obtain ⟨w, hkey, hread⟩ := exists_member (by decide) hcolumn (.head _)
  obtain ⟨key, rfl⟩ := Kind.exists_string hread
  have hshown : Succeeds (cell (.obj entries) (.obj column)) ↔
      Succeeds (shown ((Assoc.get? key entries).getD (.str ""))) := by
    rw [cell, hkey]
    exact succeeds_bind_iff fun text => succeeds_ok _
  refine ⟨key, ?_, hshown.trans (succeeds_shown_iff.trans ?_)⟩
  · rw [member] at hkey
    split at hkey
    · next v hv => exact (Except.ok.inj hkey) ▸ hv
    · cases hkey
  · cases hget : Assoc.get? key entries with
    | none => exact iff_of_true rfl fun n hn => absurd hn (by simp)
    | some v =>
      rw [Option.getD_some]
      constructor
      · rintro hshow n heq
        cases heq
        exact of_decide_eq_true hshow
      · intro hlength
        rcases isShowable_of_readCell (Kind.readCell_of_cells hentries hget) with hshow | ⟨n, rfl⟩
        · exact hshow
        · exact decide_eq_true (hlength n rfl)

theorem succeeds_renderRows_iff {columns : List Value} {striped : Bool} {rows : List Value} : ∀ index,
    Succeeds (renderRows columns striped index rows) ↔ ∀ row ∈ rows, ∀ column ∈ columns, Succeeds (cell row column) := by
  induction rows with
  | nil => exact fun index => ⟨fun _ row hrow => absurd hrow List.not_mem_nil, fun _ => succeeds_ok []⟩
  | cons row rows ih =>
    intro index
    have hrow : Succeeds (renderRow columns striped index row) ↔ ∀ column ∈ columns, Succeeds (cell row column) := by
      rw [← succeeds_mapM_iff]
      exact succeeds_bind_iff fun cells => succeeds_ok _
    rw [List.forall_mem_cons, ← hrow, ← ih (index + 1), renderRows]
    exact succeeds_both_iff List.cons

/-- Nothing that has to be shown has too many digits: if it is a table, no row holds so long a whole number under the
key of a column. -/
def Legible (s : Standard) (props : Assoc Value) : Prop :=
  s = .table → ∀ rows columns entries column key n, Assoc.get? "rows" props = some (.arr rows) → .obj entries ∈ rows →
    Assoc.get? "columns" props = some (.arr columns) → column ∈ columns → column.field? "key" = some (.str key) →
      Assoc.get? key entries = some (.int n) → (Nat.toDigits 10 n.natAbs).length ≤ Json.mostDigits

theorem succeeds_renderTable_iff
    (hcolumns : (Kind.list (.record "TableColumn" [needed "key" .string, needed "label" .string])).HeldIn props "columns" true)
    (hrows : (Kind.list .cells).HeldIn props "rows" true) : Succeeds (renderTable props) ↔ Legible .table props := by
  obtain ⟨columns, hcolumnsGet, hcolumnsIterate, hrecords⟩ := exists_items hcolumns
  obtain ⟨rows, hrowsGet, hrowsIterate, hcells⟩ := exists_items hrows
  have hheads : Succeeds (columns.mapM fun column => return Render.label "th" (← member "label" column)) := by
    refine succeeds_mapM_iff.mpr fun column hcolumn => ?_
    obtain ⟨members, rfl, hmembers⟩ := Kind.exists_record (hrecords column hcolumn)
    have htext : Succeeds (member "label" (.obj members)) := succeeds_member (by decide) hmembers (.tail _ (.head _))
    exact htext.bind fun text => succeeds_ok _
  have htable : Succeeds (renderTable props) ↔ ∀ row ∈ rows, ∀ column ∈ columns, Succeeds (cell row column) := by
    obtain ⟨heads, hheads⟩ := hheads
    rw [renderTable, hcolumnsIterate]
    show Succeeds (columns.mapM (fun column => return Render.label "th" (← member "label" column)) >>= _) ↔ _
    rw [hheads, hrowsIterate]
    exact (succeeds_bind_iff fun body => succeeds_ok _).trans (succeeds_renderRows_iff 0)
  rw [htable]
  constructor
  · intro h _ rows' columns' entries column key n hrows' hentries hcolumns' hcolumn hkey hn
    cases hrowsGet.symm.trans hrows'
    cases hcolumnsGet.symm.trans hcolumns'
    obtain ⟨members, rfl, hmembers⟩ := Kind.exists_record (hrecords column hcolumn)
    obtain ⟨key', hkey', hcell⟩ := exists_key_of_cell (hcells _ hentries) hmembers
    cases hkey'.symm.trans hkey
    exact hcell.mp (h _ hentries _ hcolumn) n hn
  · intro h row hrow column hcolumn
    obtain ⟨entries, rfl⟩ := Kind.exists_cells (hcells row hrow)
    obtain ⟨members, rfl, hmembers⟩ := Kind.exists_record (hrecords column hcolumn)
    obtain ⟨key, hkey, hcell⟩ := exists_key_of_cell (hcells _ hrow) hmembers
    exact hcell.mpr fun n hn => h rfl rows columns entries _ key n hrowsGet hrow hcolumnsGet hcolumn hkey hn

theorem succeeds_renderProgress (hvalue : Kind.number.HeldIn props "value" true)
    (hmax : Kind.number.HeldIn props "max" false) : Succeeds (renderProgress props) := by
  obtain ⟨w, hw, hread⟩ := hvalue.exists_prop (.int 0)
  obtain ⟨value, rfl⟩ := Kind.exists_number hread
  have hmaximum : ∃ maximum, toDivisor (propOr props "max" (.int 100)) = .ok maximum ∧ (maximum == 0) = false := by
    rcases hmax.propOr_cases (.int 100) with h | ⟨w, h, hread, htruthy⟩
    · rw [h]
      exact ⟨100, rfl, by decide⟩
    · obtain ⟨maximum, rfl⟩ := Kind.exists_number hread
      rw [h]
      exact ⟨maximum, rfl, by simpa [Value.truthy] using htruthy⟩
  obtain ⟨maximum, hdivisor, hne⟩ := hmaximum
  have hshare : percentage value maximum = .ok (withinHundred (value / maximum * 100)) := by
    rw [percentage, hne]
    rfl
  rw [renderProgress, hw, hdivisor]
  show Succeeds (percentage value maximum >>= _)
  rw [hshare]
  exact (succeeds_renderReading props _).bind fun reading => succeeds_ok _

/-- **No standard renderer gives up on properties that its schema kept**, unless they are not legible. -/
theorem succeeds_render_iff (s : Standard) {given : Assoc Value}
    (hread : Kind.readFields s.schema.fields given = .ok props) (ctx : Context) :
    Succeeds (s.render props ctx) ↔ s.Legible props := by
  have hheld : ∀ {name : String} {isRequired : Bool} {kind : Kind}, (name, isRequired, kind) ∈ s.schema.fields →
      kind.HeldIn props name isRequired := Kind.heldIn_of_readFields s.areProper_schema hread
  have hother : s ≠ .table → s.Legible props := fun hne heq => absurd heq hne
  cases s with
  | table => exact succeeds_renderTable_iff (hheld (.head _)) (hheld (.tail _ (.head _)))
  | text => exact iff_of_true (succeeds_renderText (hheld (.head _)) ctx) (hother (by decide))
  | heading => exact iff_of_true (succeeds_renderHeading (hheld (.head _)) (hheld (.tail _ (.head _)))) (hother (by decide))
  | keyValueList => exact iff_of_true (succeeds_renderKeyValueList (hheld (.head _))) (hother (by decide))
  | select => exact iff_of_true (succeeds_renderSelect (hheld (.tail _ (.head _))) ctx) (hother (by decide))
  | progress =>
    exact iff_of_true (succeeds_renderProgress (hheld (.head _)) (hheld (.tail _ (.head _)))) (hother (by decide))
  | _ => exact iff_of_true (succeeds_ok _) (hother (by decide))

end Renderers

/-! ### Components with accepted properties -/

/-- The registry with the standard vocabulary alone. -/
def registry : Registry := (Registry.registerAll [] vocabulary).1

theorem get?_registry_name (s : Standard) : Registry.get? registry s.name = some s.entry := by
  cases s <;> rfl

theorem exists_of_get?_registry {type : String} {e : Entry} (h : Registry.get? registry type = some e) :
    ∃ s : Standard, s.name = type ∧ s.entry = e := by
  have hmem : (type, e) ∈ all.map fun s => (s.name, s.entry) := Assoc.mem_of_get? h
  obtain ⟨s, _, heq⟩ := List.mem_map.mp hmem
  exact ⟨s, (Prod.mk.inj heq).1, (Prod.mk.inj heq).2⟩

theorem readFields_of_accepted {s : Standard} {props kept : Assoc Value} (h : s.entry.validate props = .ok (kept, [])) :
    Kind.readFields s.schema.fields props = .ok kept := by
  rcases Schema.check_cases s.areProper_schema props with ⟨kept', hchecked, _⟩ | ⟨faults, hne, hchecked⟩
  · rw [validate_of_check_ok hchecked, Except.ok.injEq, Prod.mk.injEq] at h
    exact h.1 ▸ Schema.check_eq_ok_iff.mp hchecked
  · rw [validate_of_check_error hchecked, Except.ok.injEq, Prod.mk.injEq] at h
    exact absurd h.2 hne

theorem legible_of_short {props : Assoc Value} (s : Standard) (h : (Value.obj props).Short) : s.Legible props := by
  intro _ rows columns entries column key n hrows hentries _ _ _ hn
  obtain ⟨i, hi⟩ := List.mem_iff_getElem?.mp hentries
  have hfollow : (Value.obj props).follow [.key "rows", .index i, .key key] = some (.int n) := by
    simp [Value.follow, hrows, hi, hn]
  exact Value.length_toDigits_of_length_intChars (Value.short_int_iff.mp (h.follow hfollow))

/-- Accepted properties of a component that was read from a text are legible. -/
theorem legible_of_read {text : List Char} {v : Value} {top n : Node} {w : List Nat} {s : Standard} {kept : Assoc Value}
    (hread : Json.read text = some v) (hcheck : Node.check v = .ok top) (hat : top.at? w = some n)
    (haccepted : s.entry.validate n.component.props = .ok (kept, [])) : s.Legible kept := by
  have hshort := Value.short_obj_iff.mp (Node.short_props hread hcheck hat)
  exact legible_of_short s (Value.short_obj_iff.mpr (Kind.short_readFields _ (readFields_of_accepted haccepted) hshort))

theorem shown_iff_legible {reg : Registry} {n : Node} {s : Standard} {kept : Assoc Value} {r : Rendered}
    (hentry : Registry.get? reg n.component.type = some s.entry)
    (haccepted : s.entry.validate n.component.props = .ok (kept, [])) (hrender : Render.render reg n = .ok r) :
    (r.isPlaceholder = false ↔ s.Legible kept) ∧ (r.errors = [] ↔ s.Legible kept) := by
  have hmirrors := Render.mirrors_render hrender
  have hsettled := (Render.render_eq_ok_iff.mp hrender).1 n (Node.mem_preorder_iff.mpr ⟨[], rfl⟩)
  have hvalid := haccepted.symm.trans (Render.validate_eq hentry hsettled)
  rw [Except.ok.injEq, Prod.mk.injEq] at hvalid
  obtain ⟨ctx, houtcome⟩ := Render.exists_outcome hrender hentry
  rw [← hvalid.1, show s.entry.renderer kept ctx = s.render kept ctx from rfl] at houtcome
  rw [Bool.eq_false_iff, Ne, hmirrors.isPlaceholder, hmirrors.errors, ← hvalid.2, Rendered.raised, hentry, houtcome,
    ← succeeds_render_iff s (readFields_of_accepted haccepted) ctx]
  cases s.render kept ctx with
  | ok o => simp [Succeeds]
  | error failure => simp [Succeeds]

theorem settled_registry (c : Protocol.Component) : Render.Settled registry c := by
  intro failure h
  rw [Render.checkedProps] at h
  cases hentry : Registry.get? registry c.type with
  | none =>
    rw [hentry] at h
    cases h
  | some e =>
    obtain ⟨s, _, rfl⟩ := exists_of_get?_registry hentry
    rw [hentry] at h
    dsimp only [Option.bind_some, entry, checker] at h
    split at h <;> cases h

/-- **What the standard vocabulary accepts it shows, unless a table would have to show too long a number.**  When the
properties of a component are accepted by the schema of its standard type, the renderer of that type does not give up on
what is kept of them, whatever the children came to, exactly when that is legible, and exactly then the result is no
placeholder and has no errors.  What was read from a text always is.  With the standard vocabulary alone everything is
rendered, and a placeholder stands only for a type that is not known, for properties that were not accepted, and for a
table that is not legible. -/
theorem accepted_is_shown (n : Node) :
    (∀ (s : Standard) (kept : Assoc Value), s.entry.validate n.component.props = .ok (kept, []) →
      (∀ ctx, (∃ o, s.render kept ctx = .ok o) ↔ s.Legible kept) ∧
        (∀ (reg : Registry) r, Registry.get? reg n.component.type = some s.entry → Render.render reg n = .ok r →
          (r.isPlaceholder = false ↔ s.Legible kept) ∧ (r.errors = [] ↔ s.Legible kept)) ∧
        ∀ text v top w, Json.read text = some v → Node.check v = .ok top → top.at? w = some n → s.Legible kept) ∧
      ∀ ns, ∃ rs, renderAll registry ns = .ok rs ∧ ∀ w, Node.among? ns w = some n →
        ∃ r, Rendered.among? rs w = some r ∧ (r.isPlaceholder = true → (∀ s : Standard, s.name ≠ n.component.type) ∨
          ∃ s : Standard, s.name = n.component.type ∧
            ∀ kept, s.entry.validate n.component.props = .ok (kept, []) → ¬ s.Legible kept) := by
  constructor
  · intro s kept haccepted
    refine ⟨succeeds_render_iff s (readFields_of_accepted haccepted), fun reg r hentry hrender => ?_,
      fun text v top w hread hcheck hat => legible_of_read hread hcheck hat haccepted⟩
    exact shown_iff_legible hentry haccepted hrender
  · intro ns
    have hall := Render.renderAll_eq_ok_iff.mpr ⟨fun m (_ : m ∈ Node.preorderAll ns) => settled_registry m.component, rfl⟩
    refine ⟨_, hall, fun w hat => ?_⟩
    obtain ⟨r, hr, hrender⟩ := Render.exists_among?_of_renderAll hall hat
    refine ⟨r, hr, fun hplaceholder => ?_⟩
    cases hentry : Registry.get? registry n.component.type with
    | none =>
      refine .inl fun s hname => ?_
      rw [← hname, get?_registry_name] at hentry
      cases hentry
    | some e =>
      obtain ⟨s, hname, rfl⟩ := exists_of_get?_registry hentry
      refine .inr ⟨s, hname, fun kept haccepted hlegible => ?_⟩
      rw [(shown_iff_legible hentry haccepted hrender).1.mpr hlegible] at hplaceholder
      cases hplaceholder

/-- A bar with a value that is no number and a maximum of zero. -/
def strangeBar : Node :=
  ⟨⟨"bar", "Progress", [("value", .str " NaN"), ("max", .int 0), ("showValue", .str "YES"), ("label", .null),
    ("width", .int 7)], none, none⟩, none⟩

theorem strangeBar_is_shown : ∃ kept r, progress.entry.validate strangeBar.component.props = .ok (kept, []) ∧
    progress.Legible kept ∧ Render.render registry strangeBar = .ok r ∧ r.isPlaceholder = false ∧ r.errors = [] := by
  have haccepted : ∃ kept, progress.entry.validate strangeBar.component.props = .ok (kept, []) := ⟨_, by rfl⟩
  obtain ⟨kept, haccepted⟩ := haccepted
  have hlegible : progress.Legible kept := fun heq => absurd heq (by decide)
  have hrender : ∃ r, Render.render registry strangeBar = .ok r := ⟨_, rfl⟩
  obtain ⟨r, hrender⟩ := hrender
  have hshown := (((accepted_is_shown strangeBar).1 progress kept haccepted).2.1 registry r rfl hrender)
  exact ⟨kept, r, haccepted, hlegible, hrender, hshown.1.mpr hlegible, hshown.2.mpr hlegible⟩

/-- A table with a single cell. -/
def tableOf (n : Int) : Node :=
  ⟨⟨"table", "Table", [("columns", .arr [.obj [("key", .str "k"), ("label", .str "K")]]),
    ("rows", .arr [.obj [("k", .int n)]])], none, none⟩, none⟩

theorem accepted_tableOf (n : Int) :
    table.entry.validate (tableOf n).component.props = .ok ((tableOf n).component.props, []) :=
  rfl

theorem length_toDigits_of_legible_tableOf {n : Int} (h : table.Legible (tableOf n).component.props) :
    (Nat.toDigits 10 n.natAbs).length ≤ Json.mostDigits :=
  h rfl _ _ _ _ _ _ rfl (.head _) rfl (.head _) rfl rfl

/-- A table is accepted and cannot be shown. -/
theorem table_of_long_number :
    table.entry.validate (tableOf (10 ^ 5000 : Nat)).component.props =
        .ok ((tableOf (10 ^ 5000 : Nat)).component.props, []) ∧
      ∃ r, Render.render registry (tableOf (10 ^ 5000 : Nat)) = .ok r ∧ r.isPlaceholder = true ∧ r.errors ≠ [] := by
  have hlong : ¬ table.Legible (tableOf (10 ^ 5000 : Nat)).component.props := by
    intro h
    have hshort := length_toDigits_of_legible_tableOf h
    rw [Int.natAbs_natCast, Json.length_toDigits_pow] at hshort
    exact absurd hshort (by decide)
  have hrender : Render.render registry (tableOf (10 ^ 5000 : Nat)) = _ :=
    Render.render_eq_ok_iff.mpr ⟨fun m _ => settled_registry m.component, rfl⟩
  have hshown := shown_iff_legible (s := table) rfl (accepted_tableOf _) hrender
  refine ⟨accepted_tableOf _, _, hrender, ?_, hshown.2.not.mpr hlong⟩
  rw [← Bool.not_eq_false]
  exact hshown.1.not.mpr hlong

end Standard

end Registry

end ComponentStream
