import ComponentStream.Json.Bounds
import ComponentStream.Proofs.Json.RoundTrip

/-!
# Decoding what was encoded

A value comes back from its bytes, in either number format, exactly when none of its whole numbers is too long for the
reader and it has not too many levels.  Objects have to have distinct names, and doubles a text that is read as the same
double.

* `Value.integers`, `Value.fits64_iff`, `Value.format_eq_wideFormat_iff` — the whole numbers in a value, any one of which
  may change the number format of the whole;
* `Value.Short`, `short_of_reading` — the reader gives back no whole number that is too long;
* `Value.Regular`, `Value.faithful_iff` — what is asked of a value beside this;
* `Value.isWritable_iff` — what can be written within a bound;
* `Value.comes_back_iff`, `Value.decode_encode_iff` — the round trip;
* `decodeWithin_encode_int`, `overlong_not_decoded` — single whole numbers.
-/

namespace ComponentStream.Json

namespace Value

/-! ### Whole numbers in a value -/

mutual

/-- The whole numbers in a value, in the order of its text. -/
def integers : Value → List Int
  | .int n => [n]
  | .arr vs => integersAll vs
  | .obj fields => integersFields fields
  | _ => []

def integersAll : List Value → List Int
  | [] => []
  | v :: vs => v.integers ++ integersAll vs

def integersFields : List (String × Value) → List Int
  | [] => []
  | (_, v) :: fields => v.integers ++ integersFields fields

end

mutual

/-- A value fits 64 bits when all of its whole numbers do. -/
theorem fits64_iff : ∀ v : Value, v.fits64 = true ↔ ∀ n ∈ v.integers, -2 ^ 63 ≤ n ∧ n < 2 ^ 64
  | .null => by simp [fits64, integers]
  | .bool _ => by simp [fits64, integers]
  | .int n => by
    rw [fits64, decide_eq_true_iff, integers, List.forall_mem_singleton]
    exact Iff.rfl
  | .float _ => by simp [fits64, integers]
  | .str _ => by simp [fits64, integers]
  | .arr vs => by rw [fits64, allFit64_iff vs, integers]
  | .obj fields => by rw [fits64, fieldsFit64_iff fields, integers]

theorem allFit64_iff : ∀ vs : List Value, allFit64 vs = true ↔ ∀ n ∈ integersAll vs, -2 ^ 63 ≤ n ∧ n < 2 ^ 64
  | [] => by simp [allFit64, integersAll]
  | v :: vs => by
    rw [allFit64, Bool.and_eq_true, fits64_iff v, allFit64_iff vs, integersAll, List.forall_mem_append]

theorem fieldsFit64_iff : ∀ fields : List (String × Value),
    fieldsFit64 fields = true ↔ ∀ n ∈ integersFields fields, -2 ^ 63 ≤ n ∧ n < 2 ^ 64
  | [] => by simp [fieldsFit64, integersFields]
  | (_, v) :: fields => by
    rw [fieldsFit64, Bool.and_eq_true, fits64_iff v, fieldsFit64_iff fields, integersFields, List.forall_mem_append]

end

/-- **One whole number beyond 64 bits, anywhere in a value, changes the number format of the whole**, and so does too deep
a nesting. -/
theorem format_eq_wideFormat_iff (v : Value) :
    v.format = wideFormat ↔ (∃ n ∈ v.integers, n < -2 ^ 63 ∨ 2 ^ 64 ≤ n) ∨ 254 < v.nesting := by
  have hne : usualFormat ≠ wideFormat := fun heq => Bool.noConfusion (congrArg Number.Format.plus heq)
  have hfits : v.fits64 = false ↔ ∃ n ∈ v.integers, n < -2 ^ 63 ∨ 2 ^ 64 ≤ n := by
    rw [← Bool.not_eq_true, fits64_iff]
    push Not
    refine exists_congr fun n => and_congr_right fun _ => ?_
    omega
  rw [← hfits, format]
  by_cases h : (v.fits64 && decide (v.nesting ≤ 254)) = true
  · rw [if_pos h]
    rw [Bool.and_eq_true, decide_eq_true_eq] at h
    exact ⟨fun heq => absurd heq hne, fun hor => hor.elim (fun hf => by simp [hf] at h) fun hlt => by omega⟩
  · rw [if_neg h]
    refine ⟨fun _ => ?_, fun _ => rfl⟩
    cases hf : v.fits64 with
    | false => exact .inl rfl
    | true => exact .inr (Nat.lt_of_not_le fun hle => h (by simp [hf, hle]))

/-! ### Values without long whole numbers -/

/-- The reader can take every whole number in a value. -/
def Short (v : Value) : Prop := ∀ n ∈ v.integers, (intChars n).length ≤ maxLength

theorem mem_integersAll_iff {n : Int} {vs : List Value} : n ∈ integersAll vs ↔ ∃ v ∈ vs, n ∈ v.integers := by
  induction vs with
  | nil => simp [integersAll]
  | cons v vs ih => simp [integersAll, ih]

theorem mem_integersFields_iff {n : Int} {fields : List (String × Value)} :
    n ∈ integersFields fields ↔ ∃ e ∈ fields, n ∈ e.2.integers := by
  induction fields with
  | nil => simp [integersFields]
  | cons e fields ih =>
    obtain ⟨k, v⟩ := e
    simp [integersFields, ih]

theorem short_of_integers_eq_nil {v : Value} (h : v.integers = []) : v.Short := fun _ hn =>
  absurd (h ▸ hn) List.not_mem_nil

theorem short_int_iff {n : Int} : (Value.int n).Short ↔ (intChars n).length ≤ maxLength := List.forall_mem_singleton

theorem short_arr_iff {vs : List Value} : (Value.arr vs).Short ↔ ∀ v ∈ vs, v.Short := by
  simp only [Short, integers, mem_integersAll_iff]
  exact ⟨fun h v hv n hn => h n ⟨v, hv, hn⟩, fun h n ⟨v, hv, hn⟩ => h v hv n hn⟩

theorem short_obj_iff {fields : List (String × Value)} : (Value.obj fields).Short ↔ ∀ e ∈ fields, e.2.Short := by
  simp only [Short, integers, mem_integersFields_iff]
  exact ⟨fun h e he n hn => h n ⟨e, he, hn⟩, fun h n ⟨e, he, hn⟩ => h e he n hn⟩

mutual

/-- A value can be shown when all of its whole numbers can. -/
theorem isShowable_iff : ∀ v : Value,
    v.isShowable = true ↔ ∀ n ∈ v.integers, (Nat.toDigits 10 n.natAbs).length ≤ mostDigits
  | .null => by simp [isShowable, integers]
  | .bool _ => by simp [isShowable, integers]
  | .int n => by rw [isShowable, decide_eq_true_iff, integers, List.forall_mem_singleton]
  | .float _ => by simp [isShowable, integers]
  | .str _ => by simp [isShowable, integers]
  | .arr vs => by rw [isShowable, allShowable_iff vs, integers]
  | .obj fields => by rw [isShowable, fieldsShowable_iff fields, integers]

theorem allShowable_iff : ∀ vs : List Value,
    allShowable vs = true ↔ ∀ n ∈ integersAll vs, (Nat.toDigits 10 n.natAbs).length ≤ mostDigits
  | [] => by simp [allShowable, integersAll]
  | v :: vs => by
    rw [allShowable, Bool.and_eq_true, isShowable_iff v, allShowable_iff vs, integersAll, List.forall_mem_append]

theorem fieldsShowable_iff : ∀ fields : List (String × Value),
    fieldsShowable fields = true ↔ ∀ n ∈ integersFields fields, (Nat.toDigits 10 n.natAbs).length ≤ mostDigits
  | [] => by simp [fieldsShowable, integersFields]
  | (_, v) :: fields => by
    rw [fieldsShowable, Bool.and_eq_true, isShowable_iff v, fieldsShowable_iff fields, integersFields,
      List.forall_mem_append]

end

/-- A number is shown without a sign before it is told whether it is too long. -/
theorem length_toDigits_of_length_intChars {n : Int} (h : (intChars n).length ≤ maxLength) :
    (Nat.toDigits 10 n.natAbs).length ≤ mostDigits := by
  rw [intChars] at h
  split at h
  · exact Nat.le_of_succ_le h
  · exact h

/-- What the reader can take can be shown. -/
theorem isShowable_of_short {v : Value} (h : v.Short) : v.isShowable = true :=
  (isShowable_iff v).mpr fun n hn => length_toDigits_of_length_intChars (h n hn)

/-! ### Writing within bounds -/

theorem format_eq_usualFormat_iff {v : Value} : v.format = usualFormat ↔ v.fits64 = true ∧ v.nesting ≤ 254 := by
  have hne : wideFormat ≠ usualFormat := fun heq => Bool.noConfusion (congrArg Number.Format.plus heq)
  rw [format]
  by_cases h : (v.fits64 && decide (v.nesting ≤ 254)) = true
  · rw [if_pos h]
    exact iff_of_true rfl (by simpa using h)
  · rw [if_neg h]
    exact iff_of_false hne (by simpa using h)

/-- A value is written in the usual format, or in the wide one if it has not too many levels there. -/
theorem isWritable_iff {levels : Nat} {v : Value} :
    v.isWritable levels = true ↔ v.format = usualFormat ∨ v.nesting ≤ levels ∧ v.isShowable = true := by
  rw [format_eq_usualFormat_iff, isWritable, Bool.or_eq_true, Bool.and_eq_true, Bool.and_eq_true, decide_eq_true_iff,
    decide_eq_true_iff]

/-- Members of which later ones override earlier ones are no more than they were. -/
theorem short_ofList {fields : List (String × Value)} (h : ∀ e ∈ fields, e.2.Short) :
    (Value.obj (Assoc.ofList fields)).Short :=
  short_obj_iff.mpr fun e he => (Assoc.mem_of_mem_merge he).elim (fun hnil => absurd hnil List.not_mem_nil) (h e)

/-! ### The parts of a faithful value -/

mutual

/-- A value whose objects have distinct names and whose doubles are read as they are. -/
def Regular : Value → Prop
  | .float x => ReadsBack x
  | .arr vs => AllRegular vs
  | .obj fields => Assoc.Distinct fields ∧ FieldsRegular fields
  | _ => True

def AllRegular : List Value → Prop
  | [] => True
  | v :: vs => v.Regular ∧ AllRegular vs

def FieldsRegular : List (String × Value) → Prop
  | [] => True
  | (_, v) :: fields => v.Regular ∧ FieldsRegular fields

end

mutual

/-- A value is faithful when it is regular and none of its whole numbers is too long. -/
theorem faithful_iff : ∀ v : Value, v.Faithful ↔ v.Regular ∧ v.Short
  | .null => ⟨fun h => ⟨h, short_of_integers_eq_nil rfl⟩, And.left⟩
  | .bool _ => ⟨fun h => ⟨h, short_of_integers_eq_nil rfl⟩, And.left⟩
  | .int n => by simp [Faithful, Regular, short_int_iff]
  | .float _ => ⟨fun h => ⟨h, short_of_integers_eq_nil rfl⟩, And.left⟩
  | .str _ => ⟨fun h => ⟨h, short_of_integers_eq_nil rfl⟩, And.left⟩
  | .arr vs => by rw [Faithful, Regular, allFaithful_iff vs, short_arr_iff]
  | .obj fields => by rw [Faithful, Regular, fieldsFaithful_iff fields, short_obj_iff, and_assoc]

theorem allFaithful_iff : ∀ vs : List Value, AllFaithful vs ↔ AllRegular vs ∧ ∀ v ∈ vs, v.Short
  | [] => by simp [AllFaithful, AllRegular]
  | v :: vs => by
    rw [AllFaithful, AllRegular, faithful_iff v, allFaithful_iff vs, List.forall_mem_cons, and_and_and_comm]

theorem fieldsFaithful_iff : ∀ fields : List (String × Value),
    FieldsFaithful fields ↔ FieldsRegular fields ∧ ∀ e ∈ fields, e.2.Short
  | [] => by simp [FieldsFaithful, FieldsRegular]
  | (k, v) :: fields => by
    rw [FieldsFaithful, FieldsRegular, faithful_iff v, fieldsFaithful_iff fields, List.forall_mem_cons, and_and_and_comm]

end

end Value

/-! ### What the reader gives back -/

variable {range : Range}

theorem natOfDigits_lt {ds : List Char} (h : ∀ c ∈ ds, c.isDigit = true) : Number.natOfDigits ds < 10 ^ ds.length := by
  induction ds using List.reverseRecOn with
  | nil => decide
  | append_singleton ds c ih =>
    have hrest := ih fun d hd => h d (List.mem_append_left _ hd)
    have hdigit : c.isDigit = true := h c (List.mem_append_right _ List.mem_cons_self)
    have hvalue : Number.digitValue c < 10 := by
      simp only [Char.isDigit, Bool.and_eq_true, decide_eq_true_eq, ge_iff_le, UInt32.le_iff_toNat_le] at hdigit
      have hle : c.toNat ≤ 57 := hdigit.2
      rw [Number.digitValue]
      omega
    have hlast : Number.natOfDigits (ds ++ [c]) = 10 * Number.natOfDigits ds + Number.digitValue c := by
      rw [Number.natOfDigits, List.foldl_append]
      rfl
    rw [hlast, List.length_append, List.length_singleton, pow_succ]
    omega

/-- The text of a whole number is no longer than the text that it was read from. -/
theorem length_intChars_signed_le {negative : Bool} {ds : List Char} (hne : ds ≠ [])
    (h : ∀ c ∈ ds, c.isDigit = true) :
    (intChars (Number.signed negative (Number.natOfDigits ds))).length ≤ ds.length + if negative then 1 else 0 := by
  have hdigits : (Nat.toDigits 10 (Number.natOfDigits ds)).length ≤ ds.length :=
    (Nat.length_toDigits_le_iff (by decide) (List.length_pos_iff.mpr hne)).mpr (natOfDigits_lt h)
  cases negative with
  | false =>
    have hnonneg : ¬ Number.signed false (Number.natOfDigits ds) < 0 := by
      rw [Number.signed, if_neg Bool.false_ne_true]
      omega
    rw [intChars, if_neg hnonneg]
    simpa [Number.signed] using hdigits
  | true =>
    have habs : (Number.signed true (Number.natOfDigits ds)).natAbs = Number.natOfDigits ds := by simp [Number.signed]
    rw [intChars, habs, if_pos rfl]
    split
    · exact Nat.succ_le_succ hdigits
    · exact hdigits.trans (Nat.le_add_right _ 1)

theorem wholePart_digits {s whole r : List Char} (h : wholePart s = some (whole, r)) :
    whole ≠ [] ∧ ∀ c ∈ whole, c.isDigit = true := by
  rw [wholePart.eq_def] at h
  split at h
  · obtain ⟨rfl, rfl⟩ : ['0'] = whole ∧ _ = r := by simpa using h
    exact ⟨List.cons_ne_nil _ _, List.forall_mem_singleton.mpr rfl⟩
  · split at h
    · exact absurd h (by simp)
    · next hne =>
      obtain ⟨rfl, rfl⟩ : digits s = whole ∧ afterDigits s = r := by simpa using h
      exact ⟨hne, fun c hc => List.mem_takeWhile_imp hc⟩

theorem short_of_unsignedNumber {negative : Bool} {s r : List Char} {v : Value}
    (h : unsignedNumber range negative s = some (v, r)) : v.Short := by
  obtain ⟨whole, s₁, fraction, s₂, exponent, hwhole, _, _, hnumber⟩ := unsignedNumber_eq_some_iff.mp h
  obtain ⟨hne, hdigits⟩ := wholePart_digits hwhole
  rw [numberOf] at hnumber
  by_cases hwhole : fraction = [] ∧ exponent = none
  · rw [if_pos hwhole, wholeNumber] at hnumber
    by_cases hlength : whole.length + (if negative then 1 else 0) ≤ maxLength
    · rw [if_pos hlength] at hnumber
      obtain rfl := Option.some.inj hnumber
      exact Value.short_int_iff.mpr ((length_intChars_signed_le hne hdigits).trans hlength)
    · exact absurd hnumber (by simp [hlength])
  · rw [if_neg hwhole] at hnumber
    dsimp only at hnumber
    split at hnumber
    · obtain rfl := Option.some.inj hnumber
      exact Value.short_of_integers_eq_nil rfl
    · exact absurd hnumber (by simp)

theorem short_of_number {s r : List Char} {v : Value} (h : number range s = some (v, r)) : v.Short := by
  rw [number.eq_def] at h
  split at h
  · exact short_of_unsignedNumber h
  · exact short_of_unsignedNumber h

variable {n levels : Nat}

theorem short_of_value_succ
    (helements : ∀ {levels s vs r}, elements .finite n levels s = .ok (vs, r) → ∀ v ∈ vs, Value.Short v)
    (hmembers : ∀ {levels s fields r}, members .finite n levels s = .ok (fields, r) → ∀ e ∈ fields, Value.Short e.2)
    {s r : List Char} {v : Value} (h : value .finite (n + 1) levels s = .ok (v, r)) : v.Short := by
  rw [value.eq_def] at h
  simp only at h
  split at h
  · cases h
    exact Value.short_of_integers_eq_nil rfl
  · cases h
    exact Value.short_of_integers_eq_nil rfl
  · cases h
    exact Value.short_of_integers_eq_nil rfl
  · -- a string
    split at h
    · cases h
      exact Value.short_of_integers_eq_nil rfl
    · cases h
  · -- an array, empty or not
    split at h
    · cases h
    · split at h
      · cases h
        exact Value.short_of_integers_eq_nil rfl
      · split at h
        · next hvs =>
          cases h
          exact Value.short_arr_iff.mpr (helements hvs)
        · cases h
  · -- an object, empty or not
    split at h
    · cases h
    · split at h
      · cases h
        exact Value.short_of_integers_eq_nil rfl
      · split at h
        · next hfields =>
          cases h
          exact Value.short_ofList (hmembers hfields)
        · cases h
  · exact short_of_number (orMalformed_eq_ok_iff.mp h)

theorem short_of_elements_succ (hvalue : ∀ {levels s v r}, value .finite n levels s = .ok (v, r) → v.Short)
    (helements : ∀ {levels s vs r}, elements .finite n levels s = .ok (vs, r) → ∀ v ∈ vs, Value.Short v)
    {s r : List Char} {vs : List Value} (h : elements .finite (n + 1) levels s = .ok (vs, r)) : ∀ v ∈ vs, v.Short := by
  rw [elements] at h
  split at h
  · cases h
  · next hv =>
    split at h
    · cases h
      exact List.forall_mem_singleton.mpr (hvalue hv)
    · split at h
      · next hvs =>
        cases h
        exact List.forall_mem_cons.mpr ⟨hvalue hv, helements hvs⟩
      · cases h
    · cases h

theorem short_of_members_succ (hvalue : ∀ {levels s v r}, value .finite n levels s = .ok (v, r) → v.Short)
    (hmembers : ∀ {levels s fields r}, members .finite n levels s = .ok (fields, r) → ∀ e ∈ fields, Value.Short e.2)
    {s r : List Char} {fields : List (String × Value)} (h : members .finite (n + 1) levels s = .ok (fields, r)) :
    ∀ e ∈ fields, e.2.Short := by
  rw [members.eq_def] at h
  simp only at h
  split at h
  · split at h
    · cases h
    · split at h
      · split at h
        · cases h
        · next hv =>
          -- behind the value of a member there is a brace or a comma
          split at h
          · cases h
            exact List.forall_mem_singleton.mpr (hvalue hv)
          · split at h
            · next hfields =>
              cases h
              exact List.forall_mem_cons.mpr ⟨hvalue hv, hmembers hfields⟩
            · cases h
          · cases h
      · cases h
  · cases h

/-- **The reader gives back no whole number that is too long**, by induction on its fuel. -/
theorem short_of_reading (n : Nat) :
    (∀ {levels s v r}, value .finite n levels s = .ok (v, r) → v.Short) ∧
      (∀ {levels s vs r}, elements .finite n levels s = .ok (vs, r) → ∀ v ∈ vs, Value.Short v) ∧
      ∀ {levels s fields r}, members .finite n levels s = .ok (fields, r) → ∀ e ∈ fields, Value.Short e.2 := by
  induction n with
  | zero =>
    exact ⟨fun h => absurd h (by simp [value]), fun h => absurd h (by simp [elements]),
      fun h => absurd h (by simp [members])⟩
  | succ n ih =>
    obtain ⟨hvalue, helements, hmembers⟩ := ih
    exact ⟨short_of_value_succ helements hmembers, short_of_elements_succ hvalue helements,
      short_of_members_succ hvalue hmembers⟩

theorem short_of_readWithin {s : List Char} {v : Value} (h : readWithin levels s = .ok v) : v.Short := by
  obtain ⟨r, hvalue, _⟩ := exists_value_of_readTo h
  exact (short_of_reading _).1 hvalue

theorem short_of_read {s : List Char} {v : Value} (h : read s = some v) : v.Short :=
  short_of_readWithin (read_eq_some_iff.mp h)

/-! ### Round trips -/

namespace Value

theorem decodeWithin_chars_iff {f : Number.Format} (hf : f ∈ wireFormats) (v : Value) (h : v.Regular) (levels : Nat) :
    decodeWithin levels (Text.Utf8.encode (v.chars f)) = .ok v ↔ v.Short ∧ v.nesting ≤ levels := by
  rw [decodeWithin, Text.Utf8.read_encode]
  dsimp only
  constructor
  · intro hread
    have hshort := short_of_readWithin hread
    rw [readWithin_chars hf v ((faithful_iff v).mpr ⟨h, hshort⟩), withinLevels_eq_ok_iff] at hread
    exact ⟨hshort, hread.1⟩
  · rintro ⟨hshort, hlevels⟩
    rw [readWithin_chars hf v ((faithful_iff v).mpr ⟨h, hshort⟩), withinLevels_eq_ok_iff]
    exact ⟨hlevels, rfl⟩

theorem encodeWithin_eq_some_iff {levels : Nat} {v : Value} {bytes : List UInt8} :
    v.encodeWithin levels = some bytes ↔ v.isWritable levels = true ∧ bytes = v.encode := by
  rw [encodeWithin]
  split
  · next h => rw [Option.some.injEq, eq_comm, and_iff_right h]
  · next h => simp [h]

/-- A regular value comes back when it can be written and read. -/
theorem comes_back_iff (b : Bounds) {v : Value} (h : v.Regular) :
    (v.encodeWithin b.writing).map (decodeWithin b.reading) = some (.ok v) ↔
      v.isWritable b.writing = true ∧ v.Short ∧ v.nesting ≤ b.reading := by
  have hback := decodeWithin_chars_iff v.format_mem v h b.reading
  simp only [Option.map_eq_some_iff, encodeWithin_eq_some_iff]
  constructor
  · rintro ⟨_, ⟨hwritable, rfl⟩, hread⟩
    exact ⟨hwritable, hback.mp hread⟩
  · rintro ⟨hwritable, hread⟩
    exact ⟨_, ⟨hwritable, rfl⟩, hback.mpr hread⟩

/-- **A regular value comes back from its bytes exactly when none of its whole numbers is too long and neither the
reader nor the writer gives up on its levels.**  The writer of the usual number format never does.  This is so in the
number format that is chosen for the value, and it would be so in either of them; the wide one is chosen for the whole
value when any of its whole numbers, however deep inside, is beyond 64 bits, or when it has more than 254 levels. -/
theorem decode_encode_iff (b : Bounds) (v : Value) (h : v.Regular) :
    ((v.encodeWithin b.writing).map (decodeWithin b.reading) = some (.ok v) ↔
        (∀ n ∈ v.integers, (intChars n).length ≤ maxLength) ∧ v.nesting ≤ b.reading ∧
          (v.format = usualFormat ∨ v.nesting ≤ b.writing)) ∧
      (∀ f ∈ [usualFormat, wideFormat], decodeWithin b.reading (Text.Utf8.encode (v.chars f)) = .ok v ↔
        (∀ n ∈ v.integers, (intChars n).length ≤ maxLength) ∧ v.nesting ≤ b.reading) ∧
      (v.format = usualFormat ∨ v.format = wideFormat) ∧
      (v.format = wideFormat ↔ (∃ n ∈ v.integers, n < -2 ^ 63 ∨ 2 ^ 64 ≤ n) ∨ 254 < v.nesting) := by
  have hformat : v.format = usualFormat ∨ v.format = wideFormat := by simpa [wireFormats] using v.format_mem
  refine ⟨?_, fun f hf => decodeWithin_chars_iff hf v h b.reading, hformat, v.format_eq_wideFormat_iff⟩
  rw [comes_back_iff b h, isWritable_iff]
  constructor
  · rintro ⟨hwriting, hshort, hreading⟩
    exact ⟨hshort, hreading, hwriting.imp_right And.left⟩
  · rintro ⟨hshort, hreading, hwriting⟩
    exact ⟨hwriting.imp_right fun hle => ⟨hle, isShowable_of_short hshort⟩, hshort, hreading⟩

/-- A number beyond 64 bits inside a list inside an object, beside a double and a string with characters to escape. -/
def farInside : Value :=
  .obj [("b", .arr [.int (-7), .arr [.int (2 ^ 64)], .null]), ("a", .float 1.5), ("c", .str "\"\\\n\x01\x7fé")]

/-- It switches the number format, and all of the value comes back within three levels. -/
theorem decode_encode_farInside :
    farInside.Regular ∧ farInside.format = wideFormat ∧
      (farInside.encodeWithin 3).map (decodeWithin 3) = some (.ok farInside) := by
  have hregular : farInside.Regular := by
    have hnames : Assoc.Distinct
        [("b", arr [.int (-7), .arr [.int (2 ^ 64)], .null]), ("a", .float 1.5), ("c", .str "\"\\\n\x01\x7fé")] := by
      simp [Assoc.Distinct, Assoc.keys]
    exact ⟨hnames, ⟨trivial, ⟨trivial, trivial⟩, trivial, trivial⟩, readsBack_oneAndHalf, trivial, trivial⟩
  have hshort : ∀ n ∈ farInside.integers, (intChars n).length ≤ maxLength := by decide +kernel
  have hnesting : farInside.nesting ≤ 3 := by decide
  obtain ⟨hback, _, _, hwide⟩ := decode_encode_iff ⟨3, 3⟩ farInside hregular
  exact ⟨hregular, hwide.mpr (.inl ⟨2 ^ 64, by decide +kernel, .inr (Int.le_refl _)⟩),
    hback.mpr ⟨hshort, hnesting, .inr hnesting⟩⟩

end Value

/-- A whole number comes back when its text is not too long, and its bytes are refused otherwise. -/
theorem decodeWithin_encode_int (n : Int) (levels : Nat) : decodeWithin levels (Value.int n).encode =
    if (intChars n).length ≤ maxLength then .ok (.int n) else .error .malformed := by
  rw [decodeWithin, Value.encode, Text.Utf8.read_encode]
  by_cases h : (intChars n).length ≤ maxLength
  · rw [if_pos h]
    exact (Value.readWithin_chars (Value.format_mem _) (.int n) h levels).trans (if_pos (Nat.zero_le _))
  · rw [if_neg h]
    exact readWithin_intChars_of_long (Nat.lt_of_not_le h) levels

/-- Minus ten to the power of 4299 has 4300 digits and a sign, one character too many for the reader and none for the
writer: whatever the bounds on nesting are, it is written and does not come back. -/
theorem overlong_not_decoded : (Value.int (-10 ^ 4299)).Regular ∧ ∀ b : Bounds,
    (Value.int (-10 ^ 4299)).encodeWithin b.writing = some (Value.int (-10 ^ 4299)).encode ∧
      decodeWithin b.reading (Value.int (-10 ^ 4299)).encode = .error .malformed := by
  have hlong : ¬ (intChars (-10 ^ 4299)).length ≤ maxLength := by
    rw [length_intChars_neg_pow]
    decide
  have hshown : (Nat.toDigits 10 (-10 ^ 4299 : Int).natAbs).length ≤ mostDigits := by
    rw [length_toDigits_natAbs_neg_pow]
    decide
  revert hlong hshown
  generalize (-10 ^ 4299 : Int) = n
  intro hlong hshown
  refine ⟨trivial, fun b => ⟨?_, by rw [decodeWithin_encode_int, if_neg hlong]⟩⟩
  have hshowable : (Value.int n).isShowable = true := by rwa [Value.isShowable, decide_eq_true_iff]
  exact if_pos (Value.isWritable_iff.mpr (.inr ⟨Nat.zero_le _, hshowable⟩))

end ComponentStream.Json
