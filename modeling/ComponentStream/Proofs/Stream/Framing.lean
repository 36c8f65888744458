import ComponentStream.Proofs.Stream.Within

/-!
# Values as records

Values that are written one after the other, each with a newline behind it, come out of a stream as these values, however
the bytes are cut.  The text of a value holds no newline and no blank at its ends, so that the records of the stream are
the texts, and each of them is read as its value, unless it holds too long a whole number or has too many levels.

* `Framed`, `framed_encode` — records that a stream keeps as they are, and the text of any value as one of them;
* `splitRecords_lines` — the records of lines;
* `checkAndApply`, `checkAndApplyAll` — what becomes of values that never were text;
* `Transmissible`, `transmissible_iff` — the values that come out of a stream as they went in;
* `Intake.feedAll_values` — streams of such values;
* `overlong_dropped` — a whole number that is written and not read.
-/

namespace ComponentStream.Stream

open Json (Bounds Solid Value Visible)
open Protocol (Limits checkMessage)

/-! ### Texts as records -/

/-- A record without a newline and without a blank at its ends. -/
structure Framed (bytes : List UInt8) : Prop where
  newline_not_mem : newline ∉ bytes
  first : ∃ b rest, bytes = b :: rest ∧ isBlankByte b = false
  last : ∃ b front, bytes = front ++ [b] ∧ isBlankByte b = false

/-- Nothing is removed from the ends of such a record. -/
theorem Framed.strip_eq {bytes : List UInt8} (h : Framed bytes) : strip bytes = bytes := by
  obtain ⟨b, rest, hfirst, hb⟩ := h.first
  obtain ⟨d, front, hlast, hd⟩ := h.last
  have hfront : bytes.dropWhile isBlankByte = bytes := by
    rw [hfirst, List.dropWhile_cons_of_neg (by simp [hb])]
  have hback : bytes.reverse.dropWhile isBlankByte = bytes.reverse := by
    rw [hlast, List.reverse_append, List.reverse_singleton, List.singleton_append,
      List.dropWhile_cons_of_neg (by simp [hd])]
  rw [strip, hfront, hback, List.reverse_reverse]

theorem Framed.isEmpty_eq {bytes : List UInt8} (h : Framed bytes) : bytes.isEmpty = false := by
  obtain ⟨b, rest, rfl, _⟩ := h.first
  rfl

theorem isBlankByte_of_lt {b : UInt8} (h : 0x20 < b.toNat) : isBlankByte b = false := by
  have hspace : b ≠ 0x20 := fun heq => absurd (heq ▸ h) (by decide)
  have hcontrol : ¬ b ≤ 0x0D := fun hle => by
    have hle : b.toNat ≤ 0x0D := UInt8.le_iff_toNat_le.mp hle
    omega
  simp [isBlankByte, hspace, hcontrol]

/-- A visible character is a single byte, and no blank. -/
theorem encode_of_visible {c : Char} (hc : Visible c) :
    ∃ b, Text.Utf8.encode [c] = [b] ∧ isBlankByte b = false := by
  obtain ⟨hlow, hhigh⟩ := hc
  refine ⟨_, Text.Utf8.encode_of_ascii (by omega), isBlankByte_of_lt ?_⟩
  rw [Text.Utf8.toNat_toUInt8 (by omega)]
  exact hlow

theorem Framed.of_solid {cs : List Char} (h : Solid cs) : Framed (Text.Utf8.encode cs) where
  newline_not_mem hmem := absurd (Text.Utf8.le_of_mem_encode (by decide) h.le hmem) (by decide)
  first := by
    obtain ⟨c, rest, rfl, hc⟩ := h.first
    obtain ⟨b, hb, hblank⟩ := encode_of_visible hc
    exact ⟨b, Text.Utf8.encode rest, by rw [← List.singleton_append, Text.Utf8.encode_append, hb]; rfl, hblank⟩
  last := by
    obtain ⟨c, front, rfl, hc⟩ := h.last
    obtain ⟨b, hb, hblank⟩ := encode_of_visible hc
    exact ⟨b, Text.Utf8.encode front, by rw [Text.Utf8.encode_append, hb], hblank⟩

/-- **The text of a value is a record as it stands.** -/
theorem framed_encode (v : Value) : Framed v.encode := .of_solid v.solid_compact

/-- The records of lines. -/
theorem splitRecords_lines {records : List (List UInt8)} (h : ∀ r ∈ records, newline ∉ r) :
    splitRecords (records.flatMap fun r => r ++ [newline]) = (records, []) := by
  induction records with
  | nil => rfl
  | cons r records ih =>
    rw [List.flatMap_cons, splitRecords_append, splitRecords_append_newline (h r List.mem_cons_self),
      List.nil_append, ih fun s hs => h s (List.mem_cons_of_mem r hs)]
    rfl

/-! ### Values without text -/

/-- A value checked, and applied if it is a message; its text is only told. -/
def checkAndApply (limits : Limits) (t : Tree) (v : Value) : Tree × Verdict :=
  match checkMessage limits v with
  | .error issues => (t, .dropped (.rejected issues (String.ofList v.compact)))
  | .ok message => applyMessage limits t message

def checkAndApplyAll (limits : Limits) : Tree → List Value → Tree × List Verdict
  | t, [] => (t, [])
  | t, v :: vs =>
    let (t, verdict) := checkAndApply limits t v
    let (t, verdicts) := checkAndApplyAll limits t vs
    (t, verdict :: verdicts)

theorem length_checkAndApplyAll (limits : Limits) (vs : List Value) :
    ∀ t, (checkAndApplyAll limits t vs).2.length = vs.length := by
  induction vs with
  | nil => exact fun _ => rfl
  | cons v vs ih => exact fun t => congrArg (· + 1) (ih _)

/-- Nothing that is told of a value is about reading a text. -/
theorem kind_ne_decode {limits : Limits} {v : Value} {t : Tree} {w : Warning}
    (h : (checkAndApply limits t v).2 = .dropped w) : w.kind ≠ .decode := by
  rw [checkAndApply] at h
  cases hcheck : checkMessage limits v with
  | error issues =>
    rw [hcheck] at h
    cases h
    rw [Warning.kind]
    split <;> decide
  | ok m =>
    simp only [hcheck] at h
    have happ := applied limits t m
    rw [h] at happ
    generalize (applyMessage limits t m).1 = u at happ
    cases happ with
    | full _ => exact FaultKind.noConfusion
    | tooDeep _ _ => exact FaultKind.noConfusion
    | unknown _ => exact FaultKind.noConfusion

theorem kind_ne_decode_of_mem {limits : Limits} {vs : List Value} : ∀ {t : Tree} {w : Warning},
    .dropped w ∈ (checkAndApplyAll limits t vs).2 → w.kind ≠ .decode := by
  induction vs with
  | nil => exact fun h => absurd h List.not_mem_nil
  | cons v vs ih =>
    intro t w h
    rcases List.mem_cons.mp h with hfirst | hrest
    · exact kind_ne_decode hfirst.symm
    · exact ih hrest

/-! ### Streams of values -/

/-- A value that is written and read within the same bounds. -/
structure Transmissible (b : Bounds) (v : Value) : Prop where
  faithful : v.Faithful
  nesting_le : v.nesting ≤ b.reading
  encode_eq : v.encodeWithin b.writing = some v.encode

section Records

variable {b : Bounds} {v : Value}

/-- A record that holds the text of a faithful value is that value. -/
theorem processRecord_encode (limits : Limits) (t : Tree) (hv : v.Faithful) :
    processRecord limits t v.encode = checkAndApply limits t v := by
  rw [processRecord, (framed_encode v).strip_eq, (framed_encode v).isEmpty_eq]
  simp only [Bool.false_eq_true, if_false, Value.encode, Text.Utf8.read_encode, processLine, v.read_compact hv]
  rfl

/-- A record raises what its text does, where nothing is removed from its ends. -/
theorem exhaustion?_encode (b : Bounds) (limits : Limits) {cs : List Char} (h : Solid cs) :
    exhaustion? b limits (Text.Utf8.encode cs) = lineExhaustion? b limits cs := by
  rw [exhaustion?, (Framed.of_solid h).strip_eq, Text.Utf8.read_encode]

theorem Transmissible.exhaustion?_eq_none (h : Transmissible b v) (limits : Limits) :
    exhaustion? b limits v.encode = none := by
  have hread : Json.readWithin b.reading v.compact = .ok v :=
    (v.readWithin_chars v.format_mem h.faithful b.reading).trans (if_pos h.nesting_le)
  rw [Value.encode, exhaustion?_encode b limits v.solid_compact, lineExhaustion?, hread]
  exact if_pos (isMeasurable_of_isWritable limits (Value.encodeWithin_eq_some_iff.mp h.encode_eq).1)

/-- **The values that are transmitted are those that come back from their bytes.** -/
theorem transmissible_iff (b : Bounds) (hregular : v.Regular) : Transmissible b v ↔
    (v.encodeWithin b.writing).map (Json.decodeWithin b.reading) = some (.ok v) := by
  rw [Value.comes_back_iff b hregular]
  constructor
  · intro h
    exact ⟨(Value.encodeWithin_eq_some_iff.mp h.encode_eq).1, (v.faithful_iff.mp h.faithful).2, h.nesting_le⟩
  · rintro ⟨hwritable, hshort, hnesting⟩
    exact ⟨v.faithful_iff.mpr ⟨hregular, hshort⟩, hnesting, Value.encodeWithin_eq_some_iff.mpr ⟨hwritable, rfl⟩⟩

end Records

theorem processAll_encode (limits : Limits) {vs : List Value} (hvs : ∀ v ∈ vs, v.Faithful) :
    ∀ t, processAll limits t (vs.map Value.encode) = checkAndApplyAll limits t vs := by
  induction vs with
  | nil => exact fun _ => rfl
  | cons v vs ih =>
    intro t
    rw [List.map_cons, processAll_cons, processRecord_encode limits t (hvs v List.mem_cons_self),
      ih fun w hw => hvs w (List.mem_cons_of_mem v hw)]
    rfl

namespace Intake

/-- **Values that are written to a stream, one on each line, are what comes out of it**, however the bytes are cut.  The
stream does with the text of each value what checking and applying does with the value itself, in order; it waits for
nothing, nothing is raised, and no text is found unreadable.  This takes values that come back from their bytes.  The
text of any value is free of newlines and of blanks at its ends. -/
theorem feedAll_values (b : Bounds) (i : Intake) {n : Nat} (hn : n < i.buffers.length) (hempty : i.buffer n = [])
    {vs : List Value} (hvs : ∀ v ∈ vs, Transmissible b v) {chunks : List (List UInt8)}
    (hchunks : chunks.flatten = vs.flatMap fun v => v.encode ++ [newline]) :
    i.feedAllWithin b n chunks =
        ({ i with tree := (checkAndApplyAll i.limits i.tree vs).1 }, (checkAndApplyAll i.limits i.tree vs).2, none) ∧
      (i.feedAllWithin b n chunks).1.buffer n = [] ∧ (i.feedAllWithin b n chunks).2.1.length = vs.length ∧
      (∀ w, .dropped w ∈ (i.feedAllWithin b n chunks).2.1 → w.kind ≠ .decode) ∧
      (∀ v : Value, v.Regular → (Transmissible b v ↔
        (v.encodeWithin b.writing).map (Json.decodeWithin b.reading) = some (.ok v))) ∧
      ∀ v : Value, newline ∉ v.encode ∧ (∃ b rest, v.encode = b :: rest ∧ isBlankByte b = false) ∧
        ∃ b front, v.encode = front ++ [b] ∧ isBlankByte b = false := by
  have hlines : splitRecords chunks.flatten = (vs.map Value.encode, []) := by
    have hwhole : ∀ r ∈ vs.map Value.encode, newline ∉ r := fun r hr => by
      obtain ⟨v, _, rfl⟩ := List.mem_map.mp hr
      exact (framed_encode v).newline_not_mem
    rw [hchunks, ← splitRecords_lines hwhole, List.flatMap_map]
  have hquiet : ∀ r ∈ (splitRecords (i.buffer n ++ chunks.flatten)).1, exhaustion? b i.limits r = none := by
    rw [hempty, List.nil_append, hlines]
    intro r hr
    obtain ⟨v, hv, rfl⟩ := List.mem_map.mp hr
    exact (hvs v hv).exhaustion?_eq_none i.limits
  have hall : i.feedAllWithin b n chunks =
      ({ i with tree := (checkAndApplyAll i.limits i.tree vs).1 }, (checkAndApplyAll i.limits i.tree vs).2, none) := by
    have hset : i.buffers.set n [] = i.buffers := hempty ▸ set_buffer i n
    rw [feedAllWithin_eq_feedAll hn hquiet, feedAll_eq_feed_of_not_mem (by simp [hempty]) hn, feed_eq, hempty,
      List.nil_append, hlines, processAll_encode i.limits fun v hv => (hvs v hv).faithful]
    simp only [hset]
  refine ⟨hall, ?_, ?_, ?_, fun v => transmissible_iff b, fun v =>
    ⟨(framed_encode v).newline_not_mem, (framed_encode v).first, (framed_encode v).last⟩⟩
  · rw [hall]
    exact hempty
  · rw [hall]
    exact length_checkAndApplyAll i.limits vs i.tree
  · rw [hall]
    exact fun w hw => kind_ne_decode_of_mem hw

/-- A string of characters that are escaped, an object with a number beyond 64 bits, and a list with a double. -/
def mixture : List Value :=
  [.str "\"\\\n\té", .obj [("type", .str "remove"), ("id", .int (2 ^ 64))], .arr [.float 1.5, .int (-7), .arr [], .null]]

theorem transmissible_of_mixture : ∀ v ∈ mixture, Transmissible ⟨3, 3⟩ v := by
  have hlarge : (Json.intChars (2 ^ 64)).length ≤ Json.maxLength := by decide +kernel
  have hsmall : (Json.intChars (-7)).length ≤ Json.maxLength := by decide +kernel
  have hnames : Assoc.Distinct [("type", Value.str "remove"), ("id", .int (2 ^ 64))] := by
    simp [Assoc.Distinct, Assoc.keys]
  have hwritable : ∀ v ∈ mixture, v.isWritable 3 = true := by decide +kernel
  have hnesting : ∀ v ∈ mixture, v.nesting ≤ 3 := by decide
  have hfaithful : ∀ v ∈ mixture, v.Faithful := by
    intro v hv
    simp only [mixture, List.mem_cons, List.not_mem_nil, or_false] at hv
    rcases hv with rfl | rfl | rfl
    · trivial
    · exact ⟨hnames, trivial, hlarge, trivial⟩
    · exact ⟨Json.readsBack_oneAndHalf, hsmall, trivial, trivial, trivial⟩
  exact fun v hv => ⟨hfaithful v hv, hnesting v hv, if_pos (hwritable v hv)⟩

/-- Three values in two chunks, cut inside a character of the first one, within three levels. -/
theorem feedAll_values_of_mixture :
    0 < (start Limits.standard).buffers.length ∧ (start Limits.standard).buffer 0 = [] ∧
      (∀ v ∈ mixture, Transmissible ⟨3, 3⟩ v) ∧
      ∃ chunks : List (List UInt8), chunks.head? = some [0x22, 0x5C, 0x22, 0x5C, 0x5C, 0x5C, 0x6E, 0x5C, 0x74, 0xC3] ∧
        chunks.flatten = (mixture.flatMap fun v => v.encode ++ [newline]) ∧
        ((start Limits.standard).feedAllWithin ⟨3, 3⟩ 0 chunks).2 =
          ((checkAndApplyAll Limits.standard .empty mixture).2, none) := by
  have hn : 0 < (start Limits.standard).buffers.length := by decide
  have hempty : (start Limits.standard).buffer 0 = [] := rfl
  have hflatten : [(mixture.flatMap fun v => v.encode ++ [newline]).take 10,
      (mixture.flatMap fun v => v.encode ++ [newline]).drop 10].flatten =
        mixture.flatMap fun v => v.encode ++ [newline] := by
    simp
  refine ⟨hn, hempty, transmissible_of_mixture, _, ?_, hflatten, ?_⟩
  · decide +kernel
  · rw [(feedAll_values ⟨3, 3⟩ (start Limits.standard) hn hempty transmissible_of_mixture hflatten).1]
    rfl

end Intake

/-! ### Whole numbers that are too long -/

/-- **A whole number whose text is too long is written and not read**: its record is dropped as unreadable. -/
theorem processRecordWithin_of_overlong (b : Bounds) (limits : Limits) (t : Tree) {n : Int}
    (h : Json.maxLength < (Json.intChars n).length) :
    processRecordWithin b limits t (Value.int n).encode = .ok (t, .dropped (.badJson (String.ofList (Json.intChars n)))) := by
  rw [processRecordWithin, (framed_encode _).strip_eq, (framed_encode _).isEmpty_eq]
  simp only [Bool.false_eq_true, if_false, Value.encode, Text.Utf8.read_encode, processLineWithin]
  have hread : Json.readWithin b.reading (Value.int n).compact = .error .malformed :=
    Json.readWithin_intChars_of_long h b.reading
  rw [hread]
  rfl

theorem feedAllWithin_of_overlong (b : Bounds) (limits : Limits) {n : Int} (h : Json.maxLength < (Json.intChars n).length) :
    ((Intake.start limits).feedAllWithin b 0 [(Value.int n).encode ++ [newline]]).2 =
      ([.dropped (.badJson (String.ofList (Json.intChars n)))], none) := by
  have hsplit : splitRecords ((Value.int n).encode ++ [newline]) = ([(Value.int n).encode], []) :=
    splitRecords_append_newline (framed_encode (.int n)).newline_not_mem
  have hbuffer : (Intake.start limits).buffer 0 = [] := rfl
  rw [Intake.feedAllWithin, Intake.feedWithin, hbuffer, List.nil_append, hsplit]
  simp only [processAllWithin, processRecordWithin_of_overlong b _ _ h, Intake.feedAllWithin, List.append_nil]

/-- The least number of 4300 digits with a minus sign is one character too long: its record is dropped as unreadable
where the value itself would have been rejected as no message. -/
theorem overlong_dropped :
    (checkAndApplyAll Limits.standard .empty [.int (-10 ^ 4299)]).2 =
        [.dropped (.rejected [⟨[], .notAnObject "int"⟩] (String.ofList (Value.int (-10 ^ 4299)).compact))] ∧
      ∀ b : Bounds,
        ((Intake.start Limits.standard).feedAllWithin b 0 [(Value.int (-10 ^ 4299)).encode ++ [newline]]).2 =
          ([.dropped (.badJson (String.ofList (Json.intChars (-10 ^ 4299))))], none) := by
  have hlong : Json.maxLength < (Json.intChars (-10 ^ 4299)).length := by
    rw [Json.length_intChars_neg_pow]
    decide
  exact ⟨rfl, fun b => feedAllWithin_of_overlong b Limits.standard hlong⟩

end ComponentStream.Stream
