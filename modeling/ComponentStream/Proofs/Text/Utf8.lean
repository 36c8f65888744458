import ComponentStream.Text.Utf8

/-!
# Text and its bytes

What is written as UTF-8 is read back as it was.

* `start_two`, `start_three`, `start_four` — the state after the first byte of a longer character, from the bits in it;
* `pieces_last`, `pieces_more` — the bytes that continue it;
* `pieces_encodeScalar` — one character is one piece, whatever follows;
* `read_encode` — whole texts;
* `le_of_mem_encode`, `encode_of_ascii` — no byte is less than every character, and a short character is its own byte.
-/

namespace ComponentStream.Text.Utf8

/-! ### The bytes of one character -/

theorem toNat_toUInt8 {n : Nat} (h : n < 256) : n.toUInt8.toNat = n :=
  UInt8.toNat_ofNat_of_lt' h

theorem start_two : ∀ k < 32, 2 ≤ k → start (0xC0 + k) = ([], .inside 1 0 k 0x80 0xBF) := by decide

theorem start_three : ∀ k < 16, start (0xE0 + k) =
    ([], .inside 1 1 k (if k = 0 then 0xA0 else 0x80) (if k = 0xD then 0x9F else 0xBF)) := by decide

theorem start_four : ∀ k < 5, start (0xF0 + k) =
    ([], .inside 1 2 k (if k = 0 then 0x90 else 0x80) (if k = 4 then 0x8F else 0xBF)) := by decide

theorem pieces_first {n : Nat} (hn : n < 256) (bs : List UInt8) :
    pieces .between (n.toUInt8 :: bs) = (start n).1 ++ pieces (start n).2 bs := by
  rw [pieces, step, toNat_toUInt8 hn]

variable {taken owed bits low high k : Nat}

/-- The byte with the last six bits of a character. -/
theorem pieces_last (hk : k < 64) (hlow : low ≤ 0x80 + k) (hhigh : 0x80 + k ≤ high) (bs : List UInt8) :
    pieces (.inside taken 0 bits low high) ((0x80 + k).toUInt8 :: bs) =
      .char (Char.ofNat (bits * 64 + k)) :: pieces .between bs := by
  have hmod : (0x80 + k) % 64 = k := by omega
  rw [pieces, step, toNat_toUInt8 (by omega), if_pos ⟨hlow, hhigh⟩, hmod]
  rfl

/-- A byte with six bits before the last ones. -/
theorem pieces_more (hk : k < 64) (hlow : low ≤ 0x80 + k) (hhigh : 0x80 + k ≤ high) (bs : List UInt8) :
    pieces (.inside taken (owed + 1) bits low high) ((0x80 + k).toUInt8 :: bs) =
      pieces (.inside (taken + 1) owed (bits * 64 + k) 0x80 0xBF) bs := by
  have hmod : (0x80 + k) % 64 = k := by omega
  rw [pieces, step, toNat_toUInt8 (by omega), if_pos ⟨hlow, hhigh⟩, hmod]
  rfl

/-- A character is no surrogate and not beyond the last code point. -/
theorem scalar_bounds (c : Char) : c.toNat < 0xD800 ∨ 0xDFFF < c.toNat ∧ c.toNat < 0x110000 := c.valid

/-- **The bytes of a character are read as that character, whatever follows.** -/
theorem pieces_encodeScalar (c : Char) (bs : List UInt8) :
    pieces .between (encodeScalar c.toNat ++ bs) = .char c :: pieces .between bs := by
  have hbounds := scalar_bounds c
  have hc : Char.ofNat c.toNat = c := Char.ofNat_toNat c
  revert hbounds hc
  generalize c.toNat = n
  rintro hbounds rfl
  rw [encodeScalar]
  by_cases hone : n < 0x80
  · rw [if_pos hone, List.singleton_append, pieces_first (by omega), start, if_pos hone]
    rfl
  rw [if_neg hone]
  by_cases htwo : n < 0x800
  · have hbits : n / 64 * 64 + n % 64 = n := by omega
    rw [if_pos htwo, List.cons_append, List.singleton_append, pieces_first (by omega),
      start_two _ (by omega) (by omega), List.nil_append, pieces_last (by omega) (by omega) (by omega), hbits]
  rw [if_neg htwo]
  by_cases hthree : n < 0x10000
  · have hbits : (n / 4096 * 64 + n / 64 % 64) * 64 + n % 64 = n := by omega
    rw [if_pos hthree, List.cons_append, List.cons_append, List.singleton_append, pieces_first (by omega),
      start_three _ (by omega), List.nil_append, pieces_more (by omega) (by split <;> omega) (by split <;> omega),
      pieces_last (by omega) (by omega) (by omega), hbits]
  · have hbits : ((n / 262144 * 64 + n / 4096 % 64) * 64 + n / 64 % 64) * 64 + n % 64 = n := by omega
    rw [if_neg hthree, List.cons_append, List.cons_append, List.cons_append, List.singleton_append,
      pieces_first (by omega), start_four _ (by omega), List.nil_append,
      pieces_more (by omega) (by split <;> omega) (by split <;> omega), pieces_more (by omega) (by omega) (by omega),
      pieces_last (by omega) (by omega) (by omega), hbits]

/-! ### Whole texts -/

theorem pieces_encode (cs : List Char) : pieces .between (encode cs) = cs.map Piece.char := by
  induction cs with
  | nil => rfl
  | cons c cs ih =>
    have hcons : encode (c :: cs) = encodeScalar c.toNat ++ encode cs := rfl
    rw [hcons, pieces_encodeScalar, ih, List.map_cons]

theorem readPieces_map_char (cs : List Char) : ∀ offset, readPieces offset (cs.map Piece.char) = .ok cs := by
  induction cs with
  | nil => exact fun _ => rfl
  | cons c cs ih =>
    intro offset
    rw [List.map_cons, readPieces, ih]

/-- **What is written is read back.** -/
theorem read_encode (cs : List Char) : read (encode cs) = .ok cs := by
  rw [read, pieces_encode, readPieces_map_char]

/-! ### Bytes and characters -/

theorem encode_append (cs ds : List Char) : encode (cs ++ ds) = encode cs ++ encode ds := List.flatMap_append

theorem encode_of_ascii {c : Char} (h : c.toNat < 0x80) : encode [c] = [c.toNat.toUInt8] := by
  rw [encode, List.flatMap_singleton, encodeScalar, if_pos h]

/-- The bytes of a code point are the point itself or from 128 on. -/
theorem le_of_mem_encodeScalar {n m : Nat} (hm : m ≤ n) (h128 : m ≤ 0x80) (hn : n < 0x110000) {b : UInt8}
    (hb : b ∈ encodeScalar n) : m ≤ b.toNat := by
  rw [encodeScalar] at hb
  split at hb
  · rw [List.mem_singleton.mp hb, toNat_toUInt8 (by omega)]
    exact hm
  split at hb
  · simp only [List.mem_cons, List.not_mem_nil, or_false] at hb
    rcases hb with rfl | rfl <;> rw [toNat_toUInt8 (by omega)] <;> omega
  split at hb <;> simp only [List.mem_cons, List.not_mem_nil, or_false] at hb
  · rcases hb with rfl | rfl | rfl <;> rw [toNat_toUInt8 (by omega)] <;> omega
  · rcases hb with rfl | rfl | rfl | rfl <;> rw [toNat_toUInt8 (by omega)] <;> omega

/-- A bound below all characters of a text is one below all its bytes. -/
theorem le_of_mem_encode {m : Nat} (h128 : m ≤ 0x80) {cs : List Char} (hcs : ∀ c ∈ cs, m ≤ c.toNat) {b : UInt8}
    (hb : b ∈ encode cs) : m ≤ b.toNat := by
  obtain ⟨c, hc, hmem⟩ := List.mem_flatMap.mp hb
  have hbounds := scalar_bounds c
  exact le_of_mem_encodeScalar (hcs c hc) h128 (by omega) hmem

end ComponentStream.Text.Utf8
