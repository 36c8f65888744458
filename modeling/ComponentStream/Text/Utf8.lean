/-!
# UTF-8

Text leaves and enters this library as bytes.  The decoder is a machine that reads one byte at a time and
never looks back: its state is either *between* characters or *inside* one, and each byte yields at most two
pieces — the truncated character it broke off, and the character (or stray byte) it completes itself.

* `encode` — the bytes of a text, one to four for each character;
* `encodeScalar`, `encodePoints` — the same for bare code points, so that surrogates get three bytes which no reader
  accepts;
* `Piece`, `pieces` — a byte string cut into characters and *broken* runs, a broken run being the longest
  beginning of a character that the next byte does not continue;
* `read` — the text, or the offset of the first broken run;
* `readLossy` — the text with every broken run replaced by U+FFFD.
-/

namespace ComponentStream.Text.Utf8

/-! ### Writing -/

/-- The bytes of a code point: one below U+0080, two below U+0800, three below U+10000, else four. -/
def encodeScalar (n : Nat) : List UInt8 :=
  if n < 0x80 then [n.toUInt8]
  else if n < 0x800 then [(0xC0 + n / 64).toUInt8, (0x80 + n % 64).toUInt8]
  else if n < 0x10000 then
    [(0xE0 + n / 4096).toUInt8, (0x80 + n / 64 % 64).toUInt8, (0x80 + n % 64).toUInt8]
  else
    [(0xF0 + n / 262144).toUInt8, (0x80 + n / 4096 % 64).toUInt8, (0x80 + n / 64 % 64).toUInt8,
      (0x80 + n % 64).toUInt8]

def encodePoints (ns : List Nat) : List UInt8 := ns.flatMap encodeScalar

def encode (cs : List Char) : List UInt8 :=
  cs.flatMap fun c => encodeScalar c.toNat

/-! ### Reading -/

/-- A part of a byte string: one character, or a run of `count` bytes that begins a character and does not
finish it. -/
inductive Piece where
  | char (c : Char)
  | broken (count : Nat)
  deriving DecidableEq, Repr

def Piece.size : Piece → Nat
  | .char c => (encodeScalar c.toNat).length
  | .broken count => count

/-- Between characters, or inside one of which `taken` bytes are read and `owed + 1` are missing, the next of
them between `low` and `high`; `bits` are the bits read so far. -/
inductive State where
  | between
  | inside (taken owed bits low high : Nat)
  deriving DecidableEq, Repr

/-- The first byte of a character.  The bounds on the second byte rule out overlong forms, surrogates and
everything above U+10FFFF. -/
def start (n : Nat) : List Piece × State :=
  if n < 0x80 then ([.char (Char.ofNat n)], .between)
  else if 0xC2 ≤ n ∧ n < 0xE0 then ([], .inside 1 0 (n - 0xC0) 0x80 0xBF)
  else if n = 0xE0 then ([], .inside 1 1 0 0xA0 0xBF)
  else if n = 0xED then ([], .inside 1 1 0xD 0x80 0x9F)
  else if 0xE1 ≤ n ∧ n < 0xF0 then ([], .inside 1 1 (n - 0xE0) 0x80 0xBF)
  else if n = 0xF0 then ([], .inside 1 2 0 0x90 0xBF)
  else if 0xF1 ≤ n ∧ n < 0xF4 then ([], .inside 1 2 (n - 0xF0) 0x80 0xBF)
  else if n = 0xF4 then ([], .inside 1 2 4 0x80 0x8F)
  else ([.broken 1], .between)

/-- One byte: a byte that does not continue the character at hand breaks it off and is read afresh. -/
def step : State → UInt8 → List Piece × State
  | .between, b => start b.toNat
  | .inside taken owed bits low high, b =>
    if low ≤ b.toNat ∧ b.toNat ≤ high then
      match owed with
      | 0 => ([.char (Char.ofNat (bits * 64 + b.toNat % 64))], .between)
      | owed + 1 => ([], .inside (taken + 1) owed (bits * 64 + b.toNat % 64) 0x80 0xBF)
    else (.broken taken :: (start b.toNat).1, (start b.toNat).2)

/-- What is left of a character when the bytes end. -/
def finish : State → List Piece
  | .between => []
  | .inside taken _ _ _ _ => [.broken taken]

/-- The pieces of a byte string, read from a given state. -/
def pieces : State → List UInt8 → List Piece
  | st, [] => finish st
  | st, b :: bs => (step st b).1 ++ pieces (step st b).2 bs

/-- The characters of a list of pieces, or the offset of the first broken run, counted from `offset`. -/
def readPieces (offset : Nat) : List Piece → Except Nat (List Char)
  | [] => .ok []
  | .broken _ :: _ => .error offset
  | .char c :: ps =>
    match readPieces (offset + (Piece.char c).size) ps with
    | .ok cs => .ok (c :: cs)
    | .error n => .error n

/-- The text of a byte string, or the offset at which the first invalid sequence starts. -/
def read (bs : List UInt8) : Except Nat (List Char) :=
  readPieces 0 (pieces .between bs)

/-- The text of a byte string with U+FFFD in the place of every broken run. -/
def readLossy (bs : List UInt8) : List Char :=
  (pieces .between bs).map fun
    | .char c => c
    | .broken _ => '\uFFFD'

end ComponentStream.Text.Utf8
