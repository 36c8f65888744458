import ComponentStream.Json.Value
import ComponentStream.Number.Literal
import ComponentStream.Text.Utf8

/-!
# Reading JSON

A strict reader: one value, surrounded by nothing but the four JSON blanks.  Nothing is repaired — trailing
commas, comments, lone surrogates, control characters inside strings, leading zeros, whole numbers that are
too long and, unless the reader is told otherwise, numbers beyond the greatest double are all refused.

A reader that calls itself for what is inside an array or an object can do so only to a certain depth.  When a text
opens one more level it is given up on there and then, whatever follows.

* `stringBody` — the characters up to the closing quote;
* `number` — the longest number at the front, whole unless it has a fraction or an exponent;
* `Range` — whether infinities and the undefined number are read;
* `Refusal` — why a text is not read;
* `value`, `elements`, `members` — a value at the front of a text, and the rest of the text;
* `readWithin`, `decodeWithin` — the value of a whole text or byte string, within so many levels;
* `read` — the value of a text, however many levels there are; `readIn` reads in a given range.

Every reader takes the text as a list of characters and gives back what it left.  The recursion through
nested values carries a budget of steps; each character is worth two, so the budget of a text never runs out.
-/

namespace ComponentStream.Json

/-! ### Blanks and strings -/

/-- The four blanks that may stand between tokens. -/
def isBlank (c : Char) : Bool := c = ' ' || c = '\t' || c = '\n' || c = '\r'

def skipBlanks (s : List Char) : List Char := s.dropWhile isBlank

def hexValue? (c : Char) : Option Nat :=
  if '0' ≤ c ∧ c ≤ '9' then some (c.toNat - 48)
  else if 'a' ≤ c ∧ c ≤ 'f' then some (c.toNat - 87)
  else if 'A' ≤ c ∧ c ≤ 'F' then some (c.toNat - 55)
  else none

def hex4? (a b c d : Char) : Option Nat :=
  match hexValue? a, hexValue? b, hexValue? c, hexValue? d with
  | some a, some b, some c, some d => some (((a * 16 + b) * 16 + c) * 16 + d)
  | _, _, _, _ => none

/-- The character that a one-letter escape stands for. -/
def escaped? (c : Char) : Option Char :=
  if c = '"' ∨ c = '\\' ∨ c = '/' then some c
  else if c = 'b' then some '\x08'
  else if c = 'f' then some '\x0c'
  else if c = 'n' then some '\n'
  else if c = 'r' then some '\r'
  else if c = 't' then some '\t'
  else none

def consChar (c : Char) : Option (List Char × List Char) → Option (List Char × List Char)
  | some (cs, rest) => some (c :: cs, rest)
  | none => none

/-- The characters of a string up to its closing quote.  A high surrogate must be followed by an escaped low
one, and a low surrogate never stands alone. -/
def stringBody : List Char → Option (List Char × List Char)
  | [] => none
  | c :: rest =>
    if c = '"' then some ([], rest)
    else if c = '\\' then
      match rest with
      | [] => none
      | e :: rest =>
        if e = 'u' then
          match rest with
          | a :: b :: c :: d :: rest =>
            match hex4? a b c d with
            | none => none
            | some n =>
              if 0xD800 ≤ n ∧ n < 0xDC00 then
                match rest with
                | '\\' :: 'u' :: a :: b :: c :: d :: rest =>
                  match hex4? a b c d with
                  | none => none
                  | some m =>
                    if 0xDC00 ≤ m ∧ m < 0xE000 then
                      consChar (Char.ofNat (0x10000 + (n - 0xD800) * 0x400 + (m - 0xDC00))) (stringBody rest)
                    else none
                | _ => none
              else if 0xDC00 ≤ n ∧ n < 0xE000 then none
              else consChar (Char.ofNat n) (stringBody rest)
          | _ => none
        else
          match escaped? e with
          | some x => consChar x (stringBody rest)
          | none => none
    else if c.toNat < 0x20 then none
    else consChar c (stringBody rest)

/-! ### Numbers -/

def digits (s : List Char) : List Char := s.takeWhile Char.isDigit

def afterDigits (s : List Char) : List Char := s.dropWhile Char.isDigit

/-- The whole part of a number: a single zero, or digits that do not begin with one. -/
def wholePart : List Char → Option (List Char × List Char)
  | '0' :: rest => some (['0'], rest)
  | s => if digits s = [] then none else some (digits s, afterDigits s)

/-- The fraction of a number: absent, or a point and at least one digit. -/
def fractionPart : List Char → Option (List Char × List Char)
  | '.' :: rest => if digits rest = [] then none else some (digits rest, afterDigits rest)
  | s => some ([], s)

def exponentDigits (negative : Bool) (s : List Char) : Option (Option Int × List Char) :=
  if digits s = [] then none
  else some (some (Number.signed negative (Number.natOfDigits (digits s))), afterDigits s)

/-- The exponent of a number: absent, or a letter, an optional sign and at least one digit. -/
def exponentPart : List Char → Option (Option Int × List Char)
  | [] => some (none, [])
  | c :: rest =>
    if c = 'e' ∨ c = 'E' then
      match rest with
      | '+' :: rest => exponentDigits false rest
      | '-' :: rest => exponentDigits true rest
      | rest => exponentDigits false rest
    else some (none, c :: rest)

/-- Which doubles are read. -/
inductive Range where
  /-- The finite ones. -/
  | finite
  /-- Infinities and the undefined number as well, which have names; too great a number is an infinity. -/
  | extended
  deriving DecidableEq, Repr

def Range.admits : Range → Float → Bool
  | .finite, x => Number.isFinite x
  | .extended, _ => true

/-- The greatest number of characters that a whole number may have, its sign included. -/
def maxLength : Nat := 4300

/-- A whole number from its sign and digits, unless it is too long. -/
def wholeNumber (negative : Bool) (whole : List Char) : Option Value :=
  if whole.length + (if negative then 1 else 0) ≤ maxLength then
    some (.int (Number.signed negative (Number.natOfDigits whole)))
  else none

/-- A number from its parts: whole without fraction and exponent, else a double. -/
def numberOf (range : Range) (negative : Bool) (whole fraction : List Char) (exponent : Option Int) :
    Option Value :=
  if fraction = [] ∧ exponent = none then wholeNumber negative whole
  else
    let x := Number.ofDecimal negative (Number.natOfDigits (whole ++ fraction))
      (exponent.getD 0 - fraction.length)
    if range.admits x then some (.float x) else none

def unsignedNumber (range : Range) (negative : Bool) (s : List Char) : Option (Value × List Char) :=
  match wholePart s with
  | none => none
  | some (whole, s) =>
    match fractionPart s with
    | none => none
    | some (fraction, s) =>
      match exponentPart s with
      | none => none
      | some (exponent, s) =>
        match numberOf range negative whole fraction exponent with
        | none => none
        | some v => some (v, s)

/-- The longest number in digits at the front of a text. -/
def number (range : Range) : List Char → Option (Value × List Char)
  | '-' :: rest => unsignedNumber range true rest
  | s => unsignedNumber range false s

/-- A double that is written by its name at the front of a text. -/
def namedNumber : List Char → Option (Value × List Char)
  | 'N' :: 'a' :: 'N' :: rest => some (.float Number.undefined, rest)
  | 'I' :: 'n' :: 'f' :: 'i' :: 'n' :: 'i' :: 't' :: 'y' :: rest => some (.float (Number.infinity false), rest)
  | '-' :: 'I' :: 'n' :: 'f' :: 'i' :: 'n' :: 'i' :: 't' :: 'y' :: rest =>
    some (.float (Number.infinity true), rest)
  | _ => none

def anyNumber : Range → List Char → Option (Value × List Char)
  | .finite, s => number .finite s
  | .extended, s =>
    match namedNumber s with
    | some r => some r
    | none => number .extended s

/-! ### Values -/

/-- Why a text is not read. -/
inductive Refusal where
  /-- It is not one value and nothing else. -/
  | malformed
  /-- It opens too many arrays and objects, one inside the other. -/
  | tooDeep
  deriving DecidableEq, Repr

/-- What was read, or else the text is malformed. -/
def orMalformed {α : Type} : Option α → Except Refusal α
  | some a => .ok a
  | none => .error .malformed

mutual

/-- A value at the front of a text, within a budget of steps and a number of levels that may be opened. -/
def value (range : Range) : Nat → Nat → List Char → Except Refusal (Value × List Char)
  | 0, _, _ => .error .malformed
  | n + 1, levels, s =>
    match s with
    | 'n' :: 'u' :: 'l' :: 'l' :: rest => .ok (.null, rest)
    | 't' :: 'r' :: 'u' :: 'e' :: rest => .ok (.bool true, rest)
    | 'f' :: 'a' :: 'l' :: 's' :: 'e' :: rest => .ok (.bool false, rest)
    | '"' :: rest =>
      match stringBody rest with
      | some (cs, rest) => .ok (.str (String.ofList cs), rest)
      | none => .error .malformed
    | '[' :: rest =>
      match levels with
      | 0 => .error .tooDeep
      | levels + 1 =>
        match skipBlanks rest with
        | ']' :: rest => .ok (.arr [], rest)
        | rest =>
          match elements range n levels rest with
          | .ok (vs, rest) => .ok (.arr vs, rest)
          | .error refusal => .error refusal
    | '{' :: rest =>
      match levels with
      | 0 => .error .tooDeep
      | levels + 1 =>
        match skipBlanks rest with
        | '}' :: rest => .ok (.obj [], rest)
        | rest =>
          match members range n levels rest with
          | .ok (fields, rest) => .ok (.obj (Assoc.ofList fields), rest)
          | .error refusal => .error refusal
    | s => orMalformed (anyNumber range s)

/-- The elements of an array that is not empty, up to its closing bracket. -/
def elements (range : Range) : Nat → Nat → List Char → Except Refusal (List Value × List Char)
  | 0, _, _ => .error .malformed
  | n + 1, levels, s =>
    match value range n levels s with
    | .error refusal => .error refusal
    | .ok (v, rest) =>
      match skipBlanks rest with
      | ']' :: rest => .ok ([v], rest)
      | ',' :: rest =>
        match elements range n levels (skipBlanks rest) with
        | .ok (vs, rest) => .ok (v :: vs, rest)
        | .error refusal => .error refusal
      | _ => .error .malformed

/-- The members of an object that is not empty, up to its closing brace, repeated names included. -/
def members (range : Range) : Nat → Nat → List Char → Except Refusal (List (String × Value) × List Char)
  | 0, _, _ => .error .malformed
  | n + 1, levels, s =>
    match s with
    | '"' :: rest =>
      match stringBody rest with
      | none => .error .malformed
      | some (name, rest) =>
        match skipBlanks rest with
        | ':' :: rest =>
          match value range n levels (skipBlanks rest) with
          | .error refusal => .error refusal
          | .ok (v, rest) =>
            match skipBlanks rest with
            | '}' :: rest => .ok ([(String.ofList name, v)], rest)
            | ',' :: rest =>
              match members range n levels (skipBlanks rest) with
              | .ok (fields, rest) => .ok ((String.ofList name, v) :: fields, rest)
              | .error refusal => .error refusal
            | _ => .error .malformed
        | _ => .error .malformed
    | _ => .error .malformed

end

/-! ### Whole texts -/

/-- The steps that a text is given. -/
def budget (s : List Char) : Nat := 2 * s.length + 2

/-- The value of a text that holds exactly one, or why it is not read. -/
def readTo (range : Range) (levels : Nat) (s : List Char) : Except Refusal Value :=
  match value range (budget s) levels (skipBlanks s) with
  | .ok (v, rest) => if skipBlanks rest = [] then .ok v else .error .malformed
  | .error refusal => .error refusal

/-- The value of a text with finite numbers, within so many levels. -/
def readWithin (levels : Nat) (s : List Char) : Except Refusal Value := readTo .finite levels s

/-- The value of a byte string, which has to be UTF-8, within so many levels. -/
def decodeWithin (levels : Nat) (bytes : List UInt8) : Except Refusal Value :=
  match Text.Utf8.read bytes with
  | .ok s => readWithin levels s
  | .error _ => .error .malformed

/-- The value of a text, however many levels it has: it cannot have more than it has steps. -/
def readIn (range : Range) (s : List Char) : Option Value := (readTo range (budget s) s).toOption

/-- The value of a text with finite numbers. -/
def read (s : List Char) : Option Value := readIn .finite s

end ComponentStream.Json
