import ComponentStream.Number.Binary

/-!
# Shortest decimal digits

A double is written with the fewest decimal digits that read back as the same double, and among those with
the digits nearest to its value.  For a positive value `m · 2 ^ e` the reals that read back form an interval
around it, its ends included exactly when `m` is even.  For one, two, … seventeen digits the two neighbours of
the value on that decimal grid are tested in exact whole-number arithmetic; the first grid with a hit wins.

* `Interval` — the value and the ends of its interval, as numerators over one common denominator;
* `digitsOn` — the better neighbour on the grid of multiples of a power of ten, if one lies in the interval;
* `Decimal`, `shortest` — a digit string and its exponent: the value is `0.d₁d₂… · 10 ^ point`.
-/

namespace ComponentStream.Number

/-- A value and the reals that round to it, all over the denominator `scale`. -/
structure Interval where
  value : Nat
  low : Nat
  high : Nat
  scale : Nat
  /-- Whether the ends belong to the interval. -/
  closed : Bool

/-- The interval of `m · 2 ^ e` for a positive `m`.  Half a step lies on either side, except that the step
below a power of two is half as wide. -/
def Interval.of (m : Nat) (e : Int) : Interval :=
  let narrow := m = Nat.pow 2 52 ∧ -1074 < e
  let up := Nat.pow 2 (e - 2).toNat
  { value := 4 * m * up
    low := (4 * m - if narrow then 1 else 2) * up
    high := (4 * m + 2) * up
    scale := Nat.pow 2 (2 - e).toNat
    closed := m % 2 = 0 }

def Interval.holds (i : Interval) (n d : Nat) : Bool :=
  if i.closed then i.low * d ≤ n * i.scale && n * i.scale ≤ i.high * d
  else i.low * d < n * i.scale && n * i.scale < i.high * d

/-- The number of decimal digits of a whole number, none for zero. -/
def digitCount (n : Nat) : Nat := if n = 0 then 0 else (Nat.toDigits 10 n).length

/-- The exponent `p` with `10 ^ (p - 1) ≤ value < 10 ^ p`. -/
def Interval.point (i : Interval) : Int :=
  if i.scale ≤ i.value then digitCount (i.value / i.scale)
  else 1 - (digitCount ((i.scale + i.value - 1) / i.value - 1) : Int)

/-- The neighbour of the value among the multiples of `10 ^ k` that lies in the interval; of two, the nearer,
and the even one on a tie. -/
def digitsOn (i : Interval) (k : Int) : Option Nat :=
  let ten := Nat.pow 10 k.toNat
  let unit := Nat.pow 10 (-k).toNat
  -- the value is `n / d` grid steps
  let n := i.value * unit
  let d := i.scale * ten
  let below := n / d
  let hit := fun c => i.holds (c * ten) unit
  match hit below, hit (below + 1) with
  | true, true => some (roundDiv n d)
  | true, false => some below
  | false, true => some (below + 1)
  | false, false => none

/-- The first grid with a hit among the next `fuel` ones, starting with `count` digits. -/
def shortestFrom (i : Interval) (point : Int) : Nat → Nat → Nat × Int
  | 0, count =>
    (i.value * Nat.pow 10 (count - point).toNat / (i.scale * Nat.pow 10 (point - count).toNat), point - count)
  | fuel + 1, count =>
    match digitsOn i (point - count) with
    | some c => (c, point - count)
    | none => shortestFrom i point fuel (count + 1)

/-- A positive decimal number `0.d₁d₂… · 10 ^ point`; the digits neither begin nor end with a zero, except
that zero itself is the single digit `0` with point one. -/
structure Decimal where
  digits : List Char
  point : Int
  deriving DecidableEq, Repr

def dropTrailingZeros (ds : List Char) : List Char :=
  (ds.reverse.dropWhile (· == '0')).reverse

/-- The shortest digits of `m · 2 ^ e`. -/
def shortest (m : Nat) (e : Int) : Decimal :=
  if m = 0 then ⟨['0'], 1⟩
  else
    let i := Interval.of m e
    let (c, k) := shortestFrom i i.point 17 1
    let ds := Nat.toDigits 10 c
    ⟨dropTrailingZeros ds, k + ds.length⟩

end ComponentStream.Number
