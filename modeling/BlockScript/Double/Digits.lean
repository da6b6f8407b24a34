-- Decimal digits of a double: the fewest digits that read back as the same
-- number, and a given number of significant digits. Both work on the exact
-- value of the number.
import BlockScript.Double

namespace BlockScript.Double

/-- Digits with the place of the decimal point, counted from their start: `digits = 25` with
`point = 1` is 2.5. -/
structure Decimal where
  digits : Nat
  point : Int
deriving DecidableEq

def digitCount (n : Nat) : Nat := (Nat.toDigits 10 n).length

/-- The decimal `digits * 10 ^ exponent`. -/
def Decimal.of (digits : Nat) (exponent : Int) : Decimal :=
  { digits, point := exponent + digitCount digits }

/-- A grid of decimals with the step `10 ^ p`, over which quarters of the unit `2 ^ e` are
measured: `step` and `quarter` are whole and stand in the ratio of `10 ^ p` to `2 ^ e / 4`. -/
structure Grid where
  step : Nat
  quarter : Nat

def Grid.of (p e : Int) : Grid :=
  { step := tenTo p.toNat * twoTo (2 - e).toNat
    quarter := tenTo (-p).toNat * twoTo (e - 2).toNat }

/-- Whether the grid point `c` reads back as `m * 2 ^ e`: it lies between the middles to the two
neighbours, which belong to the number if its mantissa is even. -/
def Grid.holds (g : Grid) (m : Nat) (e : Int) (c : Nat) : Bool :=
  let below := if m = twoTo (precision - 1) ∧ e > leastExponent then 1 else 2
  let low := (4 * m - below) * g.quarter
  let high := (4 * m + 2) * g.quarter
  let place := c * g.step
  if m % 2 = 0 then low ≤ place && place ≤ high else low < place && place < high

/-- The point of the grid that reads back as `m * 2 ^ e` and is nearest to it. -/
def Grid.pick? (g : Grid) (m : Nat) (e : Int) : Option Nat :=
  let value := 4 * m * g.quarter
  let low := value / g.step
  let nearer := roundDiv value g.step
  if low > 0 && g.holds m e low then
    if g.holds m e (low + 1) then some nearer else some low
  else if g.holds m e (low + 1) then some (low + 1)
  else none

/-- A power of ten above `m * 2 ^ e`. -/
def pointBound (m : Nat) (e : Int) : Int := ((m.log2 + e + 1) * 30103).fdiv 100000 + 2

/-- Tries the grids `10 ^ p`, `10 ^ (p - 1)` and so on for the first that has a point other than
zero. -/
def shortestFrom (m : Nat) (e : Int) : (tries : Nat) → (p : Int) → Decimal
  | 0, p => .of (max 1 (4 * m * (Grid.of p e).quarter / (Grid.of p e).step)) p
  | tries + 1, p =>
    match (Grid.of p e).pick? m e with
    | some c => .of c p
    | none => shortestFrom m e tries (p - 1)

/-- The fewest digits that read back as `m * 2 ^ e`, and of those the nearest. Seventeen digits
always do, so the tries cannot run out. -/
def shortest (m : Nat) (e : Int) : Decimal := shortestFrom m e 22 (pointBound m e)

/-- The place of the point of `m * 2 ^ e`, looked for downwards from `p`. -/
def pointFrom (m : Nat) (e : Int) : (tries : Nat) → (p : Int) → Int
  | 0, p => p
  | tries + 1, p =>
    let g := Grid.of (p - 1) e
    if g.step ≤ 4 * m * g.quarter then p else pointFrom m e tries (p - 1)

/-- The value rounded to `count` significant digits, a half to the even digit. -/
def significant (count : Nat) (m : Nat) (e : Int) : Decimal :=
  let p := pointFrom m e 6 (pointBound m e) - count
  let g := Grid.of p e
  .of (roundDiv (4 * m * g.quarter) g.step) p

end BlockScript.Double
