-- Double precision numbers, held as their sign, mantissa and exponent of two.
-- All arithmetic on them is exact arithmetic of whole numbers, so a number is
-- read, compared and written by rules that can be stated for every input.
namespace BlockScript

/-- A number of the format binary64. The finite number is `mantissa * 2 ^ exponent`, with the sign
in front. -/
inductive Double where
  | nan
  | infinity (negative : Bool)
  | finite (negative : Bool) (mantissa : Nat) (exponent : Int)
deriving DecidableEq, Inhabited

namespace Double

/-! ## The format -/

/-- Mantissas are below two to this power. -/
def precision : Nat := 53

def leastExponent : Int := -1074

def greatestExponent : Int := 971

def zero (negative : Bool) : Double := .finite negative 0 leastExponent

/-! ## Rounding -/

def twoTo (n : Nat) : Nat := Nat.pow 2 n

def tenTo (n : Nat) : Nat := Nat.pow 10 n

/-- The whole number nearest to `num / den`; of two that are as near, the even one. -/
def roundDiv (num den : Nat) : Nat :=
  let low := num / den
  let twice := 2 * (num % den)
  if twice < den ∨ twice = den ∧ low % 2 = 0 then low else low + 1

/-- The fraction `num / (den * 2 ^ e)` as a numerator and a denominator. -/
def scaled (num den : Nat) (e : Int) : Nat × Nat :=
  (num * twoTo (-e).toNat, den * twoTo e.toNat)

/-- The number nearest to `num / den`, or an infinity past the greatest one. -/
def nearest (negative : Bool) (num den : Nat) : Double :=
  if num = 0 ∨ den = 0 then zero negative
  else
    let guess : Int := (num.log2 : Int) - (den.log2 : Int) - precision
    let (n, d) := scaled num den guess
    let e := max leastExponent (if n / d ≥ twoTo precision then guess + 1 else guess)
    let (n, d) := scaled num den e
    let m := roundDiv n d
    let (m, e) := if m = twoTo precision then (twoTo (precision - 1), e + 1) else (m, e)
    if e > greatestExponent then .infinity negative
    else if m = 0 then zero negative
    else .finite negative m e

/-- The number nearest to `digits * 10 ^ exponent`. Powers of ten that are out of reach are not
computed. -/
def ofDecimal (negative : Bool) (digits : Nat) (exponent : Int) : Double :=
  let point := exponent + (Nat.toDigits 10 digits).length
  if digits = 0 ∨ point < -330 then zero negative
  else if point > 330 then .infinity negative
  else nearest negative (digits * tenTo exponent.toNat) (tenTo (-exponent).toNat)

/-- A whole number as a double, if it is in range. -/
def ofInt? (n : Int) : Option Double :=
  match nearest (n < 0) n.natAbs 1 with
  | .infinity _ => none
  | d => some d

/-! ## Comparing -/

def isZero : Double → Bool
  | .finite _ m _ => m = 0
  | _ => false

def isPositive : Double → Bool
  | .nan => false
  | .infinity negative => !negative
  | .finite negative m _ => !negative && m ≠ 0

/-- The finite number as a fraction. -/
def fraction (negative : Bool) (m : Nat) (e : Int) : Int × Nat :=
  let n : Int := .ofNat (m * twoTo e.toNat)
  (if negative then -n else n, twoTo (-e).toNat)

/-- Whether the number is less than `n`. -/
def ltInt : Double → Int → Bool
  | .nan, _ => false
  | .infinity negative, _ => negative
  | .finite s m e, n => let (a, b) := fraction s m e; a < n * b

def eqInt : Double → Int → Bool
  | .finite s m e, n => let (a, b) := fraction s m e; a = n * b
  | _, _ => false

/-- Equality of values: the two zeros are equal and nothing equals what is not a number. -/
def same : Double → Double → Bool
  | .infinity a, .infinity b => a = b
  | .finite s m e, .finite t n f =>
    let (a, b) := fraction s m e
    let (c, d) := fraction t n f
    a * d = c * b
  | _, _ => false

end Double

end BlockScript
