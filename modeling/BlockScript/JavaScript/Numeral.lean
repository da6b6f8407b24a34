-- Numerals of strict JavaScript. A text that spells a number, with a sign in
-- front if it has one, is read as a numeral; the numeral is written without
-- a plus and without zeros before another digit, which strict code refuses.
import BlockScript.Text

namespace BlockScript

/-- A number without its sign. The mark of a radix is the letter after the zero; the fraction and
the exponent keep their spelling, without the point and the letter. -/
inductive Magnitude where
  | radix (mark : Char) (digits : List Char)
  | decimal (whole : List Char) (fraction : Option (List Char)) (exponent : Option (List Char))
deriving DecidableEq

structure Numeral where
  negative : Bool
  magnitude : Magnitude
deriving DecidableEq

/-! ## Reading -/

/-- The characters of a text that has no lone half. -/
def Text.chars? : Text → Option (List Char)
  | [] => some []
  | .char c :: rest => (chars? rest).map (c :: ·)
  | .half _ :: _ => none

/-- The digits that a radix mark allows. -/
def radixDigit? (mark : Char) : Option (Char → Bool) :=
  if mark = 'x' ∨ mark = 'X' then
    some fun c => c.isDigit || ('a' ≤ c && c ≤ 'f') || ('A' ≤ c && c ≤ 'F')
  else if mark = 'o' ∨ mark = 'O' then some fun c => '0' ≤ c && c ≤ '7'
  else if mark = 'b' ∨ mark = 'B' then some fun c => c = '0' || c = '1'
  else none

/-- A number with a radix mark: a zero, the mark, and digits of the radix only. -/
def Magnitude.readRadix? : List Char → Option Magnitude
  | '0' :: mark :: digits =>
    match radixDigit? mark with
    | some isDigit =>
      if !digits.isEmpty && digits.all isDigit then some (.radix mark digits) else none
    | none => none
  | _ => none

/-- The digits without leading zeros, but with one digit at least. -/
def trimLeadingZeros (ds : List Char) : List Char :=
  match ds.dropWhile (· = '0') with
  | [] => ['0']
  | rest => rest

/-- An exponent as it is spelt after its letter: a sign perhaps, then digits. -/
def isExponent (cs : List Char) : Bool :=
  let ds := match cs with
    | '+' :: rest | '-' :: rest => rest
    | _ => cs
  !ds.isEmpty && ds.all Char.isDigit

/-- An exponent with its letter, or nothing at all. -/
def readNumeralExponent? : List Char → Option (Option (List Char))
  | [] => some none
  | c :: rest => if (c = 'e' ∨ c = 'E') ∧ isExponent rest then some (some (c :: rest)) else none

/-- A decimal with a digit before or after its point. -/
def Magnitude.readDecimal? (cs : List Char) : Option Magnitude :=
  let whole := cs.takeWhile Char.isDigit
  let rest := cs.dropWhile Char.isDigit
  let (fraction, rest) := match rest with
    | '.' :: more => (some (more.takeWhile Char.isDigit), more.dropWhile Char.isDigit)
    | _ => (none, rest)
  match readNumeralExponent? rest with
  | none => none
  | some exponent =>
    if whole.isEmpty then
      if (fraction.getD []).isEmpty then none else some (.decimal [] fraction exponent)
    else some (.decimal (trimLeadingZeros whole) fraction exponent)

/-- The numeral that a text spells. One newline at the end is overlooked. -/
def Numeral.read? (t : Text) : Option Numeral := do
  let cs ← t.dropFinalNewline.chars?
  let (negative, body) := match cs with
    | '-' :: rest => (true, rest)
    | '+' :: rest => (false, rest)
    | _ => (false, cs)
  let magnitude ← (Magnitude.readRadix? body).or (Magnitude.readDecimal? body)
  return { negative, magnitude }

/-! ## Writing -/

def Magnitude.chars : Magnitude → List Char
  | .radix mark digits => '0' :: mark :: digits
  | .decimal whole fraction exponent =>
    whole ++ (match fraction with
      | some ds => '.' :: ds
      | none => []) ++ exponent.getD []

def Numeral.text (n : Numeral) : Text :=
  Text.ofChars ((if n.negative then ['-'] else []) ++ n.magnitude.chars)

end BlockScript
