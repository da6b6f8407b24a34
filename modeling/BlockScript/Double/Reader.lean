-- Numbers as people type them, in settings and on the command line: blanks
-- around them, digits of any script, single underscores between digits.
import BlockScript.Text.Blank
import BlockScript.Text.Digit
import BlockScript.Double

namespace BlockScript

/-! ## One alphabet -/

/-- The ASCII blanks that may stand around a number. -/
def isNumberBlank (c : Char) : Bool := c = ' ' || (0x9 ≤ c.toNat && c.toNat ≤ 0xd)

/-- The glyph in ASCII: digits of other scripts become ASCII digits and their blanks become
spaces. Anything else outside ASCII becomes a question mark, which no number has. -/
def Glyph.toNumberChar : Glyph → Char
  | .char c =>
    if c.toNat < 127 then c
    else if (Glyph.char c).isBlank then ' '
    else match (Glyph.char c).digit? with
      | some d => Nat.digitChar d
      | none => '?'
  | .half _ => '?'

/-- The number's own characters, in ASCII and without the blanks around it. -/
def Text.numberChars (t : Text) : List Char := stripBoth isNumberBlank (t.map Glyph.toNumberChar)

/-- The characters without underscores, if each underscore stands between two digits. The first
argument tells whether a digit stands before. -/
def dropUnderscores : Bool → List Char → Option (List Char)
  | _, [] => some []
  | afterDigit, '_' :: rest =>
    match rest with
    | c :: _ => if afterDigit && c.isDigit then dropUnderscores false rest else none
    | [] => none
  | _, c :: rest => (dropUnderscores c.isDigit rest).map (c :: ·)

/-- The sign in front, and what follows it. -/
def splitSign : List Char → Bool × List Char
  | '-' :: rest => (true, rest)
  | '+' :: rest => (false, rest)
  | cs => (false, cs)

/-! ## Whole numbers -/

inductive IntReading where
  | number (n : Int)
  | notANumber
  | tooLong (digits : Nat)

/-- Reads a whole number. The digits in front decide first whether it is too long; only then does
anything behind them count. -/
def readInt (t : Text) : IntReading :=
  let (negative, cs) := splitSign t.numberChars
  let front := cs.takeWhile fun c => c.isDigit || c == '_'
  match dropUnderscores false front with
  | none => .notANumber
  | some ds =>
    if ds.length > Text.digitLimit then .tooLong ds.length
    else if ds.isEmpty || front.length < cs.length then .notANumber
    else .number (if negative then -(Text.natOfDigits ds : Int) else Text.natOfDigits ds)

/-! ## Doubles -/

/-- An exponent: its sign and at least one digit, and nothing after them. -/
def readExponent? (cs : List Char) : Option Int :=
  let (negative, ds) := splitSign cs
  if ds.isEmpty || !ds.all Char.isDigit then none
  else some (if negative then -(Text.natOfDigits ds : Int) else Text.natOfDigits ds)

/-- A decimal without its sign: digits with a point among them, and perhaps an exponent. -/
def readDecimal? (negative : Bool) (cs : List Char) : Option Double :=
  let whole := cs.takeWhile Char.isDigit
  let rest := cs.dropWhile Char.isDigit
  let (part, rest) := match rest with
    | '.' :: more => (more.takeWhile Char.isDigit, more.dropWhile Char.isDigit)
    | _ => ([], rest)
  if whole.isEmpty && part.isEmpty then none
  else
    let exponent := match rest with
      | [] => some 0
      | c :: more => if c = 'e' ∨ c = 'E' then readExponent? more else none
    exponent.map fun x =>
      Double.ofDecimal negative (Text.natOfDigits (whole ++ part)) (x - part.length)

/-- Reads a double: a decimal, or one of the words for what is not finite. -/
def readDouble? (t : Text) : Option Double :=
  match dropUnderscores false t.numberChars with
  | none => none
  | some cs =>
    let (negative, body) := splitSign cs
    let word := String.ofList (body.map Char.toLower)
    if word = "inf" ∨ word = "infinity" then some (.infinity negative)
    else if word = "nan" then some .nan
    else readDecimal? negative body

end BlockScript
