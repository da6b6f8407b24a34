-- Lexemes of JavaScript, as far as expressions use them. A text is cut into
-- lexemes from its front, each as long as it can be, so `!=` is one mark and
-- a number ends only where no name can start.
import BlockScript.Json.Reader
import BlockScript.JavaScript.Expr

namespace BlockScript

/-! ## Lexemes -/

/-- A mark. A mark that the grammar of expressions has no use for is `other`. -/
inductive Mark where
  | openParen
  | closeParen
  | openBracket
  | closeBracket
  | openBrace
  | closeBrace
  | dot
  | comma
  | colon
  | not
  | operator (op : Operator)
  | other
deriving DecidableEq

/-- A lexeme. A string has the 16-bit units that it stands for, a number its magnitude. -/
inductive Lexeme where
  | number (m : Magnitude)
  | string (units : List Nat)
  | word (w : Text)
  | mark (m : Mark)
deriving DecidableEq

/-- The marks of the language by their spelling, a longer one before each one that starts it. What
starts a comment counts as a mark here, one that no expression can hold. -/
def marks : List (String × Mark) :=
  [(">>>=", .other), ("<!--", .other), ("...", .other), ("===", .other), ("!==", .other),
   ("**=", .other), ("<<=", .other), (">>=", .other), (">>>", .other), ("&&=", .other),
   ("||=", .other), ("??=", .other), ("-->", .other), ("=>", .other), ("++", .other),
   ("--", .other), ("+=", .other), ("-=", .other), ("*=", .other), ("/=", .other), ("%=", .other),
   ("&=", .other), ("|=", .other), ("^=", .other), ("<<", .other), (">>", .other), ("**", .other),
   ("??", .other), ("?.", .other), ("//", .other), ("/*", .other),
   ("==", .operator .equal), ("!=", .operator .notEqual), ("<=", .operator .lessOrEqual),
   (">=", .operator .greaterOrEqual), ("&&", .operator .and), ("||", .operator .or),
   ("(", .openParen), (")", .closeParen), ("[", .openBracket), ("]", .closeBracket),
   ("\x7b", .openBrace), ("\x7d", .closeBrace), (".", .dot), (",", .comma), (":", .colon),
   ("!", .not), ("+", .operator .plus), ("-", .operator .minus), ("*", .operator .times),
   ("/", .operator .divide), ("%", .operator .remainder), ("<", .operator .less),
   (">", .operator .greater), ("=", .other), ("&", .other), ("|", .other), ("^", .other),
   ("~", .other), ("?", .other), (";", .other)]

/-! ## Ends of lines -/

/-- An end of a line that no string may hold. -/
def Glyph.breaks (g : Glyph) : Bool := g = .char '\n' || g = .char '\r'

/-- An end of a line of code, and of a comment on it. The two separators may stand in a string. -/
def Glyph.endsLine (g : Glyph) : Bool :=
  g.breaks || g = .char '\u2028' || g = .char '\u2029'

/-! ## Reading one lexeme -/

/-- The characters at the front that pass `p`, and what follows them. -/
def Text.run (p : Char → Bool) : Text → List Char × Text
  | .char c :: rest => if p c then (c :: (run p rest).1, (run p rest).2) else ([], .char c :: rest)
  | t => ([], t)

def isNameStart (c : Char) : Bool := c.isAlpha || c == '_' || c == '$'

def isNamePart (c : Char) : Bool := c.isAlphanum || c == '_' || c == '$'

/-- Whether the text starts with a character that passes `p`. -/
def Text.opens (p : Char → Bool) : Text → Bool
  | .char c :: _ => p c
  | _ => false

/-- The 16-bit units of a glyph. -/
def Glyph.units (g : Glyph) : List Nat :=
  if g.code < 0x10000 then [g.code]
  else [0xD800 + (g.code - 0x10000) / 0x400, 0xDC00 + (g.code - 0x10000) % 0x400]

def Text.units (t : Text) : List Nat := t.flatMap Glyph.units

/-- The units of a string up to its closing quote, and what follows that. -/
def string? : Text → Option (List Nat × Text)
  | [] => none
  | g :: rest =>
    if g = .char '"' then some ([], rest)
    else if g.breaks then none
    else if g = .char '\\' then
      match rest with
      | .char 'u' :: a :: b :: c :: d :: more => do
        let n ← hexQuad? a b c d
        let (units, left) ← string? more
        return (n :: units, left)
      | h :: more => do
        let made ← simpleEscape? h
        let (units, left) ← string? more
        return (made.units ++ units, left)
      | [] => none
    else do
      let (units, left) ← string? rest
      return (g.units ++ units, left)

/-- A number with the mark of a radix. -/
def radix? : Text → Option (Magnitude × Text)
  | .char '0' :: .char mark :: rest => do
    let isDigit ← radixDigit? mark
    if (Text.run isDigit rest).1.isEmpty then none
    else return (.radix mark (Text.run isDigit rest).1, (Text.run isDigit rest).2)
  | _ => none

/-- The sign of an exponent, if it has one. -/
def exponentSign : Text → List Char × Text
  | .char '+' :: rest => (['+'], rest)
  | .char '-' :: rest => (['-'], rest)
  | t => ([], t)

/-- The exponent of a decimal, if it has one. Its letter has to be followed by digits. -/
def exponent? (t : Text) : Option (Option (List Char) × Text) :=
  match t with
  | .char c :: rest =>
    if c = 'e' ∨ c = 'E' then
      let (sign, rest) := exponentSign rest
      if (Text.run Char.isDigit rest).1.isEmpty then none
      else
        some (some (c :: sign ++ (Text.run Char.isDigit rest).1), (Text.run Char.isDigit rest).2)
    else some (none, t)
  | _ => some (none, t)

/-- The fraction of a decimal, if it has one. -/
def fraction : Text → Option (List Char) × Text
  | .char '.' :: rest => (some (Text.run Char.isDigit rest).1, (Text.run Char.isDigit rest).2)
  | t => (none, t)

/-- Digits that strict code takes as the whole part of a decimal with the given fraction. A zero
stands before no other digit, and a part is missing only if the other one is not. -/
def isStrictWhole (whole : List Char) (fraction : Option (List Char)) : Bool :=
  match whole with
  | [] => !(fraction.getD []).isEmpty
  | c :: rest => c ≠ '0' || rest.isEmpty

def decimal? (t : Text) : Option (Magnitude × Text) := do
  let (whole, rest) := Text.run Char.isDigit t
  let (part, rest) := fraction rest
  let (exponent, rest) ← exponent? rest
  if isStrictWhole whole part then return (.decimal whole part exponent, rest) else none

/-- A number. No name may start right after it. -/
def number? (t : Text) : Option (Magnitude × Text) := do
  let (m, rest) ← (radix? t).or (decimal? t)
  if Text.opens isNamePart rest then none else return (m, rest)

/-- Whether the text starts with a digit, or with a point and a digit. -/
def startsNumber : Text → Bool
  | .char '.' :: rest => Text.opens Char.isDigit rest
  | t => Text.opens Char.isDigit t

/-- The first mark of the table that the text starts with. -/
def mark? (t : Text) : Option (Mark × Text) :=
  marks.findSome? fun (spelling, m) => (Text.after? spelling t).map fun rest => (m, rest)

/-- The lexeme at the front of a text. -/
def lexeme? (t : Text) : Option (Lexeme × Text) :=
  if Text.opens (· == '"') t then (string? t.tail).map fun r => (.string r.1, r.2)
  else if startsNumber t then (number? t).map fun r => (.number r.1, r.2)
  else if Text.opens isNameStart t then
    some (.word (Text.ofChars (Text.run isNamePart t).1), (Text.run isNamePart t).2)
  else (mark? t).map fun r => (.mark r.1, r.2)

/-! ## Reading all lexemes -/

/-- A character that only keeps lexemes apart and leaves them on one line. -/
def isGap (c : Char) : Bool := c == ' ' || c == '\t'

/-- The lexemes of a line. Each lexeme takes one glyph at least, and no end of a line stands between
them. -/
def lexemes? (t : Text) : Option (List Lexeme) :=
  match t with
  | [] => some []
  | g :: more =>
    if Text.opens isGap (g :: more) then lexemes? more
    else match lexeme? (g :: more) with
      | some (tok, rest) =>
        if rest.length ≤ more.length then (lexemes? rest).map (tok :: ·) else none
      | none => none
termination_by t.length

end BlockScript
