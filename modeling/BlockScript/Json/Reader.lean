-- Reading JSON. The reader walks down the text and reports a fault by what
-- it expected and how much of the text was left, from which the message
-- counts lines and columns. NaN and the infinities are read too.
import BlockScript.Json

namespace BlockScript

/-! ## Faults -/

inductive JsonCause where
  | value
  | propertyName
  | colon
  | comma
  | openString
  | control
  | escape
  | unicodeEscape
  | extra
  | byteOrderMark
deriving DecidableEq

def JsonCause.message : JsonCause → Text
  | .value => "Expecting value"
  | .propertyName => "Expecting property name enclosed in double quotes"
  | .colon => "Expecting ':' delimiter"
  | .comma => "Expecting ',' delimiter"
  | .openString => "Unterminated string starting at"
  | .control => "Invalid control character at"
  | .escape => "Invalid \\escape"
  | .unicodeEscape => "Invalid \\uXXXX escape"
  | .extra => "Extra data"
  | .byteOrderMark => "Unexpected UTF-8 BOM (decode using utf-8-sig)"

/-- A fault inside the reader. `left` is how much of the text follows its place, the place
included. -/
inductive JsonStop where
  | bad (cause : JsonCause) (left : Nat)
  | tooLong (digits : Nat)

/-- A fault with its place in the text, or a whole number with too many digits. -/
inductive JsonError where
  | bad (cause : JsonCause) (line column position : Nat)
  | tooLong (digits : Nat)
deriving DecidableEq

def JsonError.message : JsonError → Text
  | .bad cause line column position =>
    cause.message ++ ": line " ++ Text.ofNat line ++ " column " ++ Text.ofNat column
      ++ " (char " ++ Text.ofNat position ++ ")"
  | .tooLong digits => Text.tooLongMessage digits

/-- The place in `t` that has `left` glyphs at and after it. -/
def JsonStop.locate (t : Text) : JsonStop → JsonError
  | .tooLong digits => .tooLong digits
  | .bad cause left =>
    let front := t.take (t.length - left)
    .bad cause (front.count (.char '\n') + 1)
      ((front.reverse.takeWhile (· ≠ .char '\n')).length + 1) front.length

/-! ## Strings -/

def isJsonBlank (g : Glyph) : Bool :=
  g = .char ' ' || g = .char '\t' || g = .char '\n' || g = .char '\r'

def skipBlanks (t : Text) : Text := t.dropWhile isJsonBlank

def Glyph.hexValue? : Glyph → Option Nat
  | .char c =>
    if c.isDigit then some (c.toNat - '0'.toNat)
    else if 'a' ≤ c ∧ c ≤ 'f' then some (c.toNat - 'a'.toNat + 10)
    else if 'A' ≤ c ∧ c ≤ 'F' then some (c.toNat - 'A'.toNat + 10)
    else none
  | .half _ => none

/-- The number of four digits in base sixteen. -/
def hexQuad? (a b c d : Glyph) : Option Nat := do
  return 0x1000 * (← a.hexValue?) + 0x100 * (← b.hexValue?) + 0x10 * (← c.hexValue?)
    + (← d.hexValue?)

/-- The meaning of an escape of one glyph. -/
def simpleEscape? : Glyph → Option Glyph
  | .char '"' => some (.char '"')
  | .char '\\' => some (.char '\\')
  | .char '/' => some (.char '/')
  | .char 'b' => some (.char '\x08')
  | .char 'f' => some (.char '\x0c')
  | .char 'n' => some (.char '\n')
  | .char 'r' => some (.char '\r')
  | .char 't' => some (.char '\t')
  | _ => none

def isHighHalf (n : Nat) : Bool := 0xD800 ≤ n && n < 0xDC00

def isLowHalf (n : Nat) : Bool := 0xDC00 ≤ n && n < 0xE000

/-- What stands at one place inside a quoted string: a glyph, with how many further glyphs its
escape takes up; the closing quote; or a fault, with how far its place is from the end. -/
inductive StringPiece where
  | glyph (g : Glyph) (further : Nat)
  | close
  | bad (cause : JsonCause) (left : Nat)

/-- The escape by number whose digits start `rest`. Two escapes that are the halves of a pair make
one character. At least one glyph has to follow the digits. -/
def numberEscape (rest : Text) : StringPiece :=
  match rest with
  | a :: b :: c :: d :: e :: more =>
    match hexQuad? a b c d with
    | none => .bad .unicodeEscape (rest.length + 1)
    | some n =>
      match e, more with
      | .char '\\', .char 'u' :: f :: g :: h :: i :: _ :: _ =>
        if isHighHalf n then
          match hexQuad? f g h i with
          | none => .bad .unicodeEscape more.length
          | some m =>
            if isLowHalf m then
              .glyph (Glyph.ofCode (0x10000 + (n - 0xD800) * 0x400 + (m - 0xDC00))) 11
            else .glyph (Glyph.ofCode n) 5
        else .glyph (Glyph.ofCode n) 5
      | _, _ => .glyph (Glyph.ofCode n) 5
  | _ => .bad .unicodeEscape (rest.length + 1)

/-- The piece that starts with `g`, with `rest` after it. `start` is the text from the opening
quote on. -/
def StringPiece.of (start : Text) (g : Glyph) (rest : Text) : StringPiece :=
  if g = .char '"' then .close
  else if g = .char '\\' then
    match rest with
    | [] => .bad .openString start.length
    | .char 'u' :: more => numberEscape more
    | h :: _ =>
      match simpleEscape? h with
      | some made => .glyph made 1
      | none => .bad .escape (rest.length + 1)
  else if g.code < 0x20 then .bad .control (rest.length + 1)
  else .glyph g 0

/-- The glyphs that a quoted string holds, up to its closing quote, and what follows that. `skip`
is how much of the last escape is still to pass. -/
def readStringFrom (start : Text) : (skip : Nat) → Text → Except JsonStop (Text × Text)
  | _, [] => .error (.bad .openString start.length)
  | skip + 1, _ :: rest => readStringFrom start skip rest
  | 0, g :: rest =>
    match StringPiece.of start g rest with
    | .close => .ok ([], rest)
    | .bad cause left => .error (.bad cause left)
    | .glyph made further =>
      (readStringFrom start further rest).map fun (t, more) => (made :: t, more)

/-- Reads a string at its opening quote. -/
def readString (t : Text) : Except JsonStop (Text × Text) := readStringFrom t 0 (t.drop 1)

/-! ## Numbers -/

def digitsOf (t : Text) : List Char :=
  (t.takeWhile Glyph.isDigit).filterMap fun
    | .char c => some c
    | .half _ => none

/-- The digits after a point, if there is a point with a digit after it. -/
def readFraction? : Text → Option (List Char × Text)
  | .char '.' :: rest =>
    let ds := digitsOf rest
    if ds.isEmpty then none else some (ds, rest.drop ds.length)
  | _ => none

/-- The exponent, if there is a mark with a digit after it and perhaps a sign between. -/
def readJsonExponent? : Text → Option (Int × Text)
  | .char c :: rest =>
    if c = 'e' ∨ c = 'E' then
      let (negative, body) := match rest with
        | .char '-' :: more => (true, more)
        | .char '+' :: more => (false, more)
        | _ => (false, rest)
      let ds := digitsOf body
      if ds.isEmpty then none
      else
        let n : Int := Text.natOfDigits ds
        some (if negative then -n else n, body.drop ds.length)
    else none
  | _ => none

/-- A number: a whole part without a leading zero, and perhaps a fraction and an exponent, which
make it a double. -/
def readNumber (t : Text) : Except JsonStop (Json × Text) :=
  let (negative, body) := match t with
    | .char '-' :: rest => (true, rest)
    | _ => (false, t)
  let all := digitsOf body
  let ds := if all.head? = some '0' then ['0'] else all
  if ds.isEmpty then .error (.bad .value t.length)
  else
    let rest := body.drop ds.length
    let fraction := readFraction? rest
    let afterFraction := (fraction.map (·.2)).getD rest
    let exponent := readJsonExponent? afterFraction
    let afterAll := (exponent.map (·.2)).getD afterFraction
    if fraction.isNone && exponent.isNone then
      if ds.length > Text.digitLimit then .error (.tooLong ds.length)
      else
        let n : Int := Text.natOfDigits ds
        .ok (.int (if negative then -n else n), afterAll)
    else
      let part := (fraction.map (·.1)).getD []
      let x := (exponent.map (·.1)).getD 0
      .ok (.double (Double.ofDecimal negative (Text.natOfDigits (ds ++ part)) (x - part.length)),
        afterAll)

/-! ## Values -/

/-- The words of the format. -/
def words : List (Text × Json) :=
  [("null", .null), ("true", .bool true), ("false", .bool false), ("NaN", .double .nan),
   ("Infinity", .double (.infinity false)), ("-Infinity", .double (.infinity true))]

/-- The word that the text starts with, and what follows it. -/
def readWord? (t : Text) : List (Text × Json) → Option (Json × Text)
  | [] => none
  | (word, v) :: rest =>
    match word.after? t with
    | some more => some (v, more)
    | none => readWord? t rest

mutual

/-- Reads one value at the front of the text. Every second step goes on with a shorter text, so
fuel above twice its length is enough. -/
def readValue : (fuel : Nat) → Text → Except JsonStop (Json × Text)
  | 0, t => .error (.bad .value t.length)
  | fuel + 1, t =>
    match t with
    | .char '"' :: _ => (readString t).map fun (s, more) => (.str s, more)
    | .char '\x7b' :: rest =>
      match skipBlanks rest with
      | .char '\x7d' :: more => .ok (.obj [], more)
      | more => (readFields fuel [] more).map fun (fs, more) => (.obj fs, more)
    | .char '[' :: rest =>
      match skipBlanks rest with
      | .char ']' :: more => .ok (.arr [], more)
      | more => (readItems fuel more).map fun (vs, more) => (.arr vs, more)
    | _ =>
      match readWord? t words with
      | some r => .ok r
      | none => readNumber t

/-- Reads the items of a list from its first item on, and its closing bracket. -/
def readItems : (fuel : Nat) → Text → Except JsonStop (List Json × Text)
  | 0, t => .error (.bad .value t.length)
  | fuel + 1, t => do
    let (v, rest) ← readValue fuel t
    match skipBlanks rest with
    | .char ']' :: more => return ([v], more)
    | .char ',' :: more =>
      let (vs, rest) ← readItems fuel (skipBlanks more)
      return (v :: vs, rest)
    | more => throw (.bad .comma more.length)

/-- Reads the fields of an object from its first key on, and its closing brace. A key that was
read before keeps its place and takes the new value. -/
def readFields : (fuel : Nat) → List (Text × Json) → Text →
    Except JsonStop (List (Text × Json) × Text)
  | 0, _, t => .error (.bad .value t.length)
  | fuel + 1, done, t => do
    let (key, rest) ← match t with
      | .char '"' :: _ => readString t
      | _ => throw (.bad .propertyName t.length)
    let rest ← match skipBlanks rest with
      | .char ':' :: more => pure (skipBlanks more)
      | more => throw (.bad .colon more.length)
    let (v, rest) ← readValue fuel rest
    let done := setField key v done
    match skipBlanks rest with
    | .char '\x7d' :: more => return (done, more)
    | .char ',' :: more => readFields fuel done (skipBlanks more)
    | more => throw (.bad .comma more.length)

end

/-- Reads a document: one value with blanks around it and nothing else. -/
def readDocument (t : Text) : Except JsonStop Json := do
  if t.head? = some (.char '﻿') then throw (.bad .byteOrderMark t.length)
  let (v, rest) ← readValue (2 * t.length + 1) (skipBlanks t)
  let rest := skipBlanks rest
  if rest.isEmpty then return v else throw (.bad .extra rest.length)

def Json.read (t : Text) : Except JsonError Json := (readDocument t).mapError (·.locate t)

end BlockScript
