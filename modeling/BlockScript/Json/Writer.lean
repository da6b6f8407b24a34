-- Writing JSON. Generated scripts take values in one line and in ASCII;
-- manifests are indented and keep their characters. A quoted string of
-- JavaScript is written like one of a manifest.
import BlockScript.Json
import BlockScript.Double.Shown

namespace BlockScript

/-! ## Strings -/

/-- The escape of a glyph that every form of string needs. -/
def Glyph.escape? (g : Glyph) : Option Text :=
  if g = .char '"' then some "\\\""
  else if g = .char '\\' then some "\\\\"
  else if g = .char '\n' then some "\\n"
  else if g = .char '\r' then some "\\r"
  else if g = .char '\t' then some "\\t"
  else if g.code = 0x8 then some "\\b"
  else if g.code = 0xc then some "\\f"
  else if g.code < 0x20 then some ("\\u" ++ Text.hex 4 g.code)
  else none

/-- A glyph inside quotes, left as it is where it can be. -/
def Glyph.quoted (g : Glyph) : Text := g.escape?.getD [g]

/-- The escape of a code point by its number: one escape, or a pair for the high planes. -/
def escapeCode (n : Nat) : Text :=
  if n < 0x10000 then "\\u" ++ Text.hex 4 n
  else
    "\\u" ++ Text.hex 4 (0xD800 + (n - 0x10000) / 0x400)
      ++ "\\u" ++ Text.hex 4 (0xDC00 + (n - 0x10000) % 0x400)

/-- A glyph inside quotes, in printing ASCII. -/
def Glyph.quotedAscii (g : Glyph) : Text :=
  g.escape?.getD (if g.code < 0x7f then [g] else escapeCode g.code)

namespace Text

/-- The text in double quotes. Only quotes, backslashes and controls are escaped. -/
def quoted (t : Text) : Text := "\"" ++ t.flatMap Glyph.quoted ++ "\""

/-- The text in double quotes, in printing ASCII. -/
def quotedAscii (t : Text) : Text := "\"" ++ t.flatMap Glyph.quotedAscii ++ "\""

end Text

/-! ## In one line -/

mutual

/-- The value in one line, in printing ASCII. -/
def Json.line : Json → Text
  | .null => "null"
  | .bool true => "true"
  | .bool false => "false"
  | .int n => Text.ofInt n
  | .double d => d.documented
  | .str t => t.quotedAscii
  | .arr items => "[" ++ Text.joined ", " (Json.lineItems items) ++ "]"
  | .obj fields => "\x7b" ++ Text.joined ", " (Json.lineFields fields) ++ "\x7d"

def Json.lineItems : List Json → List Text
  | [] => []
  | v :: rest => v.line :: Json.lineItems rest

def Json.lineFields : List (Text × Json) → List Text
  | [] => []
  | (k, v) :: rest => (k.quotedAscii ++ ": " ++ v.line) :: Json.lineFields rest

end

/-! ## Indented -/

/-- The text of a value that holds no others. -/
def Json.scalar? : Json → Option Text
  | .null => some "null"
  | .bool true => some "true"
  | .bool false => some "false"
  | .int n => some (Text.ofInt n)
  | .double d => some d.documented
  | .str t => some t.quoted
  | .arr _ | .obj _ => none

/-- A new line at the given depth, two spaces for each level. -/
def newLine (depth : Nat) : Text := .char '\n' :: Text.spaces (2 * depth)

mutual

/-- The pieces in which an indented value goes out, in order. Each piece is written as a whole. -/
def Json.pieces (depth : Nat) : Json → List Text
  | .arr items =>
    if items.isEmpty then ["[]"]
    else Json.itemPieces (depth + 1) ("[" ++ newLine (depth + 1)) items ++ [newLine depth, "]"]
  | .obj fields =>
    if fields.isEmpty then ["\x7b\x7d"]
    else
      "\x7b" :: newLine (depth + 1)
        :: (Json.fieldPieces (depth + 1) fields ++ [newLine depth, "\x7d"])
  | v => v.scalar?.toList

/-- The items of a list. What comes before an item goes out with it if it is a scalar. -/
def Json.itemPieces (depth : Nat) (before : Text) : List Json → List Text
  | [] => []
  | v :: rest =>
    (match v.scalar? with
      | some t => [before ++ t]
      | none => before :: Json.pieces depth v)
    ++ Json.itemPieces depth ("," ++ newLine depth) rest

def Json.fieldPieces (depth : Nat) : List (Text × Json) → List Text
  | [] => []
  | (k, v) :: rest =>
    k.quoted :: ": " :: (Json.pieces depth v
      ++ (if rest.isEmpty then [] else ("," ++ newLine depth) :: Json.fieldPieces depth rest))

end

/-- The value as a manifest is saved. -/
def Json.indented (v : Json) : Text := (v.pieces 0).flatten

end BlockScript
