-- The shown form of a text: the text in quotes, as messages write it. Quotes
-- are single, unless the text has a single quote and no double one. What
-- cannot be printed is written as an escape.
import BlockScript.Text.Printable

namespace BlockScript

/-- One glyph of a shown text inside the quote mark `mark`. -/
def Glyph.shown (mark : Glyph) (g : Glyph) : Text :=
  if g = mark ∨ g = .char '\\' then [.char '\\', g]
  else if g = .char '\t' then "\\t"
  else if g = .char '\n' then "\\n"
  else if g = .char '\r' then "\\r"
  else if g.isPrintable then [g]
  else if g.code < 0x100 then "\\x" ++ Text.hex 2 g.code
  else if g.code < 0x10000 then "\\u" ++ Text.hex 4 g.code
  else "\\U" ++ Text.hex 8 g.code

/-- The mark that a shown text is quoted with. -/
def Text.quoteMark (t : Text) : Glyph :=
  if .char '\'' ∈ t ∧ .char '"' ∉ t then .char '"' else .char '\''

def Text.shown (t : Text) : Text :=
  let mark := t.quoteMark
  mark :: t.flatMap (Glyph.shown mark) ++ [mark]

end BlockScript
