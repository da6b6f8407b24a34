-- Blank glyphs: spaces, line ends and the separators that count as spaces in
-- every script. A text is blank if nothing is left once blanks are stripped.
import BlockScript.Text

namespace BlockScript

/-- The ranges of blank code points, ends included. -/
def blankRanges : List (Nat × Nat) :=
  [(0x9, 0xd), (0x1c, 0x20), (0x85, 0x85), (0xa0, 0xa0), (0x1680, 0x1680), (0x2000, 0x200a),
   (0x2028, 0x2029), (0x202f, 0x202f), (0x205f, 0x205f), (0x3000, 0x3000)]

def Glyph.isBlank (g : Glyph) : Bool :=
  blankRanges.any fun (low, high) => low ≤ g.code && g.code ≤ high

/-- The list without the members of class `p` at its two ends. -/
def stripBoth {α : Type} (p : α → Bool) (l : List α) : List α :=
  ((l.dropWhile p).reverse.dropWhile p).reverse

namespace Text

def strip (t : Text) : Text := stripBoth Glyph.isBlank t

def isBlank (t : Text) : Bool := t.all Glyph.isBlank

end Text

end BlockScript
