-- Text as scripts and manifests hold it: a list of glyphs. A glyph is a
-- character, or one half of a surrogate pair that an escape left alone.
-- Such a half can be read, compared and kept, but it has no UTF-8 form.

namespace BlockScript

/-! ## Glyphs -/

/-- One position of a text. The half `n` is the code point `0xD800 + n`. -/
inductive Glyph where
  | char (c : Char)
  | half (n : Fin 0x800)
deriving DecidableEq, Inhabited

abbrev Text := List Glyph

namespace Glyph

def code : Glyph → Nat
  | .char c => c.toNat
  | .half n => 0xD800 + n.val

/-- The glyph of a code point. A number past the last code point becomes U+FFFD. -/
def ofCode (n : Nat) : Glyph :=
  if h : n - 0xD800 < 0x800 ∧ 0xD800 ≤ n then .half ⟨n - 0xD800, h.1⟩
  else if n < 0x110000 then .char (Char.ofNat n)
  else .char '�'

def isHalf : Glyph → Bool
  | .char _ => false
  | .half _ => true

/-- A letter, digit or underscore of ASCII. -/
def isWord : Glyph → Bool
  | .char c => c.isAlphanum || c == '_'
  | .half _ => false

def isDigit : Glyph → Bool
  | .char c => c.isDigit
  | .half _ => false

def lower : Glyph → Glyph
  | .char c => .char c.toLower
  | .half n => .half n

def upper : Glyph → Glyph
  | .char c => .char c.toUpper
  | .half n => .half n

end Glyph

/-! ## Building text -/

namespace Text

def ofString (s : String) : Text := s.toList.map .char

instance : Coe String Text := ⟨ofString⟩

def ofChars (cs : List Char) : Text := cs.map .char

/-- The text as a string. A half stands as U+FFFD, for it has no character of its own. -/
def toString (t : Text) : String :=
  String.ofList (t.map fun
    | .char c => c
    | .half _ => '�')

def ofNat (n : Nat) : Text := ofChars (Nat.toDigits 10 n)

def ofInt : Int → Text
  | .ofNat n => ofNat n
  | .negSucc n => .char '-' :: ofNat (n + 1)

/-- The last `width` digits of `n` in base sixteen, in small letters. -/
def hex : (width : Nat) → (n : Nat) → Text
  | 0, _ => []
  | width + 1, n => hex width (n / 16) ++ [.char (Nat.digitChar (n % 16))]

/-- The number that a list of digits spells. -/
def natOfDigits (ds : List Char) : Nat := ds.foldl (fun n c => 10 * n + (c.toNat - '0'.toNat)) 0

/-- Whole numbers with more digits than this are not read. -/
def digitLimit : Nat := 4300

def tooLongMessage (digits : Nat) : Text :=
  "Exceeds the limit (4300 digits) for integer string conversion: value has "
    ++ Text.ofNat digits ++ " digits; use sys.set_int_max_str_digits() to increase the limit"

def spaces (n : Nat) : Text := List.replicate n (.char ' ')

/-- The parts with `between` after each one but the last. -/
def joined (between : Text) : List Text → Text
  | [] => []
  | [t] => t
  | t :: rest => t ++ between ++ joined between rest

/-! ## Taking text apart -/

/-- What follows `start`, if the text starts with it. -/
def after? : (start t : Text) → Option Text
  | [], t => some t
  | _ :: _, [] => none
  | g :: start, h :: t => if g = h then after? start t else none

def startsWith (t start : Text) : Bool := (after? start t).isSome

/-- The text without the newline at its end, if it has one there. -/
def dropFinalNewline : Text → Text
  | [] => []
  | [g] => if g = .char '\n' then [] else [g]
  | g :: rest => g :: dropFinalNewline rest

/-- The text before the first `mark` and the text after it. -/
def splitFirst? (mark : Glyph) : Text → Option (Text × Text)
  | [] => none
  | g :: rest =>
    if g = mark then some ([], rest)
    else (splitFirst? mark rest).map fun (a, b) => (g :: a, b)

/-- The pieces between the marks, one more than there are marks. -/
def splitOn (mark : Glyph) : Text → List Text
  | [] => [[]]
  | g :: rest =>
    match splitOn mark rest with
    | [] => [[g]]
    | piece :: pieces => if g = mark then [] :: piece :: pieces else (g :: piece) :: pieces

/-- All of the text before its last `mark`, and what follows that mark. Without a mark the
first part is empty. -/
def splitLast (mark : Glyph) (t : Text) : Text × Text :=
  let tail := (t.reverse.takeWhile (· ≠ mark)).reverse
  (t.take (t.length - tail.length), tail)

/-- Order by code points, the shorter text first where one starts the other. -/
def before : Text → Text → Bool
  | [], [] => false
  | [], _ :: _ => true
  | _ :: _, [] => false
  | g :: s, h :: t => if g.code = h.code then before s t else g.code < h.code

end Text

end BlockScript
