-- Names of the generated code. A clean id keeps its spelling behind the mark
-- of its family; any other id is cleaned and carries a short digest of the
-- whole id, so that `a-b` and `a_b` get names of their own.
import BlockScript.Digest
import BlockScript.Json.Shown
import BlockScript.Text.Utf8

namespace BlockScript.Name

/-! ## Ids -/

/-- An id that a name can be made from: a text with at least one word glyph. -/
def isStable : Json → Bool
  | .str id => id.any Glyph.isWord
  | _ => false

/-- Only word glyphs, but for one newline at the end. -/
def isClean (id : Text) : Bool :=
  let body := id.dropFinalNewline
  !body.isEmpty && body.all Glyph.isWord

/-- The id with an underscore for each glyph that fails `keep`. -/
def cleaned (keep : Glyph → Bool) (id : Text) : Text :=
  id.map fun g => if keep g then g else .char '_'

/-- The short digest of an id. -/
def digest (id : Text) : Except EncodeError Text := do return Digest.short (← id.utf8)

/-- The cleaned id with its digest. -/
def digested (keep : Glyph → Bool) (id : Text) : Except EncodeError Text := do
  return cleaned keep id ++ "_" ++ (← digest id)

/-! ## Names -/

/-- The name of something without a usable id, with eight digits of a number drawn for it. -/
def anonymous (family : Text) (drawn : Nat) : Text := family ++ "_anon_" ++ Text.hex 8 drawn

/-- The name for an id in a family of names. The drawn number is for an id that is not usable. -/
def make (family : Text) (id : Json) (drawn : Nat) : Except EncodeError Text :=
  match id with
  | .str t =>
    if !isStable id then .ok (anonymous family drawn)
    else if isClean t then .ok (family ++ "_" ++ t)
    else do return family ++ "_" ++ (← digested Glyph.isWord t)
  | _ => .ok (anonymous family drawn)

def ofFunction (id : Json) (drawn : Nat) : Except EncodeError Text := make "f" id drawn

def ofParam (id : Json) (drawn : Nat) : Except EncodeError Text := make "p" id drawn

/-- The name of a local variable. Code has such variables with usable ids only, and no number is
drawn for those. -/
def ofLocal (id : Json) (drawn : Nat := 0) : Except EncodeError Text := make "v" id drawn

/-- The variable that counts the rounds of a loop. -/
def counter (level : Int) : Text := "_i" ++ Text.ofInt level

/-- The variable that holds the bound of a loop. -/
def limit (level : Int) : Text := "_n" ++ Text.ofInt level

/-! ## Ids inside tags -/

/-- The id that follows `start` in a tag. It is not empty and stays on one line; a newline at the
end of the tag is not part of it. -/
def idAfter? (start tag : Text) : Option Text := do
  let id := (← start.after? tag).dropFinalNewline
  if id.isEmpty || id.contains (.char '\n') then none else some id

/-- The function that a tag calls. -/
def functionOfTag? (tag : Text) : Option Text := idAfter? "func_" tag

/-- The parameter that a tag stands for. -/
def paramOfTag? (tag : Text) : Option Text :=
  (idAfter? "stringParam_" tag).or (idAfter? "booleanParam_" tag)

end BlockScript.Name
