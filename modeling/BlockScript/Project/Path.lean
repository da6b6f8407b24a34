-- Paths as texts: joining, splitting and tidying them without looking at a
-- disk. Names are divided by slashes, and a path that starts with one is
-- absolute.
import BlockScript.Text

namespace BlockScript.Path

def slash : Glyph := .char '/'

def isAbsolute (t : Text) : Bool := t.startsWith "/"

/-- The path `t` seen from the directory `dir`. -/
def joined (dir t : Text) : Text :=
  if isAbsolute t then t
  else if dir.isEmpty || dir.getLast? = some slash then dir ++ t
  else dir ++ "/" ++ t

/-- The text without the slashes at its end. -/
def dropSlashes (t : Text) : Text := (t.reverse.dropWhile (· = slash)).reverse

/-- The directory part and the last name. The directory part has no slash at its end, unless it is
made of slashes. -/
def split (t : Text) : Text × Text :=
  let (front, name) := t.splitLast slash
  (if front.all (· = slash) then front else dropSlashes front, name)

/-- The names of an absolute path, with `..` taking back the name before it. The names so far are
given in reverse. -/
def tidyNames : (done : List Text) → List Text → List Text
  | done, [] => done.reverse
  | done, name :: rest =>
    if name.isEmpty || name = Text.ofString "." then tidyNames done rest
    else if name = Text.ofString ".." then tidyNames done.tail rest
    else tidyNames (name :: done) rest

/-- The slashes that an absolute path keeps in front: two if it has exactly two, else one. -/
def rootOf (t : Text) : Text :=
  if t.startsWith "//" && !t.startsWith "///" then "//" else "/"

/-- An absolute path without empty names, `.` and `..`. -/
def tidy (t : Text) : Text :=
  rootOf t ++ Text.joined "/" (tidyNames [] (t.splitOn slash))

/-- The directory of a path, as an absolute path, for a process that works in `work`. -/
def directoryOf (work t : Text) : Text := (split (tidy (joined work t))).1

end BlockScript.Path
