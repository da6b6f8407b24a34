-- Units of work: one for each scripted object and one for each function of a
-- project. A unit has a path of its own for its script, and the manifest entry
-- it came from is marked with that path when the script is there.
import BlockScript.Compile.Source
import BlockScript.Project.Outcomes
import BlockScript.Settings
import BlockScript.Text.Blank

namespace BlockScript

/-- One script to compile. A unit with a function id belongs to that function, any other to the
object with its id. -/
structure WorkUnit where
  id : Text
  name : Text
  script : Text
  path : Text
  function : Option Text := none
  indent : Json := .int 2

namespace WorkUnit

/-- The function that the unit compiles. The empty id counts as none. -/
def function? (u : WorkUnit) : Option Text := u.function.filter (!·.isEmpty)

def kind (u : WorkUnit) : Text := if u.function?.isSome then "function" else "object"

/-- The unit as messages name it. -/
def label (u : WorkUnit) : Text := u.kind ++ " " ++ u.name ++ " (" ++ u.id ++ ")"

/-- The object whose script the unit is. The script of a function belongs to none. -/
def object (u : WorkUnit) : Json := if u.function?.isSome then .null else .str u.id

/-- The generated source of the unit, with the numbers that are drawn for its names. -/
def source (u : WorkUnit) (draws : Draws) : Except Fault Text := do
  let program ← Program.build draws (.str u.script) u.object ((u.function.map .str).getD .null)
  let width ← indentWidth u.indent
  ({ width } : Style).source u.object program

/-- What became of the unit's source, in one line. -/
def summary (u : WorkUnit) : Except Fault Text → Text
  | .ok _ => "Success: " ++ u.id
  | .error f => "Error: " ++ u.id ++ ": " ++ f.report

end WorkUnit

/-! ## Paths -/

/-- A glyph that file names may have: a word glyph or a hyphen. -/
def Glyph.isStem (g : Glyph) : Bool := g.isWord || g = .char '-'

/-- The stem of the file for an id: the id itself if it is safe, or else cleaned with a digest. One
newline at the end of a safe id is overlooked. -/
def fileStem (id : Text) : Except EncodeError Text :=
  let body := id.dropFinalNewline
  if !body.isEmpty && body.all Glyph.isStem then .ok id else Name.digested Glyph.isStem id

/-- The path for a stem: the plain one at 0, and from then on with the suffixes 2, 3 and so on. -/
def candidatePath (dir stem : Text) (i : Nat) : Text :=
  dir ++ "/" ++ stem ++ (if i = 0 then ([] : Text) else "_" ++ Text.ofNat (i + 1)) ++ ".js"

/-- The first candidate that is not used. One of the first `used.length + 1` is free. -/
def freePath (used : List Text) (dir stem : Text) : Text :=
  (((List.range (used.length + 1)).map (candidatePath dir stem)).find? (!used.contains ·)).getD
    (candidatePath dir stem 0)

/-! ## Manifests -/

/-- A list of entries in a manifest: where the list stands, where its entries keep their script,
how an entry without an id is called, and how its file name starts. -/
structure Shelf where
  key : Text
  scriptKey : Text
  fallback : Text
  stemStart : Text
  holdsFunctions : Bool

def objectShelf : Shelf :=
  { key := "objects", scriptKey := "script", fallback := "object_", stemStart := []
    holdsFunctions := false }

def functionShelf : Shelf :=
  { key := "functions", scriptKey := "content", fallback := "function_", stemStart := "func_"
    holdsFunctions := true }

namespace Shelf

/-- The script of an entry, if it has one that is not blank. -/
def script? (s : Shelf) (entry : List (Text × Json)) : Option Text :=
  (textField? s.scriptKey entry).filter (!·.isBlank)

/-- What stands in the list of a shelf. -/
def items (s : Shelf) (manifest : List (Text × Json)) : List Json :=
  match field? s.key manifest with
  | some (.arr vs) => vs
  | _ => []

/-- The entries of a shelf: the objects in its list. -/
def entries (s : Shelf) (manifest : List (Text × Json)) : List (List (Text × Json)) :=
  (s.items manifest).filterMap fun
    | .obj fields => some fields
    | _ => none

def entryId (s : Shelf) (index : Nat) (entry : List (Text × Json)) : Text :=
  match field? "id" entry with
  | some v => if v.isGiven then v.shown else s.fallback ++ Text.ofNat index
  | none => s.fallback ++ Text.ofNat index

/-- The unit of an entry, given its script and the paths that are taken. -/
def unitOf (s : Shelf) (g : Settings) (used : List Text) (index : Nat)
    (entry : List (Text × Json)) (script : Text) : Except EncodeError WorkUnit := do
  let id := s.entryId index entry
  let stem ← fileStem id
  return {
    id, script
    name := ((field? "name" entry).map Json.shown).getD id
    path := freePath used g.outputDir (s.stemStart ++ stem)
    function := if s.holdsFunctions then some id else none
    indent := g.indent }

/-- The units of the entries from `index` on, in order. -/
def units (s : Shelf) (g : Settings) :
    (used : List Text) → (index : Nat) → List (List (Text × Json)) →
      Except EncodeError (List WorkUnit)
  | _, _, [] => .ok []
  | used, index, entry :: rest =>
    match s.script? entry with
    | none => s.units g used (index + 1) rest
    | some script => do
      let u ← s.unitOf g used index entry script
      return u :: (← s.units g (u.path :: used) (index + 1) rest)

/-- Marks the scripted entries in order, each with what `marks` has for it, and gives back the
marks that are left. -/
def mark (s : Shelf) (key : Text) : List Json → List (Option Text) → List Json × List (Option Text)
  | [], marks => ([], marks)
  | .obj entry :: rest, marks =>
    match s.script? entry, marks with
    | some _, m :: marks =>
      let marked := match m with
        | some file => setField key (.str file) entry
        | none => entry
      let (rest, left) := s.mark key rest marks
      (.obj marked :: rest, left)
    | _, marks =>
      let (rest, left) := s.mark key rest marks
      (.obj entry :: rest, left)
  | v :: rest, marks =>
    let (rest, left) := s.mark key rest marks
    (v :: rest, left)

/-- Marks the entries of a shelf in a manifest. -/
def markIn (s : Shelf) (key : Text) (manifest : List (Text × Json)) (marks : List (Option Text)) :
    List (Text × Json) × List (Option Text) :=
  match field? s.key manifest with
  | some (.arr vs) =>
    let (vs, left) := s.mark key vs marks
    (setField s.key (.arr vs) manifest, left)
  | _ => (manifest, marks)

end Shelf

/-- The units of a manifest: its objects in order, then its functions in order. -/
def collectUnits (g : Settings) (manifest : List (Text × Json)) :
    Except EncodeError (List WorkUnit) := do
  let objects ← objectShelf.units g [] 0 (objectShelf.entries manifest)
  let used := (objects.map WorkUnit.path).reverse
  let functions ← functionShelf.units g used 0 (functionShelf.entries manifest)
  return objects ++ functions

/-- The manifest with the entry of each unit marked as `marks` says, unit by unit. -/
def markManifest (key : Text) (manifest : List (Text × Json)) (marks : List (Option Text)) :
    List (Text × Json) :=
  let (manifest, left) := objectShelf.markIn key manifest marks
  (functionShelf.markIn key manifest left).1

end BlockScript
