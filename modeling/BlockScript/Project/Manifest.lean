-- The manifest of a project on disk: an object in JSON. It is read as UTF-8
-- with all line ends taken as newlines, and it is written indented.
import BlockScript.Json.Reader
import BlockScript.Json.Writer
import BlockScript.Project.Disk

namespace BlockScript

/-- The text with one newline for each line end, whatever its form. -/
def plainNewlines : Text → Text
  | [] => []
  | .char '\r' :: .char '\n' :: rest => .char '\n' :: plainNewlines rest
  | g :: rest => (if g = .char '\r' then .char '\n' else g) :: plainNewlines rest

/-- Why a manifest cannot be read or written. -/
inductive ManifestError where
  | notFound (path : Text)
  | notText (e : DecodeError)
  | notJson (e : JsonError)
  | notAnObject
  | unwritable (e : DiskError)

def ManifestError.message : ManifestError → Text
  | .notFound path => "File not found: " ++ path
  | .notText e => "Cannot read manifest: " ++ e.message
  | .notJson e => "Cannot read manifest: " ++ e.message
  | .notAnObject => "Manifest root must be an object"
  | .unwritable e => "Cannot write manifest: " ++ e.message

/-- The fields of the manifest under a path. -/
def Disk.loadManifest (d : Disk) (path : Text) : Except ManifestError (List (Text × Json)) :=
  match d.file? path with
  | none => .error (.notFound path)
  | some bytes => do
    let text ← (Text.ofUtf8 bytes).mapError .notText
    match ← (Json.read (plainNewlines text)).mapError .notJson with
    | .obj fields => return fields
    | _ => throw .notAnObject

/-- Saves a value as a manifest. -/
def Disk.saveManifest (d : Disk) (path : Text) (v : Json) : Disk × Except DiskError Unit :=
  d.writePieces path (v.pieces 0)

end BlockScript
