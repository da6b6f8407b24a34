-- The shown form of a JSON value, as messages and names write it: a text as
-- it is, any other value in the form it has inside lists and objects.
import BlockScript.Json
import BlockScript.Double.Shown
import BlockScript.Text.Shown

namespace BlockScript

mutual

/-- The form of a value inside a list or an object. -/
def Json.inner : Json → Text
  | .null => "None"
  | .bool true => "True"
  | .bool false => "False"
  | .int n => Text.ofInt n
  | .double d => d.shown
  | .str t => t.shown
  | .arr items => "[" ++ Text.joined ", " (Json.innerItems items) ++ "]"
  | .obj fields => "\x7b" ++ Text.joined ", " (Json.innerFields fields) ++ "\x7d"

def Json.innerItems : List Json → List Text
  | [] => []
  | v :: rest => v.inner :: Json.innerItems rest

def Json.innerFields : List (Text × Json) → List Text
  | [] => []
  | (k, v) :: rest => (k.shown ++ ": " ++ v.inner) :: Json.innerFields rest

end

/-- The value as it reads in running text. -/
def Json.shown : Json → Text
  | .str t => t
  | v => v.inner

end BlockScript
