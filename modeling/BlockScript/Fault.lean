-- Faults: why the work on a script stops. A fault is not a failure of one
-- block, which only leaves a comment; it ends the whole unit.
import BlockScript.Json
import BlockScript.Text.Utf8

namespace BlockScript

/-- Why compiling stops: a list or object stands where a table is looked up, an id cannot be
written in UTF-8, or the indentation is no whole number. -/
inductive Fault where
  | notAKey (value : Json)
  | unencodable (e : EncodeError)
  | indentation (value : Json)

namespace Fault

/-- The name under which a fault is reported. -/
def name : Fault → Text
  | .notAKey _ | .indentation _ => "TypeError"
  | .unencodable _ => "UnicodeEncodeError"

def message : Fault → Text
  | .notAKey v => "unhashable type: '" ++ v.kindName ++ "'"
  | .unencodable e => e.message
  | .indentation v => "can't multiply sequence by non-int of type '" ++ v.kindName ++ "'"

/-- The fault in one line, its name in front. -/
def report (f : Fault) : Text := f.name ++ ": " ++ f.message

end Fault

/-- A value that can be looked up in a table. Lists and objects cannot. -/
def Json.isKey : Json → Bool
  | .arr _ | .obj _ => false
  | _ => true

/-- Stops at a value that cannot be looked up. -/
def Json.demandKey (v : Json) : Except Fault Unit :=
  if v.isKey then .ok () else .error (.notAKey v)

/-- The name, or the fault that its id cannot be written. -/
def written (n : Except EncodeError Text) : Except Fault Text := n.mapError .unencodable

/-- The entry of a table for a key. -/
def lookup? {α : Type} (key : Text) : List (String × α) → Option α
  | [] => none
  | (k, a) :: rest => if Text.ofString k = key then some a else lookup? key rest

end BlockScript
