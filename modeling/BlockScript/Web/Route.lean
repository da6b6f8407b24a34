-- Where a request goes: the routes of the service, the methods that each one
-- takes, and what a server makes of a path or a method that fits none.
import BlockScript.Project.Path
import BlockScript.Web.Address

namespace BlockScript

/-! ## Routes -/

/-- What a path can lead to. -/
inductive Route where
  | info
  | convert
  | file
deriving DecidableEq

namespace Route

def methods : Route → List Text
  | .info | .file => ["GET", "HEAD", "OPTIONS"]
  | .convert => ["POST", "OPTIONS"]

/-- A name in the folder of files. It is not empty, does not start with a slash, and has no newline
but at its start. -/
def isFileName : Text → Bool
  | [] => false
  | g :: rest => g ≠ Path.slash && !rest.contains (.char '\n')

/-- The route of a path that is given without the slashes in front. -/
def ofPath? (path : Text) : Option Route :=
  if path = Text.ofString "api/info" then some .info
  else if path = Text.ofString "api/convert" then some .convert
  else match Text.after? "static/" path with
    | some name => if isFileName name then some .file else none
    | none => none

/-- The route of a path, if it takes the method. -/
def taking? (method path : Text) : Option Route :=
  (ofPath? path).filter (·.methods.contains method)

end Route

/-! ## Directions -/

/-- The path with one slash for every two in a row. Three in a row leave two. -/
def slashesMerged : Text → Text
  | a :: b :: rest =>
    if a = Path.slash ∧ b = Path.slash then Path.slash :: slashesMerged rest
    else a :: slashesMerged (b :: rest)
  | t => t

/-- What becomes of a request: it is answered by a route, or with a status alone. -/
inductive Direction where
  | to (r : Route)
  | status (n : Nat)
deriving DecidableEq

/-- The direction of a path. A path that only fits with merged slashes is sent there, and a method
that the route of the path does not take is refused. -/
def Direction.ofPath (method path : Text) : Direction :=
  let path := path.dropWhile (· = Path.slash)
  match Route.taking? method path with
  | some r => .to r
  | none =>
    if (Route.taking? method (slashesMerged path)).isSome then .status 308
    else if (Route.ofPath? path).isSome || (Route.ofPath? (slashesMerged path)).isSome then
      .status 405
    else .status 404

end BlockScript
