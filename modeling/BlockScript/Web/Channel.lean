-- The channel over which progress is pushed. Clients open it with a request of
-- their own; here only the status of the answer matters.
import BlockScript.Double.Reader
import BlockScript.Web.Address

namespace BlockScript

/-- The path under which the channel answers. -/
def channelPath : Text := "/socket.io/"

/-! ## Queries -/

/-- The text of a query's name or value: a plus sign stands for a blank. -/
def queryText (t : Text) : Text :=
  unescaped (t.map fun g => if g = .char '+' then .char ' ' else g)

/-- The fields of a query. One without a value is left out. -/
def queryFields (query : Text) : List (Text × Text) :=
  (query.splitOn (.char '&')).filterMap fun field =>
    match field.splitFirst? (.char '=') with
    | none | some (_, []) => none
    | some (name, value) => some (queryText name, queryText value)

/-- All values of the field `name`. -/
def queryValues (query name : Text) : List Text :=
  (queryFields query).filterMap fun f => if f.1 = name then some f.2 else none

/-! ## Opening the channel -/

/-- What a client says of itself. -/
structure Hello where
  transport : Text
  session : Option Text
  versions : List Text
  callback : Option Text

namespace Hello

def ofQuery (query : Text) : Hello where
  transport := (queryValues query "transport").head?.getD "polling"
  session := (queryValues query "sid").head?
  versions := queryValues query "EIO"
  callback := (queryValues query "j").head?

/-- The ways in which the channel can carry messages. -/
def transports : List Text := ["polling", "websocket"]

/-- Whether the client is understood: its transport is known, it has a session or names version 4
once, and its callback is a number if it has one. -/
def isUnderstood (h : Hello) : Bool :=
  transports.contains h.transport
    && (h.session.isSome || h.versions = [Text.ofString "4"])
    && match h.callback.map readInt with
      | none | some (.number _) => true
      | some _ => false

/-- The status of the answer. A client is let in when it asks for a session by polling; no session
outlives its request, so none is known later. -/
def status (h : Hello) (method : Text) : Nat :=
  if !h.isUnderstood then 400
  else if method = Text.ofString "GET" then
    if h.session.isNone && h.transport = Text.ofString "polling" then 200 else 400
  else if method = Text.ofString "POST" then 400
  else if method = Text.ofString "OPTIONS" then 200
  else 405

end Hello

end BlockScript
