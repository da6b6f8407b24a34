-- The service as a server offers it. How a request is read and where it goes is
-- the server's business and not the tool's, so serving takes that as a
-- parameter; nothing that the service itself does depends on it.
import BlockScript.Service
import BlockScript.Web.Body
import BlockScript.Web.Channel
import BlockScript.Web.Route

namespace BlockScript

/-! ## Serving -/

structure Request where
  method : Text
  url : Text
  contentType : Text := []
  body : Text := []

/-- What a server decides for the service: where a request goes, if it can be sent at all, which
JSON value it carries, and the status of an answer to a request that a route has no answer for. -/
structure Server where
  direct : Request → Except RequestError Direction
  value : Request → Json
  escaped : Nat

def Response.bare (status : Nat) : Response := { status, body := none }

/-- Answers a request that a route takes. There are no files to send, and the answer to a request
for a head has no body. -/
def answer (server : Server) (worker : Worker) (d : Disk) (environment : List (Text × Text))
    (q : Request) (r : Route) : Served :=
  let only (r : Response) : Served := { disk := d, reply := .answered r }
  if q.method.map Glyph.upper = Text.ofString "OPTIONS" then only (.bare 200)
  else match r with
    | .file => only (.bare 404)
    | .info =>
      only
        { status := 200
          body := if q.method = Text.ofString "HEAD" then none else some infoBody }
    | .convert => convert worker d environment (server.value q)

/-- Serves a request. An endless request has no response. -/
def serve (server : Server) (worker : Worker) (d : Disk) (environment : List (Text × Text))
    (q : Request) : Except RequestError (Disk × Option Response) := do
  match ← server.direct q with
  | .status n => return (d, some (.bare n))
  | .to r =>
    let served := answer server worker d environment q r
    return (served.disk, match served.reply with
      | .answered r => some r
      | .escaped _ => some (.bare server.escaped)
      | .endless => none)

/-! ## The usual server -/

/-- The media type of a content type, without its parameters. -/
def mediaType (contentType : Text) : Text :=
  (((contentType.splitOn (.char ';')).head?.getD []).strip).map Glyph.lower

def isJsonType (contentType : Text) : Bool :=
  let t := mediaType contentType
  t = Text.ofString "application/json"
    || (t.startsWith "application/" && Text.startsWith t.reverse (Text.ofString "+json").reverse)

/-- The JSON value that a request carries. A byte order mark in front is overlooked; a body of
another type, or one that cannot be read, counts as null. -/
def Request.value (q : Request) : Json :=
  if isJsonType q.contentType then
    let read : Option Json := do
      let text ← bodyText? (← q.body.utf8.toOption)
      (Json.read ((Text.after? [.char '\uFEFF'] text).getD text)).toOption
    read.getD .null
  else .null

/-- The address that a request reaches. The path of its own address is read as an address once
more, and all of the request has to be written in UTF-8. -/
def Request.address (q : Request) : Except RequestError Address := do
  let outer ← Address.read q.url
  let inner ← Address.read outer.target
  discard (inner.path.utf8.mapError .unencodable)
  checkHost outer.host
  discard (q.body.utf8.mapError .unencodable)
  discard (outer.target.utf8.mapError .unencodable)
  return { inner with path := unescaped inner.path }

/-- Where a request goes. The channel is asked before any route. -/
def Request.direction (q : Request) : Except RequestError Direction := do
  let a ← q.address
  if a.path.startsWith channelPath then
    return .status ((Hello.ofQuery a.query).status q.method)
  return .ofPath (q.method.map Glyph.upper) a.path

def usualServer : Server where
  direct := Request.direction
  value := Request.value
  escaped := 500

end BlockScript
