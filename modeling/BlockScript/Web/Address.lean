-- The addresses that requests name. An address may have a scheme and a host in
-- front and a fragment at its end; a service only looks at its path and its
-- query.
import BlockScript.Json.Reader
import BlockScript.Text.Shown
import BlockScript.Text.Utf8

namespace BlockScript

/-! ## What can be wrong -/

/-- Why a request is not sent. -/
inductive RequestError where
  | brackets
  | badLabel
  | longLabel
  | badPort (t : Text)
  | portOutOfRange
  | unencodable (e : EncodeError)
deriving DecidableEq

def RequestError.message : RequestError → Text
  | .brackets => "Invalid IPv6 URL"
  | .badLabel => "encoding with 'idna' codec failed (UnicodeError: label empty or too long)"
  | .longLabel => "encoding with 'idna' codec failed (UnicodeError: label too long)"
  | .badPort t => "Port could not be cast to integer value as " ++ t.shown
  | .portOutOfRange => "Port out of range 0-65535"
  | .unencodable e => e.message

/-! ## Splitting -/

/-- The parts of an address, still escaped. -/
structure Address where
  host : Text
  path : Text
  query : Text
deriving DecidableEq

/-- A glyph that can stand in a scheme. -/
def isSchemeGlyph : Glyph → Bool
  | .char c => c.isAlphanum || c == '+' || c == '-' || c == '.'
  | .half _ => false

/-- The address without its scheme, which starts with a letter and ends before the first colon. -/
def dropScheme (t : Text) : Text :=
  match t.splitFirst? (.char ':') with
  | some (.char c :: scheme, rest) => if c.isAlpha && scheme.all isSchemeGlyph then rest else t
  | _ => t

/-- A glyph that ends a host. -/
def endsHost (g : Glyph) : Bool := g = .char '/' || g = .char '?' || g = .char '#'

/-- The host after two slashes, and what follows it. -/
def splitHost (t : Text) : Text × Text :=
  match Text.after? "//" t with
  | some t => (t.takeWhile (!endsHost ·), t.dropWhile (!endsHost ·))
  | none => ([], t)

/-- A host has brackets of both kinds or of none. -/
def bracketsFit (host : Text) : Bool := host.contains (.char '[') == host.contains (.char ']')

/-- Tabs and line ends, which an address is read without. -/
def isSkipped (g : Glyph) : Bool := g = .char '\t' || g = .char '\r' || g = .char '\n'

/-- The text before the first `mark`, and the text after it. Without a mark nothing follows. -/
def cutAt (mark : Glyph) (t : Text) : Text × Text := (t.splitFirst? mark).getD (t, [])

def Address.read (t : Text) : Except RequestError Address := do
  let (host, rest) := splitHost (dropScheme (t.filter (!isSkipped ·)))
  unless bracketsFit host do throw .brackets
  let (path, query) := cutAt (.char '?') (cutAt (.char '#') rest).1
  return { host, path, query }

/-- The path with its query, as it is asked for. -/
def Address.target (a : Address) : Text :=
  if a.query.isEmpty then a.path else a.path ++ "?" ++ a.query

/-! ## Hosts -/

/-- The name of a host and its port. A user may stand before them, and the name may stand in
brackets. -/
def nameAndPort (host : Text) : Text × Text :=
  let place := (host.splitLast (.char '@')).2
  match place.splitFirst? (.char '[') with
  | some (_, inner) =>
    let (name, rest) := cutAt (.char ']') inner
    (name, (cutAt (.char ':') rest).2)
  | none => cutAt (.char ':') place

/-- The longest label of a name. -/
def labelLimit : Nat := 63

/-- The labels of a name are divided by dots. All but the last have a glyph, and none is too
long. -/
def checkLabels (name : Text) : Except RequestError Unit :=
  let labels := name.splitOn (.char '.')
  if labels.dropLast.any fun label => label.isEmpty || labelLimit < label.length then
    .error .badLabel
  else if (labels.getLast?.getD []).length ≤ labelLimit then .ok ()
  else .error .longLabel

/-- A port is left out, or it is a number of ASCII digits up to 65535. -/
def checkPort (port : Text) : Except RequestError Unit :=
  if !port.all Glyph.isDigit then .error (.badPort port)
  else if 65535 < Text.natOfDigits port.toString.toList then .error .portOutOfRange
  else .ok ()

def checkHost (host : Text) : Except RequestError Unit := do
  let (name, port) := nameAndPort host
  checkLabels name
  checkPort port

/-! ## Escapes -/

/-- The glyph of an escape: a percent sign and a byte in two digits of base sixteen. -/
def escapedGlyph? (sign high low : Glyph) : Option Glyph := do
  guard (sign = .char '%')
  return Glyph.ofCode (16 * (← high.hexValue?) + (← low.hexValue?))

/-- The text with its escapes read. Bytes beyond ASCII are not put together, for nothing that a
service knows is named with them. -/
def unescaped : Text → Text
  | a :: b :: c :: rest =>
    match escapedGlyph? a b c with
    | some g => g :: unescaped rest
    | none => a :: unescaped (b :: c :: rest)
  | t => t

end BlockScript
