-- The web service: it describes the tool, and it compiles a project that a
-- request names. What a route does not look out for leaves it as it is, and
-- what becomes of that is up to the server around the service.
import BlockScript.CommandLine

namespace BlockScript

/-! ## Answers -/

/-- An answer; without a value it has no JSON body. -/
structure Response where
  status : Nat
  body : Option Json

/-- What a route does not look out for: a value without fields, a time limit past the range, a path
that is none, and what stops a run. -/
inductive Escape where
  | noFields (value : Json)
  | timeoutOutOfRange
  | notAPath (value : Json)
  | stopped (s : Stop)

/-- How a route comes to its end, if it does. -/
inductive Reply where
  | answered (r : Response)
  | escaped (e : Escape)
  | endless

/-! ## Routes -/

def infoBody : Json :=
  .obj [
    ("success", .bool true),
    ("data", .obj [
      ("name", .str toolName),
      ("version", .str toolVersion),
      ("description", .str "Transpiles Entry projects into FastEntry JavaScript."),
      ("author", .str "Entry2JS Development Team"),
      ("license", .str "MIT")])]

/-- An answer that reports an error. -/
def Response.failed (status : Nat) (error : Text) (log : Option (List Text)) : Response :=
  let logFields := log.toList.map fun ts => (Text.ofString "log", Json.arr (ts.map .str))
  { status, body := some (.obj (("success", .bool false) :: ("error", .str error) :: logFields)) }

/-- Why a time limit in a request is refused. -/
inductive TimeoutError where
  | notANumber (value : Json)
  | settings (e : SettingsError)
  | outOfRange

def TimeoutError.message : TimeoutError → Text
  | .notANumber v =>
    "float() argument must be a string or a real number, not '" ++ v.kindName ++ "'"
  | .settings e => e.message
  | .outOfRange => "int too large to convert to float"

/-- A time limit in a request: a number, or a text that spells one. Zero turns the limit off. -/
def requestedTimeout (v : Json) : Except TimeoutError Json := do
  let d ← match v with
    | .double d => pure d
    | .str t =>
      match readDouble? t with
      | some d => pure d
      | none => throw (.settings (.notADouble t))
    | v =>
      match v.whole? with
      | none => throw (.notANumber v)
      | some n =>
        match Double.ofInt? n with
        | some d => pure d
        | none => throw .outOfRange
  return if d.isZero then .null else .double d

/-- The settings of a request: those of the environment, with its own time limit if it has one. -/
def requestedSettings (environment : List (Text × Text)) (timeout : Json) :
    Except TimeoutError Settings := do
  let g ← (Settings.ofEnvironment environment).mapError .settings
  match timeout with
  | .null => return g
  | v => (g.withTimeout (← requestedTimeout v)).mapError .settings

/-- Numbers that can stand for an open file. None is a manifest. -/
def isHandle (n : Int) : Bool := -2147483648 ≤ n && n ≤ 2147483647

/-- How a request was dealt with, and the disk after it. -/
structure Served where
  disk : Disk
  reply : Reply

/-- Compiles the project under a path that a request names. -/
def convertAt (worker : Worker) (g : Settings) (d : Disk) (path : Text) : Served :=
  let run := runProject g worker d path
  { disk := run.disk
    reply := match run.result with
      | .ok report =>
        .answered { status := 200
                    body := some (.obj [("success", .bool true), ("data", report.toJson),
                      ("log", .arr (run.log.map .str))]) }
      | .error (.stopped s) => .escaped (.stopped s)
      | .error .endless => .endless
      | .error (.manifest (.notFound p)) =>
        .answered (.failed 404 (ManifestError.notFound p).message (some run.log))
      | .error e => .answered (.failed 500 e.message (some run.log)) }

/-- Answers a request for a conversion, with the JSON value that it carries. -/
def convert (worker : Worker) (d : Disk) (environment : List (Text × Text)) (value : Json) :
    Served :=
  let only (r : Reply) : Served := { disk := d, reply := r }
  let missing := only (.answered (.failed 400 "manifest_path is required" none))
  if !value.isGiven then missing
  else match value with
    | .obj fields =>
      let path := (field? "manifest_path" fields).getD .null
      if !path.isGiven then missing
      else match requestedSettings environment ((field? "timeout" fields).getD .null) with
        | .error .outOfRange => only (.escaped .timeoutOutOfRange)
        | .error e => only (.answered (.failed 400 ("Invalid configuration: " ++ e.message) none))
        | .ok g =>
          match path with
          | .str t => convertAt worker g d t
          | v =>
            match v.whole? with
            | some n =>
              if isHandle n then
                only (.answered (.failed 404 (ManifestError.notFound v.shown).message (some [])))
              else only (.escaped (.notAPath v))
            | none => only (.escaped (.notAPath v))
    | v => only (.escaped (.noFields v))

end BlockScript
