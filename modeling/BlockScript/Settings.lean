-- Settings of a run: how long a unit may take, where the scripts go, what the
-- manifest and the error logs are marked with, and how code is indented. They
-- come from named fields or from the environment and are checked in one order.
import BlockScript.Double.Reader
import BlockScript.Json.Shown

namespace BlockScript

/-- The settings of a run. Numbers are kept in the kind in which they were given. -/
structure Settings where
  /-- Seconds per unit; null waits forever. -/
  unitTimeout : Json := .double (Double.nearest false 30 1)
  outputDir : Text := "script"
  scriptField : Json := .str "scriptFile"
  errorLogSuffix : Json := .str ".error.log"
  startMethod : Option Text := none
  indent : Json := .int 2

/-! ## What can be wrong -/

inductive SettingsError where
  | unknownField (name : Text)
  | notOrdered (sign : Text) (value : Json)
  | timeoutNotPositive
  | outputDirNotRelative
  | notAPath (value : Json)
  | indentTooSmall
  | unknownStartMethod (value : Json)
  | notADouble (t : Text)
  | notAnInteger (t : Text)
  | integerTooLong (digits : Nat)

/-- The message of an error. The text that is no integer is shown in at most 200 glyphs. -/
def SettingsError.message : SettingsError → Text
  | .unknownField name =>
    "TranspilerConfig.__init__() got an unexpected keyword argument '" ++ name ++ "'"
  | .notOrdered sign v =>
    "'" ++ sign ++ "' not supported between instances of '" ++ v.kindName ++ "' and 'int'"
  | .timeoutNotPositive => "unit_timeout must be positive or None"
  | .outputDirNotRelative => "output_dir_name must be a non-empty relative path"
  | .notAPath v => "expected str, bytes or os.PathLike object, not " ++ v.kindName
  | .indentTooSmall => "indent_size must be at least 1"
  | .unknownStartMethod v => "Unknown start method: " ++ v.shown
  | .notADouble t => "could not convert string to float: " ++ t.shown
  | .notAnInteger t => "invalid literal for int() with base 10: " ++ t.shown.take 200
  | .integerTooLong digits => Text.tooLongMessage digits

/-! ## Checks -/

/-- Whether a number is positive. -/
def Json.positive? : Json → Option Bool
  | .double d => some d.isPositive
  | v => v.whole?.map fun n => 0 < n

/-- Whether a number is less than one. -/
def Json.belowOne? : Json → Option Bool
  | .double d => some (d.ltInt 1)
  | v => v.whole?.map fun n => n < 1

/-- A time limit is null or a positive number. -/
def checkTimeout : Json → Except SettingsError Json
  | .null => .ok .null
  | v =>
    match v.positive? with
    | some true => .ok v
    | some false => .error .timeoutNotPositive
    | none => .error (.notOrdered ">" v)

/-- An output directory is a relative path. -/
def checkOutputDir (v : Json) : Except SettingsError Text :=
  match v with
  | .str t =>
    if t.isEmpty || t.startsWith "/" then .error .outputDirNotRelative else .ok t
  | v => .error (if v.isGiven then .notAPath v else .outputDirNotRelative)

/-- An indentation is a number that is not below one. -/
def checkIndent (v : Json) : Except SettingsError Json :=
  match v.belowOne? with
  | some true => .error .indentTooSmall
  | some false => .ok v
  | none => .error (.notOrdered "<" v)

def startMethods : List Text := ["fork", "spawn", "forkserver"]

def checkStartMethod : Json → Except SettingsError (Option Text)
  | .null => .ok none
  | .str t =>
    if startMethods.contains t then .ok (some t) else .error (.unknownStartMethod (.str t))
  | v => .error (.unknownStartMethod v)

namespace Settings

def fieldNames : List Text :=
  ["unit_timeout", "output_dir_name", "script_field", "error_log_suffix", "start_method",
   "indent_size"]

/-- The settings with the given fields; fields that are missing have their defaults. -/
def ofFields (fields : List (Text × Json)) : Except SettingsError Settings := do
  if let some (name, _) := fields.find? fun f => !fieldNames.contains f.1 then
    throw (.unknownField name)
  let usual : Settings := {}
  let value (key : Text) (other : Json) := (field? key fields).getD other
  let unitTimeout ← checkTimeout (value "unit_timeout" usual.unitTimeout)
  let outputDir ← checkOutputDir (value "output_dir_name" (.str usual.outputDir))
  let indent ← checkIndent (value "indent_size" usual.indent)
  let startMethod ← checkStartMethod (value "start_method" .null)
  return {
    unitTimeout, outputDir, startMethod, indent
    scriptField := value "script_field" usual.scriptField
    errorLogSuffix := value "error_log_suffix" usual.errorLogSuffix }

/-- The settings with another time limit. -/
def withTimeout (g : Settings) (timeout : Json) : Except SettingsError Settings := do
  return { g with unitTimeout := ← checkTimeout timeout }

/-! ## From the environment -/

/-- The words that turn the time limit off. -/
def noTimeoutWords : List Text := ["", "0", "none"]

def timeoutOfText (t : Text) : Except SettingsError Json :=
  if noTimeoutWords.contains (t.strip.map Glyph.lower) then .ok .null
  else match readDouble? t with
    | some d => .ok (.double d)
    | none => .error (.notADouble t)

def integerOfText (t : Text) : Except SettingsError Json :=
  match readInt t with
  | .number n => .ok (.int n)
  | .notANumber => .error (.notAnInteger t)
  | .tooLong digits => .error (.integerTooLong digits)

/-- The settings that an environment gives. Its texts are read first, the time limit before the
indentation, and then all settings are checked. -/
def ofEnvironment (environment : List (Text × Text)) : Except SettingsError Settings := do
  let value? (key : Text) := environment.lookup key
  let given (key : Text) := (value? key).filter (!·.isEmpty)
  let timeout ← (value? "ENTRY2JS_UNIT_TIMEOUT").mapM timeoutOfText
  let indent ← (given "ENTRY2JS_INDENT_SIZE").mapM integerOfText
  let field (key : Text) (v : Option Json) : List (Text × Json) := v.toList.map fun v => (key, v)
  ofFields <|
    field "unit_timeout" timeout
      ++ field "output_dir_name" ((given "ENTRY2JS_OUTPUT_DIR").map .str)
      ++ field "start_method" ((given "ENTRY2JS_START_METHOD").map .str)
      ++ field "indent_size" indent

end Settings

end BlockScript
