-- The command line: its options, how arguments are read, and what a call
-- prints. An option can be cut short as long as one long spelling starts with
-- it, and short options can share one dash.
import BlockScript.Project.Run

namespace BlockScript

/-! ## Options -/

inductive Flag where
  | help
  | timeout
  | verbose
  | version
deriving DecidableEq

/-- The option as messages name it. -/
def Flag.label : Flag → Text
  | .help => "-h/--help"
  | .timeout => "--timeout"
  | .verbose => "--verbose/-v"
  | .version => "--version"

/-- Every spelling of every option. -/
def spellings : List (Text × Flag) :=
  [("-h", .help), ("--help", .help), ("--timeout", .timeout), ("--verbose", .verbose),
   ("-v", .verbose), ("--version", .version)]

/-- The option of a full spelling. -/
def flag? (t : Text) : Option Flag := spellings.lookup t

/-! ## Refusals -/

/-- Why arguments are refused. -/
inductive UsageError where
  | ambiguous (t : Text) (candidates : List Text)
  | unusedValue (f : Flag) (value : Text)
  | missingValue (f : Flag)
  | notADouble (f : Flag) (value : Text)
  | noManifest
  | unrecognized (ts : List Text)

def UsageError.message : UsageError → Text
  | .ambiguous t candidates =>
    "ambiguous option: " ++ t ++ " could match " ++ Text.joined ", " candidates
  | .unusedValue f value =>
    "argument " ++ f.label ++ ": ignored explicit argument " ++ value.shown
  | .missingValue f => "argument " ++ f.label ++ ": expected one argument"
  | .notADouble f value => "argument " ++ f.label ++ ": invalid float value: " ++ value.shown
  | .noManifest => "the following arguments are required: manifest"
  | .unrecognized ts => "unrecognized arguments: " ++ Text.joined " " ts

/-! ## Tokens -/

/-- What one argument is. A value is attached to an option if it stands in the same argument, after
an equals sign or right behind the letter of the option. -/
inductive Token where
  | word (t : Text)
  | divider
  | option (f : Flag) (isShort : Bool) (attached : Option Text)
  | unknown (t : Text)

/-- A short spelling is a dash and a letter. -/
def isShortSpelling (t : Text) : Bool := t.length = 2

/-- The argument before its first equals sign, and the value after it. -/
def splitEquals (t : Text) : Text × Option Text :=
  match t.splitFirst? (.char '=') with
  | some (name, value) => (name, some value)
  | none => (t, none)

/-- The readings of an argument with two dashes: all spellings that start with its name. -/
def longReadings (t : Text) : List (Text × Token) :=
  let (name, attached) := splitEquals t
  (spellings.filter fun s => s.1.startsWith name).map fun (s, f) => (s, .option f false attached)

/-- The readings of an argument with one dash: the option of its first letter, the rest attached,
and all spellings that start with it. -/
def shortReadings (t : Text) : List (Text × Token) :=
  spellings.filterMap fun (s, f) =>
    if s = t.take 2 then some (s, .option f true (some (t.drop 2)))
    else if s.startsWith t then some (s, .option f (isShortSpelling s) none)
    else none

/-- A minus sign and digits with at most one point among them. One newline at the end is
overlooked. -/
def isNegativeNumber (t : Text) : Bool :=
  match t.dropFinalNewline with
  | .char '-' :: rest =>
    let isDigit (g : Glyph) := g.digit?.isSome
    match rest.dropWhile isDigit with
    | [] => !rest.isEmpty
    | .char '.' :: part => !part.isEmpty && part.all isDigit
    | _ => false
  | _ => false

/-- What an argument is that starts with a dash and is no full spelling. -/
def Token.ofDashed (t : Text) : Except UsageError Token :=
  match (if t.startsWith "--" then longReadings t else shortReadings t) with
  | [(_, token)] => .ok token
  | [] =>
    .ok (if isNegativeNumber t || t.contains (.char ' ') then .word t else .unknown t)
  | readings => .error (.ambiguous t (readings.map Prod.fst))

/-- What an argument is. -/
def Token.ofText (t : Text) : Except UsageError Token :=
  if !t.startsWith "-" then .ok (.word t)
  else match flag? t with
    | some f => .ok (.option f (isShortSpelling t) none)
    | none =>
      if t.length = 1 then .ok (.word t)
      else
        let (name, attached) := splitEquals t
        match flag? name, attached with
        | some f, some value => .ok (.option f (isShortSpelling name) (some value))
        | _, _ => Token.ofDashed t

/-- The tokens of all arguments. After the divider every argument is a word. -/
def tokens : List Text → Except UsageError (List Token)
  | [] => .ok []
  | t :: rest =>
    if t = Text.ofString "--" then .ok (.divider :: rest.map .word)
    else do
      let token ← Token.ofText t
      return token :: (← tokens rest)

/-! ## Reading -/

/-- A time limit as the arguments give it. Two dashes attached to the option end its values before
the first one, which leaves it empty. -/
inductive GivenTimeout where
  | seconds (d : Double)
  | empty

/-- What a call asks for. -/
structure Invocation where
  manifest : Text
  timeout : Option GivenTimeout := none
  verbose : Bool := false

/-- What ends the reading of arguments before a run. -/
inductive Exit where
  | help
  | version
  | refused (e : UsageError)

/-- An invocation that is being read. -/
structure Draft where
  manifest : Option Text := none
  timeout : Option GivenTimeout := none
  verbose : Bool := false
  extras : List Text := []

namespace Draft

def extra (r : Draft) (t : Text) : Draft := { r with extras := r.extras ++ [t] }

/-- Takes an option that has no value. -/
def take (r : Draft) : Flag → Except Exit Draft
  | .help => .error .help
  | .version => .error .version
  | .verbose => .ok { r with verbose := true }
  | .timeout => .error (.refused (.missingValue .timeout))

def takeTimeout (r : Draft) (value : Text) : Except Exit Draft :=
  if value = Text.ofString "--" then .ok { r with timeout := some .empty }
  else match readDouble? value with
    | some d => .ok { r with timeout := some (.seconds d) }
    | none => .error (.refused (.notADouble .timeout value))

/-- The options that share one dash: the first of them and those whose letters follow. A letter
that is no option makes all that is left a value that the option before it has no use for. -/
def cluster (f : Flag) : (letters : Text) → Except UsageError (List Flag)
  | [] => .ok [f]
  | g :: rest =>
    match flag? [.char '-', g] with
    | none => .error (.unusedValue f (g :: rest))
    | some next => do return f :: (← cluster next rest)

/-- Takes an option with a value attached. A short option without values reads it as further
letters, also after an equals sign. -/
def takeAttached (r : Draft) (f : Flag) (isShort : Bool) (value : Text) : Except Exit Draft :=
  if f = .timeout then r.takeTimeout value
  else if !isShort || value.isEmpty then .error (.refused (.unusedValue f value))
  else do
    let flags ← (cluster f value).mapError .refused
    flags.foldlM take r

/-- Reads tokens. The first word is the manifest, and a divider next to it is dropped; what has no
other use is extra. -/
def read (r : Draft) : List Token → Except Exit Draft
  | [] => .ok r
  | .word t :: rest =>
    if r.manifest.isSome then (r.extra t).read rest
    else
      let r := { r with manifest := some t }
      match rest with
      | .divider :: rest => r.read rest
      | rest => r.read rest
  | .divider :: rest =>
    if r.manifest.isSome then (r.extra "--").read rest
    else match rest with
      | .word t :: rest => { r with manifest := some t }.read rest
      | rest => r.read rest
  | .unknown t :: rest => (r.extra t).read rest
  | .option f isShort (some value) :: rest => do
    let r ← r.takeAttached f isShort value
    r.read rest
  | .option .timeout _ none :: rest =>
    match rest with
    | .word t :: rest => do
      let r ← r.takeTimeout t
      r.read rest
    | _ => .error (.refused (.missingValue .timeout))
  | .option f _ none :: rest => do
    let r ← r.take f
    r.read rest

end Draft

/-- Reads the arguments of a call. A manifest is needed, and nothing may be left over. -/
def Invocation.read (arguments : List Text) : Except Exit Invocation := do
  let r ← Draft.read {} (← (tokens arguments).mapError .refused)
  match r.manifest with
  | none => throw (.refused .noManifest)
  | some manifest =>
    unless r.extras.isEmpty do throw (.refused (.unrecognized r.extras))
    return { manifest, timeout := r.timeout, verbose := r.verbose }

/-! ## Calls -/

def toolName : Text := "entry2js"

def toolVersion : Text := "0.1.0"

def usage : Text := "usage: entry2js [-h] [--timeout TIMEOUT] [--verbose] [--version] manifest\n"

def helpText : Text :=
  usage
    ++ "\nTranspile an extracted Entry project into FastEntry JavaScript.\n"
    ++ "\npositional arguments:\n"
    ++ "  manifest           path to the extracted project.json\n"
    ++ "\noptions:\n"
    ++ "  -h, --help         show this help message and exit\n"
    ++ "  --timeout TIMEOUT  seconds allowed per object (default:\n"
    ++ "                     ENTRY2JS_UNIT_TIMEOUT or 30)\n"
    ++ "  --verbose, -v      enable debug logging\n"
    ++ "  --version          show program's version number and exit\n"

/-- What a call prints, and the code it exits with. -/
structure Printed where
  code : Nat
  out : Text := []
  err : Text := []

def Exit.printed : Exit → Printed
  | .help => { code := 0, out := helpText }
  | .version => { code := 0, out := toolName ++ " " ++ toolVersion ++ "\n" }
  | .refused e => { code := 2, err := usage ++ toolName ++ ": error: " ++ e.message ++ "\n" }

/-- Why a call does not end with printing anything of its own, if it ends at all. -/
inductive CallError where
  | settings (e : SettingsError)
  | stopped (s : Stop)
  | endless

/-- What a call leaves. -/
structure CallResult where
  disk : Disk
  printed : Except CallError Printed

def lines (ts : List Text) : Text := ts.flatMap fun t => t ++ "\n"

/-- A line of the summary. -/
def summaryLine (o : UnitOutcome) : Text :=
  (if o.success then "  ok     " else "  FAILED " : Text) ++ o.label ++ " -> " ++ o.outputFile

/-- The settings of an invocation. A time limit that is not positive turns the limit off, and an
empty one cannot be compared. -/
def Invocation.settings (i : Invocation) (environment : List (Text × Text)) :
    Except SettingsError Settings := do
  let g ← Settings.ofEnvironment environment
  match i.timeout with
  | none => return g
  | some .empty => throw (.notOrdered ">" (.arr []))
  | some (.seconds d) => g.withTimeout (if d.isPositive then .double d else .null)

/-- Runs a project from the command line. -/
def call (worker : Worker) (d : Disk) (environment : List (Text × Text)) (arguments : List Text) :
    CallResult :=
  match Invocation.read arguments with
  | .error x => { disk := d, printed := .ok x.printed }
  | .ok i =>
    match i.settings environment with
    | .error e => { disk := d, printed := .error (.settings e) }
    | .ok g =>
      let run := runProject g worker d i.manifest
      let printed : Except CallError Printed := match run.result with
        | .ok report => .ok { code := 0, out := lines (run.log ++ report.all.map summaryLine) }
        | .error (.stopped s) => .error (.stopped s)
        | .error .endless => .error .endless
        | .error e => .ok { code := 1, out := lines run.log, err := "Error: " ++ e.message ++ "\n" }
      { disk := run.disk, printed }

end BlockScript
