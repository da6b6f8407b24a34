-- Batches: all units of a run, first dispatched and then awaited. A unit ends
-- in one of several ways, each way settles it once, and what it leaves is its
-- script or its error log, its outcome in the report and a line in the log.
import BlockScript.Project.Disk
import BlockScript.Project.WorkUnit

namespace BlockScript

/-! ## Endings -/

/-- How the work on a unit ends: with its script, with a failure, without any answer from the
worker, with an answer that cannot be read, or by running out of time. -/
inductive Ending where
  | script (source : Text)
  | failed (message : Text)
  | lost (code : Int)
  | unreadable (message : Text)
  | timedOut

/-- A failed unit: what the message says, and whether the error log shows a trace. -/
structure UnitFailure where
  message : Text
  traced : Bool

/-- A number of seconds with six digits at most. Whole numbers past the range have no such form. -/
def briefSeconds : Json → Text
  | .double d => d.brief
  | v => ((v.whole?.bind Double.ofInt?).map Double.brief).getD []

/-- The message for a unit that ran out of time. -/
def timeoutMessage (id : Text) (timeout : Json) : Text :=
  "Unit " ++ id ++ " did not finish within " ++ briefSeconds timeout ++ "s and was terminated"

/-- The script of a unit that ended well, or its failure. -/
def Ending.result (timeout : Json) (id : Text) : Ending → Except UnitFailure Text
  | .script source => .ok source
  | .failed message => .error { message, traced := true }
  | .lost code =>
    .error { message := "Worker exited with code " ++ Text.ofInt code ++ " without a result"
             traced := false }
  | .unreadable message =>
    .error { message := "Cannot read worker result: " ++ message, traced := true }
  | .timedOut => .error { message := timeoutMessage id timeout, traced := false }

/-- What a unit ends with when nothing disturbs its worker. -/
def WorkUnit.ending (u : WorkUnit) (draws : Draws) : Ending :=
  match u.source draws with
  | .ok source => .script source
  | .error f => .failed f.report

/-! ## Stops -/

/-- Why a run stops between two units, with all that it has done so far kept. -/
inductive Stop where
  | notAManifest (value : Json)
  | unencodable (e : EncodeError)
  | nullByte
  | suffixNotText (value : Json)
  | fieldNotAKey (value : Json)
  | timeoutOutOfRange
  | timeoutInfinite
  | timeoutPastClock
  | timeoutPastWait

def Stop.message : Stop → Text
  | .notAManifest v => "'" ++ v.kindName ++ "' object has no attribute 'get'"
  | .unencodable e => e.message
  | .nullByte => "embedded null byte"
  | .suffixNotText v => "can only concatenate str (not \"" ++ v.kindName ++ "\") to str"
  | .fieldNotAKey v => (Fault.notAKey v).message
  | .timeoutOutOfRange => "int too large to convert to float"
  | .timeoutInfinite => "cannot convert float infinity to integer"
  | .timeoutPastClock => "timestamp too large to convert to C _PyTime_t"
  | .timeoutPastWait => "timeout is too large"

/-- The stop that a call to the disk makes, unless the disk itself did not take it. -/
def DiskError.stop? : DiskError → Option Stop
  | .refused _ _ | .brokenOff _ => none
  | .nullByte => some .nullByte
  | .unencodable e => some (.unencodable e)

/-! ## Batches -/

/-- A unit that was dispatched and not yet settled, and when its time is up. -/
structure Flight where
  unit : WorkUnit
  deadline : Option Nat

/-- A run under way. Once stopped, it does nothing more. -/
structure Batch where
  settings : Settings
  /-- The directory of the project. -/
  home : Text
  disk : Disk
  report : Report := {}
  log : List Text := []
  pending : List Flight := []
  stop : Option Stop := none

namespace Batch

/-- Adds a line to the log. -/
def say (b : Batch) (line : Text) : Batch := { b with log := b.log ++ [line] }

/-- A place in the run, as the log shows it. -/
def place (b : Batch) (n : Nat) : Text :=
  "[" ++ Text.ofNat n ++ "/" ++ Text.ofInt b.report.total ++ "]"

/-! ### Dispatch -/

/-- Whether a time limit is past the range of doubles, so that no deadline can be set. -/
def outOfRange (timeout : Json) : Bool :=
  match timeout.whole? with
  | some n => (Double.ofInt? n).isNone
  | none => false

/-- Dispatches a unit at a time of the clock. A unit has `limit` ticks if there is a time limit. -/
def dispatch (limit : Nat) (b : Batch) (now : Nat) (u : WorkUnit) : Batch :=
  if b.stop.isSome then b
  else
    let b := { b with report := b.report.start }
    let b := b.say (b.place b.report.started ++ " Started " ++ u.label)
    match b.settings.unitTimeout with
    | .null => { b with pending := b.pending ++ [{ unit := u, deadline := none }] }
    | timeout =>
      if outOfRange timeout then { b with stop := some .timeoutOutOfRange }
      else { b with pending := b.pending ++ [{ unit := u, deadline := some (now + limit) }] }

/-- Dispatches units one tick apart. -/
def dispatchAll (limit : Nat) : Batch → Nat → List WorkUnit → Batch
  | b, _, [] => b
  | b, now, u :: rest => dispatchAll limit (b.dispatch limit now u) (now + 1) rest

/-! ### Settling -/

/-- The text of an error log. -/
def errorLog (u : WorkUnit) (f : UnitFailure) : Text :=
  "Unit: " ++ u.label ++ "\nMessage: " ++ f.message ++ "\n"
    ++ (if f.traced then Text.ofString "\n<trace>\n" else [])

/-- The file of an error log: the path of the script with another ending. -/
def logFile (g : Settings) (u : WorkUnit) : Except Stop Text :=
  match g.errorLogSuffix with
  | .str suffix => .ok (u.path.take (u.path.length - 3) ++ suffix)
  | v => .error (.suffixNotText v)

/-- Counts a unit as settled and says so. -/
def record (b : Batch) (u : WorkUnit) (file : Text) (message : Option Text) : Batch :=
  let success := message.isNone
  let b := { b with
    report := b.report.add u.path
      { id := u.id, kind := u.kind, label := u.label, success, outputFile := file, message } }
  b.say (b.place b.report.processed ++ match message with
    | none => " Transpiled " ++ u.label ++ " -> " ++ file
    | some m => " Failed " ++ u.label ++ ": " ++ m)

/-- Settles a unit that failed. That its error log cannot be written is overlooked. -/
def settleFailure (b : Batch) (u : WorkUnit) (f : UnitFailure) : Batch :=
  match logFile b.settings u with
  | .error s => { b with stop := some s }
  | .ok file =>
    let (disk, r) := b.disk.writeText (Path.joined b.home file) (errorLog u f)
    let b := { b with disk }
    match r with
    | .ok () => b.record u file (some f.message)
    | .error e =>
      match e.stop? with
      | some s => { b with stop := some s }
      | none => b.record u file (some f.message)

/-- Settles a unit that has its script. That the script cannot be written is a failure too. -/
def settleScript (b : Batch) (u : WorkUnit) (source : Text) : Batch :=
  let (disk, r) := b.disk.writeText (Path.joined b.home u.path) source
  let b := { b with disk }
  match r with
  | .ok () => b.record u u.path none
  | .error e =>
    match e.stop? with
    | some s => { b with stop := some s }
    | none =>
      b.settleFailure u
        { message := "Cannot write " ++ u.path ++ ": " ++ e.message, traced := true }

/-- Settles a unit. -/
def settle (b : Batch) (u : WorkUnit) (e : Ending) : Batch :=
  if b.stop.isSome then b
  else match e.result b.settings.unitTimeout u.id with
    | .ok source => b.settleScript u source
    | .error f => b.settleFailure u f

/-! ### Waiting -/

/-- One turn of waiting: the units that ended, by their paths, and the time after they were
settled. -/
structure Turn where
  endings : List (Text × Ending)
  now : Nat

/-- Settles a pending unit that ended. -/
def answer (b : Batch) (path : Text) (e : Ending) : Batch :=
  match b.pending.find? fun f => f.unit.path = path with
  | none => b
  | some f => { b with pending := b.pending.filter fun f => f.unit.path ≠ path }.settle f.unit e

def isUp (now : Nat) (f : Flight) : Bool :=
  match f.deadline with
  | some t => t ≤ now
  | none => false

/-- Settles the pending units whose time is up. -/
def expire (b : Batch) (now : Nat) : Batch :=
  (b.pending.filter (isUp now)).foldl (fun b f => b.answer f.unit.path .timedOut) b

def turn (b : Batch) (t : Turn) : Batch :=
  (t.endings.foldl (fun b e => b.answer e.1 e.2) b).expire t.now

/-- Waits for a sequence of turns. -/
def await (b : Batch) (turns : List Turn) : Batch := turns.foldl turn b

end Batch

/-! ## Time limits of the clock -/

/-- The longest wait in milliseconds. -/
def longestWait : Int := 2147483647

/-- The greatest time of the clock in nanoseconds. -/
def greatestTime : Int := 9223372036854775807

/-- What is greater, in milliseconds, is past the range of doubles. -/
def greatestDouble : Int := .ofNat (Double.twoTo 1024 - Double.twoTo 970 - 1)

/-- Why a wait with this time limit cannot even begin. -/
def waitStop? (timeout : Json) : Option Stop :=
  let past (d : Double) (n : Int) (scale : Nat) : Bool :=
    match d with
    | .finite false m e =>
      let (a, b) := Double.fraction false m e
      n * b < a * scale
    | .infinity false => true
    | _ => false
  let judge (d : Double) : Option Stop :=
    if d = .infinity false ∨ past d greatestDouble 1000 then some .timeoutInfinite
    else if past d greatestTime 1000000000 then some .timeoutPastClock
    else if past d longestWait 1000 then some .timeoutPastWait
    else none
  match timeout with
  | .double d => judge d
  | v => (v.whole?.bind Double.ofInt?).bind judge

end BlockScript
