-- Runs: a project is compiled unit by unit into its output directory, and its
-- manifest is marked with the scripts that are there.
import BlockScript.Project.Batch
import BlockScript.Project.Manifest

namespace BlockScript

/-- Why a run gives no report. A run that waits for a unit without a time limit, and that unit never
ends, is endless. -/
inductive RunError where
  | manifest (e : ManifestError)
  | outputDirectory (e : DiskError)
  | stopped (s : Stop)
  | endless

/-- What is said of the error. An endless run says nothing. -/
def RunError.message : RunError → Text
  | .manifest e => e.message
  | .outputDirectory e => "Cannot create output directory: " ++ e.message
  | .stopped s => s.message
  | .endless => []

/-- Whether the tool reports the error as one of its own. -/
def RunError.isReported : RunError → Bool
  | .manifest _ | .outputDirectory _ => true
  | .stopped _ | .endless => false

/-- What a run leaves: the disk, the lines of its log, and its result. -/
structure RunResult (α : Type) where
  disk : Disk
  log : List Text
  result : Except RunError α

/-- How a unit's worker ends, or nothing if it never does. -/
abbrev Worker := WorkUnit → Option Ending

/-- A worker that nothing disturbs, with the numbers that it draws for each unit. -/
def honestWorker (draws : WorkUnit → Draws) : Worker := fun u => some (u.ending (draws u))

/-- The turns in which the units end one after the other, as they were dispatched. A unit that
never ends has its time run out in its turn. -/
def turnsInOrder (limit : Nat) (worker : Worker) (units : List WorkUnit) : List Batch.Turn :=
  units.mapIdx fun i u =>
    { endings := (worker u).toList.map fun e => (u.path, e), now := i + limit }

/-- The key under which a script is entered in a manifest. -/
def fieldKey : Json → Except Stop Text
  | .str t => .ok t
  | v => if v.isKey then .ok v.line else .error (.fieldNotAKey v)

/-- For each unit the file of its script, if it has one. -/
def marksOf (r : Report) (units : List WorkUnit) : List (Option Text) :=
  units.map fun u => (outcomeAt? u.path r.outcomes).bind fun o =>
    if o.success then some o.outputFile else none

/-- Marks a manifest with the scripts of a report. -/
def annotate (g : Settings) (manifest : List (Text × Json)) (units : List WorkUnit) (r : Report) :
    Except Stop (List (Text × Json)) :=
  let marks := marksOf r units
  if marks.all Option.isNone then .ok manifest
  else do return markManifest (← fieldKey g.scriptField) manifest marks

/-- The ticks that a unit has when there is a time limit. -/
def limitTicks : Nat := 1

/-- Dispatches and awaits units. A wait for longer than the clock allows stops the batch. -/
def Batch.work (worker : Worker) (b : Batch) (units : List WorkUnit) : Batch :=
  let b := b.dispatchAll limitTicks 0 units
  match b.stop, waitStop? b.settings.unitTimeout with
  | none, some s => if b.pending.isEmpty then b else { b with stop := some s }
  | _, _ => b.await (turnsInOrder limitTicks worker units)

/-! ## Runs -/

/-- Makes the output directory and collects the units of a manifest. -/
def prepare (g : Settings) (d : Disk) (home : Text) (manifest : Json) :
    Disk × Except RunError (List (Text × Json) × List WorkUnit) :=
  let (disk, made) := d.makeDirectories (Path.joined home g.outputDir)
  (disk, match made with
    | .error e =>
      match e.stop? with
      | some s => .error (.stopped s)
      | none => .error (.outputDirectory e)
    | .ok () =>
      match manifest with
      | .obj fields =>
        match collectUnits g fields with
        | .error e => .error (.stopped (.unencodable e))
        | .ok units => .ok (fields, units)
      | v => .error (.stopped (.notAManifest v)))

/-- The batch with which a run begins, once its output directory is there. -/
def begun (g : Settings) (home : Text) (disk : Disk) (units : List WorkUnit) : Batch :=
  ({ settings := g, home, disk, report := { total := units.length } } : Batch).say
    ("Transpiling " ++ Text.ofNat units.length ++ " unit(s)")

/-- What a run makes of its batch in the end. A unit that is pending then never ends. -/
def finish (g : Settings) (manifest : List (Text × Json)) (units : List WorkUnit) (b : Batch) :
    RunResult (Report × Json) :=
  let ended : Except RunError (List (Text × Json)) := match b.stop with
    | some s => .error (.stopped s)
    | none =>
      if b.pending.isEmpty then (annotate g manifest units b.report).mapError .stopped
      else .error .endless
  match ended with
  | .error e => { disk := b.disk, log := b.log, result := .error e }
  | .ok fields =>
    let b := b.say ("Done: " ++ Text.ofNat b.report.succeeded.length ++ " succeeded, "
      ++ Text.ofNat b.report.failed.length ++ " failed")
    { disk := b.disk, log := b.log, result := .ok (b.report, .obj fields) }

/-- Compiles the units of a manifest in memory into a directory. -/
def transpile (g : Settings) (worker : Worker) (d : Disk) (home : Text) (manifest : Json) :
    RunResult (Report × Json) :=
  match prepare g d home manifest with
  | (disk, .error e) => { disk, log := [], result := .error e }
  | (disk, .ok (fields, units)) =>
    finish g fields units ((begun g home disk units).work worker units)

/-- Saves the manifest of a run under a path. -/
def RunResult.save (path : Text) (run : RunResult (Report × Json)) : RunResult Report :=
  match run.result with
  | .error e => { run with result := .error e }
  | .ok (report, manifest) =>
    let (disk, saved) := run.disk.saveManifest path manifest
    match saved with
    | .ok () => { disk, log := run.log ++ ["Updated manifest " ++ path], result := .ok report }
    | .error e =>
      let error := match e.stop? with
        | some s => RunError.stopped s
        | none => .manifest (.unwritable e)
      { disk, log := run.log, result := .error error }

/-- Compiles the project of a manifest on disk, and saves the manifest with its marks. -/
def runProject (g : Settings) (worker : Worker) (d : Disk) (path : Text) : RunResult Report :=
  match d.loadManifest path with
  | .error e => { disk := d, log := [], result := .error (.manifest e) }
  | .ok fields => (transpile g worker d (Path.directoryOf d.work path) (.obj fields)).save path

end BlockScript
