-- The command of the tool. It takes what a call can touch from the file system
-- into a disk in memory, makes the call there, and carries the changes back.
import BlockScript.CommandLine

namespace BlockScript

/-- The place as an absolute path. -/
def Place.path (p : Place) : String := "/" ++ (Text.joined "/" (p.map EntryName.text)).toString

/-- Takes over what is at a place, if anything is. -/
def Disk.takeOver (d : Disk) (p : Place) : IO Disk := do
  match ← (IO.FS.realPath p.path).toBaseIO with
  | .error _ => return d
  | .ok path =>
    if ← path.isDir then return d.put p .directory
    else return d.put p (.file (← IO.FS.readBinFile path).toList)

/-- Takes over every place along a path. -/
def Disk.takeOverPath (d : Disk) (t : Text) : IO Disk := do
  let mut d := d
  let mut place : Place := []
  for name in d.namesOf t do
    if name = Text.ofString ".." then place := place.dropLast
    else unless name.isEmpty || name = Text.ofString "." do
      place := place ++ [.ofText name]
      d ← d.takeOver place
  return d

/-- Takes over what stands in the directory under a path. -/
def Disk.takeOverEntries (d : Disk) (t : Text) : IO Disk := do
  match d.stat t with
  | .ok (place, .directory) =>
    let mut d := d
    for entry in ← (← IO.FS.realPath place.path).readDir do
      d ← d.takeOver (place ++ [EntryName.ofText entry.fileName])
    return d
  | _ => return d

/-- Carries what the second disk has and the first has not to the file system. -/
def carryBack (before after : Disk) : IO Unit :=
  for (place, item) in after.items do
    unless before.item? place = some item do
      match item with
      | .directory => IO.FS.createDir place.path
      | .file content => IO.FS.writeBinFile place.path ⟨content.toArray⟩

/-- The part of the environment that has settings. -/
def settingsEnvironment : IO (List (Text × Text)) :=
  ["ENTRY2JS_UNIT_TIMEOUT", "ENTRY2JS_OUTPUT_DIR", "ENTRY2JS_START_METHOD",
    "ENTRY2JS_INDENT_SIZE"].filterMapM fun key => do
      return (← IO.getEnv key).map fun value => (Text.ofString key, Text.ofString value)

/-- The disk that a call works on: what is along the paths of its manifest and of its output
directory, and what is in that directory. -/
def diskFor (environment : List (Text × Text)) (arguments : List Text) : IO Disk := do
  let d : Disk := { work := Text.ofString (← IO.currentDir).toString }
  match Invocation.read arguments with
  | .error _ => return d
  | .ok i =>
    let d ← d.takeOverPath i.manifest
    match i.settings environment with
    | .error _ => return d
    | .ok g =>
      let out := Path.joined (Path.directoryOf d.work i.manifest) g.outputDir
      (← d.takeOverPath out).takeOverEntries out

def CallError.message : CallError → Text
  | .settings e => e.message
  | .stopped s => s.message
  | .endless => []

/-- Numbers are drawn below this, which has one digit more than a name keeps. -/
def drawLimit : Nat := 0x100000000

/-- Numbers for the names of a unit, from a seed. -/
def seededDraws (seed : Nat) (u : WorkUnit) : Draws :=
  fun way => (hash (seed, u.path.toString, way)).toNat % drawLimit

end BlockScript

open BlockScript in
def main (arguments : List String) : IO UInt32 := do
  let arguments := arguments.map Text.ofString
  let environment ← settingsEnvironment
  let disk ← diskFor environment arguments
  let seed ← IO.rand 0 drawLimit
  let result := call (honestWorker (seededDraws seed)) disk environment arguments
  carryBack disk result.disk
  match result.printed with
  | .ok printed =>
    IO.print printed.out.toString
    IO.eprint printed.err.toString
    return printed.code.toUInt32
  | .error e =>
    IO.eprintln e.message.toString
    return 1
