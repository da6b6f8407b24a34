-- A disk in memory: directories and files under the paths that lead to them.
-- Paths are followed name by name, and a call that cannot be carried out is
-- refused for a cause with the number that POSIX systems give it. What may go
-- wrong with a write at a place is part of the disk.
import BlockScript.Project.Path
import BlockScript.Text.Shown
import BlockScript.Text.Utf8

namespace BlockScript

/-! ## Causes -/

/-- Why a call is refused. -/
inductive DiskCause where
  | noEntry
  | exists
  | notDirectory
  | isDirectory
  | nameTooLong
  | denied
  | readOnly
deriving DecidableEq

def DiskCause.number : DiskCause → Nat
  | .noEntry => 2
  | .exists => 17
  | .notDirectory => 20
  | .isDirectory => 21
  | .nameTooLong => 36
  | .denied => 13
  | .readOnly => 30

def DiskCause.text : DiskCause → Text
  | .noEntry => "No such file or directory"
  | .exists => "File exists"
  | .notDirectory => "Not a directory"
  | .isDirectory => "Is a directory"
  | .nameTooLong => "File name too long"
  | .denied => "Permission denied"
  | .readOnly => "Read-only file system"

/-- Why the writing of a file breaks off. -/
inductive BreakCause where
  | inputOutput
  | tooLarge
  | noSpace
  | overQuota
deriving DecidableEq

def BreakCause.number : BreakCause → Nat
  | .inputOutput => 5
  | .tooLarge => 27
  | .noSpace => 28
  | .overQuota => 122

def BreakCause.text : BreakCause → Text
  | .inputOutput => "Input/output error"
  | .tooLarge => "File too large"
  | .noSpace => "No space left on device"
  | .overQuota => "Disk quota exceeded"

/-- What goes wrong with a call: it is refused, it breaks off, or its path or its text cannot be
handed over. -/
inductive DiskError where
  | refused (cause : DiskCause) (path : Text)
  | brokenOff (cause : BreakCause)
  | nullByte
  | unencodable (e : EncodeError)

def DiskError.message : DiskError → Text
  | .refused cause path =>
    "[Errno " ++ Text.ofNat cause.number ++ "] " ++ cause.text ++ ": " ++ path.shown
  | .brokenOff cause => "[Errno " ++ Text.ofNat cause.number ++ "] " ++ cause.text
  | .nullByte => "embedded null byte"
  | .unencodable e => e.message

/-! ## Places -/

/-- The name of an entry in a directory. A disk knows names by their bytes. -/
structure EntryName where
  bytes : List UInt8
deriving DecidableEq

def EntryName.ofText (t : Text) : EntryName := ⟨t.pathBytes⟩

/-- The name as a part of paths. -/
def EntryName.text (name : EntryName) : Text := Text.readPathFrom 0 name.bytes

instance : Coe String EntryName := ⟨fun s => .ofText s⟩

/-- Where something is: the names that lead to it from the root. -/
abbrev Place := List EntryName

inductive Item where
  | directory
  | file (content : List UInt8)
deriving DecidableEq

/-- What stands in the way of writing at a place: nothing may be made or opened there, or only so
many bytes fit. -/
inductive Hurdle where
  | shut (cause : DiskCause)
  | full (room : Nat) (cause : BreakCause)

/-- What is on a disk, besides its root, the path of the directory that relative paths start from,
and the places where writing meets a hurdle. -/
structure Disk where
  items : List (Place × Item) := []
  work : Text := "/"
  hurdle? : Place → Option Hurdle := fun _ => none

/-- Puts an item at a place. -/
def setItem (place : Place) (item : Item) : List (Place × Item) → List (Place × Item)
  | [] => [(place, item)]
  | (p, old) :: rest => if p = place then (p, item) :: rest else (p, old) :: setItem place item rest

namespace Disk

/-- What is at a place. The root is a directory. -/
def item? (d : Disk) (p : Place) : Option Item :=
  if p.isEmpty then some .directory else d.items.lookup p

def put (d : Disk) (p : Place) (item : Item) : Disk := { d with items := setItem p item d.items }

/-- The disk without a place and everything below it. -/
def remove (d : Disk) (p : Place) : Disk :=
  { d with items := d.items.filter fun i => !p.isPrefixOf i.1 }

/-! ## Following paths -/

/-- Names and paths have at most so many bytes. -/
def nameLimit : Nat := 255

def pathLimit : Nat := 4095

/-- The number of bytes of a path. -/
def byteSize (t : Text) : Nat := t.pathBytes.length

/-- Follows names from a place. Every place that a name is looked up in has to be a directory. -/
def follow (d : Disk) : Place → List Text → Except DiskCause Place
  | p, [] => .ok p
  | p, name :: rest =>
    match d.item? p with
    | none => .error .noEntry
    | some (.file _) => .error .notDirectory
    | some .directory =>
      if name.isEmpty || name = Text.ofString "." then d.follow p rest
      else if name = Text.ofString ".." then d.follow p.dropLast rest
      else if byteSize name > nameLimit then .error .nameTooLong
      else d.follow (p ++ [.ofText name]) rest

/-- The names of a path, from the root on. -/
def namesOf (d : Disk) (t : Text) : List Text := (Path.joined d.work t).splitOn Path.slash

/-- A path that can be handed over: it has bytes, and no null in it. -/
def checkPath (t : Text) : Except DiskError Unit := do
  if let some e := t.pathError? then throw (.unencodable e)
  if t.contains (.char '\x00') then throw .nullByte
  if t.isEmpty then throw (.refused .noEntry t)
  if byteSize t > pathLimit then throw (.refused .nameTooLong t)

/-- What a path leads to. -/
def stat (d : Disk) (t : Text) : Except DiskError (Place × Item) := do
  checkPath t
  let p ← (d.follow [] (d.namesOf t)).mapError (.refused · t)
  match d.item? p with
  | some item => return (p, item)
  | none => throw (.refused .noEntry t)

def exists? (d : Disk) (t : Text) : Bool :=
  match d.stat t with
  | .ok _ => true
  | .error _ => false

def isDirectory (d : Disk) (t : Text) : Bool :=
  match d.stat t with
  | .ok (_, .directory) => true
  | _ => false

/-- The bytes of the file that a path leads to, if it leads to one. -/
def file? (d : Disk) (t : Text) : Option (List UInt8) :=
  match d.stat t with
  | .ok (_, .file content) => some content
  | _ => none

/-! ## Making and writing -/

/-- The place under which the last name of a path stands, and that name. Slashes at the end of the
path do not count. -/
def lastPlace (d : Disk) (t : Text) : Except DiskCause (Place × Text) := do
  let names := d.namesOf (Path.dropSlashes t)
  let name := names.getLast?.getD []
  let p ← d.follow [] names.dropLast
  return (← d.follow p [name], name)

/-- A name that stands for a directory that is there. -/
def isDots (name : Text) : Bool := name = Text.ofString "." || name = Text.ofString ".."

/-- The place, unless it is shut. -/
def unlocked (d : Disk) (p : Place) : Except DiskCause Place :=
  match d.hurdle? p with
  | some (.shut cause) => .error cause
  | _ => .ok p

/-- The place of a directory that can be made under a path. -/
def freePlace (d : Disk) (t : Text) : Except DiskCause Place := do
  let (p, name) ← d.lastPlace t
  if isDots name || (d.item? p).isSome then throw .exists
  d.unlocked p

/-- Makes one directory. -/
def makeDirectory (d : Disk) (t : Text) : Except DiskError Disk := do
  checkPath t
  let p ← (d.freePlace t).mapError (.refused · t)
  return d.put p .directory

/-- Makes one directory, and lets one that is there be. -/
def ensureDirectory (d : Disk) (t : Text) : Disk × Except DiskError Unit :=
  match d.makeDirectory t with
  | .ok d => (d, .ok ())
  | .error (.refused cause path) =>
    (d, if d.isDirectory t then .ok () else .error (.refused cause path))
  | .error e => (d, .error e)

/-- Makes a directory and the directories above it, `fuel` levels up at most. That something is
there already is overlooked above, and so is a last name that is a dot. -/
def makeDirectoriesWithin (d : Disk) : (fuel : Nat) → Text → Disk × Except DiskError Unit
  | 0, t => d.ensureDirectory t
  | fuel + 1, t =>
    let (front, name) := match Path.split t with
      | (front, []) => Path.split front
      | parts => parts
    if front.isEmpty || name.isEmpty || d.exists? front then d.ensureDirectory t
    else match d.makeDirectoriesWithin fuel front with
      | (d, .ok ()) | (d, .error (.refused .exists _)) =>
        if name = Text.ofString "." then (d, .ok ()) else d.ensureDirectory t
      | (d, .error e) => (d, .error e)

/-- Makes a directory with all directories above it. -/
def makeDirectories (d : Disk) (t : Text) : Disk × Except DiskError Unit :=
  d.makeDirectoriesWithin t.length t

/-- The place of a file that can be written under a path. A path with a slash at its end is one of
a directory. -/
def filePlace (d : Disk) (t : Text) : Except DiskCause Place := do
  let (p, name) ← d.lastPlace t
  if t.getLast? = some Path.slash || isDots name || d.item? p = some .directory then
    throw .isDirectory
  d.unlocked p

/-- The bytes of the pieces up to the first that has none, and the error of that one. -/
def encodePieces : List Text → List UInt8 × Except EncodeError Unit
  | [] => ([], .ok ())
  | t :: rest =>
    match t.utf8 with
    | .error e => ([], .error e)
    | .ok bytes =>
      let (more, r) := encodePieces rest
      (bytes ++ more, r)

/-- The place of a file that can be opened for writing under a path. -/
def open? (d : Disk) (t : Text) : Except DiskError Place := do
  checkPath t
  (d.filePlace t).mapError (.refused · t)

/-- The bytes that are left at a place when bytes are written there. -/
def leftAt (d : Disk) (p : Place) (bytes : List UInt8) : List UInt8 :=
  match d.hurdle? p with
  | some (.full room _) => bytes.take room
  | _ => bytes

/-- Why the writing of so many bytes at a place breaks off, if it does. -/
def breakAt? (d : Disk) (p : Place) (size : Nat) : Option BreakCause :=
  match d.hurdle? p with
  | some (.full room cause) => if room < size then some cause else none
  | _ => none

/-- Writes pieces at a place. A piece that cannot be encoded ends the writing and leaves the pieces
before it, unless not even those fit. -/
def writeAt (d : Disk) (p : Place) (pieces : List Text) : Disk × Except DiskError Unit :=
  let (bytes, r) := encodePieces pieces
  (d.put p (.file (d.leftAt p bytes)), match d.breakAt? p bytes.length with
    | some cause => .error (.brokenOff cause)
    | none => r.mapError .unencodable)

/-- Writes a file piece by piece. Once it is opened, the file is empty. -/
def writePieces (d : Disk) (t : Text) (pieces : List Text) : Disk × Except DiskError Unit :=
  match d.open? t with
  | .error e => (d, .error e)
  | .ok p => d.writeAt p pieces

/-- Writes a file with a text. -/
def writeText (d : Disk) (t text : Text) : Disk × Except DiskError Unit := d.writePieces t [text]

end Disk

end BlockScript
