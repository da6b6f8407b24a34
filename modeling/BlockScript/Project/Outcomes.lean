-- What became of the units of a run, and the report that counts them. An
-- outcome is kept under the path of its unit's script; a path that is already
-- there keeps its place.
import BlockScript.Json

namespace BlockScript

/-- What became of one unit. -/
structure UnitOutcome where
  id : Text
  kind : Text
  label : Text := []
  success : Bool
  outputFile : Text
  message : Option Text := none

/-- The counters of a run and its outcomes, in the order in which their paths came in. -/
structure Report where
  total : Int := 0
  started : Nat := 0
  processed : Nat := 0
  outcomes : List (Text × UnitOutcome) := []

/-- The outcome under a path. -/
def outcomeAt? (path : Text) : List (Text × UnitOutcome) → Option UnitOutcome
  | [] => none
  | (p, o) :: rest => if p = path then some o else outcomeAt? path rest

/-- Puts an outcome under a path. -/
def setOutcome (path : Text) (o : UnitOutcome) :
    List (Text × UnitOutcome) → List (Text × UnitOutcome)
  | [] => [(path, o)]
  | (p, old) :: rest => if p = path then (p, o) :: rest else (p, old) :: setOutcome path o rest

namespace Report

def start (r : Report) : Report := { r with started := r.started + 1 }

/-- Counts one unit as processed, with its outcome. -/
def add (r : Report) (path : Text) (o : UnitOutcome) : Report :=
  { r with processed := r.processed + 1, outcomes := setOutcome path o r.outcomes }

def all (r : Report) : List UnitOutcome := r.outcomes.map Prod.snd

/-- The ids of the units that succeeded. -/
def succeeded (r : Report) : List Text := (r.all.filter (·.success)).map (·.id)

def failed (r : Report) : List Text := (r.all.filter (!·.success)).map (·.id)

/-- The first outcome of the given id and kind. -/
def outcome? (r : Report) (id kind : Text) : Option UnitOutcome :=
  r.all.find? fun o => o.id = id && o.kind = kind

def failureJson (o : UnitOutcome) : Json :=
  .obj [("id", .str o.id), ("kind", .str o.kind), ("message", (o.message.map .str).getD .null)]

/-- The report as clients of the tool get it. -/
def toJson (r : Report) : Json :=
  .obj [
    ("total", .int r.total),
    ("started", .int r.started),
    ("processed", .int r.processed),
    ("succeeded", .arr (r.succeeded.map .str)),
    ("failed", .arr ((r.all.filter (!·.success)).map failureJson))]

end Report

end BlockScript
