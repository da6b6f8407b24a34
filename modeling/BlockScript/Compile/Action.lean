-- Action blocks as statements. An action whose values do not resolve becomes
-- one comment line. Every round of a loop lets the runtime go on: a body that
-- does not wait for anything by itself ends with a yield.
import BlockScript.Compile.Value
import BlockScript.JavaScript.Stmt

namespace BlockScript

/-! ## Scopes and suspension -/

/-- Where an action stands: the object of its script and how many loops are around it. -/
structure Scope where
  object : Json := .null
  level : Int := 0

def Scope.inLoop (s : Scope) : Scope := { s with level := s.level + 1 }

def Node.action? (n : Node) : Option ActionKind := n.tag.text?.bind ActionKind.ofTag?

/-- Whether the node itself hands control back: some actions do, and every call of a function. -/
def Node.suspends (n : Node) : Bool :=
  (n.action?.map ActionKind.suspends).getD false || n.callee?.isSome

/-- Whether any node of a body does, at any depth. The search stops at a tag that cannot be looked
up. -/
def suspends (body : List Node) : Except Fault Bool :=
  match (Node.walkAll body).find? fun n => n.suspends || !n.tag.isKey with
  | none => .ok false
  | some n => do
    n.tag.demandKey
    return true

/-- Lets the runtime go on. -/
def yieldNow : Stmt := .run (.await (Expr.method .entry "yield" []))

/-! ## Bodies -/

/-- A branch, with the statements it becomes in a scope. -/
structure Body where
  nodes : List Node
  make : Scope → Except Fault (List Stmt)

def Body.empty : Body := { nodes := [], make := fun _ => .ok [] }

def bodyAt (bodies : List Body) (i : Nat) : Body := bodies[i]?.getD .empty

def Body.statements (b : Body) (s : Scope) : Except Obstacle (List Stmt) :=
  (b.make s).mapError .fault

/-- The body of a loop, with a yield at its end unless something in it suspends. -/
def Body.round (b : Body) (s : Scope) : Except Obstacle (List Stmt) := do
  let statements ← b.statements s.inLoop
  let suspended ← (suspends b.nodes).mapError .fault
  return if suspended then statements else statements ++ [yieldNow]

/-! ## Forms of actions -/

/-- A statement that calls a function of the object. -/
def onSelf (field : Text) (arguments : List Expr) : List Stmt :=
  [.run (Expr.self.method field arguments)]

/-- A statement that waits for a function of the object. -/
def waitSelf (field : Text) (arguments : List Expr) : List Stmt :=
  [.run (.await (Expr.self.method field arguments))]

def onEntry (field : Text) (arguments : List Expr) : List Stmt :=
  [.run (Expr.entry.method field arguments)]

def waitEntry (field : Text) (arguments : List Expr) : List Stmt :=
  [.run (.await (Expr.entry.method field arguments))]

def selfProperty (field : Text) : Expr := .member .self field

def soundVolume : Expr := .member (.member .entry "sound") "volume"

/-- The quoted value that the slot `i` has to hold. -/
def slotKey (tag : Json) (slots : List Slot) (i : Nat) : Outcome :=
  match slotLiteral slots i with
  | .null => fail tag .missingArgument
  | v => .ok (.quoted v)

/-- Whether the slot `i` holds the given word. -/
def slotIs (slots : List Slot) (i : Nat) (word : String) : Bool :=
  match slotLiteral slots i with
  | .str t => t = Text.ofString word
  | _ => false

/-- Sets a local variable. The value is looked at before the variable. -/
def setLocal (tag : Json) (slots : List Slot) : Except Obstacle (List Stmt) := do
  let value ← slot tag slots 1
  let id := slotLiteral slots 0
  if Name.isStable id then return [.set (.name (← named (Name.ofLocal id))) value]
  else fail tag .missingArgument

/-- Stops scripts: all of them, those of the object, the others of the object, or this one. -/
def stopScripts (slots : List Slot) : List Stmt :=
  if slotIs slots 0 "all" then onEntry "stop" [] ++ [.jump .back]
  else if slotIs slots 0 "thisOnly" || slotIs slots 0 "self" then
    onSelf "stopScripts" [] ++ [.jump .back]
  else if slotIs slots 0 "otherThread" then onSelf "stopOtherScripts" []
  else [.jump .back]

/-! ## Every kind -/

/-- The statements of an action block of a known kind. Values are looked at in the order of the
slots they are taken from, and keys after all values. -/
def ActionKind.compile (s : Scope) (tag : Json) (slots : List Slot) (bodies : List Body) :
    ActionKind → Except Obstacle (List Stmt)
  | .moveDirection => do return onSelf "move" [← slot tag slots 0]
  | .moveX => do return [.raise (selfProperty "x") (← slot tag slots 0)]
  | .moveY => do return [.raise (selfProperty "y") (← slot tag slots 0)]
  | .locateX => do return [.set (selfProperty "x") (← slot tag slots 0)]
  | .locateY => do return [.set (selfProperty "y") (← slot tag slots 0)]
  | .locateXy => do return onSelf "setXY" [← slot tag slots 0, ← slot tag slots 1]
  | .locateXyTime => do
    let time ← slot tag slots 0
    return waitSelf "glideTo" [← slot tag slots 1, ← slot tag slots 2, time]
  | .moveXyTime => do
    let time ← slot tag slots 0
    return waitSelf "glideBy" [← slot tag slots 1, ← slot tag slots 2, time]
  | .locate => do return onSelf "moveTo" [← slotKey tag slots 0]
  | .locateObjectTime => do
    let time ← slot tag slots 0
    return waitSelf "glideToObject" [← slotKey tag slots 1, time]
  | .rotateRelative => do return [.raise (selfProperty "rotation") (← slot tag slots 0)]
  | .directionRelative => do return [.raise (selfProperty "direction") (← slot tag slots 0)]
  | .rotateAbsolute => do return [.set (selfProperty "rotation") (← slot tag slots 0)]
  | .directionAbsolute => do return [.set (selfProperty "direction") (← slot tag slots 0)]
  | .rotateByTime => do
    let time ← slot tag slots 0
    return waitSelf "rotateBy" [← slot tag slots 1, time]
  | .directionRelativeDuration => do
    let time ← slot tag slots 0
    return waitSelf "turnBy" [← slot tag slots 1, time]
  | .seeAngleObject => do return onSelf "lookAt" [← slotKey tag slots 0]
  | .bounceWall => return onSelf "bounceWall" []
  | .show => return [.set (selfProperty "visible") (.truth true)]
  | .hide => return [.set (selfProperty "visible") (.truth false)]
  | .dialog => do
    let word := if slotIs slots 1 "think" then "think" else "say"
    return onSelf word [← slot tag slots 0]
  | .dialogTime => do
    let word := if slotIs slots 2 "think" then "think" else "say"
    return waitSelf word [← slot tag slots 0, ← slot tag slots 1]
  | .removeDialog => return onSelf "clearDialog" []
  | .changeToSomeShape => do return onSelf "setPicture" [← slot tag slots 0]
  | .changeToNextShape =>
    return onSelf (if slotIs slots 0 "prev" then "prevPicture" else "nextPicture") []
  | .addEffectAmount => do
    let amount ← slot tag slots 1
    return onSelf "changeEffect" [← slotKey tag slots 0, amount]
  | .changeEffectAmount => do
    let amount ← slot tag slots 1
    return onSelf "setEffect" [← slotKey tag slots 0, amount]
  | .eraseAllEffects => return onSelf "clearEffects" []
  | .changeScaleSize => do return [.raise (selfProperty "size") (← slot tag slots 0)]
  | .setScaleSize => do return [.set (selfProperty "size") (← slot tag slots 0)]
  | .changeObjectIndex => do return onSelf "setLayer" [← slotKey tag slots 0]
  | .soundSomethingWithBlock => do return onSelf "playSound" [← slot tag slots 0]
  | .soundSomethingSecondWithBlock => do
    return onSelf "playSound" [← slot tag slots 0, ← slot tag slots 1]
  | .soundSomethingWaitWithBlock => do return waitSelf "playSoundAndWait" [← slot tag slots 0]
  | .soundSomethingSecondWaitWithBlock => do
    return waitSelf "playSoundAndWait" [← slot tag slots 0, ← slot tag slots 1]
  | .soundFromToAndWait => do
    return waitSelf "playSoundRangeAndWait"
      [← slot tag slots 0, ← slot tag slots 1, ← slot tag slots 2]
  | .soundVolumeChange => do return [.raise soundVolume (← slot tag slots 0)]
  | .soundVolumeSet => do return [.set soundVolume (← slot tag slots 0)]
  | .soundSilentAll => return [.run ((Expr.member .entry "sound").method "stopAll" [])]
  | .waitSecond => do return waitEntry "wait" [← slot tag slots 0]
  | .waitUntilTrue => do return [.loop (.not (← slot tag slots 0)) [yieldNow]]
  | .ifOnly => do
    let condition ← slot tag slots 0
    return [.choose condition (← (bodyAt bodies 0).statements s) none]
  | .ifElse => do
    let condition ← slot tag slots 0
    let body ← (bodyAt bodies 0).statements s
    return [.choose condition body (some (← (bodyAt bodies 1).statements s))]
  | .repeatBasic => do
    let bound ← slot tag slots 0
    return [.count s.level bound (← (bodyAt bodies 0).round s)]
  | .repeatInf => do return [.loop (.truth true) (← (bodyAt bodies 0).round s)]
  | .repeatWhileTrue => do
    let condition ← slot tag slots 0
    let asked := if slotIs slots 1 "while" then condition else .not condition
    return [.loop asked (← (bodyAt bodies 0).round s)]
  | .stopRepeat => return [.jump .leave]
  | .continueRepeat => return if s.level > 0 then [yieldNow, .jump .next] else [.jump .next]
  | .stopObject => return stopScripts slots
  | .restartProject => return onEntry "restart" []
  | .createClone =>
    return [.run ((objectNamed s.object (slotLiteral slots 0 (.str "self"))).method "clone" [])]
  | .deleteClone => return onSelf "deleteClone" [] ++ [.jump .back]
  | .removeAllClones => return onSelf "removeAllClones" []
  | .messageCast => do return onEntry "broadcast" [← slotKey tag slots 0]
  | .messageCastWait => do return waitEntry "broadcastAndWait" [← slotKey tag slots 0]
  | .startScene => do return onEntry "startScene" [← slotKey tag slots 0]
  | .startNeighborScene => do return onEntry "startNeighborScene" [← slotKey tag slots 0]
  | .setVariable => do
    let value ← slot tag slots 1
    return [.run (Expr.projectVariables.method "set" [← slotKey tag slots 0, value])]
  | .changeVariable => do
    let value ← slot tag slots 1
    return [.run (Expr.projectVariables.method "change" [← slotKey tag slots 0, value])]
  | .showVariable => do return [.run (Expr.projectVariables.method "show" [← slotKey tag slots 0])]
  | .hideVariable => do return [.run (Expr.projectVariables.method "hide" [← slotKey tag slots 0])]
  | .addValueToList => do
    let value ← slot tag slots 0
    return [.run ((Expr.entry.method "list" [← slotKey tag slots 1]).method "push" [value])]
  | .removeValueFromList => do
    let place ← slot tag slots 0
    return [.run ((Expr.entry.method "list" [← slotKey tag slots 1]).method "removeAt" [place])]
  | .insertValueToList => do
    let value ← slot tag slots 0
    let place ← slot tag slots 2
    return [.run
      ((Expr.entry.method "list" [← slotKey tag slots 1]).method "insertAt" [place, value])]
  | .changeValueListIndex => do
    let place ← slot tag slots 1
    let value ← slot tag slots 2
    return [.run ((Expr.entry.method "list" [← slotKey tag slots 0]).method "set" [place, value])]
  | .askAndWait => do return waitEntry "ask" [← slot tag slots 0]
  | .setFuncVariable => setLocal tag slots

/-! ## Nodes -/

/-- The comment that stands for an action whose value failed. -/
def skipped (tag : Json) (f : Failure) : Stmt :=
  .comment ("skipped '" ++ tag.shown ++ "': " ++ f.describe)

def unsupported (tag : Json) : Stmt := .comment ("TODO: unsupported block '" ++ tag.shown ++ "'")

/-- A failure leaves a comment; a fault goes on. -/
def orSkipped (tag : Json) : Except Obstacle (List Stmt) → Except Fault (List Stmt)
  | .ok statements => .ok statements
  | .error (.failure f) => .ok [skipped tag f]
  | .error (.fault f) => .error f

/-- The call of a function of the project, or a comment if the block calls none. -/
def namedAction (tag : Json) (labels : Labels) (slots : List Slot) : Except Fault (List Stmt) :=
  match labels.function.filter (!·.isEmpty) with
  | some id => orSkipped tag do return [.run (← functionCall id labels.drawn slots)]
  | none => .ok [unsupported tag]

/-- The statements of a block from its parts. -/
def actionsOf (x : Extensions) (s : Scope) (tag : Json) (labels : Labels) (slots : List Slot)
    (bodies : List Body) : Except Fault (List Stmt) :=
  match tag with
  | .str t =>
    match extension? t x.actions, ActionKind.ofTag? t with
    | some line, _ => .ok [.verbatim line]
    | none, some kind => orSkipped tag (kind.compile s tag slots bodies)
    | none, none => namedAction tag labels slots
  | tag => if tag.isKey then namedAction tag labels slots else .error (.notAKey tag)

mutual

/-- The statements of a node in a scope. -/
def Node.actions (x : Extensions) : Node → Scope → Except Fault (List Stmt)
  | .mk tag arguments branches labels, s =>
    actionsOf x s tag labels (Argument.slots x s.object arguments) (Node.bodies x branches)

def Node.actionsAll (x : Extensions) : List Node → Scope → Except Fault (List Stmt)
  | [], _ => .ok []
  | n :: rest, s => do return (← Node.actions x n s) ++ (← Node.actionsAll x rest s)

def Node.bodies (x : Extensions) : List (List Node) → List Body
  | [] => []
  | branch :: rest =>
    { nodes := branch, make := fun s => Node.actionsAll x branch s } :: Node.bodies x rest

end

/-- Whether a node is one that does something. -/
def Node.isAction (x : Extensions) (n : Node) : Except Fault Bool := do
  n.tag.demandKey
  return (match n.tag with
    | .str t => (extension? t x.actions).isSome || (ActionKind.ofTag? t).isSome
    | _ => false) || n.callee?.isSome

end BlockScript
