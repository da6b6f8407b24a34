-- Value blocks as expressions. Each block is compiled from its slots, the
-- arguments together with what they compile to, so a block asks only for the
-- slots it needs and the first of them that does not resolve decides.
import BlockScript.Block
import BlockScript.Block.Kind
import BlockScript.Fault
import BlockScript.JavaScript.Expr

namespace BlockScript

/-! ## What can go wrong -/

/-- Why a block has no value. -/
inductive Reason where
  | unsupported
  | missingArgument
  | unknownOperator
  | unknownCase
  | unknownAxis
deriving DecidableEq

def Reason.text : Reason → Text
  | .unsupported => "unsupported"
  | .missingArgument => "missing argument"
  | .unknownOperator => "unknown operator"
  | .unknownCase => "unknown case conversion"
  | .unknownAxis => "unknown axis"

/-- A block that has no value, by its tag, and why. -/
structure Failure where
  tag : Json
  reason : Reason

def Failure.describe (f : Failure) : Text :=
  match f.reason with
  | .unsupported => "unresolved expression '" ++ f.tag.shown ++ "'"
  | r => r.text ++ " in '" ++ f.tag.shown ++ "'"

/-- What stands in the way of a value: a failure stays with its statement, a fault ends the unit. -/
inductive Obstacle where
  | failure (f : Failure)
  | fault (f : Fault)

abbrev Outcome := Except Obstacle Expr

def fail {α : Type} (tag : Json) (reason : Reason) : Except Obstacle α :=
  .error (.failure { tag, reason })

/-- The name, or the obstacle that its id cannot be written. -/
def named (n : Except EncodeError Text) : Except Obstacle Text := (written n).mapError .fault

/-! ## Slots -/

/-- An argument and what it compiles to. -/
structure Slot where
  given : Argument
  made : Outcome

/-- The value of the slot `i` of a block with the given tag. -/
def slot (tag : Json) (slots : List Slot) (i : Nat) : Outcome :=
  match slots[i]? with
  | some s => s.made
  | none => fail tag .missingArgument

/-- The plain value in the slot `i`, or `other`. -/
def slotLiteral (slots : List Slot) (i : Nat) (other : Json := .null) : Json :=
  (slots[i]?.bind fun s => s.given.literal?).getD other

/-! ## Operators -/

def arithmeticKeys : List (String × Operator) :=
  [("PLUS", .plus), ("MINUS", .minus), ("MULTI", .times), ("DIVIDE", .divide)]

def comparisonKeys : List (String × Operator) :=
  [("EQUAL", .equal), ("NOT_EQUAL", .notEqual), ("GREATER", .greater), ("LESS", .less),
   ("GREATER_OR_EQUAL", .greaterOrEqual), ("LESS_OR_EQUAL", .lessOrEqual)]

def logicalKeys : List (String × Operator) := [("AND", .and), ("OR", .or)]

/-- The operator whose key a slot holds. A list or an object cannot be looked up. -/
def operatorIn (keys : List (String × Operator)) (s : Slot) : Except Fault (Option Operator) :=
  match s.given with
  | .literal (.str t) => .ok (lookup? t keys)
  | .literal v => if v.isKey then .ok none else .error (.notAKey v)
  | .block _ => .ok none

/-- The operator of the first slot that holds a key, and the slots besides that one. -/
def findOperator (keys : List (String × Operator)) :
    List Slot → Except Fault (Option (Operator × List Slot))
  | [] => .ok none
  | s :: rest => do
    match ← operatorIn keys s with
    | some op => return some (op, rest)
    | none => return (← findOperator keys rest).map fun r => (r.1, s :: r.2)

/-- An operation on the first two operands. -/
def operation (tag : Json) (op : Operator) : List Slot → Outcome
  | left :: right :: _ => do return .binary op (← left.made) (← right.made)
  | _ => fail tag .missingArgument

/-- An operation whose operator stands among the arguments. -/
def keyedOperation (keys : List (String × Operator)) (tag : Json) (slots : List Slot) : Outcome :=
  match findOperator keys slots with
  | .error f => .error (.fault f)
  | .ok none => fail tag .unknownOperator
  | .ok (some (op, operands)) => operation tag op operands

/-- Whether a slot holds one of the two words for a division. -/
def divisionMode? (s : Slot) : Option Bool :=
  match s.given with
  | .literal (.str t) =>
    if t = Text.ofString "MOD" then some true
    else if t = Text.ofString "QUOTIENT" then some false
    else none
  | _ => none

/-- A whole quotient or a remainder. The last word for the mode counts; without one it is the
quotient. -/
def division (tag : Json) (slots : List Slot) : Outcome :=
  let operands := slots.filter fun s => (divisionMode? s).isNone
  match (slots.filterMap divisionMode?).getLast? with
  | some true => operation tag .remainder operands
  | _ => do return Expr.method (.name "Math") "floor" [← operation tag .divide operands]

/-- The name of a mathematical function: a text that spells no number. -/
def functionWord? (s : Slot) : Option Text :=
  match s.given with
  | .literal (.str t) => if (Numeral.read? t).isNone then some t else none
  | _ => none

/-- A mathematical function, named by the last slot that names one, of the first slot that names
none. -/
def mathematics (tag : Json) (slots : List Slot) : Outcome :=
  match (slots.filterMap functionWord?).getLast?, slots.find? fun s => (functionWord? s).isNone with
  | some word, some operand => do
    return Expr.method .entry "math" [.text word, ← operand.made]
  | _, _ => fail tag .missingArgument

/-! ## Calls and reads -/

/-- A call that takes the plain value of the first slot, quoted. -/
def targetCall (callee : Expr) (tag : Json) (slots : List Slot) : Outcome :=
  match slotLiteral slots 0 with
  | .null => fail tag .missingArgument
  | v => .ok (.call callee [.quoted v])

/-- The list that the first slot names. -/
def listOf? (slots : List Slot) : Option Expr :=
  match slotLiteral slots 0 with
  | .null => none
  | v => some (Expr.method .entry "list" [.quoted v])

/-- A call on a list with the second slot. The second slot is looked at first. -/
def listCall (field : Text) (tag : Json) (slots : List Slot) : Outcome :=
  let value := slot tag slots 1
  match value, listOf? slots with
  | .error (.fault f), _ => .error (.fault f)
  | _, none => fail tag .missingArgument
  | value, some l => do return l.method field [← value]

/-- The first slot as text. -/
def stringSlot (tag : Json) (slots : List Slot) (i : Nat) : Outcome := do
  return (← slot tag slots i).asString

def changeCase (tag : Json) (slots : List Slot) : Outcome := do
  let text ← stringSlot tag slots 0
  let word := slotLiteral slots 1
  if !word.isKey then throw (.fault (.notAKey word))
  match word with
  | .str t =>
    if t = Text.ofString "toUpperCase" ∨ t = Text.ofString "toLowerCase" then
      return text.method t []
    else fail tag .unknownCase
  | _ => fail tag .unknownCase

/-- The names of the properties of an object that can be read. -/
def propertyKeys : List (String × String) :=
  [("x", "x"), ("y", "y"), ("rotation", "rotation"), ("direction", "direction"), ("size", "size"),
   ("picture_index", "pictureIndex"), ("picture_name", "pictureName")]

/-- Whether a target means the object itself. -/
def isSelf (object target : Json) : Bool := target.same (.str "self") || target.same object

/-- The object that a target names, seen from the object of the script. -/
def objectNamed (object target : Json) : Expr :=
  if isSelf object target then .self else Expr.method .entry "getObject" [.quoted target]

def property (object tag : Json) (slots : List Slot) : Outcome :=
  let target := slotLiteral slots 0
  let key := slotLiteral slots 1
  if !key.isKey then .error (.fault (.notAKey key))
  else match target, key.text?.bind fun k => lookup? k propertyKeys with
    | .null, _ | _, none => fail tag .missingArgument
    | target, some field => .ok ((objectNamed object target).member field)

/-- The number in the first slot. An empty slot counts as zero. -/
def number (slots : List Slot) : Outcome :=
  match slotLiteral slots 0 (.str []) with
  | .str [] => .ok .zero
  | v => .ok (.ofLiteral v)

def localVariable (tag : Json) (slots : List Slot) : Outcome := do
  let id := slotLiteral slots 0
  if Name.isStable id then return .name (← named (Name.ofLocal id))
  else fail tag .missingArgument

/-- A call of a function of the project, with the object and all slots. -/
def functionCall (id : Text) (drawn : Nat) (slots : List Slot) : Outcome := do
  let arguments ← slots.mapM fun s => s.made
  let name ← named (Name.ofFunction (.str id) drawn)
  return .await (Expr.method (.member .entry "func") name (.self :: arguments))

/-! ## Every kind -/

/-- The expression of a value block of a known kind. -/
def ValueKind.compile (object tag : Json) (slots : List Slot) : ValueKind → Outcome
  | .number | .angle => BlockScript.number slots
  | .text | .getPictures | .getSounds => .ok (.quoted (slotLiteral slots 0 (.str [])))
  | .yes => .ok (.truth true)
  | .no => .ok (.truth false)
  | .calcBasic => keyedOperation arithmeticKeys tag slots
  | .booleanBasicOperator => keyedOperation comparisonKeys tag slots
  | .booleanAndOr => keyedOperation logicalKeys tag slots
  | .booleanAnd => operation tag .and slots
  | .booleanOr => operation tag .or slots
  | .booleanNot => do return .not (← slot tag slots 0)
  | .quotientAndMod => division tag slots
  | .calcOperation => mathematics tag slots
  | .calcRand => do return Expr.method .entry "random" [← slot tag slots 0, ← slot tag slots 1]
  | .lengthOfString => do return .member (← stringSlot tag slots 0) "length"
  | .combineSomething => do
    return .binary .plus (← stringSlot tag slots 0) (← stringSlot tag slots 1)
  | .charAt => do
    let text ← stringSlot tag slots 0
    return text.method "charAt" [.binary .minus (← slot tag slots 1) .one]
  | .substring => do
    let text ← stringSlot tag slots 0
    let start ← slot tag slots 1
    return text.method "substring" [.binary .minus start .one, ← slot tag slots 2]
  | .indexOfString => do
    let text ← stringSlot tag slots 0
    return .binary .plus (text.method "indexOf" [← slot tag slots 1]) .one
  | .replaceString => do
    let text ← stringSlot tag slots 0
    return text.method "replaceAll" [← slot tag slots 1, ← slot tag slots 2]
  | .changeStringCase => changeCase tag slots
  | .getVariable => targetCall (.member .projectVariables "get") tag slots
  | .valueOfIndexFromList => listCall "get" tag slots
  | .lengthOfList =>
    match listOf? slots with
    | some l => .ok (l.member "length")
    | none => fail tag .missingArgument
  | .isIncludedInList => listCall "includes" tag slots
  | .coordinateMouse =>
    match slotLiteral slots 0 with
    | .str axis =>
      if axis = Text.ofString "x" ∨ axis = Text.ofString "y" then
        .ok (.member (.member .entry "mouse") axis)
      else fail tag .unknownAxis
    | _ => fail tag .unknownAxis
  | .coordinateObject => property object tag slots
  | .distanceSomething => targetCall (.member .self "distanceTo") tag slots
  | .reachSomething => targetCall (.member .self "isTouching") tag slots
  | .isClicked => .ok (.member (.member .entry "mouse") "pressed")
  | .isPressSomeKey => do return Expr.method .entry "isKeyPressed" [← slot tag slots 0]
  | .getDate => targetCall (.member .entry "date") tag slots
  | .calcTimerValue => .ok (.member (.member .entry "timer") "value")
  | .getCanvasInputValue => .ok (.member .entry "answer")
  | .getSoundVolume => .ok (.member (.member .entry "sound") "volume")
  | .getFuncVariable => localVariable tag slots

/-! ## Nodes -/

/-- Blocks that are added to the known ones or take their place: the text of a value block or the
line of an action block, by its tag. -/
structure Extensions where
  values : List (Text × Text) := []
  actions : List (Text × Text) := []

/-- The text that an extension gives for a tag. -/
def extension? (tag : Text) : List (Text × Text) → Option Text
  | [] => none
  | (k, t) :: rest => if k = tag then some t else extension? tag rest

/-- The value of a block whose kind is not known: its parameter, or the call of its function. -/
def namedValue (tag : Json) (labels : Labels) (slots : List Slot) : Outcome :=
  match labels.param.filter (!·.isEmpty), labels.function.filter (!·.isEmpty) with
  | some id, _ => do return .name (← named (Name.ofParam (.str id) labels.drawn))
  | none, some id => functionCall id labels.drawn slots
  | none, none => fail tag .unsupported

/-- The value of a block from its parts. -/
def valueOf (x : Extensions) (object tag : Json) (labels : Labels) (slots : List Slot) : Outcome :=
  match tag with
  | .str t =>
    match extension? t x.values, ValueKind.ofTag? t with
    | some text, _ => .ok (.verbatim text)
    | none, some kind => kind.compile object tag slots
    | none, none => namedValue tag labels slots
  | tag => if tag.isKey then namedValue tag labels slots else .error (.fault (.notAKey tag))

mutual

/-- The value of a node in a script of the given object. -/
def Node.value (x : Extensions) (object : Json) : Node → Outcome
  | .mk tag arguments _ labels => valueOf x object tag labels (Argument.slots x object arguments)

def Argument.slots (x : Extensions) (object : Json) : List Argument → List Slot
  | [] => []
  | .literal v :: rest => ⟨.literal v, .ok (.ofLiteral v)⟩ :: Argument.slots x object rest
  | .block n :: rest => ⟨.block n, Node.value x object n⟩ :: Argument.slots x object rest

end

/-- The value of the slot `i` of a node. No slot stands before the first. -/
def Node.slotValue (x : Extensions) (object : Json) (n : Node) (i : Int) : Outcome :=
  match Node.item? (Argument.slots x object n.arguments) i with
  | some s => s.made
  | none => fail n.tag .missingArgument

/-- Whether a node is one that has a value. -/
def Node.isValue (x : Extensions) (n : Node) : Except Fault Bool := do
  n.tag.demandKey
  return (match n.tag with
    | .str t => (extension? t x.values).isSome || (ValueKind.ofTag? t).isSome
    | _ => false) || n.param?.isSome || n.callee?.isSome

end BlockScript
