-- The trees that blocks stand for: which operator a block names, which of its
-- arguments are the operands, which function is called with what. Nothing
-- here is about text, ranks or parentheses.
import BlockScript.Proofs.Written
import BlockScript.Compile.Value

namespace BlockScript

/-! ## Common forms -/

namespace Tree

def method (e : Tree) (field : Text) (arguments : List Tree) : Tree :=
  .call (.member e field) arguments

def entry : Tree := .name "Entry"

def self : Tree := .name "self"

def asString (e : Tree) : Tree := .call (.name "String") [e]

def zero : Tree := .number (.decimal ['0'] none none)

def one : Tree := .number (.decimal ['1'] none none)

/-- A plain value. A text that spells a number stands for that number. -/
def literal : Json → Tree
  | .str t =>
    match Numeral.read? t with
    | some n => n.tree
    | none => .string t.units
  | v => v.tree

/-- A value as a string. Null is the empty string. -/
def quoted : Json → Tree
  | .null => .string []
  | v => .string v.shown.units

end Tree

/-! ## Parts of a block -/

/-- An argument and the tree that it stands for. -/
structure Part where
  given : Argument
  tree? : Option Tree

def treeAt (parts : List Part) (i : Nat) : Option Tree := parts[i]?.bind Part.tree?

/-- The plain value at a place, or `other`. -/
def literalAt (parts : List Part) (i : Nat) (other : Json) : Json :=
  (parts[i]?.bind fun p => p.given.literal?).getD other

/-- The text that an argument is, if it is plain text. -/
def Argument.text? : Argument → Option Text
  | .literal (.str t) => some t
  | _ => none

def Part.holds (p : Part) (word : String) : Bool := p.given.text? = some (Text.ofString word)

/-! ## Operations -/

/-- The word that names an operator in a block. -/
def Operator.word : Operator → String
  | .plus => "PLUS"
  | .minus => "MINUS"
  | .times => "MULTI"
  | .divide => "DIVIDE"
  | .remainder => "MOD"
  | .equal => "EQUAL"
  | .notEqual => "NOT_EQUAL"
  | .greater => "GREATER"
  | .less => "LESS"
  | .greaterOrEqual => "GREATER_OR_EQUAL"
  | .lessOrEqual => "LESS_OR_EQUAL"
  | .and => "AND"
  | .or => "OR"

/-- The operator that the argument names, if it is one of these. -/
def Part.operator? (ops : List Operator) (p : Part) : Option Operator :=
  p.given.text?.bind fun t => ops.find? fun op => t = Text.ofString op.word

/-- The operator on the first two parts. -/
def binaryTree (op : Operator) (parts : List Part) : Option Tree := do
  return .binary op (← treeAt parts 0) (← treeAt parts 1)

/-- The first argument that names one of the operators is the operator, and the first two of the
others are the operands. -/
def operationTree (ops : List Operator) (parts : List Part) : Option Tree := do
  let i ← parts.findIdx? fun p => (p.operator? ops).isSome
  let op ← parts[i]?.bind (Part.operator? ops)
  binaryTree op (parts.eraseIdx i)

/-- The operator that a word for the mode of a division asks for. -/
def Part.mode? (p : Part) : Option Operator :=
  if p.holds "MOD" then some .remainder else if p.holds "QUOTIENT" then some .divide else none

/-- A remainder or a whole quotient of the first two arguments that are no words for the mode. The
last such word decides; without one it is a quotient. -/
def divisionTree (parts : List Part) : Option Tree :=
  let operands := parts.filter fun p => p.mode?.isNone
  match (parts.filterMap Part.mode?).getLast? with
  | some .remainder => binaryTree .remainder operands
  | _ => do return (Tree.name "Math").method "floor" [← binaryTree .divide operands]

/-- The text that the argument is, unless it spells a number. -/
def Part.word? (p : Part) : Option Text := p.given.text?.filter fun t => (Numeral.read? t).isNone

def functionTree (parts : List Part) : Option Tree := do
  let word ← (parts.filterMap Part.word?).getLast?
  let operand ← parts.find? fun p => p.word?.isNone
  return Tree.entry.method "math" [.string word.units, ← operand.tree?]

/-! ## Reads -/

def stringAt (parts : List Part) (i : Nat) : Option Tree := (treeAt parts i).map Tree.asString

/-- A call with the first argument, a plain value, as a string. -/
def targetTree (callee : Tree) (parts : List Part) : Option Tree :=
  match literalAt parts 0 .null with
  | .null => none
  | v => some (.call callee [.quoted v])

def listTree (parts : List Part) : Option Tree := targetTree (.member Tree.entry "list") parts

/-- The object itself, or another one that is looked up. -/
def objectTree (object target : Json) : Tree :=
  if isSelf object target then .self else Tree.entry.method "getObject" [.quoted target]

def propertyTree (object : Json) (parts : List Part) : Option Tree := do
  let key ← (literalAt parts 1 .null).text?
  let field ← lookup? key propertyKeys
  match literalAt parts 0 .null with
  | .null => none
  | target => return .member (objectTree object target) field

/-! ## Blocks -/

/-- The tree of a block of a known kind in a script of the given object. -/
def ValueKind.tree? (object : Json) (parts : List Part) : ValueKind → Option Tree
  | .number | .angle =>
    match literalAt parts 0 (.str []) with
    | .str [] => some .zero
    | v => some (.literal v)
  | .text | .getPictures | .getSounds => some (.quoted (literalAt parts 0 (.str [])))
  | .yes => some (.name "true")
  | .no => some (.name "false")
  | .calcBasic => operationTree [.plus, .minus, .times, .divide] parts
  | .booleanBasicOperator =>
    operationTree [.equal, .notEqual, .greater, .less, .greaterOrEqual, .lessOrEqual] parts
  | .booleanAndOr => operationTree [.and, .or] parts
  | .booleanAnd => binaryTree .and parts
  | .booleanOr => binaryTree .or parts
  | .booleanNot => (treeAt parts 0).map .not
  | .quotientAndMod => divisionTree parts
  | .calcOperation => functionTree parts
  | .calcRand => do return Tree.entry.method "random" [← treeAt parts 0, ← treeAt parts 1]
  | .lengthOfString => do return .member (← stringAt parts 0) "length"
  | .combineSomething => do return .binary .plus (← stringAt parts 0) (← stringAt parts 1)
  | .charAt => do
    return (← stringAt parts 0).method "charAt" [.binary .minus (← treeAt parts 1) .one]
  | .substring => do
    return (← stringAt parts 0).method "substring"
      [.binary .minus (← treeAt parts 1) .one, ← treeAt parts 2]
  | .indexOfString => do
    return .binary .plus ((← stringAt parts 0).method "indexOf" [← treeAt parts 1]) .one
  | .replaceString => do
    return (← stringAt parts 0).method "replaceAll" [← treeAt parts 1, ← treeAt parts 2]
  | .changeStringCase => do
    return (← stringAt parts 0).method (← (literalAt parts 1 .null).text?) []
  | .getVariable => targetTree (.member (.member Tree.entry "variables") "get") parts
  | .valueOfIndexFromList => do return (← listTree parts).method "get" [← treeAt parts 1]
  | .lengthOfList => do return .member (← listTree parts) "length"
  | .isIncludedInList => do return (← listTree parts).method "includes" [← treeAt parts 1]
  | .coordinateMouse => do
    return .member (.member Tree.entry "mouse") (← (literalAt parts 0 .null).text?)
  | .coordinateObject => propertyTree object parts
  | .distanceSomething => targetTree (.member Tree.self "distanceTo") parts
  | .reachSomething => targetTree (.member Tree.self "isTouching") parts
  | .isClicked => some (.member (.member Tree.entry "mouse") "pressed")
  | .isPressSomeKey => do return Tree.entry.method "isKeyPressed" [← treeAt parts 0]
  | .getDate => targetTree (.member Tree.entry "date") parts
  | .calcTimerValue => some (.member (.member Tree.entry "timer") "value")
  | .getCanvasInputValue => some (.member Tree.entry "answer")
  | .getSoundVolume => some (.member (.member Tree.entry "sound") "volume")
  | .getFuncVariable => (Name.ofLocal (literalAt parts 0 .null)).toOption.map .name

/-- A call of a function of the project: the object itself goes before the arguments, and the
result is awaited. -/
def functionCallTree (id : Text) (drawn : Nat) (parts : List Part) : Option Tree := do
  let name ← (Name.ofFunction (.str id) drawn).toOption
  let arguments ← parts.mapM Part.tree?
  return .await ((Tree.member Tree.entry "func").method name (Tree.self :: arguments))

/-- The tree of a block that is known by its labels only. -/
def labelTree (labels : Labels) (parts : List Part) : Option Tree :=
  match labels.param.filter (!·.isEmpty), labels.function.filter (!·.isEmpty) with
  | some id, _ => (Name.ofParam (.str id) labels.drawn).toOption.map .name
  | none, some id => functionCallTree id labels.drawn parts
  | none, none => none

mutual

/-- The tree that a block stands for in a script of the given object. -/
def Node.tree? (object : Json) : Node → Option Tree
  | .mk tag arguments _ labels =>
    match tag.text?.bind ValueKind.ofTag? with
    | some kind => kind.tree? object (Argument.parts object arguments)
    | none => labelTree labels (Argument.parts object arguments)

def Argument.parts (object : Json) : List Argument → List Part
  | [] => []
  | .literal v :: rest => ⟨.literal v, some (.literal v)⟩ :: Argument.parts object rest
  | .block n :: rest => ⟨.block n, n.tree? object⟩ :: Argument.parts object rest

end

def Argument.tree? (object : Json) : Argument → Option Tree
  | .literal v => some (.literal v)
  | .block n => n.tree? object

end BlockScript
