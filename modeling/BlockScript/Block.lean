-- Blocks. A raw block is a JSON object with a text under `type`; a node is
-- the block in the form that the compiler works on, with its arguments and
-- its branches of nested blocks.
import BlockScript.Name

namespace BlockScript

/-! ## Nodes -/

/-- What a node carries besides its content: the function it calls, the parameter it stands for,
the object it belongs to, its own id, and the number drawn for its name if that needs one. -/
structure Labels where
  function : Option Text := none
  param : Option Text := none
  object : Json := .null
  block : Option Text := none
  drawn : Nat := 0

mutual

/-- One block: its tag, its arguments and its branches. -/
inductive Node where
  | mk (tag : Json) (arguments : List Argument) (branches : List (List Node)) (labels : Labels)

/-- One argument slot: a plain value or a nested block. -/
inductive Argument where
  | literal (value : Json)
  | block (node : Node)

end

instance : Inhabited Node := ⟨.mk .null [] [] {}⟩

namespace Argument

def literal? : Argument → Option Json
  | .literal v => some v
  | .block _ => none

def block? : Argument → Option Node
  | .literal _ => none
  | .block n => some n

end Argument

namespace Node

def tag : Node → Json
  | .mk tag _ _ _ => tag

def arguments : Node → List Argument
  | .mk _ arguments _ _ => arguments

def branches : Node → List (List Node)
  | .mk _ _ branches _ => branches

def labels : Node → Labels
  | .mk _ _ _ labels => labels

/-- The function that the node calls, if it names one. -/
def callee? (n : Node) : Option Text := n.labels.function.filter (!·.isEmpty)

/-- The parameter that the node stands for, if it names one. -/
def param? (n : Node) : Option Text := n.labels.param.filter (!·.isEmpty)

/-- The member of a list at a place counted from zero. No member stands before the first. -/
def item? {α : Type} (l : List α) : Int → Option α
  | .ofNat i => l[i]?
  | .negSucc _ => none

def argument? (n : Node) (i : Int) : Option Argument := item? n.arguments i

/-- The plain value at a slot, or `other` if the slot is missing or holds a block. -/
def literal (n : Node) (i : Int) (other : Json := .null) : Json :=
  ((n.argument? i).bind Argument.literal?).getD other

/-- The nested blocks of a branch. A branch that is missing is empty. -/
def branch (n : Node) (i : Int) : List Node := (item? n.branches i).getD []

end Node

/-! ## Walks -/

mutual

/-- The node and every node inside it, each before its own content, arguments before branches. -/
def Node.walk : Node → List Node
  | .mk tag arguments branches labels =>
    .mk tag arguments branches labels :: (Argument.walkAll arguments ++ Node.walkBranches branches)

def Argument.walkAll : List Argument → List Node
  | [] => []
  | .literal _ :: rest => Argument.walkAll rest
  | .block n :: rest => n.walk ++ Argument.walkAll rest

def Node.walkAll : List Node → List Node
  | [] => []
  | n :: rest => n.walk ++ Node.walkAll rest

def Node.walkBranches : List (List Node) → List Node
  | [] => []
  | branch :: rest => Node.walkAll branch ++ Node.walkBranches rest

end

/-! ## Draws -/

/-- Numbers drawn for the places of a tree, by the way down to each place. A step of the way goes to
the first part of what stands at a place, or past that part. -/
def Draws : Type := List Bool → Nat

namespace Draws

/-- The same number at every place. -/
def all (n : Nat) : Draws := fun _ => n

/-- The number for the place itself. -/
def here (d : Draws) : Nat := d []

def first (d : Draws) : Draws := fun way => d (false :: way)

def rest (d : Draws) : Draws := fun way => d (true :: way)

/-- The parts of what stands at a place, each with the numbers for it. -/
def deal {α : Type} : Draws → List α → List (Draws × α)
  | _, [] => []
  | d, a :: more => (d.first, a) :: d.rest.deal more

end Draws

/-! ## From raw blocks -/

/-- The tag of a raw block: an object with a text under `type`. -/
def Json.blockTag? (v : Json) : Option Text := (v.get? "type").bind Json.text?

def Json.isBlock (v : Json) : Bool := v.blockTag?.isSome

/-- A raw value in each part it can play in a script. -/
structure Roles where
  block : Option Node := none
  stack : List Node := []
  arguments : List Argument := []
  branches : List (List Node) := []

/-- The argument that one entry of a parameter list makes. Nulls and objects that are no blocks
make none. -/
def Roles.argument? (v : Json) (r : Roles) : Option Argument :=
  match v with
  | .null => none
  | .obj _ => r.block.map .block
  | v => some (.literal v)

/-- The role of a field; a field that is missing has none. -/
def roleOf (key : Text) : List (Text × Roles) → Roles
  | [] => {}
  | (k, r) :: rest => if k = key then r else roleOf key rest

/-- The text of a field, if it is one. -/
def textField? (key : Text) (fields : List (Text × Json)) : Option Text :=
  (field? key fields).bind Json.text?

/-- The node of a raw block with the given tag, made from its fields and the roles they play. A
function id of its own goes before the one in the tag. -/
def Node.assemble (object tag : Json) (drawn : Nat) (fields : List (Text × Json))
    (roles : List (Text × Roles)) : Node :=
  let tagText := tag.text?.getD []
  .mk tag (roleOf "params" roles).arguments (roleOf "statements" roles).branches
    { function :=
        ((textField? "funcId" fields).filter (!·.isEmpty)).or (Name.functionOfTag? tagText)
      param := Name.paramOfTag? tagText
      object
      block := textField? "id" fields
      drawn }

mutual

/-- The roles of a raw value in a script of the given object. -/
def Json.roles (object : Json) : Draws → Json → Roles
  | draws, .arr items =>
    let rs := Json.itemRoles object draws items
    { stack := rs.filterMap fun r => r.2.block
      arguments := rs.filterMap fun r => r.2.argument? r.1
      branches := rs.map fun r => r.2.stack }
  | draws, .obj fields =>
    let rs := Json.fieldRoles object draws fields
    { block := (textField? "type" fields).map fun tag =>
        Node.assemble object (.str tag) draws.here fields rs }
  | _, _ => {}

def Json.itemRoles (object : Json) : Draws → List Json → List (Json × Roles)
  | _, [] => []
  | draws, v :: rest =>
    (v, Json.roles object draws.first v) :: Json.itemRoles object draws.rest rest

def Json.fieldRoles (object : Json) : Draws → List (Text × Json) → List (Text × Roles)
  | _, [] => []
  | draws, (k, v) :: rest =>
    (k, Json.roles object draws.first v) :: Json.fieldRoles object draws.rest rest

end

/-- Why a value is no block. -/
inductive BlockError where
  | noTag
  | noFields (value : Json)
  | tagNotText (tag : Json)

def BlockError.message : BlockError → Text
  | .noTag => "'type'"
  | .noFields (.arr _) => "list indices must be integers or slices, not str"
  | .noFields (.str _) => "string indices must be integers, not 'str'"
  | .noFields v => "'" ++ v.kindName ++ "' object is not subscriptable"
  | .tagNotText v => "expected string or bytes-like object, got '" ++ v.kindName ++ "'"

/-- The text of a tag. What does not count as given is the empty tag. -/
def Json.tagText : Json → Except BlockError Text
  | .str t => .ok t
  | v => if v.isGiven then .error (.tagNotText v) else .ok []

/-- The node of a raw block. The tag is a text, or nothing that counts as given. -/
def Node.ofJson (object : Json) (draws : Draws) : Json → Except BlockError Node
  | .obj fields =>
    match field? "type" fields with
    | none => .error .noTag
    | some tag => do
      discard tag.tagText
      return Node.assemble object tag draws.here fields (Json.fieldRoles object draws fields)
  | v => .error (.noFields v)

end BlockScript
