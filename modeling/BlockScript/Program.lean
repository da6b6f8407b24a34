-- Programs. A script is a list of stacks of blocks. A stack headed by a start
-- block becomes a handler, one headed by a function definition becomes a
-- function, and every other stack is left out.
import BlockScript.Block
import BlockScript.Fault
import BlockScript.Json.Reader
import BlockScript.Text.Blank

namespace BlockScript

/-! ## Declarations -/

/-- A start block with the blocks that it triggers. -/
structure Handler where
  event : Text
  arguments : List Argument := []
  body : List Node := []

/-- A function of the project, with the names of its parameters and local variables, and with the
number drawn for its own name if that needs one. -/
structure Function where
  id : Json
  returnsValue : Bool := false
  params : List Text := []
  body : List Node := []
  locals : List Text := []
  drawn : Nat := 0

inductive Declaration where
  | handler (h : Handler)
  | function (f : Function)

abbrev Program := List Declaration

namespace Program

def functions (p : Program) : List Function :=
  p.filterMap fun
    | .function f => some f
    | .handler _ => none

def handlers (p : Program) : List Handler :=
  p.filterMap fun
    | .function _ => none
    | .handler h => some h

end Program

/-! ## Scripts -/

/-- The stacks of a raw script: a list, or the text of one. -/
def readScript : Json → Option (List Json)
  | .arr items => some items
  | .str t =>
    if t.isBlank then none
    else match Json.read t with
      | .ok (.arr items) => some items
      | _ => none
  | _ => none

/-- A tag that begins a stack triggered by an event. -/
def isStartTag (tag : Text) : Bool :=
  tag.startsWith "when_" || tag.startsWith "message_cast_"
    || tag = Text.ofString "mouse_clicked" || tag = Text.ofString "mouse_click_cancled"

def plainFunctionTag : Text := "function_create"

def valueFunctionTag : Text := "function_create_value"

/-! ## Parameters -/

/-- A wrapper in the chain of fields that spells out the head of a function. -/
def Node.isField (n : Node) : Bool := (n.tag.text?.map (·.startsWith "function_field_")).getD false

mutual

/-- The chain of fields that hangs off a node: its first field, and the chain of that. -/
def Node.fieldChain : Node → List Node
  | .mk _ arguments _ _ => Argument.fieldChain arguments

def Argument.fieldChain : List Argument → List Node
  | [] => []
  | .literal _ :: rest => Argument.fieldChain rest
  | .block n :: rest => if n.isField then n :: n.fieldChain else Argument.fieldChain rest

end

/-- The parameter that a node stands for, with the number drawn for its name. -/
def Node.drawnParam? (n : Node) : Option (Text × Nat) := n.param?.map (·, n.labels.drawn)

/-- The parameter that a field declares: that of its first block which stands for one. -/
def Node.fieldParam? (n : Node) : Option (Text × Nat) :=
  match n.tag with
  | .str tag =>
    if tag = Text.ofString "function_field_string" ∨
        tag = Text.ofString "function_field_boolean" then
      (n.arguments.filterMap Argument.block?).findSome? Node.drawnParam?
    else none
  | _ => none

/-- The names of the parameters of a function definition, in the order of its fields. -/
def Node.paramNames (n : Node) : Except Fault (List Text) :=
  (n.fieldChain.filterMap Node.fieldParam?).mapM fun p => written (Name.ofParam (.str p.1) p.2)

/-! ## Local variables -/

/-- The local variable that a node reads or sets, if it has a usable id. -/
def Node.localId? (n : Node) : Option Json :=
  match n.tag with
  | .str tag =>
    if tag = Text.ofString "get_func_variable" ∨ tag = Text.ofString "set_func_variable" then
      if Name.isStable (n.literal 0) then some (n.literal 0) else none
    else none
  | _ => none

/-- The members that are not among `seen`, each where it stands first. -/
def firsts (seen : List Text) : List Text → List Text
  | [] => []
  | t :: rest => if t ∈ seen then firsts seen rest else t :: firsts (t :: seen) rest

/-- The name of the local variable that a node reads or sets. -/
def Node.localName? (n : Node) : Except Fault (Option Text) :=
  match n.localId? with
  | some id => do return some (← written (Name.ofLocal id))
  | none => do
    n.tag.demandKey
    return none

/-- The names of the local variables in a body, each once, in the order of first use. -/
def localNames (body : List Node) : Except Fault (List Text) := do
  return firsts [] ((← (Node.walkAll body).mapM Node.localName?).filterMap id)

/-! ## Building -/

/-- The first of the values that counts as given, or else the last. -/
def firstGiven : List Json → Json → Json
  | [], last => last
  | v :: rest, last => if v.isGiven then v else firstGiven rest last

/-- The function that a definition block declares. -/
def Function.ofBlock (object functionId : Json) (draws : Draws) (tag : Text)
    (fields : List (Text × Json)) : Except Fault Function := do
  let definition :=
    Node.assemble object (.str tag) draws.here fields (Json.fieldRoles object draws fields)
  let body := definition.branch 0
  let params ← definition.paramNames
  let locals ← localNames body
  return {
    id := firstGiven
      [functionId, (field? "funcId" fields).getD .null, (field? "id" fields).getD .null] (.str [])
    returnsValue := tag = valueFunctionTag
    params, body, locals
    drawn := draws.here }

/-- The handler of a stack: the event and arguments of its head, and the blocks after it. -/
def Handler.ofStack (object : Json) (draws : Draws) (tag : Text) (fields : List (Text × Json))
    (rest : List Json) : Handler :=
  { event := tag
    arguments := (roleOf "params" (Json.fieldRoles object draws.first fields)).arguments
    body := (Json.roles object draws.rest (.arr rest)).stack }

/-- What a stack declares, if it declares anything. -/
def Declaration.ofStack? (isStart : Text → Bool) (object functionId : Json) (draws : Draws)
    (stack : Json) : Except Fault (Option Declaration) :=
  match stack with
  | .arr (.obj fields :: rest) =>
    match textField? "type" fields with
    | none => .ok none
    | some tag =>
      if isStart tag then .ok (some (.handler (Handler.ofStack object draws tag fields rest)))
      else if tag = plainFunctionTag ∨ tag = valueFunctionTag then do
        return some (.function (← Function.ofBlock object functionId draws.first tag fields))
      else .ok none
  | _ => .ok none

/-- The program of a raw script. A script that cannot be read has no declarations. -/
def Program.build (draws : Draws) (script object functionId : Json)
    (isStart : Text → Bool := isStartTag) : Except Fault Program := do
  let blockStacks := draws.deal ((readScript script).getD [])
  let declared ← blockStacks.mapM fun s => Declaration.ofStack? isStart object functionId s.1 s.2
  return declared.filterMap id

end BlockScript
