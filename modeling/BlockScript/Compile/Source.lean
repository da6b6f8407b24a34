-- Whole scripts: the banner, the binding of the object, the functions and the
-- event handlers of a program, each written out line by line.
import BlockScript.Compile.Action
import BlockScript.Program

namespace BlockScript

/-! ## Events -/

/-- What a handler asks of its event before it runs: nothing, the key that was pressed, the message
that was sent, or a condition as it stands. -/
inductive Guard where
  | none
  | key
  | message
  | condition (t : Text)

/-- How a start block is bound to an event of the runtime. -/
structure Binding where
  event : Text
  param : Text := []
  guard : Guard := .none
  extraDepth : Int := 0

/-- The bindings of the runtime, by the tag of the start block. -/
def defaultBindings : List (Text × Binding) :=
  [("when_run_button_click", { event := "start" }),
   ("when_some_key_pressed",
    { event := "keydown", param := "key", guard := .key, extraDepth := 1 }),
   ("mouse_clicked", { event := "mousedown" }),
   ("mouse_click_cancled", { event := "mouseup" }),
   ("when_object_click", { event := "click" }),
   ("when_object_click_canceled", { event := "clickcancel" }),
   ("when_message_cast",
    { event := "message", param := "msg", guard := .message, extraDepth := 1 }),
   ("when_scene_start", { event := "scenestart" }),
   ("when_clone_start",
    { event := "clonestart", guard := .condition "self.isClone", extraDepth := 1 })]

def binding? (tag : Text) : List (Text × Binding) → Option Binding
  | [] => none
  | (k, b) :: rest => if k = tag then some b else binding? tag rest

/-- The first plain value that is neither null nor the empty text. -/
def firstLiteral? (arguments : List Argument) : Option Json :=
  (arguments.filterMap Argument.literal?).find? fun
    | .null | .str [] => false
    | _ => true

/-- The condition that the pressed key is the one of the start block, by its number if it has
one. -/
def keyGuard? (arguments : List Argument) : Option Text := do
  let key ← firstLiteral? arguments
  let code := match Numeral.read? key.shown with
    | some n => n.text
    | none => (Expr.quoted key).render 0
  return "key === " ++ code

def messageGuard? (arguments : List Argument) : Option Text := do
  return "msg === " ++ (Expr.quoted (← firstLiteral? arguments)).render 0

/-- The condition of a guard, empty if it asks for nothing; nothing if it cannot be built. -/
def Guard.condition? (arguments : List Argument) : Guard → Option Text
  | .none => some []
  | .key => keyGuard? arguments
  | .message => messageGuard? arguments
  | .condition t => some t

/-! ## Returned values -/

/-- The suffixes of a text that start a line. -/
def lineStarts : Text → List Text
  | [] => []
  | .char '\n' :: rest => rest :: lineStarts rest
  | _ :: rest => lineStarts rest

/-- Whether a line starts by returning a value: blanks, the word, a blank, and then something
other than a semicolon. -/
def startsValuedReturn (t : Text) : Bool :=
  match Text.after? "return" (t.dropWhile Glyph.isBlank) with
  | some (g :: rest) =>
    g.isBlank && (match rest.dropWhile Glyph.isBlank with
      | h :: _ => h ≠ .char ';'
      | [] => false)
  | _ => false

/-- Whether some line of the text returns a value. -/
def returnsValue (t : Text) : Bool := (t :: lineStarts t).any startsValuedReturn

mutual

/-- The node itself if it passes `p`, else the last one that does along its branches, the last
branch first. -/
def Node.last? (p : Node → Bool) : Node → Option Node
  | .mk tag arguments branches labels =>
    if p (.mk tag arguments branches labels) then some (.mk tag arguments branches labels)
    else Node.lastInBranches? p branches

def Node.lastInBody? (p : Node → Bool) : List Node → Option Node
  | [] => none
  | n :: rest => (Node.lastInBody? p rest).or (Node.last? p n)

def Node.lastInBranches? (p : Node → Bool) : List (List Node) → Option Node
  | [] => none
  | branch :: rest => (Node.lastInBranches? p rest).or (Node.lastInBody? p branch)

end

def Node.assigns (n : Node) : Bool := (n.action?.map ActionKind.assigns).getD false

/-- The last assignment of a body. The search stops at a tag that cannot be looked up. -/
def lastAssignment? (body : List Node) : Except Fault (Option Node) :=
  match Node.lastInBody? (fun n => n.assigns || !n.tag.isKey) body with
  | none => .ok none
  | some n => do
    n.tag.demandKey
    return some n

/-- The variable that an assignment sets, as an expression. -/
def Node.assigned? (n : Node) : Except Fault (Option Expr) :=
  let id := n.literal 0
  if n.action? = some .setFuncVariable then
    if Name.isStable id then do
      return some (.name (← written (Name.ofLocal id)))
    else .ok none
  else match id with
    | .null => .ok none
    | id => .ok (some (Expr.projectVariables.method "get" [.quoted id]))

/-- The variable that a body ending in `last` leaves its result in. -/
def returnedVariable (last : Node) : Except Fault (Option Expr) := do
  match ← lastAssignment? [last] with
  | some n => n.assigned?
  | none => return none

/-! ## Declarations -/

/-- How scripts are written: the width of one level, the extensions and the event bindings. -/
structure Style where
  width : Nat := 2
  extensions : Extensions := {}
  bindings : List (Text × Binding) := defaultBindings

def Style.line (y : Style) (depth : Int) (t : Text) : Text := Line.render y.width ⟨depth, t⟩

/-- The text of a body at a depth, in a scope. -/
def Style.body (y : Style) (depth : Int) (body : List Node) (s : Scope) : Except Fault Text := do
  return renderLines y.width (Stmt.linesAll depth (← Node.actionsAll y.extensions body s))

/-- The line that returns a value, or says why there is none. -/
def Style.returned (y : Style) : Outcome → Except Fault Text
  | .ok e => .ok (y.line 1 ("return " ++ e.render 0 ++ ";"))
  | .error (.failure f) => .ok (y.line 1 ("// skipped return: " ++ f.describe))
  | .error (.fault f) => .error f

/-- The body of a function. A function that returns a value returns its last block, if that has a
value and is no action; else the variable it set last, unless some line returns a value already. -/
def Style.functionBody (y : Style) (f : Function) (s : Scope) : Except Fault Text :=
  match f.returnsValue, f.body.getLast? with
  | true, some last => do
    let hasValue ← last.isValue y.extensions
    if hasValue && !(← last.isAction y.extensions) then
      let text ← y.body 1 f.body.dropLast s
      return text ++ (← y.returned (last.value y.extensions s.object))
    else
      let text ← y.body 1 f.body s
      if returnsValue text then return text
      match ← returnedVariable last with
      | some e => return text ++ y.line 1 ("return " ++ e.render 0 ++ ";")
      | none => return text
  | _, _ => y.body 1 f.body s

/-- A function as an entry of the functions that all scripts share. -/
def Style.function (y : Style) (object : Json) (f : Function) : Except Fault Text := do
  let name ← written (Name.ofFunction f.id f.drawn)
  let body ← y.functionBody f { object }
  return "Entry.func." ++ name ++ " = async function ("
    ++ Text.joined ", " ("self" :: f.params) ++ ") \x7b\n"
    ++ f.locals.flatMap (fun n => y.line 1 ("let " ++ n ++ " = 0;")) ++ body ++ "\x7d;\n"

/-- An event handler. Without a binding, or where its guard cannot be built, it is a comment. -/
def Style.handler (y : Style) (object : Json) (h : Handler) : Except Fault Text :=
  match binding? h.event y.bindings with
  | none => .ok ("// TODO: unsupported event '" ++ h.event ++ "'\n")
  | some b =>
    match b.guard.condition? h.arguments with
    | none => .ok ("// skipped handler '" ++ h.event ++ "': missing event argument\n")
    | some condition => do
      let body ← y.body (1 + b.extraDepth) h.body { object }
      let guarded := if condition.isEmpty then body
        else y.line 1 ("if (" ++ condition ++ ") \x7b") ++ body ++ y.line 1 "\x7d"
      return "self.on(" ++ b.event.quoted ++ ", async (" ++ b.param ++ ") => \x7b\n" ++ guarded
        ++ "\x7d);\n"

/-! ## Scripts -/

def banner : Text :=
  "/*\n"
    ++ " *  _____       _              ____      _ ____\n"
    ++ " * | ____|_ __ | |_ _ __ _   _|___ \\    | / ___|\n"
    ++ " * |  _| | '_ \\| __| '__| | | | __) |_  | \\___ \\\n"
    ++ " * | |___| | | | |_| |  | |_| |/ __/ |__| |___) |\n"
    ++ " * |_____|_| |_|\\__|_|   \\__, |_____\\____/|____/\n"
    ++ " *                       |___/\n"
    ++ " *\n"
    ++ " * Generated by entry2js 0.1.0 (Entry2JS Development Team)\n"
    ++ " * Targets the FastEntry runtime. Safe to edit by hand.\n"
    ++ " */\n"

/-- The start of a script: the banner, strict mode, and the object it belongs to. -/
def heading (object : Json) : Text :=
  banner ++ "'use strict';\n"
    ++ (if object.isGiven then
        "\nconst self = " ++ (Expr.method .entry "getObject" [.quoted object]).render 0 ++ ";\n"
      else [])

/-- The functions of a program, then its handlers, each as text. -/
def Style.parts (y : Style) (object : Json) (p : Program) : Except Fault (List Text) := do
  return (← p.functions.mapM (y.function object)) ++ (← p.handlers.mapM (y.handler object))

/-- The script of a program, an empty line between its parts. -/
def Style.source (y : Style) (object : Json) (p : Program) : Except Fault Text := do
  return Text.joined "\n" (heading object :: (← y.parts object p))

/-- The width of one level of indentation, from the value that a setting gives. -/
def indentWidth (v : Json) : Except Fault Nat :=
  match v.whole? with
  | some n => .ok n.toNat
  | none => .error (.indentation v)

end BlockScript
