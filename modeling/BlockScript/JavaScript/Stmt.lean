-- Statements of JavaScript, as far as generated scripts use them, and the
-- lines they are written on.
import BlockScript.JavaScript.Expr
import BlockScript.Name

namespace BlockScript

inductive Jump where
  | leave
  | next
  | back
deriving DecidableEq

def Jump.word : Jump → Text
  | .leave => "break"
  | .next => "continue"
  | .back => "return"

/-- A statement. The counted loop carries its level, from which its variables are named. -/
inductive Stmt where
  | comment (t : Text)
  | verbatim (t : Text)
  | run (e : Expr)
  | set (target : Expr) (e : Expr)
  | raise (target : Expr) (e : Expr)
  | jump (j : Jump)
  | choose (condition : Expr) (body : List Stmt) (other : Option (List Stmt))
  | count (level : Int) (bound : Expr) (body : List Stmt)
  | loop (condition : Expr) (body : List Stmt)
deriving Inhabited

/-- A line without its indentation, and how deep it is indented. -/
structure Line where
  depth : Int
  text : Text

/-- The head of a counted loop. The bound is computed once, on entry. -/
def countHead (level : Int) (bound : Expr) : Text :=
  let i := Name.counter level
  let n := Name.limit level
  "for (let " ++ i ++ " = 0, " ++ n ++ " = " ++ bound.render 0 ++ "; " ++ i ++ " < " ++ n ++ "; "
    ++ i ++ "++) \x7b"

mutual

/-- The lines of a statement, the outermost at the given depth. -/
def Stmt.lines (depth : Int) : Stmt → List Line
  | .comment t => [⟨depth, "// " ++ t⟩]
  | .verbatim t => [⟨depth, t⟩]
  | .run e => [⟨depth, e.render 0 ++ ";"⟩]
  | .set target e => [⟨depth, target.render 0 ++ " = " ++ e.render 0 ++ ";"⟩]
  | .raise target e => [⟨depth, target.render 0 ++ " += " ++ e.render 0 ++ ";"⟩]
  | .jump j => [⟨depth, j.word ++ ";"⟩]
  | .choose condition body other =>
    ⟨depth, "if (" ++ condition.render 0 ++ ") \x7b"⟩ :: Stmt.linesAll (depth + 1) body
      ++ Stmt.linesElse depth other ++ [⟨depth, "\x7d"⟩]
  | .count level bound body =>
    ⟨depth, countHead level bound⟩ :: Stmt.linesAll (depth + 1) body ++ [⟨depth, "\x7d"⟩]
  | .loop condition body =>
    ⟨depth, "while (" ++ condition.render 0 ++ ") \x7b"⟩ :: Stmt.linesAll (depth + 1) body
      ++ [⟨depth, "\x7d"⟩]

def Stmt.linesAll (depth : Int) : List Stmt → List Line
  | [] => []
  | s :: rest => s.lines depth ++ Stmt.linesAll depth rest

def Stmt.linesElse (depth : Int) : Option (List Stmt) → List Line
  | none => []
  | some body => ⟨depth, "\x7d else \x7b"⟩ :: Stmt.linesAll (depth + 1) body

end

/-- The line with its indentation and the newline at its end. Depths below zero are not indented. -/
def Line.render (width : Nat) (l : Line) : Text :=
  Text.spaces (width * l.depth.toNat) ++ l.text ++ "\n"

def renderLines (width : Nat) (ls : List Line) : Text := ls.flatMap (Line.render width)

end BlockScript
