-- Expressions of JavaScript, as far as generated scripts use them, and how
-- they are written. Each form has a rank; a part is put in parentheses where
-- its rank is lower than its place asks for.
import BlockScript.Json.Writer
import BlockScript.Json.Shown
import BlockScript.JavaScript.Numeral

namespace BlockScript

/-! ## Ranks -/

/-- How strongly a form holds together, the loosest first. -/
inductive Rank where
  | or
  | and
  | comparison
  | additive
  | multiplicative
  | unary
  | atom
deriving DecidableEq

/-- The rank as a number. A place that asks for 0 takes every form. -/
def Rank.level : Rank → Int
  | .or => 1
  | .and => 2
  | .comparison => 3
  | .additive => 4
  | .multiplicative => 5
  | .unary => 6
  | .atom => 7

/-- The text, in parentheses if its rank is lower than the place asks for. -/
def wrap (t : Text) (rank place : Int) : Text := if rank < place then "(" ++ t ++ ")" else t

/-! ## Operators -/

inductive Operator where
  | plus
  | minus
  | times
  | divide
  | remainder
  | equal
  | notEqual
  | greater
  | less
  | greaterOrEqual
  | lessOrEqual
  | and
  | or
deriving DecidableEq

namespace Operator

def symbol : Operator → Text
  | .plus => "+"
  | .minus => "-"
  | .times => "*"
  | .divide => "/"
  | .remainder => "%"
  | .equal => "=="
  | .notEqual => "!="
  | .greater => ">"
  | .less => "<"
  | .greaterOrEqual => ">="
  | .lessOrEqual => "<="
  | .and => "&&"
  | .or => "||"

def rank : Operator → Rank
  | .plus | .minus => .additive
  | .times | .divide | .remainder => .multiplicative
  | .equal | .notEqual | .greater | .less | .greaterOrEqual | .lessOrEqual => .comparison
  | .and => .and
  | .or => .or

/-- What the left operand's place asks for. An operator groups to the left, so it takes its own
rank there; a comparison takes no other comparison. -/
def leftPlace (op : Operator) : Int :=
  if op.rank = .comparison then op.rank.level + 1 else op.rank.level

def rightPlace (op : Operator) : Int := op.rank.level + 1

end Operator

/-! ## Expressions -/

/-- An expression. Plain values are a `numeral`, a `plain` text, or the `data` of any other JSON
value. A block writes its own `text` and the `zero` of an empty number slot, and an extension gives
a `verbatim` text that is never put in parentheses. -/
inductive Expr where
  | numeral (n : Numeral)
  | plain (t : Text)
  | data (v : Json)
  | zero
  | text (t : Text)
  | name (t : Text)
  | member (of : Expr) (field : Text)
  | call (callee : Expr) (arguments : List Expr)
  | not (e : Expr)
  | await (e : Expr)
  | binary (op : Operator) (left right : Expr)
  | verbatim (t : Text)
deriving Inhabited

namespace Expr

/-- A text that starts with a minus sign ranks as an operation. -/
def signedRank : Text → Rank
  | .char '-' :: _ => .unary
  | _ => .atom

/-- The rank of a form. A plain value ranks as an atom at most. The other forms that are closed at
both ends have no rank: they fit every place, also one that asks for more than an atom. -/
def rank? : Expr → Option Rank
  | .numeral n => some (signedRank n.text)
  | .plain _ => some .atom
  | .data v => some (signedRank v.line)
  | .not _ | .await _ => some .unary
  | .binary op _ _ => some op.rank
  | .zero | .text _ | .name _ | .member _ _ | .call _ _ | .verbatim _ => none

/-- Puts the text of an expression in parentheses as its place asks. -/
def fit (e : Expr) (t : Text) (place : Int) : Text :=
  match e.rank? with
  | some r => wrap t r.level place
  | none => t

mutual

/-- The expression without parentheses around it. -/
def body : Expr → Text
  | .numeral n => n.text
  | .plain t => t.quoted
  | .data v => v.line
  | .zero => "0"
  | .text t => t.quoted
  | .name t => t
  | .member e field => fit e (body e) Rank.atom.level ++ "." ++ field
  | .call callee arguments =>
    fit callee (body callee) Rank.atom.level ++ "(" ++ Text.joined ", " (bodies arguments) ++ ")"
  | .not e => "!" ++ fit e (body e) Rank.unary.level
  | .await e => "await " ++ fit e (body e) Rank.unary.level
  | .binary op left right =>
    fit left (body left) op.leftPlace ++ " " ++ op.symbol ++ " "
      ++ fit right (body right) op.rightPlace
  | .verbatim t => t

def bodies : List Expr → List Text
  | [] => []
  | e :: rest => body e :: bodies rest

end

/-- The expression as it is written at a place. -/
def render (place : Int) (e : Expr) : Text := e.fit e.body place

/-! ## Common forms -/

/-- A plain value: a text that spells a number is that number, any other text is quoted. -/
def ofLiteral : Json → Expr
  | .str t =>
    match Numeral.read? t with
    | some n => .numeral n
    | none => .plain t
  | v => .data v

/-- The quoted text of a value. Null is the empty text. -/
def quoted : Json → Expr
  | .null => .text []
  | v => .text v.shown

/-- A truth value that a block stands for. -/
def truth (b : Bool) : Expr := .name (if b then "true" else "false")

/-- The object that a script belongs to. -/
def self : Expr := .name "self"

def entry : Expr := .name "Entry"

/-- The variables that all scripts share. -/
def projectVariables : Expr := .member entry "variables"

/-- A call of a member function. -/
def method (e : Expr) (field : Text) (arguments : List Expr) : Expr :=
  .call (.member e field) arguments

/-- The expression as text. -/
def asString (e : Expr) : Expr := .call (.name "String") [e]

def one : Expr := .numeral { negative := false, magnitude := .decimal ['1'] none none }

end Expr

end BlockScript
